import FCache.Schema
import Mathlib.Order.Basic

/-!
# Stored lists

A stored list is a variant of four lists, one for each element type, together with the type
tags and the sorted flag kept beside it. The variant is its active alternative and the elements
at that alternative's value type, so `std::visit` is application and `std::get` is a test of the
alternative. The list operations need comparison and FlexBuffers access of an element type; on
integers and strings the comparison is a linear order, on floats it is not.
-/

namespace FCache

/-- What the list operations use of an element type: `operator<`, `operator<=`, `operator==`,
`items[i].As<T>()` and `flxb.Add(v)`. -/
class ListValue (α : Type) where
  lt : α → α → Bool
  le : α → α → Bool
  eq : α → α → Bool
  as : Item → α
  add : α → FlexScalar

class LawfulListValue (α : Type) [ListValue α] [LinearOrder α] : Prop where
  lt_iff : ∀ x y : α, ListValue.lt x y = true ↔ x < y
  le_iff : ∀ x y : α, ListValue.le x y = true ↔ x ≤ y
  eq_iff : ∀ x y : α, ListValue.eq x y = true ↔ x = y

instance : ListValue Int64 := ⟨(· < ·), (· ≤ ·), (· == ·), Item.asInt, .int⟩

instance : ListValue UInt64 := ⟨(· < ·), (· ≤ ·), (· == ·), Item.asUInt, .uint⟩

instance : ListValue Bytes :=
  ⟨Bytes.lt, fun x y => !Bytes.lt y x, (· == ·), Item.asString, .string⟩

instance : ListValue FcFloat := ⟨FcFloat.lt, FcFloat.le, FcFloat.eq, Item.asFloat, .float⟩

instance linearOrderInt64 : LinearOrder Int64 where
  le_refl := Int64.le_refl
  le_trans _ _ _ := Int64.le_trans
  le_antisymm _ _ := Int64.le_antisymm
  le_total := Int64.le_total
  lt_iff_le_not_ge _ _ := by
    rw [Int64.not_le]
    exact ⟨fun h => ⟨Int64.le_of_lt h, h⟩, And.right⟩
  toDecidableLE := inferInstance
  toDecidableLT := inferInstance

instance linearOrderUInt64 : LinearOrder UInt64 where
  le_refl := UInt64.le_refl
  le_trans _ _ _ := UInt64.le_trans
  le_antisymm _ _ := UInt64.le_antisymm
  le_total := UInt64.le_total
  lt_iff_le_not_ge _ _ := by
    rw [UInt64.not_le]
    exact ⟨fun h => ⟨UInt64.le_of_lt h, h⟩, And.right⟩
  toDecidableLE := inferInstance
  toDecidableLT := inferInstance

instance : LawfulListValue Int64 where
  lt_iff x y := by simp [ListValue.lt]
  le_iff x y := by simp [ListValue.le]
  eq_iff x y := by simp [ListValue.eq]

instance : LawfulListValue UInt64 where
  lt_iff x y := by simp [ListValue.lt]
  le_iff x y := by simp [ListValue.le]
  eq_iff x y := by simp [ListValue.eq]

instance : LawfulListValue Bytes where
  lt_iff x y := Bytes.lt_iff x y
  le_iff x y := by
    have h := Bytes.lt_iff y x
    rw [← not_lt]
    simp only [ListValue.le, Bool.not_eq_true', ← Bool.not_eq_true]
    exact not_congr h
  eq_iff x y := by simp [ListValue.eq]

/-- The alternatives of `std::variant<IntList, UIntList, StringList, FloatList>`. -/
inductive Alternative where
  | intList | uintList | stringList | floatList
  deriving DecidableEq

namespace Alternative

/-- `ListTraits<ListT>::value_type`. -/
@[reducible] def ValueType : Alternative → Type
  | intList => Int64
  | uintList => UInt64
  | stringList => Bytes
  | floatList => FcFloat

/-- `ListTraits<ListT>::flexType()`. -/
def flexType : Alternative → FlexType
  | intList => .vectorInt
  | uintList => .vectorUInt
  | stringList => .vectorKey
  | floatList => .vectorFloat

/-- `ListTraits<ListT>::listType()`. -/
def listType : Alternative → ListType
  | intList => .int
  | uintList => .uint
  | stringList => .string
  | floatList => .float

instance (a : Alternative) : ListValue a.ValueType :=
  match a with
  | intList => inferInstanceAs (ListValue Int64)
  | uintList => inferInstanceAs (ListValue UInt64)
  | stringList => inferInstanceAs (ListValue Bytes)
  | floatList => inferInstanceAs (ListValue FcFloat)

instance (a : Alternative) : DecidableEq a.ValueType :=
  match a with
  | intList => inferInstanceAs (DecidableEq Int64)
  | uintList => inferInstanceAs (DecidableEq UInt64)
  | stringList => inferInstanceAs (DecidableEq Bytes)
  | floatList => inferInstanceAs (DecidableEq FcFloat)

theorem flexType_injective : Function.Injective flexType := by
  intro a b h
  cases a <;> cases b <;> first | rfl | cases h

/-- The elements are ascending; of floats nothing is asked. -/
def Ascending : (a : Alternative) → List a.ValueType → Prop
  | intList, l => l.Pairwise fun x y : Int64 => x ≤ y
  | uintList, l => l.Pairwise fun x y : UInt64 => x ≤ y
  | stringList, l => l.Pairwise fun x y : Bytes => x ≤ y
  | floatList, _ => True

theorem Ascending.sublist {a : Alternative} {l l' : List a.ValueType} (h : a.Ascending l)
    (hsub : l'.Sublist l) : a.Ascending l' := by
  cases a with
  | intList => exact List.Pairwise.sublist hsub h
  | uintList => exact List.Pairwise.sublist hsub h
  | stringList => exact List.Pairwise.sublist hsub h
  | floatList => trivial

/-- To show that an operation on ascending lists leaves an ascending list it is enough to argue
for linearly ordered elements. -/
theorem Ascending.of_linearOrder {a : Alternative} {ls : List (List a.ValueType)}
    {l' : List a.ValueType} (h : ∀ l ∈ ls, a.Ascending l)
    (hop : ∀ [LinearOrder a.ValueType] [LawfulListValue a.ValueType],
      (∀ l ∈ ls, l.Pairwise (· ≤ ·)) → l'.Pairwise (· ≤ ·)) : a.Ascending l' := by
  cases a with
  | intList =>
    exact @hop (inferInstanceAs (LinearOrder Int64)) (inferInstanceAs (LawfulListValue Int64)) h
  | uintList =>
    exact @hop (inferInstanceAs (LinearOrder UInt64)) (inferInstanceAs (LawfulListValue UInt64)) h
  | stringList =>
    exact @hop (inferInstanceAs (LinearOrder Bytes)) (inferInstanceAs (LawfulListValue Bytes)) h
  | floatList => trivial

/-- The same for any statement about an alternative other than floats, on which ascending means
ascending in the order of the elements. -/
theorem linearOrder_elim {a : Alternative} {P : Prop} (ha : a ≠ floatList)
    (h : ∀ [LinearOrder a.ValueType] [LawfulListValue a.ValueType],
      (∀ l, a.Ascending l ↔ l.Pairwise (· ≤ ·)) → P) : P := by
  cases a with
  | intList =>
    exact @h (inferInstanceAs (LinearOrder Int64)) (inferInstanceAs (LawfulListValue Int64))
      fun _ => Iff.rfl
  | uintList =>
    exact @h (inferInstanceAs (LinearOrder UInt64)) (inferInstanceAs (LawfulListValue UInt64))
      fun _ => Iff.rfl
  | stringList =>
    exact @h (inferInstanceAs (LinearOrder Bytes)) (inferInstanceAs (LawfulListValue Bytes))
      fun _ => Iff.rfl
  | floatList => exact absurd rfl ha

end Alternative

structure ListVariant where
  alternative : Alternative
  elems : List alternative.ValueType
  deriving DecidableEq

namespace ListVariant

variable {β : Type}

/-- `std::visit` of an operation that may change the list. -/
def visit (v : ListVariant) (op : (a : Alternative) → List a.ValueType →
    Option (List a.ValueType × β)) : Option (ListVariant × β) :=
  (op v.alternative v.elems).map fun r => (⟨v.alternative, r.1⟩, r.2)

/-- `std::get<ListT>`, `none` where it throws. -/
def get (v : ListVariant) (a : Alternative) : Option (List a.ValueType) :=
  if h : v.alternative = a then some (h ▸ v.elems) else none

def Ascending (v : ListVariant) : Prop := v.alternative.Ascending v.elems

@[simp] theorem get_self (v : ListVariant) : v.get v.alternative = some v.elems := by
  simp [get]

theorem get_of_eq {v : ListVariant} {a : Alternative} (h : v.alternative = a) :
    ∃ l, v.get a = some l ∧ v = ⟨a, l⟩ := by
  subst h
  exact ⟨v.elems, v.get_self, rfl⟩

end ListVariant

structure FcList where
  list : ListVariant
  flexType : FlexType
  listType : ListType
  sorted : Bool
  deriving DecidableEq

namespace FcList

/-- The constructor: both tags come from the traits of the list it is given. -/
def ofList (l : ListVariant) (sorted : Bool) : FcList :=
  ⟨l, l.alternative.flexType, l.alternative.listType, sorted⟩

def isSorted (l : FcList) : Bool := l.sorted

def canIntersectWith (l other : FcList) : Bool :=
  l.isSorted && other.isSorted && l.flexType = other.flexType

theorem canIntersectWith_iff {l other : FcList} : l.canIntersectWith other = true ↔
    l.sorted = true ∧ other.sorted = true ∧ l.flexType = other.flexType := by
  simp [canIntersectWith, isSorted, and_assoc]

/-- The two tags and the active alternative denote the same element type. -/
def TypesAgree (l : FcList) : Prop :=
  l.flexType = l.list.alternative.flexType ∧ l.listType = l.list.alternative.listType

theorem ofList_typesAgree (l : ListVariant) (sorted : Bool) : (ofList l sorted).TypesAgree :=
  ⟨rfl, rfl⟩

end FcList

end FCache
