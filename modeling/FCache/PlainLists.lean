import FCache.FiniteMap
import FCache.ListAddition
import FCache.ListReplies

/-!
# Plain lists

What the list commands do, with no word on how lists are kept. An unsorted list is a sequence. A
sorted list is a multiset: a reader finds its elements in ascending order, wherever and in whatever
order they were added. A range selects a block of what a reader finds.

Positions, ranges and statuses are taken as the server takes them, odd as it is in places: a stop
in front of the head counts as far behind it, the position of an overwrite is normalised twice,
setting or removing items of a list that is not there succeeds, adding nothing to a list that is
there has no answer, and removing an unset value answers the size 0.
-/

namespace FCache

open Slice

inductive Contents (α : Type) where
  | sequence (l : List α)
  | multiset (m : Multiset α)

namespace Contents

variable {α : Type}

def isSorted : Contents α → Bool
  | sequence _ => false
  | multiset _ => true

/-- The elements as a reader finds them. -/
def toList [LinearOrder α] : Contents α → List α
  | sequence l => l
  | multiset m => m.sort

def ofList (sorted : Bool) (l : List α) : Contents α :=
  if sorted then multiset l else sequence l

@[simp] theorem isSorted_ofList (sorted : Bool) (l : List α) :
    (ofList sorted l).isSorted = sorted := by
  cases sorted <;> rfl

end Contents

structure PlainList where
  type : Alternative
  contents : Contents type.ValueType

namespace PlainList

/-- Floats are given an order here to have one for each type; there are no sorted lists of them. -/
scoped instance linearOrder (a : Alternative) : LinearOrder a.ValueType :=
  match a with
  | .intList => inferInstanceAs (LinearOrder Int64)
  | .uintList => inferInstanceAs (LinearOrder UInt64)
  | .stringList => inferInstanceAs (LinearOrder Bytes)
  | .floatList => LinearOrder.lift' (fun x : FcFloat => x.bits.toNat) fun x y h => by
      cases x
      cases y
      simpa [UInt32.toNat_inj] using h

def elems (l : PlainList) : List l.type.ValueType := l.contents.toList

def isSorted (l : PlainList) : Bool := l.contents.isSorted

def size (l : PlainList) : ℕ := l.elems.length

def new (type : Alternative) (sorted : Bool) : PlainList := ⟨type, .ofList sorted []⟩

/-- The same list with other elements. -/
def replace (l : PlainList) (elems : List l.type.ValueType) : PlainList :=
  ⟨l.type, .ofList l.isSorted elems⟩

def splice (l : PlainList) (ends : ℕ × ℕ) (elems : List l.type.ValueType) : PlainList :=
  l.replace (Slice.splice l.elems ends.1 ends.2 elems)

/-- New elements have a place among the others unless the list is sorted. -/
def insert (l : PlainList) (i : ℕ) (items : TypedVector) : PlainList :=
  l.splice (i, i) (items.map ListValue.as)

def overwrite (l : PlainList) (items : TypedVector) (pos : ℤ) : PlainList :=
  let ends := selection l.size (position l.size pos) (position l.size pos + items.length) true
  l.splice ends ((items.map ListValue.as).take (ends.2 - ends.1))

def remove (l : PlainList) (range : Range) : PlainList := l.splice (range.ends l.size) []

/-- A list of another type has no element equal to the value. -/
def removeEqual (l : PlainList) (range : Range) (a : Alternative) (v : a.ValueType) : PlainList :=
  if h : a = l.type then
    l.splice (range.ends l.size) ((range.selected l.elems).filter fun x => !ListValue.eq x (h ▸ v))
  else l

/-- What two blocks have in common, each value as often as both have it. -/
def common (l : PlainList) (block other : List l.type.ValueType) : PlainList :=
  ⟨l.type, .multiset ((block : Multiset l.type.ValueType) ∩ other)⟩

/-- The elements of another list of the same type. -/
def sameType (l other : PlainList) : Option (List l.type.ValueType) :=
  if h : other.type = l.type then some (h ▸ other.elems) else none

end PlainList

/-- The type that the byte of a request denotes. -/
def Alternative.ofByte (type : Int8) : Option Alternative :=
  [intList, uintList, stringList, floatList].find? fun a => a.listType.toByte = type

abbrev PlainLists := Finmap fun _ : Bytes => PlainList

namespace PlainLists

open PlainList

variable (s : PlainLists)

def fail (bodyType : BodyType) : PlainLists × Option Response :=
  (s, some ⟨.fail, bodyType, none⟩)

def succeed (bodyType : BodyType) (body : Option ResponseTable) : PlainLists × Option Response :=
  (s, some ⟨.ok, bodyType, body⟩)

def create (req : ListCreate) : PlainLists × Option Response :=
  match Alternative.ofByte req.type with
  | none => fail s .listCreate
  | some type =>
    if (s.lookup req.name).isSome then (s, some ⟨.duplicate, .listCreate, none⟩)
    else succeed (s.insert req.name (PlainList.new type req.sorted)) .listCreate none

/-- Without items there is no answer at all. -/
def add (name : Bytes) (items : TypedVector) (bodyType : BodyType)
    (reply : UInt32 → ResponseTable) (place : ℕ → ℕ) : PlainLists × Option Response :=
  match s.lookup name with
  | none => fail s bodyType
  | some l =>
    if items = [] then (s, none)
    else
      let l' := l.insert (place l.size) items
      succeed (s.insert name l') bodyType (some (reply (UInt32.ofNat l'.size)))

def set (req : ListSet) : PlainLists × Option Response :=
  match s.lookup req.name with
  | none => succeed s .listSet none
  | some l =>
    if req.items = [] then succeed s .listSet none
    else if l.isSorted then (s, some ⟨.notPermitted, .listSet, none⟩)
    else succeed (s.insert req.name (l.overwrite req.items req.position.toInt)) .listSet none

def delete (req : ListDelete) : PlainLists × Option Response :=
  succeed (if req.name = [] then ∅ else FiniteMap.eraseAll s req.name) .listDelete none

def getRange (req : ListGetRange) : PlainLists × Option Response :=
  match s.lookup req.name with
  | none => fail s .listGetRange
  | some l =>
    let read := req.range.selected (if req.base = .head then l.elems else l.elems.reverse)
    succeed s .listGetRange (some (.listGetRange (some (.typedVector (read.map ListValue.add)))))

def remove (req : ListRemove) : PlainLists × Option Response :=
  match s.lookup req.name with
  | none => succeed s .listRemove none
  | some l => succeed (s.insert req.name (l.remove req.range)) .listRemove none

def removeIf (req : ListRemoveIf) : PlainLists × Option Response :=
  match s.lookup req.name with
  | none => fail s .listRemoveIf
  | some l =>
    match ListHandler.removeIfValue req.value with
    | none => succeed s .listRemoveIf (some (.listRemoveIf 0))
    | some ⟨a, v⟩ =>
      let l' := l.removeEqual req.range a v
      succeed (s.insert req.name l') .listRemoveIf
        (some (.listRemoveIf (UInt32.ofNat l'.size)))

/-- Under a new name the reply is empty, whether the name was free or not. Without one the reply
has no vector in it where a range selects nothing. -/
def intersectSorted (req : ListIntersect) (l : PlainList) (other : List l.type.ValueType) :
    PlainLists × Option Response :=
  let name := req.newListName.getD []
  let common := l.common (req.list1Range.selected l.elems) (req.list2Range.selected other)
  if name = [] then
    succeed s .listIntersect (some (.listIntersect
      (if req.list1Range.selected l.elems = [] ∨ req.list2Range.selected other = [] then none
      else some (.typedVector (common.elems.map ListValue.add)))))
  else
    succeed (if (s.lookup name).isSome then s else s.insert name common) .listIntersect
      (some (.listIntersect (some (.typedVector []))))

def intersect (req : ListIntersect) : PlainLists × Option Response :=
  match s.lookup req.list1Name, s.lookup req.list2Name with
  | some l1, some l2 =>
    match l1.sameType l2 with
    | some other =>
      if l1.isSorted && l2.isSorted then intersectSorted s req l1 other else fail s .listIntersect
    | none => fail s .listIntersect
  | _, _ => fail s .listIntersect

def info (req : ListInfo) : PlainLists × Option Response :=
  match s.lookup req.name with
  | none => fail s .listInfo
  | some l =>
    succeed s .listInfo (some (.listInfo (UInt32.ofNat l.size) l.type.listType l.isSorted))

def step : ListRequest → PlainLists × Option Response
  | .create req => create s req
  | .add req => add s req.name req.items .listAdd .listAdd
      fun size => insertionPoint size req.position.toInt
  | .append req => add s req.name req.items .listAppend .listAppend id
  | .set req => set s req
  | .delete req => delete s req
  | .getRange req => getRange s req
  | .remove req => remove s req
  | .removeIf req => removeIf s req
  | .intersect req => intersect s req
  | .info req => info s req

def machine : Machine PlainLists ListRequest (Option Response) where
  init := ∅
  step s req := some (step s req)

end PlainLists

end FCache
