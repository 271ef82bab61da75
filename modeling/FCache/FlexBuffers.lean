import Mathlib.Algebra.Order.Ring.Nat
import Mathlib.Data.List.Lex
import Mathlib.Data.List.Sort
import Mathlib.Data.List.TakeWhile

/-!
# Byte strings, floats and FlexBuffers values

Only what the handlers read from or write to a FlexBuffer is kept. A typed vector of a request is
the list of its elements, each seen through the four `As<T>` conversions of the list operations.
A value of a request map carries its `GetType()`. A buffer of a reply is the decoded root value.
-/

namespace FCache

abbrev Bytes := List UInt8

/-- What a `const char *` to these bytes denotes: the bytes up to the first NUL. -/
def cString (s : Bytes) : Bytes := s.takeWhile (· ≠ 0)

/-- NUL-terminated strings: the keys of a FlexBuffers map and the elements of a vector of keys. -/
abbrev Key := {s : Bytes // (0 : UInt8) ∉ s}

def Key.ofBytes (s : Bytes) : Key :=
  ⟨cString s, fun h => by simpa using List.mem_takeWhile_imp h⟩

theorem cString_eq_self {s : Bytes} (h : (0 : UInt8) ∉ s) : cString s = s := by
  refine List.takeWhile_eq_self_iff.mpr fun x hx => ?_
  have : x ≠ 0 := fun hx0 => h (hx0 ▸ hx)
  simpa using this

/-- `operator<` of `std::string`: unsigned bytes left to right, a proper prefix first. -/
def Bytes.lt : Bytes → Bytes → Bool
  | _, [] => false
  | [], _ :: _ => true
  | x :: xs, y :: ys => x < y || (x = y && Bytes.lt xs ys)

instance linearOrderUInt8 : LinearOrder UInt8 where
  le_refl := UInt8.le_refl
  le_trans _ _ _ := UInt8.le_trans
  le_antisymm _ _ := UInt8.le_antisymm
  le_total := UInt8.le_total
  lt_iff_le_not_ge _ _ := by
    rw [UInt8.not_le]
    exact ⟨fun h => ⟨UInt8.le_of_lt h, h⟩, And.right⟩
  toDecidableLE := inferInstance
  toDecidableLT := inferInstance

/-- Byte strings are ordered lexicographically. -/
theorem Bytes.lt_iff (xs ys : Bytes) : Bytes.lt xs ys = true ↔ xs < ys := by
  induction xs generalizing ys with
  | nil => cases ys <;> simp [Bytes.lt]
  | cons x xs ih =>
    cases ys with
    | nil => simp [Bytes.lt]
    | cons y ys => simp [Bytes.lt, ih, List.cons_lt_cons_iff]

/-- A blob fits the 32-bit size the store keeps with it: a message cannot carry more, because
its payload limit is an `unsigned int`. -/
abbrev Blob := {b : Bytes // b.length < 2 ^ 32}

/-- Single precision floats by their bits, compared as IEEE 754 prescribes. -/
structure FcFloat where
  bits : UInt32
  deriving DecidableEq

namespace FcFloat

def magnitude (x : FcFloat) : ℕ := x.bits.toNat % 2 ^ 31

def isNaN (x : FcFloat) : Bool := 0x7f800000 < x.magnitude

def signed (x : FcFloat) : ℤ := if x.bits.toNat < 2 ^ 31 then x.magnitude else -x.magnitude

def lt (x y : FcFloat) : Bool := !x.isNaN && !y.isNaN && x.signed < y.signed

def le (x y : FcFloat) : Bool := !x.isNaN && !y.isNaN && x.signed ≤ y.signed

def eq (x y : FcFloat) : Bool := !x.isNaN && !y.isNaN && x.signed = y.signed

end FcFloat

/-- `flexbuffers::Type`. -/
inductive FlexType where
  | null | int | uint | float | key | string | indirectInt | indirectUInt | indirectFloat
  | map | vector | vectorInt | vectorUInt | vectorFloat | vectorKey | vectorStringDeprecated
  | vectorInt2 | vectorUInt2 | vectorFloat2 | vectorInt3 | vectorUInt3 | vectorFloat3
  | vectorInt4 | vectorUInt4 | vectorFloat4 | blob | bool | vectorBool
  deriving DecidableEq

/-- The types of values a key can be given. -/
def FlexType.storable : FlexType → Bool
  | .int | .uint | .bool | .float | .string | .blob | .vectorInt | .vectorUInt | .vectorFloat
  | .vectorBool | .vectorKey => true
  | _ => false

/-- A value of a request map as the store reads it: a float is what `AsFloat()` gives, in single
precision. Of values whose type the store refuses only the type is read. -/
inductive FlexReference where
  | int (v : Int64)
  | uint (v : UInt64)
  | bool (v : Bool)
  | float (v : FcFloat)
  | string (s : Bytes)
  | blob (b : Blob)
  | vectorInt (xs : List Int64)
  | vectorUInt (xs : List UInt64)
  | vectorFloat (xs : List FcFloat)
  | vectorBool (xs : List Bool)
  | vectorKey (xs : List Key)
  | other (t : {t : FlexType // t.storable = false})
  deriving DecidableEq

def FlexReference.getType : FlexReference → FlexType
  | .int _ => .int
  | .uint _ => .uint
  | .bool _ => .bool
  | .float _ => .float
  | .string _ => .string
  | .blob _ => .blob
  | .vectorInt _ => .vectorInt
  | .vectorUInt _ => .vectorUInt
  | .vectorFloat _ => .vectorFloat
  | .vectorBool _ => .vectorBool
  | .vectorKey _ => .vectorKey
  | .other t => t

/-- An element of a typed vector as the list operations read it: `As<fcint>()`, `As<fcuint>()`,
`As<fcfloat>()` and `As<fcstring>()`. -/
structure Item where
  asInt : Int64
  asUInt : UInt64
  asFloat : FcFloat
  asString : Bytes
  deriving DecidableEq

/-- `operator[]` of a typed vector past its end gives the null reference. -/
def Item.null : Item := ⟨0, 0, ⟨0⟩, []⟩

abbrev TypedVector := List Item

inductive FlexScalar where
  | int (v : Int64)
  | uint (v : UInt64)
  | float (v : FcFloat)
  | bool (v : Bool)
  | string (s : Bytes)
  deriving DecidableEq

/-- A value added to the map of a reply. An empty typed vector has no element type. -/
inductive FlexValue where
  | scalar (x : FlexScalar)
  | blob (b : Bytes)
  | typedVector (xs : List FlexScalar)
  deriving DecidableEq

inductive FlexRoot where
  | typedVector (xs : List FlexScalar)
  | map (entries : List (Bytes × FlexValue))
  deriving DecidableEq

/-- The bytes of a builder, by the value they decode to; `none` are the zero bytes of a builder
that was never finished. -/
abbrev FlexBuffer := Option FlexRoot

structure FlexBuilder where
  root : Option FlexRoot := none
  buffer : FlexBuffer := none
  deriving DecidableEq

/-- The builder sorts the entries of a map by key when the map is closed. -/
def sortByKey (entries : List (Bytes × FlexValue)) : List (Bytes × FlexValue) :=
  entries.insertionSort fun x y => Bytes.lt y.1 x.1 = false

namespace FlexBuilder

def typedVector (b : FlexBuilder) (xs : List FlexScalar) : FlexBuilder :=
  { b with root := some (.typedVector xs) }

def map (b : FlexBuilder) (entries : List (Bytes × FlexValue)) : FlexBuilder :=
  { b with root := some (.map (sortByKey entries)) }

def finish (b : FlexBuilder) : FlexBuilder := { b with buffer := b.root }

/-- `GetBuffer()`. Its assertion that the builder is finished is compiled out of the default
release build, so an unfinished builder gives no bytes. -/
def getBuffer (b : FlexBuilder) : FlexBuffer := b.buffer

@[simp] theorem getBuffer_finish_typedVector (b : FlexBuilder) (xs : List FlexScalar) :
    (b.typedVector xs).finish.getBuffer = some (.typedVector xs) := rfl

@[simp] theorem getBuffer_finish_map (b : FlexBuilder) (entries : List (Bytes × FlexValue)) :
    (b.map entries).finish.getBuffer = some (.map (sortByKey entries)) := rfl

end FlexBuilder

end FCache
