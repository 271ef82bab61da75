import FCache.CacheMap

/-!
# Copying and moving cached values

The constructors and assignments that make one cached value from another, each over those of the
members it has: the variant, in it the fixed value or the vector, and the tag beside the variant.
A container uses whichever its growth calls for. The copy constructor that takes an allocator does
not initialise the tag.
-/

namespace FCache

/-! ### The members -/

namespace FixedValue

def copy (other : FixedValue) : FixedValue := ⟨other.value, other.extract⟩

def move (other : FixedValue) : FixedValue := ⟨other.value, other.extract⟩

def copyAssign (this other : FixedValue) : FixedValue :=
  { this with value := other.value, extract := other.extract }

def moveAssign (this other : FixedValue) : FixedValue :=
  { this with value := other.value, extract := other.extract }

end FixedValue

namespace VectorValue

def copy (other : VectorValue) : VectorValue := ⟨other.data, other.extract, other.type⟩

def move (other : VectorValue) : VectorValue := ⟨other.data, other.extract, other.type⟩

def copyAssign (this other : VectorValue) : VectorValue :=
  { this with data := other.data, extract := other.extract, type := other.type }

def moveAssign (this other : VectorValue) : VectorValue :=
  { this with data := other.data, extract := other.extract, type := other.type }

end VectorValue

namespace ValueVariant

/-- `std::variant::index()`. -/
def index : ValueVariant → UInt8
  | .fixed _ => CachedValue.FIXED
  | .vector _ => CachedValue.VEC

def copy : ValueVariant → ValueVariant
  | .fixed v => .fixed v.copy
  | .vector v => .vector v.copy

def move : ValueVariant → ValueVariant
  | .fixed v => .fixed v.move
  | .vector v => .vector v.move

/-- The alternative in place is assigned to, another one is constructed. -/
def copyAssign : ValueVariant → ValueVariant → ValueVariant
  | .fixed this, .fixed other => .fixed (this.copyAssign other)
  | .vector this, .vector other => .vector (this.copyAssign other)
  | _, other => other.copy

def moveAssign : ValueVariant → ValueVariant → ValueVariant
  | .fixed this, .fixed other => .fixed (this.moveAssign other)
  | .vector this, .vector other => .vector (this.moveAssign other)
  | _, other => other.move

@[simp] theorem copy_eq (v : ValueVariant) : v.copy = v := by
  cases v <;> rfl

@[simp] theorem move_eq (v : ValueVariant) : v.move = v := by
  cases v <;> rfl

/-- Nothing of the value assigned to is left. -/
@[simp] theorem copyAssign_eq (this other : ValueVariant) : this.copyAssign other = other := by
  cases this <;> cases other <;> rfl

@[simp] theorem moveAssign_eq (this other : ValueVariant) : this.moveAssign other = other := by
  cases this <;> cases other <;> rfl

end ValueVariant

/-! ### The cached value -/

namespace CachedValue

def copy (other : CachedValue) : CachedValue := ⟨other.value.copy, other.valueType⟩

def move (other : CachedValue) : CachedValue := ⟨other.value.move, other.valueType⟩

/-- With an allocator the tag is left out. -/
def copyAlloc (other : CachedValue) : CachedValue := ⟨other.value.copy, none⟩

def moveAlloc (other : CachedValue) : CachedValue := ⟨other.value.move, other.valueType⟩

def copyAssign (this other : CachedValue) : CachedValue :=
  { this with value := this.value.copyAssign other.value, valueType := other.valueType }

def moveAssign (this other : CachedValue) : CachedValue :=
  { this with value := this.value.moveAssign other.value, valueType := other.valueType }

/-- The tag tells which alternative the variant has. -/
def Tagged (c : CachedValue) : Prop := c.valueType = some c.value.index

/-- One value made from another; an assignment replaces the value it is made to. -/
inductive Transfer where
  | copy
  | move
  | copyAlloc
  | moveAlloc
  | copyAssign (this : CachedValue)
  | moveAssign (this : CachedValue)
  deriving DecidableEq

namespace Transfer

def apply (other : CachedValue) : Transfer → CachedValue
  | .copy => other.copy
  | .move => other.move
  | .copyAlloc => other.copyAlloc
  | .moveAlloc => other.moveAlloc
  | .copyAssign this => this.copyAssign other
  | .moveAssign this => this.moveAssign other

/-- The value at the end of a sequence of transfers, each made from the result of the last. -/
def applyAll (c : CachedValue) (transfers : List Transfer) : CachedValue :=
  transfers.foldl apply c

theorem apply_eq (c : CachedValue) (t : Transfer) :
    t.apply c = { c with valueType := if t = .copyAlloc then none else c.valueType } := by
  cases t <;> simp [apply, CachedValue.copy, CachedValue.move, CachedValue.copyAlloc,
    CachedValue.moveAlloc, CachedValue.copyAssign, CachedValue.moveAssign]

/-- The tag is lost by the first copy with an allocator; everything else arrives. -/
theorem applyAll_eq (c : CachedValue) (transfers : List Transfer) :
    applyAll c transfers =
      { c with valueType := if .copyAlloc ∈ transfers then none else c.valueType } := by
  induction transfers generalizing c with
  | nil => rfl
  | cons t transfers ih =>
    have hstep : applyAll c (t :: transfers) = applyAll (t.apply c) transfers := rfl
    rw [hstep, ih, apply_eq]
    by_cases ht : t = .copyAlloc
    · simp [ht]
    · have hne : Transfer.copyAlloc ≠ t := fun h => ht h.symm
      simp [ht, hne]

/-- A tagged value arrives as it was, its tag included, exactly if no transfer on its way was the
copy with an allocator. -/
theorem applyAll_iff {c : CachedValue} (hc : c.Tagged) (transfers : List Transfer) :
    ((applyAll c transfers).valueType = c.valueType ∧ (applyAll c transfers).value = c.value ∧
        (applyAll c transfers).Tagged) ↔
      .copyAlloc ∉ transfers := by
  rw [applyAll_eq]
  constructor
  · rintro ⟨_, _, htagged⟩ hmem
    simp [Tagged, hmem] at htagged
  · intro hmem
    rw [if_neg hmem]
    exact ⟨rfl, rfl, hc⟩

theorem applyAll_int :
    let c : CachedValue := .ofFixed ⟨.int 1, .extractInt⟩
    ((applyAll c [.move, .copy]).valueType = c.valueType ∧
        (applyAll c [.move, .copy]).value = c.value ∧ (applyAll c [.move, .copy]).Tagged) ↔
      Transfer.copyAlloc ∉ [Transfer.move, .copy] :=
  @applyAll_iff (.ofFixed ⟨.int 1, .extractInt⟩) rfl _

/-- An integer copied with an allocator. -/
theorem not_applyAll : ¬ ∀ (c : CachedValue) (transfers : List Transfer), c.Tagged →
    (applyAll c transfers).valueType = c.valueType ∧ (applyAll c transfers).value = c.value ∧
      (applyAll c transfers).Tagged := by
  intro h
  have htag := (h (.ofFixed ⟨.int 1, .extractInt⟩) [.copyAlloc] rfl).1
  exact absurd htag (by decide)

end Transfer

/-- Reading a value whose tag was never initialised is undefined. -/
theorem extract_copyAlloc {σ : Type} (key : Bytes) (c : CachedValue) (s : σ) :
    CacheMap.extract key c.copyAlloc s = .undefined := rfl

end CachedValue

end FCache
