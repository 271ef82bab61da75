import FCache.CheckedInt
import FCache.ListRanges

/-!
# Positions in machine arithmetic

The operations that take positions once more, with everything the program could do wrong checked:
positions are computed as `int64` values that may overflow, or as `size_t` values that are converted
back; iterators are advanced one element after another; a pair of iterators is passed on only if it
is ordered; items are read only by an index below their number. On lists that are short enough for
their size to be an `int32` no check fails, and the operations are those on unbounded positions.
-/

namespace FCache.Checked

open CheckedInt

variable {α : Type}

/-- An `int64` result. -/
def int64 (x : ℤ) : Option ℤ := checked 63 x

/-- A `size_t` result that is assigned to an `int64`. -/
def fromSize (x : ℤ) : ℤ := wrap 63 x

/-- The precondition of the algorithms that take a pair of iterators. -/
def ordered (l : List α) (first last : ℕ) : Option Unit :=
  if first ≤ last ∧ last ≤ l.length then some () else none

def positionsToIndices (start stop : ℤ) (hasStop : Bool) (l : List α) :
    Option (Bool × ℤ × ℤ) := do
  let size ← int64 l.length
  if 0 ≤ start ∧ size ≤ start then return (false, 0, 0)
  let distance ← int64 (labs start)
  if size < distance then return (false, 0, 0)
  let stop := if hasStop then stop else size
  let first ← if start < 0 then int64 (size + start) else pure start
  let last ← if stop < 0 then do
      let stop ← int64 (size + stop)
      let distance ← int64 (labs stop)
      pure (min size distance)
    else pure (min size stop)
  return (true, first, last)

def positionsToIterators (start stop : ℤ) (hasStop : Bool) (l : List α) :
    Option (Bool × ℕ × ℕ) := do
  let (valid, first, last) ← positionsToIndices start stop hasStop l
  if !valid || last ≤ first then return (false, 0, 0)
  let itBegin ← next l 0 first
  let itLast ← next l 0 last
  return (true, itBegin, itLast)

def positionToStartIterator (start : ℤ) (l : List α) : Option ℕ := do
  let (valid, s, _) ← positionsToIterators start 0 false l
  return if valid then s else l.length

variable [ListValue α]

/-- The iterator that `emplace` returns is advanced past the new element. -/
def insertFrom (l : List α) (it : ℕ) : TypedVector → Option (List α)
  | [] => some l
  | item :: items => do
    let l' ← emplace l it (ListValue.as item)
    let it' ← next l' it 1
    insertFrom l' it' items

/-- `Add` at a position of an unsorted list. -/
def unsortedAdd (items : TypedVector) (pos : ℤ) (l : List α) : Option (List α × ℕ) := do
  let it ← positionToStartIterator pos l
  let l' ← insertFrom l it items
  return (l', l'.length)

/-- The element written to and the item read both have to be there. -/
def assign (items : TypedVector) (l : List α) (i it : ℕ) : (count : ℕ) → Option (List α)
  | 0 => some l
  | count + 1 => do
    let item ← items[i]?
    if it < l.length then assign items (l.set it (ListValue.as item)) (i + 1) (it + 1) count
    else none

def set (op : Set) (l : List α) : Option (List α × Unit) := do
  let pos := if op.pos < 0 then fromSize (l.length + op.pos) else op.pos
  let stop := fromSize (pos + op.items.length)
  let (valid, first, last) ← positionsToIterators pos stop true l
  if !valid then return (l, ())
  ordered l first last
  let l' ← assign op.items l 0 first (last - first)
  return (l', ())

def getByRange (op : GetByRange) (flxb : FlexBuilder) (l : List α) :
    Option (FlexBuilder × Bool) := do
  let (valid, first, last) ← positionsToIndices op.start op.stop op.hasStop l
  if valid then
    let count ← int64 (last - first)
    let iterated := if op.base = .head then l else l.reverse
    let itStart ← next iterated 0 first
    let items ← listToTypedVector iterated itStart count.toNat
    return (flxb.typedVector (items.map ListValue.add), true)
  else return (flxb, false)

def doRemove (op : RemoveIf) (sortedList : Bool) (val : α) (l : List α) : Option (List α) := do
  let (valid, itBegin, itEnd) ← positionsToIterators op.start op.stop op.hasStop l
  if !valid then return l
  ordered l itBegin itEnd
  if sortedList then
    let (itLow, itHigh) := Algorithm.equalRange ListValue.lt l itBegin (itEnd - itBegin) val
    if itLow ≠ l.length then
      ordered l itLow itHigh
      erase l itLow itHigh
    else return l
  else
    let (l', newEnd) := Algorithm.removeIf (fun x => ListValue.eq x val) l itBegin itEnd
    ordered l' newEnd itEnd
    erase l' newEnd itEnd

def removeIf (op : RemoveIf) (sortedList : Bool) (a : Alternative) (l : List a.ValueType) :
    Option (List a.ValueType × ℕ) := do
  let l' ← if h : op.type = a then doRemove op sortedList (h ▸ op.val) l else some l
  return (l', l'.length)

def intersect (l1 l2 : List α) (l1Range l2Range : Range) : Option (Option (List α)) := do
  let (l1Valid, l1Begin, l1Last) ←
    positionsToIterators l1Range.start.toInt l1Range.stop.toInt l1Range.hasStop l1
  let (l2Valid, l2Begin, l2Last) ←
    positionsToIterators l2Range.start.toInt l2Range.stop.toInt l2Range.hasStop l2
  if l1Valid && l2Valid then
    ordered l1 l1Begin l1Last
    ordered l2 l2Begin l2Last
    return some (Algorithm.setIntersection ListValue.lt
      ((l1.take l1Last).drop l1Begin) ((l2.take l2Last).drop l2Begin))
  else return none

def intersectToList (newList l1 l2 : List α) (l1Range l2Range : Range) : Option (List α) := do
  match ← intersect l1 l2 l1Range l2Range with
  | some result => return newList ++ result
  | none => return newList

def intersectToFlexBuffer (flxb : FlexBuilder) (l1 l2 : List α) (l1Range l2Range : Range) :
    Option FlexBuilder := do
  match ← intersect l1 l2 l1Range l2Range with
  | some result => return (flxb.typedVector (result.map ListValue.add)).finish
  | none => return flxb

/-! ### Positions -/

theorem int64_of_fits {x : ℤ} (h : -2 ^ 63 ≤ x ∧ x < 2 ^ 63) : int64 x = some x :=
  checked_of_fits h

theorem fromSize_of_fits {x : ℤ} (h : -2 ^ 63 ≤ x ∧ x < 2 ^ 63) : fromSize x = x := wrap_of_fits h

omit [ListValue α] in
theorem ordered_of_le {l : List α} {first last : ℕ} (h₁ : first ≤ last) (h₂ : last ≤ l.length) :
    ordered l first last = some () :=
  if_pos ⟨h₁, h₂⟩

/-- Positions a sum of two `int32` values can reach, with room for the size of a list. -/
def Near (x : ℤ) : Prop := -2 ^ 33 ≤ x ∧ x ≤ 2 ^ 33

theorem near_toInt (x : Int32) : Near x.toInt := by
  have hlow := x.le_toInt
  have hhigh := x.toInt_lt
  unfold Near
  omega

section Positions

omit [ListValue α]

variable {l : List α} (hl : l.length < 2 ^ 31) {start stop : ℤ} (hstart : Near start)
  (hstop : Near stop) (hasStop : Bool)
include hl hstart hstop

theorem positionsToIndices_eq : positionsToIndices start stop hasStop l =
    some (FCache.positionsToIndices start stop hasStop l) := by
  unfold Near at hstart hstop
  have hsize : int64 l.length = some (l.length : ℤ) := int64_of_fits (by omega)
  have hdistance : ∀ x, -2 ^ 34 ≤ x ∧ x ≤ 2 ^ 34 → int64 (labs x) = some (labs x) := by
    intro x hx
    apply int64_of_fits
    unfold labs
    split <;> omega
  have hsum : ∀ x, -2 ^ 33 ≤ x ∧ x ≤ 2 ^ 33 → int64 (l.length + x) = some (l.length + x) :=
    fun x hx => int64_of_fits (by omega)
  unfold positionsToIndices FCache.positionsToIndices
  simp only [hsize, hdistance start (by omega), hsum start hstart, Option.bind_eq_bind,
    Option.bind_some]
  by_cases hout : 0 ≤ start ∧ (l.length : ℤ) ≤ start
  · rw [if_pos hout, if_pos (.inl hout)]
    rfl
  · by_cases hfar : (l.length : ℤ) < labs start
    · rw [if_neg hout, if_pos hfar, if_pos (.inr hfar)]
      rfl
    · rw [if_neg hout, if_neg hfar, if_neg (not_or.mpr ⟨hout, hfar⟩)]
      -- without a stop the list's size is the stop, which is not negative
      have hneg : ¬ (l.length : ℤ) < 0 := by omega
      cases hasStop with
      | false => by_cases hfirst : start < 0 <;> simp [hfirst, hneg]
      | true =>
        by_cases hfirst : start < 0 <;> by_cases hlast : stop < 0 <;>
          simp [hfirst, hlast, hsum stop hstop, hdistance (l.length + stop) (by omega)]

theorem positionsToIterators_eq : positionsToIterators start stop hasStop l =
    FCache.positionsToIterators start stop hasStop l := by
  unfold positionsToIterators FCache.positionsToIterators
  rw [positionsToIndices_eq hl hstart hstop]
  rfl

omit hstop in
theorem positionToStartIterator_eq :
    positionToStartIterator start l = FCache.positionToStartIterator start l := by
  unfold positionToStartIterator FCache.positionToStartIterator
  rw [positionsToIterators_eq hl hstart ⟨by omega, by omega⟩]

end Positions

omit [ListValue α] in
/-- The range of an overwrite is not longer than the items. -/
theorem positionsToIterators_count {l : List α} {pos : ℤ} {n b e : ℕ}
    (h : FCache.positionsToIterators pos (pos + n) true l = some (true, b, e)) : e - b ≤ n := by
  cases hsel : selection l.length pos (pos + n) true with
  | mk b' e' =>
    rw [FCache.positionsToIterators_eq hsel] at h
    simp only [Option.some.injEq, Prod.mk.injEq] at h
    obtain ⟨_, rfl, rfl⟩ := h
    rcases selection_cases l.length pos (pos + n) true with ⟨hin, hlt, hends⟩ | ⟨_, hends⟩
    · rw [hsel, Prod.mk.injEq] at hends
      obtain ⟨rfl, rfl⟩ := hends
      have hstop : stopIndex l.length (pos + n) true ≤ Slice.position l.length pos + n := by
        have hlow := hin.1
        unfold stopIndex Slice.position labs
        rw [if_pos rfl]
        split_ifs <;> omega
      omega
    · rw [hsel, Prod.mk.injEq] at hends
      obtain ⟨rfl, rfl⟩ := hends
      exact Nat.zero_le n

/-! ### The operations -/

section Operations

variable {l : List α}

theorem insertFrom_eq {it : ℕ} (hit : it ≤ l.length) (items : TypedVector) :
    insertFrom l it items = Add.insertFrom l it items := by
  induction items generalizing l it with
  | nil => rfl
  | cons item items ih =>
    have hlen : (l.take it ++ ListValue.as item :: l.drop it).length = l.length + 1 := by
      simp only [List.length_append, List.length_take, List.length_cons, List.length_drop]
      omega
    unfold insertFrom Add.insertFrom
    rw [emplace_of_le hit]
    simp only [Option.bind_eq_bind, Option.bind_some]
    rw [next_of_le _ (by omega) (by rw [hlen]; omega)]
    exact ih (by rw [hlen]; omega)

theorem assign_eq {items : TypedVector} {i it count : ℕ} (h : i + count ≤ items.length) :
    assign items l i it count = Set.assign items l i it count := by
  induction count generalizing l i it with
  | zero => rfl
  | succ count ih =>
    have hi : i < items.length := by omega
    unfold assign Set.assign
    rw [List.getD_eq_getElem?_getD, List.getElem?_eq_getElem hi]
    simp only [Option.bind_eq_bind, Option.bind_some, Option.getD_some]
    rw [ih (by omega)]

variable (hl : l.length < 2 ^ 31)
include hl

theorem unsortedAdd_eq (items : TypedVector) {pos : ℤ} (hpos : Near pos) :
    unsortedAdd items pos l = ({ items, pos } : Add).call false l := by
  obtain ⟨it, hit, hstart⟩ := positionToStartIterator_defined pos l
  unfold unsortedAdd Add.call Add.doAdd
  rw [positionToStartIterator_eq hl hpos, hstart]
  simp only [Option.bind_eq_bind, Option.bind_some, Bool.false_eq_true, if_false]
  rw [insertFrom_eq hit]

theorem set_eq {op : Set} (hitems : op.items.length < 2 ^ 31)
    (hpos : -2 ^ 31 ≤ op.pos ∧ op.pos < 2 ^ 31) : set op l = op.call l := by
  unfold set Set.call
  rw [fromSize_of_fits (by omega)]
  simp only
  have hnear : Near (if op.pos < 0 then (l.length : ℤ) + op.pos else op.pos) := by
    unfold Near
    split <;> omega
  have hstop : Near ((if op.pos < 0 then (l.length : ℤ) + op.pos else op.pos) +
      op.items.length) := by
    unfold Near
    split <;> omega
  generalize (if op.pos < 0 then (l.length : ℤ) + op.pos else op.pos) = pos at hnear hstop ⊢
  rw [fromSize_of_fits (by unfold Near at hstop; omega), positionsToIterators_eq hl hnear hstop]
  rcases positionsToIterators_cases pos (pos + op.items.length) true l with
    h | ⟨b, e, h, hbe, he⟩
  · rw [h]
    rfl
  · have hcount := positionsToIterators_count h
    rw [h]
    simp only [Option.bind_eq_bind, Option.bind_some, Bool.not_true, Bool.false_eq_true,
      if_false]
    rw [ordered_of_le hbe.le he, Option.bind_some, assign_eq (by omega)]

theorem getByRange_eq {op : GetByRange} (hstart : Near op.start) (hstop : Near op.stop)
    (flxb : FlexBuilder) : getByRange op flxb l = op.call flxb l := by
  unfold getByRange GetByRange.call
  rw [positionsToIndices_eq hl hstart hstop]
  cases h : FCache.positionsToIndices op.start op.stop op.hasStop l with
  | mk valid indices =>
    obtain ⟨first, last⟩ := indices
    cases valid with
    | false => rfl
    | true =>
      obtain ⟨h₁, h₂, h₃, h₄⟩ := positionsToIndices_bounds h
      have hcount : int64 (last - first) = some (last - first) := int64_of_fits (by omega)
      simp only [Option.bind_eq_bind, Option.bind_some, if_true, hcount]

theorem doRemove_eq {op : RemoveIf} (hstart : Near op.start) (hstop : Near op.stop)
    (sortedList : Bool) (val : α) :
    doRemove op sortedList val l = op.doRemove sortedList val l := by
  unfold doRemove RemoveIf.doRemove
  rw [positionsToIterators_eq hl hstart hstop]
  rcases positionsToIterators_cases op.start op.stop op.hasStop l with h | ⟨b, e, h, hbe, he⟩
  · rw [h]
    rfl
  · rw [h]
    simp only [Option.bind_eq_bind, Option.bind_some, Bool.not_true, Bool.false_eq_true, if_false]
    rw [ordered_of_le hbe.le he, Option.bind_some]
    cases sortedList with
    | true =>
      obtain ⟨h₁, h₂, h₃⟩ :=
        Algorithm.equalRangeLoop_mem_range l ListValue.lt val (e - b) b (e - b)
      unfold Algorithm.equalRange
      rw [ordered_of_le h₂ (by omega)]
      rfl
    | false =>
      have h₁ := Algorithm.removeIfLoop_le (fun x => ListValue.eq x val) l b b (e - b)
      have h₂ := Algorithm.removeIfLoop_length (fun x => ListValue.eq x val) l b b (e - b)
      unfold Algorithm.removeIf
      simp only [Bool.false_eq_true, if_false]
      rw [ordered_of_le (by omega) (by omega)]
      rfl

omit [ListValue α] hl in
theorem removeIf_eq {a : Alternative} {l : List a.ValueType} (hl : l.length < 2 ^ 31)
    {op : RemoveIf} (hstart : Near op.start) (hstop : Near op.stop) (sortedList : Bool) :
    removeIf op sortedList a l = op.call sortedList a l := by
  unfold removeIf RemoveIf.call
  split
  · rw [doRemove_eq hl hstart hstop]
  · rfl

theorem intersect_eq {l2 : List α} (hl2 : l2.length < 2 ^ 31) (l1Range l2Range : Range) :
    intersect l l2 l1Range l2Range = FCache.intersect l l2 l1Range l2Range := by
  unfold intersect FCache.intersect
  rw [positionsToIterators_eq hl (near_toInt _) (near_toInt _),
    positionsToIterators_eq hl2 (near_toInt _) (near_toInt _)]
  rcases positionsToIterators_cases l1Range.start.toInt l1Range.stop.toInt l1Range.hasStop l
    with h₁ | ⟨b₁, e₁, h₁, hbe₁, he₁⟩ <;>
  rcases positionsToIterators_cases l2Range.start.toInt l2Range.stop.toInt l2Range.hasStop l2
    with h₂ | ⟨b₂, e₂, h₂, hbe₂, he₂⟩ <;>
  rw [h₁, h₂]
  · rfl
  · rfl
  · rfl
  · simp only [Option.bind_eq_bind, Option.bind_some, Bool.and_true, if_true]
    rw [ordered_of_le hbe₁.le he₁, ordered_of_le hbe₂.le he₂]
    rfl

end Operations

/-- No check fails, and the result is that of the operation on unbounded positions. -/
def Passes {β : Type} (checks plain : Option β) : Prop := ∃ r, checks = some r ∧ plain = some r

theorem passes_of_eq {β : Type} {checks plain : Option β} (h : checks = plain) {r : β}
    (hr : plain = some r) : Passes checks plain :=
  ⟨r, h.trans hr, hr⟩

section Intersections

variable {l l2 : List α} (hl : l.length < 2 ^ 31) (hl2 : l2.length < 2 ^ 31)
  (l1Range l2Range : Range)
include hl hl2

theorem intersectToList_passes (newList : List α) :
    Passes (intersectToList newList l l2 l1Range l2Range)
      (FCache.intersectToList newList l l2 l1Range l2Range) := by
  obtain ⟨r, hr, _⟩ := intersect_defined l l2 l1Range l2Range
  have hchecks := (intersect_eq hl hl2 l1Range l2Range).trans hr
  unfold intersectToList FCache.intersectToList
  rw [hchecks, hr]
  cases r with
  | none => exact ⟨newList, rfl, rfl⟩
  | some result => exact ⟨newList ++ result, rfl, rfl⟩

theorem intersectToFlexBuffer_passes (flxb : FlexBuilder) :
    Passes (intersectToFlexBuffer flxb l l2 l1Range l2Range)
      (FCache.intersectToFlexBuffer flxb l l2 l1Range l2Range) := by
  obtain ⟨r, hr, _⟩ := intersect_defined l l2 l1Range l2Range
  have hchecks := (intersect_eq hl hl2 l1Range l2Range).trans hr
  unfold intersectToFlexBuffer FCache.intersectToFlexBuffer
  rw [hchecks, hr]
  cases r with
  | none => exact ⟨flxb, rfl, rfl⟩
  | some result =>
    exact ⟨(flxb.typedVector (result.map ListValue.add)).finish, rfl, rfl⟩

end Intersections

/-- Every operation passes its checks, for all `int32` positions and lists and items fewer than
`2 ^ 31`. -/
theorem operations_pass {a : Alternative} {l : List a.ValueType} (hl : l.length < 2 ^ 31)
    (start stop : Int32) (hasStop : Bool) :
    (∀ base flxb,
      Passes (getByRange ⟨start.toInt, stop.toInt, hasStop, base⟩ flxb l)
        (GetByRange.call ⟨start.toInt, stop.toInt, hasStop, base⟩ flxb l)) ∧
    (∀ items : TypedVector, items ≠ [] → items.length < 2 ^ 31 →
      Passes (set ⟨items, start.toInt⟩ l) (Set.call ⟨items, start.toInt⟩ l) ∧
      Passes (unsortedAdd items start.toInt l)
        (Add.call { items, pos := start.toInt } false l)) ∧
    (∀ (b : Alternative) (val : b.ValueType) (sortedList : Bool),
      Passes (removeIf ⟨start.toInt, stop.toInt, hasStop, b, val⟩ sortedList a l)
        (RemoveIf.call ⟨start.toInt, stop.toInt, hasStop, b, val⟩ sortedList a l)) ∧
    ∀ (l2 : List a.ValueType) (l1Range l2Range : Range), l2.length < 2 ^ 31 →
      (∀ newList, Passes (intersectToList newList l l2 l1Range l2Range)
        (FCache.intersectToList newList l l2 l1Range l2Range)) ∧
      ∀ flxb, Passes (intersectToFlexBuffer flxb l l2 l1Range l2Range)
        (FCache.intersectToFlexBuffer flxb l l2 l1Range l2Range) := by
  have hstart := near_toInt start
  have hstop := near_toInt stop
  refine ⟨fun base flxb => ?_, fun items _ hitems => ⟨?_, ?_⟩, fun b val sortedList => ?_,
    fun l2 l1Range l2Range hl2 => ⟨fun newList => ?_, fun flxb => ?_⟩⟩
  · obtain ⟨r, hr⟩ := GetByRange.call_defined ⟨start.toInt, stop.toInt, hasStop, base⟩ flxb l
    exact passes_of_eq (getByRange_eq hl hstart hstop flxb) hr
  · obtain ⟨l', hr, _⟩ := Set.call_defined ⟨items, start.toInt⟩ l
    have hpos : -2 ^ 31 ≤ start.toInt ∧ start.toInt < 2 ^ 31 := ⟨start.le_toInt, start.toInt_lt⟩
    exact passes_of_eq (set_eq hl hitems hpos) hr
  · obtain ⟨l', hr⟩ := Add.call_defined { items, pos := start.toInt } false l
    exact passes_of_eq (unsortedAdd_eq hl items hstart) hr
  · obtain ⟨l', hr⟩ := RemoveIf.call_defined ⟨start.toInt, stop.toInt, hasStop, b, val⟩
      sortedList a l
    exact passes_of_eq (removeIf_eq hl hstart hstop sortedList) hr
  · exact intersectToList_passes hl hl2 l1Range l2Range newList
  · exact intersectToFlexBuffer_passes hl hl2 l1Range l2Range flxb

/-- Overwriting the last of three integers, and intersecting them with themselves. -/
theorem operations_pass_three :
    let l : List Alternative.intList.ValueType := [(1 : Int64), (2 : Int64), (3 : Int64)]
    let op : Set := ⟨[⟨7, 7, ⟨0⟩, []⟩], Int32.toInt (-1)⟩
    Passes (set op l) (op.call l) ∧
      Passes (intersectToList [] l l {} { start := -2, hasStop := false })
        (FCache.intersectToList [] l l {} { start := -2, hasStop := false }) := by
  intro l op
  have hlen : l.length < 2 ^ 31 := by
    show 3 < 2 ^ 31
    omega
  obtain ⟨_, hset, _, hintersect⟩ := operations_pass hlen (-1) 0 false
  refine ⟨(hset op.items (List.cons_ne_nil _ _) ?_).1, (hintersect l {} _ hlen).1 []⟩
  show 1 < 2 ^ 31
  omega

end FCache.Checked
