import FCache.ListEnds
import FCache.Slice

/-!
# What a range selects

A range is normalised against the size of the list alone. It selects a block of the list, empty if
the start is out of bounds or not in front of the stop; every operation that takes a range works on
that block. Reading gives the slice that the positions denote, unless the stop lies far enough in
front of the head.
-/

namespace FCache

open Slice

/-! ### Positions -/

/-- The stop of a range as the operations normalise it. -/
def stopIndex (size : ℕ) (stop : ℤ) (hasStop : Bool) : ℤ :=
  if hasStop then if stop < 0 then min size (labs (size + stop)) else min size stop else size

/-- The ends of the selected block, both zero if there is none. -/
def selection (size : ℕ) (start stop : ℤ) (hasStop : Bool) : ℕ × ℕ :=
  if InBounds size start ∧ position size start < stopIndex size stop hasStop then
    ((position size start).toNat, (stopIndex size stop hasStop).toNat)
  else (0, 0)

def selected {α : Type} (l : List α) (start stop : ℤ) (hasStop : Bool) : List α :=
  block l (selection l.length start stop hasStop).1 (selection l.length start stop hasStop).2

section Positions

variable {size : ℕ} {start stop : ℤ} {hasStop : Bool} {α : Type} {l : List α}

theorem stopIndex_bounds (size : ℕ) (stop : ℤ) (hasStop : Bool) :
    0 ≤ stopIndex size stop hasStop ∧ stopIndex size stop hasStop ≤ size := by
  unfold stopIndex labs
  split_ifs <;> omega

theorem stopIndex_noStop (h : hasStop = false) : stopIndex size stop hasStop = size := by
  simp [stopIndex, h]

theorem inBounds_iff : InBounds size start ↔
    ¬ ((0 ≤ start ∧ (size : ℤ) ≤ start) ∨ (size : ℤ) < labs start) := by
  unfold InBounds labs
  split_ifs <;> omega

theorem positionsToIndices_outOfBounds (h : ¬ InBounds l.length start) :
    positionsToIndices start stop hasStop l = (false, 0, 0) := by
  unfold positionsToIndices
  rw [inBounds_iff, not_not] at h
  rw [if_pos h]

theorem positionsToIndices_inBounds (h : InBounds l.length start) :
    positionsToIndices start stop hasStop l =
      (true, position l.length start, stopIndex l.length stop hasStop) := by
  unfold positionsToIndices position stopIndex
  rw [if_neg (inBounds_iff.mp h)]
  cases hasStop with
  | true => rfl
  | false =>
    have hsize : ¬ (l.length : ℤ) < 0 := by omega
    simp [hsize]

theorem selection_cases (size : ℕ) (start stop : ℤ) (hasStop : Bool) :
    (InBounds size start ∧ position size start < stopIndex size stop hasStop ∧
      selection size start stop hasStop =
        ((position size start).toNat, (stopIndex size stop hasStop).toNat)) ∨
    (¬ (InBounds size start ∧ position size start < stopIndex size stop hasStop) ∧
      selection size start stop hasStop = (0, 0)) := by
  by_cases h : InBounds size start ∧ position size start < stopIndex size stop hasStop
  · exact .inl ⟨h.1, h.2, if_pos h⟩
  · exact .inr ⟨h, if_neg h⟩

theorem selection_le (size : ℕ) (start stop : ℤ) (hasStop : Bool) :
    (selection size start stop hasStop).1 ≤ (selection size start stop hasStop).2 ∧
      (selection size start stop hasStop).2 ≤ size := by
  have hstop := stopIndex_bounds size stop hasStop
  rcases selection_cases size start stop hasStop with ⟨h, hlt, hsel⟩ | ⟨_, hsel⟩
  · have hpos := position_bounds h
    rw [hsel]
    exact ⟨by omega, by omega⟩
  · rw [hsel]
    exact ⟨Nat.le_refl 0, Nat.zero_le size⟩

/-- Something is selected exactly when the start is in bounds and in front of the stop. -/
theorem selection_lt_iff (size : ℕ) (start stop : ℤ) (hasStop : Bool) :
    (selection size start stop hasStop).1 < (selection size start stop hasStop).2 ↔
      InBounds size start ∧ position size start < stopIndex size stop hasStop := by
  rcases selection_cases size start stop hasStop with ⟨h, hlt, hsel⟩ | ⟨hnot, hsel⟩
  · have hpos := position_bounds h
    rw [hsel]
    exact iff_of_true (by omega) ⟨h, hlt⟩
  · rw [hsel]
    exact iff_of_false (Nat.lt_irrefl 0) hnot

theorem selected_eq_nil_iff : selected l start stop hasStop = [] ↔
    ¬ (InBounds l.length start ∧ position l.length start < stopIndex l.length stop hasStop) := by
  unfold selected
  rw [block_eq_nil_iff l (selection_le l.length start stop hasStop).2, ← selection_lt_iff, not_lt]

theorem selected_inBounds (h : InBounds l.length start) : selected l start stop hasStop =
    block l (position l.length start).toNat (stopIndex l.length stop hasStop).toNat := by
  unfold selected
  rcases selection_cases l.length start stop hasStop with ⟨_, _, hsel⟩ | ⟨hnot, hsel⟩
  · rw [hsel]
  · have hpos := position_bounds h
    have hle : stopIndex l.length stop hasStop ≤ position l.length start :=
      not_lt.mp fun hlt => hnot ⟨h, hlt⟩
    rw [hsel, block_eq_nil l (Nat.le_refl 0), block_eq_nil l (by omega)]

theorem positionsToIterators_eq {b e : ℕ}
    (hsel : selection l.length start stop hasStop = (b, e)) :
    positionsToIterators start stop hasStop l = some (decide (b < e), b, e) := by
  have hiff := selection_lt_iff l.length start stop hasStop
  rw [hsel] at hiff
  rcases selection_cases l.length start stop hasStop with ⟨h, hlt, hends⟩ | ⟨hnot, hends⟩
  · have hpos := position_bounds h
    rw [positionsToIterators_of_indices (positionsToIndices_inBounds h) hlt, ← hends, hsel]
    rw [decide_eq_true (hiff.mpr ⟨h, hlt⟩)]
  · rw [hends, Prod.mk.injEq] at hsel
    obtain ⟨rfl, rfl⟩ := hsel
    unfold positionsToIterators
    by_cases h : InBounds l.length start
    · have hle : stopIndex l.length stop hasStop ≤ position l.length start :=
        not_lt.mp fun hlt => hnot ⟨h, hlt⟩
      rw [positionsToIndices_inBounds h]
      simp [hle]
    · rw [positionsToIndices_outOfBounds h]
      rfl

end Positions

/-! ### Reading -/

/-- The operation of a range request, as for its handler: without a stop the one in the request
is not read. -/
def Range.getByRange (range : Range) (base : Base) : GetByRange :=
  if range.hasStop then
    { start := range.start.toInt, stop := range.stop.toInt, hasStop := true, base }
  else { start := range.start.toInt, hasStop := false, base }

/-- The block of a list that the range of a request selects. -/
def Range.selected {α : Type} (range : Range) (l : List α) : List α :=
  FCache.selected l range.start.toInt range.stop.toInt range.hasStop

def Range.ends (range : Range) (size : ℕ) : ℕ × ℕ :=
  selection size range.start.toInt range.stop.toInt range.hasStop

theorem Range.ends_le (range : Range) (size : ℕ) :
    (range.ends size).1 ≤ (range.ends size).2 ∧ (range.ends size).2 ≤ size :=
  selection_le size range.start.toInt range.stop.toInt range.hasStop

/-- What is selected stands at the position of the start. -/
theorem Range.ends_fst {α : Type} {range : Range} {l : List α} (h : range.selected l ≠ []) :
    ((range.ends l.length).1 : ℤ) = position l.length range.start.toInt := by
  unfold Range.selected ends at *
  rw [ne_eq, selected_eq_nil_iff, not_not] at h
  rcases selection_cases l.length range.start.toInt range.stop.toInt range.hasStop with
    ⟨hin, _, hsel⟩ | ⟨hnot, _⟩
  · rw [hsel]
    exact Int.toNat_of_nonneg (position_bounds hin).1
  · exact absurd h hnot

theorem Range.selection_getByRange (range : Range) (base : Base) (size : ℕ) :
    selection size (range.getByRange base).start (range.getByRange base).stop
      (range.getByRange base).hasStop = range.ends size := by
  unfold getByRange ends
  cases h : range.hasStop with
  | true => rfl
  | false => simp [selection, stopIndex_noStop]

section Reading

variable {α : Type} [ListValue α]

/-- Reading answers the selected block of the list, taken from the end it is read from. -/
theorem GetByRange.call_selected (op : GetByRange) (l : List α) :
    (op.call {} l).map GetByRange.buffer =
      some (some (.typedVector ((FCache.selected (if op.base = .head then l else l.reverse)
        op.start op.stop op.hasStop).map ListValue.add))) := by
  have hlen : (if op.base = .head then l else l.reverse).length = l.length := by
    split
    · rfl
    · exact List.length_reverse
  unfold GetByRange.call
  generalize (if op.base = .head then l else l.reverse) = iterated at hlen ⊢
  by_cases h : InBounds l.length op.start
  · obtain ⟨hfirst, hlast⟩ := position_bounds h
    have hstop := stopIndex_bounds l.length op.stop op.hasStop
    rw [positionsToIndices_inBounds h]
    simp only [if_true]
    rw [next_of_le _ (by omega) (by rw [hlen]; omega)]
    simp only [Option.bind_eq_bind, Option.bind_some]
    rw [listToTypedVector_of_le (by rw [hlen]; omega)]
    have hzero : ((0 : ℕ) + position l.length op.start : ℤ).toNat =
        (position l.length op.start).toNat := by omega
    -- a negative count is zero, as is the size of a block whose ends are inverted
    have hcount : (stopIndex l.length op.stop op.hasStop - position l.length op.start).toNat =
        (stopIndex l.length op.stop op.hasStop).toNat - (position l.length op.start).toNat := by
      omega
    rw [hzero, hcount, selected_inBounds (hlen ▸ h), hlen, block_eq_take_drop]
    rfl
  · have hnil : FCache.selected iterated op.start op.stop op.hasStop = [] := by
      rw [selected_eq_nil_iff, hlen]
      exact fun hand => h hand.1
    rw [positionsToIndices_outOfBounds h, hnil]
    rfl

/-- `ListGetRange` with this range and base answers the elements `m` of the list. -/
def Range.Reads (range : Range) (base : Base) (l m : List α) : Prop :=
  ((range.getByRange base).call {} l).map GetByRange.buffer =
    some (some (.typedVector (m.map ListValue.add)))

theorem Range.reads_selected (range : Range) (base : Base) (l : List α) :
    range.Reads base l (range.selected (if base = .head then l else l.reverse)) := by
  unfold Reads
  rw [GetByRange.call_selected]
  have hbase : (range.getByRange base).base = base := by
    unfold getByRange
    split <;> rfl
  rw [hbase]
  unfold FCache.selected Range.selected FCache.selected
  rw [range.selection_getByRange]
  rfl

end Reading

/-! ### Selections of stored lists -/

theorem Alternative.add_injective (a : Alternative) :
    Function.Injective (ListValue.add : a.ValueType → FlexScalar) := by
  intro x y h
  cases a <;> (injection h)

section Selects

variable {a : Alternative} {range : Range} {l p m q : List a.ValueType}

theorem Range.reads_iff (range : Range) (base : Base) (l m : List a.ValueType) :
    range.Reads base l m ↔ m = range.selected (if base = .head then l else l.reverse) := by
  have hreads := range.reads_selected base l
  constructor
  · intro h
    unfold Reads at h hreads
    have heq := Option.some.inj (Option.some.inj (h.symm.trans hreads))
    exact a.add_injective.list_map (FlexRoot.typedVector.inj heq)
  · rintro rfl
    exact hreads

/-- The list is `p ++ m ++ q`, where `m` is what reading the range from the head answers, at the
position of its start. -/
structure Range.Selects (range : Range) (l p m q : List a.ValueType) : Prop where
  split : l = p ++ m ++ q
  reads : range.Reads .head l m
  position : m ≠ [] → (p.length : ℤ) = position l.length range.start.toInt

theorem Range.selects_block (range : Range) (l : List a.ValueType) :
    range.Selects l (l.take (range.ends l.length).1) (range.selected l)
      (l.drop (range.ends l.length).2) := by
  have hle := range.ends_le l.length
  refine ⟨(splice_block l hle.1).symm, (range.reads_iff .head l _).mpr rfl, ?_⟩
  intro hne
  rw [List.length_take, ← range.ends_fst hne]
  omega

/-- However a list is decomposed around the selected block, replacing the block gives one list. -/
theorem Range.Selects.splice_eq (h : range.Selects l p m q)
    {f : List a.ValueType → List a.ValueType} (hf : f [] = []) :
    p ++ f m ++ q =
      splice l (range.ends l.length).1 (range.ends l.length).2 (f (range.selected l)) := by
  have hm : m = range.selected l := (range.reads_iff .head l m).mp h.reads
  rw [← hm]
  apply append_eq_splice h.split hm (range.ends_le l.length).1 _ hf
  intro hne
  have hp := h.position hne
  rw [← range.ends_fst (hm ▸ hne)] at hp
  exact Int.ofNat.inj hp

end Selects

/-! ### Range requests -/

/-- The slice that the range of a request denotes. -/
def Range.slice {α : Type} (range : Range) (l : List α) : List α :=
  Slice.slice l range.start.toInt (if range.hasStop then some range.stop.toInt else none)

/-- The stop lies in front of the head, by more than the start lies behind it. -/
def Range.overshoots (range : Range) (size : ℕ) : Prop :=
  range.hasStop = true ∧ InBounds size range.start.toInt ∧
    position size range.start.toInt < -(size + range.stop.toInt)

/-- Unless its stop lies in front of the head, a range stops where its slice does. -/
theorem stopIndex_eq_bound {size : ℕ} {range : Range}
    (h : range.hasStop = true → 0 ≤ size + range.stop.toInt) :
    stopIndex size range.stop.toInt range.hasStop =
      bound size (if range.hasStop then some range.stop.toInt else none) := by
  cases hs : range.hasStop with
  | false => rfl
  | true =>
    have hle := h hs
    simp only [stopIndex, bound, if_true, labs]
    split_ifs <;> omega

theorem Range.selected_eq_slice_iff {α : Type} (range : Range) (l : List α) :
    range.selected l = range.slice l ↔ ¬ range.overshoots l.length := by
  by_cases h : InBounds l.length range.start.toInt
  · have hpos := position_bounds h
    have hslice : range.slice l = block l (position l.length range.start.toInt).toNat
        (bound l.length (if range.hasStop then some range.stop.toInt else none)).toNat :=
      if_pos h
    by_cases hstop : range.hasStop = true → 0 ≤ l.length + range.stop.toInt
    · have hequal : range.selected l = range.slice l := by
        unfold Range.selected
        rw [selected_inBounds h, hslice, stopIndex_eq_bound hstop]
      have hnot : ¬ range.overshoots l.length := by
        rintro ⟨hs, _, hlt⟩
        have := hstop hs
        omega
      exact iff_of_true hequal hnot
    · -- the slice is empty, the block selected is not if the start lies in front of its end
      rw [Classical.not_imp, not_le] at hstop
      obtain ⟨hs, hneg⟩ := hstop
      have hbound : bound l.length (if range.hasStop then some range.stop.toInt else none) = 0 := by
        simp only [hs, if_true, bound]
        split_ifs <;> omega
      have hend : stopIndex l.length range.stop.toInt range.hasStop =
          min (l.length : ℤ) (-(l.length + range.stop.toInt)) := by
        simp only [hs, stopIndex, if_true, labs]
        split_ifs <;> omega
      rw [hslice, hbound, Int.toNat_zero, block_eq_nil l (Nat.zero_le _)]
      unfold Range.selected
      rw [selected_eq_nil_iff, hend]
      apply not_congr
      constructor
      · rintro ⟨_, hlt⟩
        exact ⟨hs, h, by omega⟩
      · rintro ⟨_, _, hlt⟩
        exact ⟨h, by omega⟩
  · have hselected : range.selected l = [] := selected_eq_nil_iff.mpr fun hand => h hand.1
    have hslice : range.slice l = [] := if_neg h
    rw [hselected, hslice]
    exact iff_of_true rfl fun hover => h hover.2.1

namespace ListHandler

variable {s : ListHandler} {name : Bytes} {a : Alternative} {d : List a.ValueType} {sorted : Bool}

theorem step_getRange (h : Holds s name a d sorted) (range : Range) (base : Base) :
    machine.step s (.getRange { name, range, base }) = some (s, ⟨[⟨.ok, .listGetRange,
      some (.listGetRange (some (.typedVector
        ((range.selected (if base = .head then d else d.reverse)).map ListValue.add))))⟩]⟩) := by
  let req : ListGetRange := { name, range, base }
  obtain ⟨flxb, created, hcall, hget⟩ := @handleGetRange_found s {} _ req h
  have hbuffer := (congrArg (Option.map GetByRange.buffer) hcall).symm.trans
    (range.reads_selected base d)
  apply Handling.answered_eq_some.mpr
  rw [← Option.some.inj hbuffer]
  exact hget

/-- A range request answers the slice it denotes, from the end it is read from, unless its stop
overshoots the head. -/
theorem step_getRange_slice_iff (h : Holds s name a d sorted) (range : Range) (base : Base) :
    machine.step s (.getRange { name, range, base }) = some (s, ⟨[⟨.ok, .listGetRange,
      some (.listGetRange (some (.typedVector
        ((range.slice (if base = .head then d else d.reverse)).map ListValue.add))))⟩]⟩) ↔
    ¬ range.overshoots d.length := by
  have hlen : (if base = .head then d else d.reverse).length = d.length := by
    split
    · rfl
    · exact List.length_reverse
  rw [step_getRange h, ← hlen, ← range.selected_eq_slice_iff]
  constructor
  · intro heq
    simp only [Option.some.injEq, Prod.mk.injEq, FlatBuilder.mk.injEq, List.cons.injEq,
      Response.mk.injEq, ResponseTable.listGetRange.injEq, FlexRoot.typedVector.injEq,
      true_and, and_true] at heq
    exact a.add_injective.list_map heq
  · intro heq
    rw [heq]

/-- The store after a list was created and given three items. -/
theorem step_getRange_slice_iff_three : ∃ s : ListHandler,
    Holds s [97] .intList [1, 2, 3] false ∧
    machine.step s
        (.getRange { name := [97], range := { start := -3, stop := -1 }, base := .head }) =
      some (s, ⟨[⟨.ok, .listGetRange,
        some (.listGetRange (some (.typedVector [.int 1, .int 2])))⟩]⟩) := by
  have h : Holds (Finmap.insert [97] (FcList.ofList ⟨.intList, [1, 2, 3]⟩ false) ∅) [97] .intList
      [1, 2, 3] false := Finmap.lookup_insert _
  have hover : ¬ Range.overshoots { start := -3, stop := -1 } 3 := by
    rintro ⟨_, _, hlt⟩
    exact absurd hlt (by decide)
  exact ⟨_, h, (step_getRange_slice_iff h { start := -3, stop := -1 } .head).mpr hover⟩

/-- Stopping two elements in front of the head gives the first two elements. -/
theorem not_step_getRange_slice : ¬ ∀ (s : ListHandler) (name : Bytes) (a : Alternative)
    (d : List a.ValueType) (sorted : Bool) (range : Range) (base : Base),
    Holds s name a d sorted →
    machine.step s (.getRange { name, range, base }) = some (s, ⟨[⟨.ok, .listGetRange,
      some (.listGetRange (some (.typedVector
        ((range.slice (if base = .head then d else d.reverse)).map ListValue.add))))⟩]⟩) := by
  intro hall
  have h : Holds (Finmap.insert [97] (FcList.ofList ⟨.intList, [1, 2, 3]⟩ false) ∅) [97] .intList
      [1, 2, 3] false := Finmap.lookup_insert _
  have hslice := hall _ _ _ _ _ { start := 0, stop := -5 } .head h
  have hread := step_getRange h { start := 0, stop := -5 } .head
  have hitems := hread.symm.trans hslice
  revert hitems
  decide +kernel

end ListHandler

end FCache
