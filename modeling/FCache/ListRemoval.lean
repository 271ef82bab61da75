import FCache.AlgorithmSpec
import FCache.FiniteMap
import FCache.ListRanges

/-!
# Removing from a list

Removing a range takes away the block that reading it answers, unless the range is inverted: then
the iterators are handed to `erase` the wrong way round. Removing by value filters that block, on
sorted and unsorted lists alike.
-/

namespace FCache

open Slice

section Operations

variable {α : Type}

/-! ### Removing a range -/

/-- The normalised stop lies in front of the normalised start. -/
def Range.inverted (range : Range) (size : ℕ) : Prop :=
  InBounds size range.start.toInt ∧
    stopIndex size range.stop.toInt range.hasStop < position size range.start.toInt

theorem Remove.call_outOfBounds {op : Remove} {l : List α} (h : ¬ InBounds l.length op.start) :
    op.call l = some (l, ()) := by
  unfold call
  rw [positionsToIndices_outOfBounds h]
  rfl

theorem Remove.inverted_iff {op : Remove} {l : List α} : op.inverted l = true ↔
    InBounds l.length op.start ∧
      stopIndex l.length op.stop op.hasStop < position l.length op.start := by
  unfold inverted
  by_cases h : InBounds l.length op.start
  · rw [positionsToIndices_inBounds h]
    simp [h]
  · rw [positionsToIndices_outOfBounds h]
    simp [h]

theorem Remove.call_ordered {op : Remove} {l : List α} (h : InBounds l.length op.start)
    (hle : position l.length op.start ≤ stopIndex l.length op.stop op.hasStop) :
    op.call l = some (splice l (position l.length op.start).toNat
      (stopIndex l.length op.stop op.hasStop).toNat [], ()) := by
  have hpos := position_bounds h
  have hstop := stopIndex_bounds l.length op.stop op.hasStop
  unfold call
  rw [positionsToIndices_inBounds h]
  simp only [if_true]
  by_cases hall : stopIndex l.length op.stop op.hasStop - position l.length op.start = l.length
  · -- the whole list goes
    have hzero : (position l.length op.start).toNat = 0 := by omega
    have hend : (stopIndex l.length op.stop op.hasStop).toNat = l.length := by omega
    rw [if_pos hall, hzero, hend]
    simp [splice]
  · rw [if_neg hall, next_of_le l (by omega) (by omega), next_of_le l (by omega) (by omega)]
    simp only [Option.bind_eq_bind, Option.bind_some]
    have hzero : ∀ n : ℤ, (((0 : ℕ) : ℤ) + n).toNat = n.toNat := fun n => by omega
    rw [hzero, hzero, erase_of_le (by omega) (by omega)]
    simp [splice]

theorem ListHandler.removeOperation_start (req : ListRemove) :
    (ListHandler.removeOperation req).start = req.range.start.toInt := by
  unfold ListHandler.removeOperation
  split <;> rfl

theorem ListHandler.stopIndex_removeOperation (req : ListRemove) (size : ℕ) :
    stopIndex size (ListHandler.removeOperation req).stop
        (ListHandler.removeOperation req).hasStop =
      stopIndex size req.range.stop.toInt req.range.hasStop := by
  unfold ListHandler.removeOperation
  cases hs : req.range.hasStop with
  | true => rfl
  | false => rw [stopIndex_noStop rfl]; rfl

theorem ListHandler.removeOperation_call {req : ListRemove} {l : List α}
    (h : ¬ req.range.inverted l.length) :
    (ListHandler.removeOperation req).call l =
      some (splice l (req.range.ends l.length).1 (req.range.ends l.length).2 [], ()) := by
  have hstart := removeOperation_start req
  have hstop := stopIndex_removeOperation req l.length
  unfold Range.ends
  by_cases hin : InBounds l.length req.range.start.toInt
  · have hle : position l.length req.range.start.toInt ≤
        stopIndex l.length req.range.stop.toInt req.range.hasStop := by
      by_contra hlt
      exact h ⟨hin, not_le.mp hlt⟩
    have hcall : (removeOperation req).call l = some (splice l
        (position l.length (removeOperation req).start).toNat
        (stopIndex l.length (removeOperation req).stop (removeOperation req).hasStop).toNat [],
        ()) := by
      apply Remove.call_ordered
      · rwa [hstart]
      · rwa [hstart, hstop]
    rw [hcall, hstart, hstop]
    rcases selection_cases l.length req.range.start.toInt req.range.stop.toInt req.range.hasStop
      with ⟨_, _, hsel⟩ | ⟨hnot, hsel⟩
    · rw [hsel]
    · have heq : position l.length req.range.start.toInt =
          stopIndex l.length req.range.stop.toInt req.range.hasStop :=
        hle.antisymm (not_lt.mp fun hlt => hnot ⟨hin, hlt⟩)
      rw [hsel, heq, splice_nil_of_eq, splice_nil_of_eq]
  · have hout : ¬ InBounds l.length (removeOperation req).start := by rwa [hstart]
    rcases selection_cases l.length req.range.start.toInt req.range.stop.toInt req.range.hasStop
      with ⟨h, _, _⟩ | ⟨_, hsel⟩
    · exact absurd h hin
    · rw [Remove.call_outOfBounds hout, hsel, splice_nil_of_eq]

theorem ListHandler.removeOperation_call_inverted {req : ListRemove} {l : List α}
    (h : req.range.inverted l.length) : (ListHandler.removeOperation req).call l = none := by
  have hinverted : (removeOperation req).inverted l = true := by
    rw [Remove.inverted_iff, removeOperation_start, stopIndex_removeOperation]
    exact h
  rcases (removeOperation req).call_cases l with ⟨_, hcall⟩ | ⟨hnot, _⟩
  · exact hcall
  · cases hinverted.symm.trans hnot

/-! ### Removing by value -/

namespace RemoveIf

variable [ListValue α] {op : RemoveIf} {l : List α} {b e : ℕ}

/-- Either path works on a selected block that is not empty, and keeps the list otherwise. -/
theorem doRemove_unsorted (hsel : selection l.length op.start op.stop op.hasStop = (b, e))
    (val : α) : op.doRemove false val l =
      some (splice l b e ((block l b e).filter fun x => !ListValue.eq x val)) := by
  have hle := selection_le l.length op.start op.stop op.hasStop
  rw [hsel] at hle
  unfold doRemove
  rw [positionsToIterators_eq hsel]
  simp only [Option.bind_eq_bind, Option.bind_some]
  by_cases hlt : b < e
  · have hkept := Algorithm.removeIf_spec (fun x => ListValue.eq x val) hle.1 hle.2
    have hend := Algorithm.removeIfLoop_le (fun x => ListValue.eq x val) l b b (e - b)
    have hlen := Algorithm.removeIfLoop_length (fun x => ListValue.eq x val) l b b (e - b)
    simp only [hlt, decide_true, Bool.not_true, Bool.false_eq_true, if_false]
    unfold Algorithm.removeIf at hkept ⊢
    rw [erase_of_le (by omega) (by omega), ← hkept]
    simp [splice]
  · have hnil := block_eq_nil l (not_lt.mp hlt)
    have hself := splice_block l hle.1
    rw [hnil] at hself
    simp [hlt, hnil, hself]

/-- On an ascending list the equal range of the value is what filtering takes away. -/
theorem doRemove_sorted [LinearOrder α] [LawfulListValue α] (op : RemoveIf) (val : α)
    (hl : l.Pairwise (· ≤ ·)) : op.doRemove true val l = op.doRemove false val l := by
  rcases hsel : selection l.length op.start op.stop op.hasStop with ⟨b, e⟩
  have hle := selection_le l.length op.start op.stop op.hasStop
  rw [hsel] at hle
  rw [doRemove_unsorted hsel]
  unfold doRemove
  rw [positionsToIterators_eq hsel]
  simp only [Option.bind_eq_bind, Option.bind_some]
  by_cases hlt : b < e
  · obtain ⟨h₁, h₂, h₃⟩ := Algorithm.equalRangeLoop_mem_range l ListValue.lt val (e - b) b (e - b)
    have hkept := Algorithm.equalRange_spec LawfulListValue.lt_iff hl hle.1 hle.2
      (fun x => LawfulListValue.eq_iff x val)
    simp only [hlt, decide_true, Bool.not_true, Bool.false_eq_true, if_false, if_true]
    unfold Algorithm.equalRange at hkept ⊢
    rw [← hkept]
    split
    · rw [erase_of_le h₂ (by omega)]
      simp [splice]
    · next hend =>
      -- both iterators are the end of the list
      rw [not_not] at hend
      have hhigh : (Algorithm.equalRangeLoop ListValue.lt l val (e - b) b (e - b)).2 =
          l.length := by omega
      rw [hend, hhigh, splice_nil_of_eq]
      rfl
  · have hnil := block_eq_nil l (not_lt.mp hlt)
    have hself := splice_block l hle.1
    rw [hnil] at hself
    simp [hlt, hnil, hself]

theorem call_sameType {a : Alternative} (start stop : ℤ) (hasStop : Bool) (val : a.ValueType)
    (sortedList : Bool) (l : List a.ValueType) :
    ({ start, stop, hasStop, type := a, val } : RemoveIf).call sortedList a l =
      (({ start, stop, hasStop, type := a, val } : RemoveIf).doRemove sortedList val l).map
        fun l' => (l', l'.length) := by
  unfold call
  rw [dif_pos rfl]
  cases doRemove _ sortedList val l <;> rfl

end RemoveIf

end Operations

/-! ### Requests -/

/-- The value of a request that removes the elements equal to `v`. -/
def Alternative.toValue : (a : Alternative) → a.ValueType → Value
  | .intList, v => .intValue v
  | .uintList, v => .uintValue v
  | .stringList, v => .stringValue v
  | .floatList, v => .floatValue v

namespace ListHandler

variable {s : ListHandler} {name : Bytes} {a : Alternative} {d : List a.ValueType} {sorted : Bool}

theorem removeIfValue_toValue (a : Alternative) (v : a.ValueType) :
    removeIfValue (a.toValue v) = some ⟨a, v⟩ := by
  cases a <;> rfl

/-- Removing a range leaves the list without the elements that reading the range answers, unless
the range is inverted. -/
theorem step_remove_iff (h : Holds s name a d sorted) (range : Range) :
    (∃ p m q, range.Selects d p m q ∧ machine.step s (.remove { name, range }) =
      some (s.insert name (FcList.ofList ⟨a, p ++ q⟩ sorted), ⟨[⟨.ok, .listRemove, none⟩]⟩)) ↔
    ¬ range.inverted d.length := by
  let req : ListRemove := { name, range }
  constructor
  · rintro ⟨p, m, q, _, hstep⟩ hinv
    have hundefined : machine.step s (.remove req) = none := by
      have hcall : (removeOperation req).call d = none := removeOperation_call_inverted hinv
      show Handling.answered (handleRemove req ⟨s, {}⟩) = none
      rw [@handleRemove_of_none s {} _ req h hcall]
      rfl
    cases hundefined.symm.trans hstep
  · intro hinv
    refine ⟨_, _, _, range.selects_block d, ?_⟩
    apply Handling.answered_eq_some.mpr
    have hcall : (removeOperation req).call d = _ := removeOperation_call hinv
    unfold splice at hcall
    rw [List.append_nil] at hcall
    exact @handleRemove_of_some s {} _ req h _ hcall

theorem step_remove_iff_three : ∃ s : ListHandler, Holds s [97] .intList [1, 2, 3] false ∧
    ∃ p m q : List Int64, Range.Selects (a := .intList) { start := -3, stop := 2 } [1, 2, 3] p m q ∧
      machine.step s (.remove { name := [97], range := { start := -3, stop := 2 } }) =
        some (s.insert [97] (FcList.ofList ⟨.intList, p ++ q⟩ false),
          ⟨[⟨.ok, .listRemove, none⟩]⟩) := by
  have h : Holds (Finmap.insert [97] (FcList.ofList ⟨.intList, [1, 2, 3]⟩ false) ∅) [97] .intList
      [1, 2, 3] false := Finmap.lookup_insert _
  have hinv : ¬ Range.inverted { start := -3, stop := 2 } 3 := by
    rintro ⟨_, hlt⟩
    exact absurd hlt (by decide)
  exact ⟨_, h, (step_remove_iff h { start := -3, stop := 2 }).mpr hinv⟩

/-- A range whose stop is counted from the tail, which a client cannot see to be inverted. -/
theorem not_step_remove : ¬ ∀ (s : ListHandler) (name : Bytes) (a : Alternative)
    (d : List a.ValueType) (sorted : Bool) (range : Range), Holds s name a d sorted →
    ∃ p m q, range.Selects d p m q ∧ machine.step s (.remove { name, range }) =
      some (s.insert name (FcList.ofList ⟨a, p ++ q⟩ sorted),
        ⟨[⟨.ok, .listRemove, none⟩]⟩) := by
  intro hall
  have h : Holds (Finmap.insert [97] (FcList.ofList ⟨.intList, [1, 2, 3, 4, 5]⟩ false) ∅) [97]
      .intList [1, 2, 3, 4, 5] false := Finmap.lookup_insert _
  obtain ⟨p, m, q, _, hstep⟩ := hall _ _ _ _ _ { start := 3, stop := -3 } h
  have hundefined : machine.step
      (Finmap.insert [97] (FcList.ofList ⟨.intList, [1, 2, 3, 4, 5]⟩ false) ∅)
      (.remove { name := [97], range := { start := 3, stop := -3 } }) = none := by
    decide +kernel
  cases hundefined.symm.trans hstep

theorem removeIfOperation_selection (range : Range) (v : a.ValueType) (size : ℕ) :
    selection size (removeIfOperation range a v).start (removeIfOperation range a v).stop
      (removeIfOperation range a v).hasStop = range.ends size := by
  unfold removeIfOperation Range.ends
  cases h : range.hasStop with
  | true => rfl
  | false => simp [selection, stopIndex_noStop]

theorem removeIfOperation_call (range : Range) (v : a.ValueType) (sorted : Bool)
    (d : List a.ValueType) : (removeIfOperation range a v).call sorted a d =
      ((removeIfOperation range a v).doRemove sorted v d).map fun l => (l, l.length) := by
  unfold removeIfOperation
  cases range.hasStop with
  | true => exact RemoveIf.call_sameType _ _ _ v sorted d
  | false => exact RemoveIf.call_sameType _ _ _ v sorted d

/-- The two paths give one list on every ascending input. -/
theorem removeIfOperation_sorted (ha : a ≠ .floatList) (hd : a.Ascending d) (range : Range)
    (v : a.ValueType) : (removeIfOperation range a v).call true a d =
      (removeIfOperation range a v).call false a d := by
  rw [removeIfOperation_call, removeIfOperation_call]
  apply Alternative.linearOrder_elim ha
  intro _ _ hasc
  rw [RemoveIf.doRemove_sorted _ v ((hasc d).mp hd)]

/-- Whichever path is taken, the selected block is filtered. -/
theorem removeIfOperation_filter (hd : sorted = true → a ≠ .floatList ∧ a.Ascending d)
    (range : Range) (v : a.ValueType) {p m q : List a.ValueType} (hsel : range.Selects d p m q) :
    (removeIfOperation range a v).call sorted a d =
      some (p ++ m.filter (fun x => !ListValue.eq x v) ++ q,
        (p ++ m.filter (fun x => !ListValue.eq x v) ++ q).length) := by
  have hunsorted : (removeIfOperation range a v).call sorted a d =
      (removeIfOperation range a v).call false a d := by
    cases hs : sorted with
    | false => rfl
    | true => exact removeIfOperation_sorted (hd hs).1 (hd hs).2 range v
  rw [hunsorted, removeIfOperation_call,
    RemoveIf.doRemove_unsorted (removeIfOperation_selection range v d.length),
    hsel.splice_eq (f := fun m => m.filter fun x => !ListValue.eq x v) rfl]
  rfl

theorem removeIfOperation_otherType {b : Alternative} (hb : b ≠ a) (range : Range)
    (v : b.ValueType) (sorted : Bool) (d : List a.ValueType) :
    (removeIfOperation range b v).call sorted a d = some (d, d.length) := by
  have htype : (removeIfOperation range b v).type ≠ a := by
    have hb' : (removeIfOperation range b v).type = b := by
      unfold removeIfOperation
      split <;> rfl
    rwa [hb']
  unfold RemoveIf.call
  rw [dif_neg htype]
  rfl

theorem step_removeIf_of_call (h : Holds s name a d sorted) {range : Range} {b : Alternative}
    {v : b.ValueType} {elems : List a.ValueType}
    (hcall : (removeIfOperation range b v).call sorted a d = some (elems, elems.length)) :
    machine.step s (.removeIf { name, range, value := b.toValue v }) =
      some (s.insert name (FcList.ofList ⟨a, elems⟩ sorted), ⟨[⟨.ok, .listRemoveIf,
        some (.listRemoveIf (UInt32.ofNat elems.length))⟩]⟩) := by
  let req : ListRemoveIf := { name, range, value := b.toValue v }
  obtain ⟨elems', hcall', hhandle⟩ :=
    @handleRemoveIf_found s {} _ req h _ _ (removeIfValue_toValue b v)
  obtain rfl : elems = elems' := (Prod.mk.inj (Option.some.inj (hcall.symm.trans hcall'))).1
  exact Handling.answered_eq_some.mpr hhandle

/-- Removing by value takes the elements equal to it out of the selected block and answers the
new size, on sorted and unsorted lists alike; a value of another type changes nothing. -/
theorem step_removeIf (h : Holds s name a d sorted)
    (hd : sorted = true → a ≠ .floatList ∧ a.Ascending d) (range : Range) :
    (∃ p m q, range.Selects d p m q) ∧
    (∀ (v : a.ValueType) (p m q : List a.ValueType), range.Selects d p m q →
      (removeIfOperation range a v).call sorted a d =
        some (p ++ m.filter (fun x => !ListValue.eq x v) ++ q,
          (p ++ m.filter (fun x => !ListValue.eq x v) ++ q).length) ∧
      machine.step s (.removeIf { name, range, value := a.toValue v }) =
        some (s.insert name
            (FcList.ofList ⟨a, p ++ m.filter (fun x => !ListValue.eq x v) ++ q⟩ sorted),
          ⟨[⟨.ok, .listRemoveIf, some (.listRemoveIf (UInt32.ofNat
            (p ++ m.filter (fun x => !ListValue.eq x v) ++ q).length))⟩]⟩)) ∧
    (∀ (b : Alternative) (v : b.ValueType), b ≠ a →
      machine.step s (.removeIf { name, range, value := b.toValue v }) =
        some (s, ⟨[⟨.ok, .listRemoveIf, some (.listRemoveIf (UInt32.ofNat d.length))⟩]⟩)) ∧
    (a ≠ .floatList → a.Ascending d → ∀ v : a.ValueType,
      (removeIfOperation range a v).call true a d =
        (removeIfOperation range a v).call false a d) := by
  refine ⟨⟨_, _, _, range.selects_block d⟩, ?_, ?_, ?_⟩
  · intro v p m q hsel
    have hcall := removeIfOperation_filter hd range v hsel
    exact ⟨hcall, step_removeIf_of_call h hcall⟩
  · intro b v hb
    have hstep := step_removeIf_of_call h (removeIfOperation_otherType hb range v sorted d)
    rwa [FiniteMap.insert_of_lookup h] at hstep
  · intro ha hasc v
    exact removeIfOperation_sorted ha hasc range v

/-- Twos straddling the end of the range stay behind it. -/
theorem step_removeIf_straddling : ∃ s : ListHandler,
    Holds s [97] .intList [1, 2, 2, 2, 3] true ∧
    machine.step s (.removeIf
        { name := [97], range := { start := -4, stop := 3 }, value := .intValue 2 }) =
      some (s.insert [97] (FcList.ofList ⟨.intList, [1, 2, 3]⟩ true),
        ⟨[⟨.ok, .listRemoveIf, some (.listRemoveIf 3)⟩]⟩) := by
  have h : Holds (Finmap.insert [97] (FcList.ofList ⟨.intList, [1, 2, 2, 2, 3]⟩ true) ∅) [97]
      .intList [1, 2, 2, 2, 3] true := Finmap.lookup_insert _
  have hasc : Alternative.Ascending .intList [1, 2, 2, 2, 3] := by
    show List.Pairwise (fun x y : Int64 => x ≤ y) [1, 2, 2, 2, 3]
    decide
  have hsel : Range.Selects (a := .intList) { start := -4, stop := 3 } [1, 2, 2, 2, 3] [1] [2, 2]
      [2, 3] := Range.selects_block { start := -4, stop := 3 } _
  have hall := step_removeIf h (fun _ => ⟨by decide, hasc⟩) { start := -4, stop := 3 }
  exact ⟨_, h, (hall.2.1 2 [1] [2, 2] [2, 3] hsel).2⟩

end ListHandler

end FCache
