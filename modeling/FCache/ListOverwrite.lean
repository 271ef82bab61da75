import FCache.ListRanges

/-!
# Overwriting a list

Items overwrite the elements from their position on, up to the end of the list. The position is
normalised twice: one that lies further in front of the head than the list is long is taken for a
position in it, unless the items happen to be too many and too few at once.
-/

namespace FCache

open Slice

section Operations

variable {α : Type}

namespace Set

/-- What overwriting `l` at `pos` is to give: the items stand from the position on as far as the
list goes, everything else is as it was; nothing happens out of bounds. -/
def Overwrites (pos : ℤ) (items l l' : List α) : Prop :=
  l'.length = l.length ∧ ∀ j : ℕ, l'[j]? =
    if InBounds l.length pos ∧ position l.length pos ≤ j ∧
        (j : ℤ) < min (position l.length pos + items.length) l.length then
      items[j - (position l.length pos).toNat]?
    else l[j]?

/-- How many elements are overwritten although the position is out of bounds. -/
def strays (size n : ℕ) (pos : ℤ) : ℕ :=
  if -(2 * size : ℤ) ≤ pos ∧ pos < -size then
    if n < -(size + pos) then n else min (-(size + pos)).toNat (n - size)
  else 0

/-- The elements overwritten astray are the items already. -/
def Harmless (pos : ℤ) (items l : List α) : Prop :=
  ∀ i < strays l.length items.length pos, l[(2 * l.length + pos).toNat + i]? = items[i]?

theorem selection_inBounds {size n : ℕ} {pos : ℤ} (h : InBounds size pos) (hn : 0 < n) :
    selection size (position size pos) (position size pos + n) true =
      ((position size pos).toNat, (min (position size pos + n) size).toNat) := by
  have hpos := position_bounds h
  have hfirst : position size (position size pos) = position size pos := if_neg (by omega)
  have hin : InBounds size (position size pos) := ⟨by omega, hpos.2⟩
  have hend : stopIndex size (position size pos + n) true = min (position size pos + n) size := by
    unfold stopIndex
    rw [if_pos rfl, if_neg (by omega), min_comm]
  rcases selection_cases size (position size pos) (position size pos + n) true with
    ⟨_, _, hsel⟩ | ⟨hnot, _⟩
  · rw [hsel, hfirst, hend]
  · exact absurd ⟨hin, by rw [hfirst, hend]; omega⟩ hnot

/-- Out of bounds the selected block is where the items go astray. -/
theorem selection_outOfBounds {size n : ℕ} {pos : ℤ} (h : ¬ InBounds size pos) (hn : 0 < n) :
    ∃ b e, selection size (position size pos) (position size pos + n) true = (b, e) ∧
      e - b = strays size n pos ∧ (0 < strays size n pos → b = (2 * size + pos).toNat) := by
  by_cases hfar : -(2 * size : ℤ) ≤ pos ∧ pos < -size
  · -- the position is still negative after the first normalisation, and in bounds after it
    have hpos : position size pos = size + pos := if_pos (by omega)
    have hfirst : position size (size + pos) = 2 * size + pos := by
      unfold position
      rw [if_pos (by omega)]
      omega
    have hstrays : strays size n pos =
        (stopIndex size (size + pos + n) true).toNat - (2 * size + pos).toNat := by
      unfold strays stopIndex labs
      rw [if_pos hfar, if_pos rfl]
      split_ifs <;> omega
    rw [hpos]
    rcases selection_cases size (size + pos) (size + pos + n) true with
      ⟨_, _, hsel⟩ | ⟨hnot, hsel⟩
    · rw [hfirst] at hsel
      exact ⟨_, _, hsel, hstrays.symm, fun _ => rfl⟩
    · have hle : stopIndex size (size + pos + n) true ≤ 2 * size + pos := by
        rw [← hfirst]
        exact not_lt.mp fun hlt => hnot ⟨⟨by omega, by omega⟩, hlt⟩
      have hzero : strays size n pos = 0 := by
        rw [hstrays]
        omega
      exact ⟨0, 0, hsel, hzero.symm, fun hlt => absurd hlt (by omega)⟩
  · have hzero : strays size n pos = 0 := if_neg hfar
    have hout : ¬ InBounds size (position size pos) := by
      unfold InBounds position at *
      split_ifs <;> omega
    exact ⟨0, 0, if_neg fun hand => hout hand.1, hzero.symm, fun hlt => absurd hlt (by omega)⟩

theorem strays_inBounds {size n : ℕ} {pos : ℤ} (h : InBounds size pos) : strays size n pos = 0 := by
  unfold InBounds at h
  exact if_neg (by omega)

theorem strays_le (size n : ℕ) (pos : ℤ) : strays size n pos ≤ n := by
  unfold strays
  split_ifs <;> omega

/-- Out of bounds nothing is to be overwritten. -/
theorem overwrites_outOfBounds {pos : ℤ} {items l l' : List α} (h : ¬ InBounds l.length pos) :
    Overwrites pos items l l' ↔ l' = l := by
  constructor
  · rintro ⟨_, hget⟩
    apply List.ext_getElem?
    intro j
    rw [hget j, if_neg fun hand => h hand.1]
  · rintro rfl
    refine ⟨rfl, ?_⟩
    intro j
    rw [if_neg fun hand => h hand.1]

variable [ListValue α]

theorem assign_getElem? (items : TypedVector) {l l' : List α} {i it count : ℕ}
    (h : assign items l i it count = some l') (j : ℕ) :
    l'[j]? = if it ≤ j ∧ j < it + count then
      some (ListValue.as (items.getD (i + (j - it)) Item.null)) else l[j]? := by
  induction count generalizing l i it with
  | zero =>
    obtain rfl := Option.some.inj h
    rw [if_neg (by omega)]
  | succ count ih =>
    unfold assign at h
    split at h
    · next hit =>
      rw [ih h]
      by_cases hj : it + 1 ≤ j ∧ j < it + 1 + count
      · have hindex : i + 1 + (j - (it + 1)) = i + (j - it) := by omega
        rw [if_pos hj, if_pos (by omega), hindex]
      · rw [if_neg hj]
        by_cases hfirst : j = it
        · subst hfirst
          rw [if_pos (by omega), List.getElem?_set_self hit, Nat.sub_self, Nat.add_zero]
        · rw [if_neg (by omega), List.getElem?_set_ne (Ne.symm hfirst)]
    · cases h

/-- The elements of the block that the position and the number of items select become the items
in order. -/
theorem call_getElem? (op : Set) (l : List α) {b e : ℕ}
    (hsel : selection l.length (position l.length op.pos)
      (position l.length op.pos + op.items.length) true = (b, e))
    (hcount : e - b ≤ op.items.length) :
    ∃ l', op.call l = some (l', ()) ∧ l'.length = l.length ∧ ∀ j, l'[j]? =
      if b ≤ j ∧ j < e then (op.items.map ListValue.as)[j - b]? else l[j]? := by
  obtain ⟨l', hcall, hlen⟩ := op.call_defined l
  refine ⟨l', hcall, hlen, ?_⟩
  intro j
  unfold call at hcall
  simp only at hcall
  have hpos : (if op.pos < 0 then (l.length : ℤ) + op.pos else op.pos) =
      position l.length op.pos := rfl
  rw [hpos, positionsToIterators_eq hsel] at hcall
  simp only [Option.bind_eq_bind, Option.bind_some] at hcall
  by_cases hlt : b < e
  · simp only [hlt, decide_true, Bool.not_true, Bool.false_eq_true, if_false,
      Option.bind_eq_some_iff] at hcall
    obtain ⟨l₁, hassign, hl₁⟩ := hcall
    obtain rfl : l₁ = l' := congrArg Prod.fst (Option.some.inj hl₁)
    rw [assign_getElem? op.items hassign, Nat.add_sub_of_le hlt.le, Nat.zero_add]
    split
    · have hj : j - b < op.items.length := by omega
      rw [List.getElem?_map, List.getD_eq_getElem?_getD, List.getElem?_eq_getElem hj]
      rfl
    · rfl
  · have hsame : l = l' := by
      simpa [hlt] using hcall
    rw [if_neg (by omega), hsame]

theorem call_overwrites_iff (op : Set) (hne : op.items ≠ []) (l : List α) :
    ∃ l', op.call l = some (l', ()) ∧
      (Overwrites op.pos (op.items.map ListValue.as) l l' ↔
        Harmless op.pos (op.items.map ListValue.as) l) := by
  have hn : 0 < op.items.length := List.length_pos_iff.mpr hne
  by_cases h : InBounds l.length op.pos
  · have hpos := position_bounds h
    obtain ⟨l', hcall, hlen, hget⟩ := op.call_getElem? l (selection_inBounds h hn) (by omega)
    refine ⟨l', hcall, iff_of_true ⟨hlen, ?_⟩ ?_⟩
    · intro j
      rw [hget, List.length_map]
      apply if_congr _ rfl rfl
      constructor
      · intro hj
        exact ⟨h, by omega, by omega⟩
      · rintro ⟨_, hb, he⟩
        exact ⟨by omega, by omega⟩
    · intro i hi
      rw [strays_inBounds h] at hi
      exact absurd hi (Nat.not_lt_zero i)
  · obtain ⟨b, e, hsel, hcount, hb⟩ := selection_outOfBounds (n := op.items.length) h hn
    have hle := strays_le l.length op.items.length op.pos
    obtain ⟨l', hcall, hlen, hget⟩ := op.call_getElem? l hsel (by omega)
    refine ⟨l', hcall, ?_⟩
    rw [overwrites_outOfBounds h]
    unfold Harmless
    rw [List.length_map]
    constructor
    · rintro rfl i hi
      have hbi := hget (b + i)
      rw [if_pos ⟨by omega, by omega⟩, Nat.add_sub_cancel_left] at hbi
      rw [← hb (by omega), hbi]
    · intro hsame
      apply List.ext_getElem?
      intro j
      rw [hget]
      split
      · next hj =>
        have hji := hsame (j - b) (by omega)
        rw [← hb (by omega), Nat.add_sub_of_le hj.1] at hji
        exact hji.symm
      · rfl

end Set

end Operations

/-! ### Requests -/

namespace ListHandler

variable {s : ListHandler} {name : Bytes} {a : Alternative} {d : List a.ValueType}
  {items : TypedVector}

/-- Overwriting an unsorted list puts the items at their position, unless items that go astray
change an element. -/
theorem step_set_iff (h : Holds s name a d false) (hne : items ≠ []) (position : Int32) :
    (∃ d', Set.Overwrites position.toInt (items.map ListValue.as) d d' ∧
      machine.step s (.set { name, items, position }) =
        some (s.insert name (FcList.ofList ⟨a, d'⟩ false), ⟨[⟨.ok, .listSet, none⟩]⟩)) ↔
    Set.Harmless position.toInt (items.map ListValue.as) d := by
  let req : ListSet := { name, items, position }
  obtain ⟨d', hcall, hiff⟩ := Set.call_overwrites_iff ⟨items, position.toInt⟩ hne d
  have hstep : machine.step s (.set req) =
      some (s.insert name (FcList.ofList ⟨a, d'⟩ false), ⟨[⟨.ok, .listSet, none⟩]⟩) :=
    Handling.answered_eq_some.mpr
      (@handleSet_unsorted s {} _ req h (FcList.ofList_typesAgree _ _) hne rfl d' hcall)
  rw [← hiff]
  constructor
  · rintro ⟨d'', hover, hstep'⟩
    have hstore := congrArg (Option.map fun r => r.1.lookup name) (hstep.symm.trans hstep')
    simp only [Option.map_some, Finmap.lookup_insert, Option.some.injEq, FcList.ofList,
      FcList.mk.injEq, ListVariant.mk.injEq, heq_eq_eq, true_and, and_true] at hstore
    rwa [hstore]
  · intro hover
    exact ⟨d', hover, hstep⟩

/-- Only the item that the list has room for is written. -/
theorem step_set_iff_last : ∃ s : ListHandler, Holds s [97] .intList [1, 2, 3] false ∧
    ∃ d' : List Int64, Set.Overwrites (α := Int64) (-1) [8, 9] [1, 2, 3] d' ∧
      machine.step s (.set
          { name := [97], items := [⟨8, 8, ⟨0⟩, []⟩, ⟨9, 9, ⟨0⟩, []⟩], position := -1 }) =
        some (s.insert [97] (FcList.ofList ⟨.intList, d'⟩ false),
          ⟨[⟨.ok, .listSet, none⟩]⟩) := by
  have h : Holds (Finmap.insert [97] (FcList.ofList ⟨.intList, [1, 2, 3]⟩ false) ∅) [97] .intList
      [1, 2, 3] false := Finmap.lookup_insert _
  have hne : ([⟨8, 8, ⟨0⟩, []⟩, ⟨9, 9, ⟨0⟩, []⟩] : TypedVector) ≠ [] := List.cons_ne_nil _ _
  refine ⟨_, h, (step_set_iff h hne (-1)).mpr ?_⟩
  intro i hi
  exact absurd hi (Nat.not_lt_zero i)

/-- At position -5, the second of three elements is overwritten. -/
theorem not_step_set : ¬ ∀ (s : ListHandler) (name : Bytes) (a : Alternative)
    (d : List a.ValueType) (items : TypedVector) (position : Int32), Holds s name a d false →
    items ≠ [] → ∃ d', Set.Overwrites position.toInt (items.map ListValue.as) d d' ∧
      machine.step s (.set { name, items, position }) =
        some (s.insert name (FcList.ofList ⟨a, d'⟩ false), ⟨[⟨.ok, .listSet, none⟩]⟩) := by
  intro hall
  have h : Holds (Finmap.insert [97] (FcList.ofList ⟨.intList, [1, 2, 3]⟩ false) ∅) [97] .intList
      [1, 2, 3] false := Finmap.lookup_insert _
  have hne : ([⟨9, 9, ⟨0⟩, []⟩] : TypedVector) ≠ [] := List.cons_ne_nil _ _
  obtain ⟨d', hover, hstep⟩ := hall _ _ _ _ [⟨9, 9, ⟨0⟩, []⟩] (-5) h hne
  have hout : ¬ InBounds 3 (Int32.toInt (-5)) := by decide
  have hsame : d' = [1, 2, 3] :=
    (@Set.overwrites_outOfBounds Int64 (Int32.toInt (-5)) [9] [1, 2, 3] d' hout).mp hover
  subst hsame
  revert hstep
  decide +kernel

end ListHandler

end FCache
