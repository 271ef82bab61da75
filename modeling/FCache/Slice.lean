import Mathlib.Algebra.Order.Ring.Int
import Mathlib.Data.List.Basic
import Mathlib.Tactic.Common

/-!
# Slices of lists

A block of a list is what stands between two ends, and splicing puts other elements in its place.
A slice names a block the way scripting languages do: positions are signed and count from the end
when negative, the stop is excluded and may be missing. Unlike theirs, a slice whose start lies
outside the list is empty.
-/

namespace Slice

variable {α : Type*}

def block (l : List α) (b e : ℕ) : List α := (l.take e).drop b

def splice (l : List α) (b e : ℕ) (m : List α) : List α := l.take b ++ m ++ l.drop e

def InBounds (size : ℕ) (pos : ℤ) : Prop := -(size : ℤ) ≤ pos ∧ pos < size

instance (size : ℕ) (pos : ℤ) : Decidable (InBounds size pos) := inferInstanceAs (Decidable (_ ∧ _))

def position (size : ℕ) (pos : ℤ) : ℤ := if pos < 0 then size + pos else pos

/-- Where a slice ends; a stop in front of the list is its head. -/
def bound (size : ℕ) : Option ℤ → ℤ
  | none => size
  | some stop => if stop < 0 then max 0 (size + stop) else min size stop

def slice (l : List α) (start : ℤ) (stop : Option ℤ) : List α :=
  if InBounds l.length start then
    block l (position l.length start).toNat (bound l.length stop).toNat
  else []

theorem position_bounds {size : ℕ} {pos : ℤ} (h : InBounds size pos) :
    0 ≤ position size pos ∧ position size pos < size := by
  obtain ⟨hlow, hhigh⟩ := h
  unfold position
  split <;> omega

/-! ### Blocks -/

section Blocks

variable (l : List α) {b c e : ℕ}

theorem block_eq_take_drop (b e : ℕ) : block l b e = (l.drop b).take (e - b) := List.drop_take

theorem length_block (h : e ≤ l.length) : (block l b e).length = e - b := by
  unfold block
  rw [List.length_drop, List.length_take, Nat.min_eq_left h]

theorem block_eq_nil (h : e ≤ b) : block l b e = [] := by
  apply List.drop_eq_nil_of_le
  rw [List.length_take]
  omega

theorem block_eq_nil_iff (h : e ≤ l.length) : block l b e = [] ↔ e ≤ b := by
  constructor
  · intro hnil
    have hlen := length_block l (b := b) h
    rw [hnil, List.length_nil] at hlen
    omega
  · exact block_eq_nil l

theorem getElem?_block (b e i : ℕ) :
    (block l b e)[i]? = if b + i < e then l[b + i]? else none := by
  unfold block
  rw [List.getElem?_drop, List.getElem?_take]

theorem mem_block_iff {x : α} :
    x ∈ block l b e ↔ ∃ i, b ≤ i ∧ i < e ∧ l[i]? = some x := by
  rw [List.mem_iff_getElem?]
  constructor
  · rintro ⟨i, hi⟩
    rw [getElem?_block] at hi
    split at hi
    · exact ⟨b + i, Nat.le_add_right b i, by assumption, hi⟩
    · cases hi
  · rintro ⟨i, hb, he, hi⟩
    refine ⟨i - b, ?_⟩
    rw [getElem?_block, Nat.add_sub_of_le hb, if_pos he, hi]

theorem block_append (hb : b ≤ c) (he : c ≤ e) : block l b c ++ block l c e = block l b e := by
  simp only [block_eq_take_drop]
  have hsplit : e - b = (c - b) + (e - c) := by omega
  have hdrop : l.drop c = (l.drop b).drop (c - b) := by
    rw [List.drop_drop, Nat.add_sub_of_le hb]
  rw [hsplit, List.take_add, hdrop]

theorem take_append_block (h : b ≤ e) : l.take b ++ block l b e = l.take e := by
  have hfront : l.take b = block l 0 b := rfl
  rw [hfront, block_append l (Nat.zero_le b) h]
  rfl

theorem block_append_drop (h : b ≤ e) : block l b e ++ l.drop e = l.drop b := by
  rw [block_eq_take_drop]
  have hdrop : l.drop e = (l.drop b).drop (e - b) := by
    rw [List.drop_drop, Nat.add_sub_of_le h]
  rw [hdrop, List.take_append_drop]

/-- A list is the part before a block, the block, and the part after it. -/
theorem splice_block (h : b ≤ e) : splice l b e (block l b e) = l := by
  unfold splice
  rw [take_append_block l h, List.take_append_drop]

/-- Erasing within a block keeps the two ends of the block. -/
theorem splice_inner {d : ℕ} (hb : b ≤ c) (he : d ≤ e) :
    splice l c d [] = splice l b e (block l b c ++ block l d e) := by
  unfold splice
  rw [List.append_nil, ← take_append_block l hb, ← block_append_drop l he]
  simp only [List.append_assoc]

/-- Filtering a block that is kept, dropped and kept again takes out its middle. -/
theorem splice_filter {d : ℕ} (hb : b ≤ c) (hc : c ≤ d) (he : d ≤ e) {p : α → Bool}
    (hfront : ∀ x ∈ block l b c, p x = true) (hmiddle : ∀ x ∈ block l c d, ¬ p x = true)
    (hback : ∀ x ∈ block l d e, p x = true) :
    splice l c d [] = splice l b e ((block l b e).filter p) := by
  rw [← block_append l hb (hc.trans he), ← block_append l hc he, List.filter_append,
    List.filter_append, List.filter_eq_self.mpr hfront, List.filter_eq_nil_iff.mpr hmiddle,
    List.filter_eq_self.mpr hback, List.nil_append]
  exact splice_inner l hb he

theorem splice_nil_of_eq (b : ℕ) : splice l b b [] = l := by
  unfold splice
  rw [List.append_nil, List.take_append_drop]

theorem splice_sublist (h : b ≤ e) {m : List α} (hm : m.Sublist (block l b e)) :
    (splice l b e m).Sublist l := by
  have hsub : (splice l b e m).Sublist (splice l b e (block l b e)) :=
    (hm.append_left _).append_right _
  rwa [splice_block l h] at hsub

theorem getElem?_splice {m : List α} (hb : b ≤ e) (he : e ≤ l.length) (hm : m.length = e - b)
    (j : ℕ) : (splice l b e m)[j]? = if b ≤ j ∧ j < e then m[j - b]? else l[j]? := by
  have hfront : (l.take b).length = b := by
    rw [List.length_take]
    omega
  unfold splice
  rw [List.append_assoc, List.getElem?_append, hfront, List.getElem?_append, hm]
  by_cases hj : j < b
  · rw [if_pos hj, if_neg (by omega), List.getElem?_take_of_lt hj]
  · rw [if_neg hj]
    by_cases hj' : j < e
    · rw [if_pos (by omega), if_pos (by omega)]
    · have hrest : e + (j - b - (e - b)) = j := by omega
      rw [if_neg (by omega), if_neg (by omega), List.getElem?_drop, hrest]

end Blocks

/-- The first `k` blocks of `n` elements are the first `k * n` elements. -/
theorem flatten_blocks (l : List α) (n k : ℕ) :
    ((List.range k).map fun i => (l.drop (i * n)).take n).flatten = l.take (k * n) := by
  induction k with
  | zero => simp
  | succ k ih =>
    rw [List.range_succ, List.map_append, List.flatten_append, ih, Nat.succ_mul, List.take_add]
    simp

/-- A decomposition around a block, wherever the block is unless it is empty. -/
theorem append_eq_splice {l p m q : List α} {b e : ℕ} (hl : l = p ++ m ++ q)
    (hm : m = block l b e) (hbe : b ≤ e) (hp : m ≠ [] → p.length = b) {f : List α → List α}
    (hf : f [] = []) : p ++ f m ++ q = splice l b e (f m) := by
  by_cases hnil : m = []
  · have hpq : p ++ q = l := by
      rw [hl, hnil, List.append_nil]
    have hself := splice_block l hbe
    rw [← hm, hnil] at hself
    rw [hnil, hf, hself, List.append_nil, hpq]
  · have hb := hp hnil
    have htake : l.take b = p := by
      rw [hl, List.append_assoc, ← hb, List.take_left]
    have hdrop : l.drop e = q := by
      have hrest : m ++ q = m ++ l.drop e := by
        calc m ++ q = l.drop b := by rw [hl, List.append_assoc, ← hb, List.drop_left]
          _ = block l b e ++ l.drop e := (block_append_drop l hbe).symm
          _ = m ++ l.drop e := by rw [← hm]
      exact (List.append_cancel_left hrest).symm
    unfold splice
    rw [htake, hdrop]

end Slice
