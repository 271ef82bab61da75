import FCache.Algorithm
import FCache.Slice
import Mathlib.Data.List.Sort

/-!
# What the sequence algorithms compute

Removing by a predicate filters its range. On ascending lists, the equal range of a value is the
stretch of its occurrences, so erasing it filters too, and the intersection of two ranges holds
each value as often as the range that has fewer of it.
-/

namespace Algorithm

open Slice

variable {α : Type*}

/-! ### Removing by a predicate -/

/-- The compaction loop has kept what is in front of `result` and looks at the elements from
`first` on, which no write has reached. -/
theorem removeIfLoop_spec (p : α → Bool) {xs : List α} {result first n : ℕ} (hr : result ≤ first)
    (hn : first + n ≤ xs.length) :
    (removeIfLoop p xs result first n).1.take (removeIfLoop p xs result first n).2 =
        xs.take result ++ (block xs first (first + n)).filter (fun x => !p x) ∧
      (removeIfLoop p xs result first n).1.drop (first + n) = xs.drop (first + n) := by
  induction n generalizing xs result first with
  | zero =>
    rw [Nat.add_zero, block_eq_nil xs (Nat.le_refl first)]
    simp [removeIfLoop]
  | succ n ih =>
    have hfirst : first < xs.length := by omega
    have hnext : first + (n + 1) = first + 1 + n := by omega
    have hhead : block xs first (first + 1 + n) =
        xs[first] :: block xs (first + 1) (first + 1 + n) := by
      rw [block_eq_take_drop, block_eq_take_drop, List.drop_eq_getElem_cons hfirst]
      have hcount : first + 1 + n - first = (first + 1 + n - (first + 1)) + 1 := by omega
      rw [hcount, List.take_succ_cons]
    rw [hnext, hhead]
    simp only [removeIfLoop, List.getElem?_eq_getElem hfirst]
    by_cases hp : p xs[first] = true
    · have hrec := @ih xs result (first + 1) (by omega) (by omega)
      simpa [hp] using hrec
    · obtain ⟨htake, hdrop⟩ := @ih (xs.set result xs[first]) (result + 1) (first + 1) (by omega)
        (by rw [List.length_set]; omega)
      have hkept : (xs.set result xs[first]).take (result + 1) = xs.take result ++ [xs[first]] := by
        rw [List.take_add_one, List.take_set_of_le (Nat.le_refl result),
          List.getElem?_set_self (by omega)]
        rfl
      have hrest : block (xs.set result xs[first]) (first + 1) (first + 1 + n) =
          block xs (first + 1) (first + 1 + n) := by
        rw [block_eq_take_drop, block_eq_take_drop, List.drop_set_of_lt (by omega)]
      rw [hkept, hrest] at htake
      rw [List.drop_set_of_lt (by omega)] at hdrop
      simp only [hp, Bool.false_eq_true, if_false]
      refine ⟨?_, hdrop⟩
      simpa [hp] using htake

theorem removeIf_spec (p : α → Bool) {xs : List α} {first last : ℕ} (hle : first ≤ last)
    (hlast : last ≤ xs.length) :
    splice (removeIf p xs first last).1 (removeIf p xs first last).2 last [] =
      splice xs first last ((block xs first last).filter fun x => !p x) := by
  have hsum : first + (last - first) = last := Nat.add_sub_of_le hle
  obtain ⟨htake, hdrop⟩ := @removeIfLoop_spec _ p xs first first (last - first)
    (Nat.le_refl first) (by omega)
  rw [hsum] at htake hdrop
  unfold splice removeIf
  rw [htake, hdrop, List.append_nil]

theorem setIntersection_nil_right (lt : α → α → Bool) (xs : List α) :
    setIntersection lt xs [] = [] := by
  cases xs <;> rfl

section Ascending

variable [LinearOrder α] {lt : α → α → Bool} (hlt : ∀ a b, lt a b = true ↔ a < b)
  {xs ys : List α}
include hlt

/-! ### Equal ranges -/

/-- Between `first` and `last` the elements are below `v` in front of `r.1`, equal to it up to
`r.2`, and above it from there on. -/
structure IsEqualRange (xs : List α) (v : α) (first last : ℕ) (r : ℕ × ℕ) : Prop where
  below : ∀ i x, first ≤ i → i < r.1 → xs[i]? = some x → x < v
  equal : ∀ i x, r.1 ≤ i → i < r.2 → xs[i]? = some x → x = v
  above : ∀ i x, r.2 ≤ i → i < last → xs[i]? = some x → v < x

omit hlt in
theorem isEqualRange_empty (xs : List α) (v : α) {first last : ℕ} (h : last ≤ first) :
    IsEqualRange xs v first last (first, first) :=
  ⟨fun i x h h' => by omega, fun i x h h' => by omega, fun i x h h' => by omega⟩

omit hlt in
theorem le_of_getElem? (hxs : xs.Pairwise (· ≤ ·)) {i j : ℕ} {x y : α} (hij : i ≤ j)
    (hx : xs[i]? = some x) (hy : xs[j]? = some y) : x ≤ y := by
  obtain ⟨hi, rfl⟩ := List.getElem?_eq_some_iff.mp hx
  obtain ⟨hj, rfl⟩ := List.getElem?_eq_some_iff.mp hy
  rcases Nat.eq_or_lt_of_le hij with rfl | hij
  · exact le_refl _
  · exact List.pairwise_iff_getElem.mp hxs i j hi hj hij

/-- Around an element equal to `v` the two bounds are searched on either side. -/
theorem isEqualRange_around (hxs : xs.Pairwise (· ≤ ·)) {first mid last : ℕ} {v : α}
    (hm : xs[mid]? = some v) (hfirst : first ≤ mid) (hlast : mid < last)
    (hlen : last ≤ xs.length) :
    IsEqualRange xs v first last (lowerBound lt xs first (mid - first) v,
      upperBound lt xs (mid + 1) (last - (mid + 1)) v) := by
  have hleft : first + (mid - first) = mid := Nat.add_sub_of_le hfirst
  have hright : mid + 1 + (last - (mid + 1)) = last := Nat.add_sub_of_le hlast
  obtain ⟨hl₁, hr₁⟩ := lowerBound_getElem? hlt hxs (hleft.le.trans (hlast.le.trans hlen)) v
  obtain ⟨hl₂, hr₂⟩ := upperBound_getElem? hlt hxs (hright.le.trans hlen) v
  rw [hleft] at hr₁
  rw [hright] at hr₂
  refine ⟨hl₁, ?_, hr₂⟩
  intro i x h h' hx
  rcases Nat.lt_trichotomy i mid with hi | rfl | hi
  · exact le_antisymm (le_of_getElem? hxs hi.le hx hm) (hr₁ i x h hi hx)
  · exact Option.some.inj (hx.symm.trans hm)
  · exact le_antisymm (hl₂ i x hi h' hx) (le_of_getElem? hxs hi.le hm hx)

theorem equalRangeLoop_spec (hxs : xs.Pairwise (· ≤ ·)) {fuel first len : ℕ} (hfuel : len ≤ fuel)
    (hlen : first + len ≤ xs.length) (v : α) :
    IsEqualRange xs v first (first + len) (equalRangeLoop lt xs v fuel first len) := by
  induction fuel generalizing first len with
  | zero => exact isEqualRange_empty xs v (by omega)
  | succ fuel ih =>
    simp only [equalRangeLoop]
    split
    · exact isEqualRange_empty xs v (by omega)
    · have hmid : first + len / 2 < xs.length := by omega
      have hm : xs[first + len / 2]? = some xs[first + len / 2] := List.getElem?_eq_getElem hmid
      rw [hm]
      by_cases h₁ : lt xs[first + len / 2] v = true
      · -- the middle and what stands before it are below `v`
        simp only [h₁, if_true]
        have hrange := @ih (first + len / 2 + 1) (len - len / 2 - 1) (by omega) (by omega)
        refine ⟨?_, hrange.equal, fun i x h h' => hrange.above i x h (by omega)⟩
        intro i x h h' hx
        by_cases hi : first + len / 2 + 1 ≤ i
        · exact hrange.below i x hi h' hx
        · exact (le_of_getElem? hxs (by omega) hx hm).trans_lt ((hlt _ _).mp h₁)
      · by_cases h₂ : lt v xs[first + len / 2] = true
        · -- the middle and what stands after it are above `v`
          simp only [h₁, h₂, Bool.false_eq_true, if_true, if_false]
          have hrange := @ih first (len / 2) (by omega) (by omega)
          refine ⟨hrange.below, hrange.equal, ?_⟩
          intro i x h h' hx
          by_cases hi : i < first + len / 2
          · exact hrange.above i x h hi hx
          · exact ((hlt _ _).mp h₂).trans_le (le_of_getElem? hxs (by omega) hm hx)
        · simp only [h₁, h₂, Bool.false_eq_true, if_false]
          have hv : xs[first + len / 2] = v :=
            le_antisymm (not_lt.mp fun h => h₂ ((hlt _ _).mpr h))
              (not_lt.mp fun h => h₁ ((hlt _ _).mpr h))
          have haround := isEqualRange_around hlt hxs (hv ▸ hm) (Nat.le_add_right first (len / 2))
            (by omega : first + len / 2 < first + len) hlen
          have hleft : first + len / 2 - first = len / 2 := by omega
          have hright : first + len - (first + len / 2 + 1) = len - len / 2 - 1 := by omega
          rwa [hleft, hright] at haround

/-- Erasing the equal range of `v` leaves the other elements of the range searched. -/
theorem equalRange_spec (hxs : xs.Pairwise (· ≤ ·)) {first last : ℕ} (hle : first ≤ last)
    (hlast : last ≤ xs.length) {v : α} {q : α → Bool} (hq : ∀ x, q x = true ↔ x = v) :
    splice xs (equalRange lt xs first (last - first) v).1
        (equalRange lt xs first (last - first) v).2 [] =
      splice xs first last ((block xs first last).filter fun x => !q x) := by
  have hsum : first + (last - first) = last := Nat.add_sub_of_le hle
  have hrange := equalRangeLoop_spec hlt hxs (le_refl (last - first)) (hsum.le.trans hlast) v
  obtain ⟨h₁, h₂, h₃⟩ := equalRangeLoop_mem_range xs lt v (last - first) first (last - first)
  rw [hsum] at hrange h₃
  unfold equalRange
  set low := (equalRangeLoop lt xs v (last - first) first (last - first)).1
  set high := (equalRangeLoop lt xs v (last - first) first (last - first)).2
  have hfront : (block xs first low).filter (fun x => !q x) = block xs first low := by
    apply List.filter_eq_self.mpr
    intro x hx
    obtain ⟨i, hi, hi', hx⟩ := (mem_block_iff xs).mp hx
    simpa using fun h => (hrange.below i x hi hi' hx).ne ((hq x).mp h)
  have hmiddle : (block xs low high).filter (fun x => !q x) = [] := by
    apply List.filter_eq_nil_iff.mpr
    intro x hx
    obtain ⟨i, hi, hi', hx⟩ := (mem_block_iff xs).mp hx
    simpa using (hq x).mpr (hrange.equal i x hi hi' hx)
  have hback : (block xs high last).filter (fun x => !q x) = block xs high last := by
    apply List.filter_eq_self.mpr
    intro x hx
    obtain ⟨i, hi, hi', hx⟩ := (mem_block_iff xs).mp hx
    simpa using fun h => (hrange.above i x hi hi' hx).ne' ((hq x).mp h)
  rw [← block_append xs h₁ (h₂.trans h₃), ← block_append xs h₂ h₃, List.filter_append,
    List.filter_append, hfront, hmiddle, hback, List.nil_append]
  exact splice_inner xs h₁ h₃

/-! ### Intersections -/

section Count

variable [BEq α] [LawfulBEq α]

omit hlt in
theorem count_eq_zero_of_lt {v : α} (h : ∀ x ∈ xs, v < x) : xs.count v = 0 := by
  apply List.count_eq_zero_of_not_mem
  intro hv
  exact lt_irrefl v (h v hv)

theorem setIntersection_count (hxs : xs.Pairwise (· ≤ ·)) (hys : ys.Pairwise (· ≤ ·)) (v : α) :
    (setIntersection lt xs ys).count v = min (xs.count v) (ys.count v) := by
  induction xs generalizing ys with
  | nil => simp [setIntersection]
  | cons a as ih =>
    obtain ⟨ha, has⟩ := List.pairwise_cons.mp hxs
    simp only [setIntersection]
    induction ys with
    | nil => simp [intersectFrom]
    | cons b bs ihb =>
      obtain ⟨hb, hbs⟩ := List.pairwise_cons.mp hys
      simp only [intersectFrom]
      by_cases hab : lt a b = true
      · -- `a` is below everything the second cursor still has to see
        have hlow : ∀ y ∈ b :: bs, a < y := by
          intro y hy
          rcases List.mem_cons.mp hy with rfl | hy
          · exact (hlt a y).mp hab
          · exact ((hlt a b).mp hab).trans_le (hb y hy)
        rw [if_pos hab, ih has hys]
        by_cases hv : a = v
        · subst hv
          rw [count_eq_zero_of_lt hlow, Nat.min_zero, Nat.min_zero]
        · rw [List.count_cons_of_ne hv]
      · rw [if_neg hab]
        by_cases hba : lt b a = true
        · have hlow : ∀ x ∈ a :: as, b < x := by
            intro x hx
            rcases List.mem_cons.mp hx with rfl | hx
            · exact (hlt b x).mp hba
            · exact ((hlt b a).mp hba).trans_le (ha x hx)
          rw [if_pos hba, ihb hbs]
          by_cases hv : b = v
          · subst hv
            rw [count_eq_zero_of_lt hlow, Nat.zero_min, Nat.zero_min]
          · rw [List.count_cons_of_ne hv]
        · obtain rfl : a = b :=
            le_antisymm (not_lt.mp fun h => hba ((hlt _ _).mpr h))
              (not_lt.mp fun h => hab ((hlt _ _).mpr h))
          rw [if_neg hba, List.count_cons, List.count_cons, List.count_cons, ih has hbs,
            Nat.add_min_add_right]

end Count

/-- Two ascending ranges have one intersection, whichever comes first. -/
theorem setIntersection_comm (hxs : xs.Pairwise (· ≤ ·)) (hys : ys.Pairwise (· ≤ ·)) :
    setIntersection lt xs ys = setIntersection lt ys xs := by
  have hperm : (setIntersection lt xs ys).Perm (setIntersection lt ys xs) := by
    rw [List.perm_iff_count]
    intro v
    rw [setIntersection_count hlt hxs hys, setIntersection_count hlt hys hxs, Nat.min_comm]
  apply hperm.eq_of_pairwise (fun x y _ _ => le_antisymm)
  · exact hxs.sublist (setIntersection_sublist lt xs ys)
  · exact hys.sublist (setIntersection_sublist lt ys xs)

end Ascending

end Algorithm
