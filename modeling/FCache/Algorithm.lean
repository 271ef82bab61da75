import Mathlib.Data.List.Basic
import Mathlib.Order.Lattice
import Mathlib.Order.Nat

/-!
# The sequence algorithms of the standard library on lists

Iterators into a list are positions. The comparator `lt` plays `operator<`; it is a Boolean
function because the algorithms run on element types whose comparison is no order at all
(floating point with NaN). Their loops are those of the usual implementation, so that a result
is determined on every input; what the standard promises is proved for ascending lists.
-/

namespace Algorithm

variable {α : Type*}

/-- The binary search loop on `[first, first + len)`: halve the range until it is empty, moving
right past the middle element when it meets `p`. -/
def partitionLoop (p : α → Bool) (xs : List α) : (fuel first len : ℕ) → ℕ
  | 0, first, _ => first
  | fuel + 1, first, len =>
    if len = 0 then first
    else
      match xs[first + len / 2]? with
      | none => first
      | some x =>
        if p x then partitionLoop p xs fuel (first + len / 2 + 1) (len - len / 2 - 1)
        else partitionLoop p xs fuel first (len / 2)

def lowerBound (lt : α → α → Bool) (xs : List α) (first len : ℕ) (v : α) : ℕ :=
  partitionLoop (fun x => lt x v) xs len first len

def upperBound (lt : α → α → Bool) (xs : List α) (first len : ℕ) (v : α) : ℕ :=
  partitionLoop (fun x => !lt v x) xs len first len

/-- `equal_range` narrows the range as `lower_bound` does until it meets an element equivalent
to `v`, then searches the two halves around it. -/
def equalRangeLoop (lt : α → α → Bool) (xs : List α) (v : α) : (fuel first len : ℕ) → ℕ × ℕ
  | 0, first, _ => (first, first)
  | fuel + 1, first, len =>
    if len = 0 then (first, first)
    else
      let middle := first + len / 2
      match xs[middle]? with
      | none => (first, first)
      | some x =>
        if lt x v then equalRangeLoop lt xs v fuel (middle + 1) (len - len / 2 - 1)
        else if lt v x then equalRangeLoop lt xs v fuel first (len / 2)
        else (lowerBound lt xs first (len / 2) v,
          upperBound lt xs (middle + 1) (len - len / 2 - 1) v)

def equalRange (lt : α → α → Bool) (xs : List α) (first len : ℕ) (v : α) : ℕ × ℕ :=
  equalRangeLoop lt xs v len first len

/-- The compaction loop of `remove_if`: `result` is where the next kept element goes, `first`
the element looked at, and `n` elements are left. What stays behind `result` is unspecified. -/
def removeIfLoop (p : α → Bool) : (xs : List α) → (result first n : ℕ) → List α × ℕ
  | xs, result, _, 0 => (xs, result)
  | xs, result, first, n + 1 =>
    match xs[first]? with
    | none => (xs, result)
    | some x =>
      if p x then removeIfLoop p xs result (first + 1) n
      else removeIfLoop p (xs.set result x) (result + 1) (first + 1) n

def removeIf (p : α → Bool) (xs : List α) (first last : ℕ) : List α × ℕ :=
  removeIfLoop p xs first first (last - first)

/-- The second cursor of `set_intersection` while the first one stands on `a`; `next` goes on
from the element after `a`. -/
def intersectFrom (lt : α → α → Bool) (a : α) (next : List α → List α) : List α → List α
  | [] => []
  | b :: bs =>
    if lt a b then next (b :: bs)
    else if lt b a then intersectFrom lt a next bs
    else a :: next bs

def setIntersection (lt : α → α → Bool) : List α → List α → List α
  | [], _ => []
  | a :: as, bs => intersectFrom lt a (setIntersection lt as) bs

section Search

variable (p : α → Bool) (xs : List α)

theorem partitionLoop_mem_range (fuel first len : ℕ) :
    first ≤ partitionLoop p xs fuel first len ∧
      partitionLoop p xs fuel first len ≤ first + len := by
  induction fuel generalizing first len with
  | zero => simp [partitionLoop]
  | succ fuel ih =>
    simp only [partitionLoop]
    split
    · omega
    · cases hx : xs[first + len / 2]? with
      | none => simp
      | some x =>
        have hr := ih (first + len / 2 + 1) (len - len / 2 - 1)
        have hl := ih first (len / 2)
        by_cases hp : p x
        · simp only [hp, if_true]
          omega
        · simp only [hp, Bool.false_eq_true, if_false]
          omega

/-- On a range partitioned by `p` the loop stops at the partition point. -/
theorem partitionLoop_spec (hp : xs.Pairwise fun x y => p y → p x) {fuel first len : ℕ}
    (hfuel : len ≤ fuel) (hlen : first + len ≤ xs.length) :
    (∀ i x, first ≤ i → i < partitionLoop p xs fuel first len → xs[i]? = some x → p x) ∧
      (∀ i x, partitionLoop p xs fuel first len ≤ i → i < first + len → xs[i]? = some x →
        ¬ p x) := by
  induction fuel generalizing first len with
  | zero =>
    simp only [partitionLoop]
    exact ⟨fun i x h h' => by omega, fun i x h h' => by omega⟩
  | succ fuel ih =>
    simp only [partitionLoop]
    split
    · exact ⟨fun i x h h' => by omega, fun i x h h' => by omega⟩
    · have hmid : first + len / 2 < xs.length := by omega
      have hm : xs[first + len / 2]? = some xs[first + len / 2] := List.getElem?_eq_getElem hmid
      rw [hm]
      have hmono := List.pairwise_iff_getElem.mp hp
      by_cases hx : p xs[first + len / 2]
      · simp only [hx, if_true]
        obtain ⟨hl, hr⟩ := @ih (first + len / 2 + 1) (len - len / 2 - 1) (by omega) (by omega)
        refine ⟨fun i x h h' he => ?_, fun i x h h' he => hr i x h (by omega) he⟩
        by_cases hi : first + len / 2 + 1 ≤ i
        · exact hl i x hi h' he
        · obtain ⟨hi', rfl⟩ := List.getElem?_eq_some_iff.mp he
          rcases Nat.eq_or_lt_of_le (show i ≤ first + len / 2 by omega) with rfl | hlt
          · exact hx
          · exact hmono i _ hi' hmid hlt hx
      · simp only [hx, Bool.false_eq_true, if_false]
        obtain ⟨hl, hr⟩ := @ih first (len / 2) (by omega) (by omega)
        refine ⟨hl, fun i x h h' he => ?_⟩
        by_cases hi : i < first + len / 2
        · exact hr i x h hi he
        · obtain ⟨hi', rfl⟩ := List.getElem?_eq_some_iff.mp he
          rcases Nat.eq_or_lt_of_le (show first + len / 2 ≤ i by omega) with rfl | hlt
          · exact hx
          · exact fun hp' => hx (hmono _ i hmid hi' hlt hp')

theorem equalRangeLoop_mem_range (lt : α → α → Bool) (v : α) (fuel first len : ℕ) :
    first ≤ (equalRangeLoop lt xs v fuel first len).1 ∧
      (equalRangeLoop lt xs v fuel first len).1 ≤ (equalRangeLoop lt xs v fuel first len).2 ∧
      (equalRangeLoop lt xs v fuel first len).2 ≤ first + len := by
  induction fuel generalizing first len with
  | zero => simp [equalRangeLoop]
  | succ fuel ih =>
    simp only [equalRangeLoop]
    split
    · simp
    · cases hx : xs[first + len / 2]? with
      | none => simp
      | some x =>
        have hr := ih (first + len / 2 + 1) (len - len / 2 - 1)
        have hl := ih first (len / 2)
        by_cases h₁ : lt x v
        · simp only [h₁, if_true]
          omega
        · by_cases h₂ : lt v x
          · simp only [h₁, h₂, Bool.false_eq_true, if_true, if_false]
            omega
          · simp only [h₁, h₂, Bool.false_eq_true, if_false]
            have hlow := partitionLoop_mem_range (fun x => lt x v) xs (len / 2) first (len / 2)
            have hup := partitionLoop_mem_range (fun x => !lt v x) xs (len - len / 2 - 1)
              (first + len / 2 + 1) (len - len / 2 - 1)
            simp only [lowerBound, upperBound]
            omega

end Search

theorem lowerBound_mem_range (lt : α → α → Bool) (xs : List α) (first len : ℕ) (v : α) :
    first ≤ lowerBound lt xs first len v ∧ lowerBound lt xs first len v ≤ first + len :=
  partitionLoop_mem_range _ _ _ _ _

theorem removeIfLoop_length (p : α → Bool) (xs : List α) (result first n : ℕ) :
    (removeIfLoop p xs result first n).1.length = xs.length := by
  induction n generalizing xs result first with
  | zero => rfl
  | succ n ih =>
    simp only [removeIfLoop]
    cases xs[first]? with
    | none => rfl
    | some x =>
      by_cases hp : p x
      · simp only [hp, if_true, ih]
      · simp only [hp, Bool.false_eq_true, if_false, ih, List.length_set]

theorem removeIfLoop_le (p : α → Bool) (xs : List α) (result first n : ℕ) :
    (removeIfLoop p xs result first n).2 ≤ result + n := by
  induction n generalizing xs result first with
  | zero => simp [removeIfLoop]
  | succ n ih =>
    simp only [removeIfLoop]
    cases xs[first]? with
    | none => simp
    | some x =>
      have h₁ := ih xs result (first + 1)
      have h₂ := ih (xs.set result x) (result + 1) (first + 1)
      by_cases hp : p x
      · simp only [hp, if_true]
        omega
      · simp only [hp, Bool.false_eq_true, if_false]
        omega

theorem setIntersection_sublist (lt : α → α → Bool) (xs ys : List α) :
    (setIntersection lt xs ys).Sublist xs := by
  induction xs generalizing ys with
  | nil => exact List.Sublist.refl _
  | cons a as ih =>
    simp only [setIntersection]
    induction ys with
    | nil => exact List.nil_sublist _
    | cons b bs ihb =>
      simp only [intersectFrom]
      split
      · exact (ih _).cons a
      · split
        · exact ihb
        · exact (ih _).cons_cons a

section Ends

variable [LinearOrder α] {xs : List α} (hxs : xs.Pairwise (· ≤ ·))
include hxs

theorem le_back {back x : α} (hback : xs.getLast? = some back) (hx : x ∈ xs) : x ≤ back := by
  obtain ⟨ys, rfl⟩ := List.getLast?_eq_some_iff.mp hback
  rcases List.mem_append.mp hx with hx | hx
  · exact (List.pairwise_append.mp hxs).2.2 x hx back (by simp)
  · exact (List.mem_singleton.mp hx).le

theorem front_le {front x : α} (hfront : xs.head? = some front) (hx : x ∈ xs) :
    front ≤ x := by
  obtain ⟨ys, rfl⟩ := List.head?_eq_some_iff.mp hfront
  rcases List.mem_cons.mp hx with rfl | hx
  · exact le_refl _
  · exact (List.pairwise_cons.mp hxs).1 x hx

end Ends

section Ascending

variable [LinearOrder α] {lt : α → α → Bool} (hlt : ∀ a b, lt a b = true ↔ a < b)
  {xs : List α}
include hlt

theorem lowerBound_getElem? (hxs : xs.Pairwise (· ≤ ·)) {first len : ℕ}
    (hlen : first + len ≤ xs.length) (v : α) :
    (∀ i x, first ≤ i → i < lowerBound lt xs first len v → xs[i]? = some x → x < v) ∧
      (∀ i x, lowerBound lt xs first len v ≤ i → i < first + len → xs[i]? = some x → v ≤ x) := by
  have hpart : xs.Pairwise fun x y => lt y v = true → lt x v = true := by
    refine hxs.imp ?_
    intro x y hxy h
    exact (hlt x v).mpr (hxy.trans_lt ((hlt y v).mp h))
  obtain ⟨hl, hr⟩ := partitionLoop_spec (fun x => lt x v) xs hpart (le_refl len) hlen
  constructor
  · intro i x h h' hx
    exact (hlt x v).mp (hl i x h h' hx)
  · intro i x h h' hx
    exact not_lt.mp fun hlow => hr i x h h' hx ((hlt x v).mpr hlow)

theorem upperBound_getElem? (hxs : xs.Pairwise (· ≤ ·)) {first len : ℕ}
    (hlen : first + len ≤ xs.length) (v : α) :
    (∀ i x, first ≤ i → i < upperBound lt xs first len v → xs[i]? = some x → x ≤ v) ∧
      (∀ i x, upperBound lt xs first len v ≤ i → i < first + len → xs[i]? = some x → v < x) := by
  have hle : ∀ x, (!lt v x) = true ↔ x ≤ v := by
    intro x
    rw [Bool.not_eq_true', Bool.eq_false_iff, ne_eq, hlt, not_lt]
  have hpart : xs.Pairwise fun x y => (!lt v y) = true → (!lt v x) = true := by
    refine hxs.imp ?_
    intro x y hxy h
    exact (hle x).mpr (hxy.trans ((hle y).mp h))
  obtain ⟨hl, hr⟩ := partitionLoop_spec (fun x => !lt v x) xs hpart (le_refl len) hlen
  constructor
  · intro i x h h' hx
    exact (hle x).mp (hl i x h h' hx)
  · intro i x h h' hx
    exact not_le.mp fun hlow => hr i x h h' hx ((hle x).mpr hlow)

/-- `lower_bound` over the tail of an ascending list from `first` on splits that tail at `v`. -/
theorem lowerBound_spec (hxs : xs.Pairwise (· ≤ ·)) {first len : ℕ}
    (hlen : first + len = xs.length) (v : α) :
    (∀ x ∈ (xs.take (lowerBound lt xs first len v)).drop first, x < v) ∧
      (∀ x ∈ xs.drop (lowerBound lt xs first len v), v ≤ x) := by
  obtain ⟨hl, hr⟩ := lowerBound_getElem? hlt hxs hlen.le v
  constructor
  · intro x hx
    obtain ⟨i, hi⟩ := List.mem_iff_getElem?.mp hx
    rw [List.getElem?_drop, List.getElem?_take] at hi
    split at hi
    · exact hl _ x (by omega) (by assumption) hi
    · cases hi
  · intro x hx
    obtain ⟨i, hi⟩ := List.mem_iff_getElem?.mp hx
    rw [List.getElem?_drop] at hi
    have hlast := (List.getElem?_eq_some_iff.mp hi).1
    exact hr _ x (Nat.le_add_right _ i) (by omega) hi

/-- Inserting at the lower bound of an ascending tail keeps the whole list ascending, if what
stands before the tail is not above the inserted value. -/
theorem insert_lowerBound_ascending (hxs : xs.Pairwise (· ≤ ·)) {first len : ℕ}
    (hlen : first + len = xs.length) {v : α} (hv : ∀ x ∈ xs.take first, x ≤ v) :
    (∀ x ∈ xs.take (lowerBound lt xs first len v), x ≤ v) ∧
      (xs.take (lowerBound lt xs first len v) ++
        v :: xs.drop (lowerBound lt xs first len v)).Pairwise (· ≤ ·) := by
  obtain ⟨hl, hr⟩ := lowerBound_spec hlt hxs hlen v
  have hle := (lowerBound_mem_range lt xs first len v).1
  set k := lowerBound lt xs first len v
  have htake : ∀ x ∈ xs.take k, x ≤ v := by
    intro x hx
    rw [← List.take_append_drop first (xs.take k), List.mem_append] at hx
    rcases hx with hx | hx
    · rw [List.take_take, Nat.min_eq_left hle] at hx
      exact hv x hx
    · exact (hl x hx).le
  refine ⟨htake, ?_⟩
  have happ := List.pairwise_append.mp ((List.take_append_drop k xs).symm ▸ hxs)
  refine List.pairwise_append.mpr ⟨happ.1, List.pairwise_cons.mpr ⟨hr, happ.2.1⟩, ?_⟩
  intro x hx y hy
  rcases List.mem_cons.mp hy with rfl | hy
  · exact htake x hx
  · exact happ.2.2 x hx y hy

end Ascending

end Algorithm
