import FCache.AlgorithmSpec

/-!
# Elements compared by a key

Some element types are compared by a key that does not determine the element, and only some of
their elements are: floats, by the number they denote, unless they denote none. On such elements
the algorithms do what they do on the list of keys, so what is known of ascending keys carries over.
To an element that compares with nothing every element is equal.
-/

namespace Algorithm

open Slice

variable {α κ : Type*} {lt : α → α → Bool} {ltKey : κ → κ → Bool} {key : α → κ} {P : α → Prop}
  {xs : List α}

/-- On the elements that meet `P` the comparison is that of their keys. -/
def ComparesKeys (P : α → Prop) (key : α → κ) (lt : α → α → Bool) (ltKey : κ → κ → Bool) : Prop :=
  ∀ x y, P x → P y → lt x y = ltKey (key x) (key y)

theorem partitionLoop_map {p : α → Bool} {q : κ → Bool} (h : ∀ x ∈ xs, p x = q (key x))
    (fuel first len : ℕ) :
    partitionLoop q (xs.map key) fuel first len = partitionLoop p xs fuel first len := by
  induction fuel generalizing first len with
  | zero => rfl
  | succ fuel ih =>
    simp only [partitionLoop, List.getElem?_map]
    split
    · rfl
    · cases hx : xs[first + len / 2]? with
      | none => rfl
      | some x =>
        simp only [Option.map_some, h x (List.mem_of_getElem? hx), ih]

section Compare

variable (hkey : ComparesKeys P key lt ltKey) (hxs : ∀ x ∈ xs, P x)
include hkey hxs

theorem lowerBound_map {v : α} (hv : P v) (first len : ℕ) :
    lowerBound ltKey (xs.map key) first len (key v) = lowerBound lt xs first len v :=
  partitionLoop_map (fun x hx => hkey x v (hxs x hx) hv) len first len

theorem upperBound_map {v : α} (hv : P v) (first len : ℕ) :
    upperBound ltKey (xs.map key) first len (key v) = upperBound lt xs first len v :=
  partitionLoop_map (fun x hx => by rw [hkey v x hv (hxs x hx)]) len first len

theorem equalRangeLoop_map {v : α} (hv : P v) (fuel first len : ℕ) :
    equalRangeLoop ltKey (xs.map key) (key v) fuel first len =
      equalRangeLoop lt xs v fuel first len := by
  induction fuel generalizing first len with
  | zero => rfl
  | succ fuel ih =>
    simp only [equalRangeLoop, List.getElem?_map]
    split
    · rfl
    · cases hx : xs[first + len / 2]? with
      | none => rfl
      | some x =>
        have hPx := hxs x (List.mem_of_getElem? hx)
        simp only [Option.map_some, hkey x v hPx hv, hkey v x hv hPx, ih,
          lowerBound_map hkey hxs hv, upperBound_map hkey hxs hv]

/-- Erasing the equal range of `v` leaves the elements of the range searched whose key is not that
of `v`. -/
theorem equalRange_spec_key [LinearOrder κ] (hlt : ∀ a b, ltKey a b = true ↔ a < b)
    (hasc : (xs.map key).Pairwise (· ≤ ·)) {first last : ℕ} (hle : first ≤ last)
    (hlast : last ≤ xs.length) {v : α} (hv : P v) {q : α → Bool}
    (hq : ∀ x ∈ xs, q x = true ↔ key x = key v) :
    splice xs (equalRange lt xs first (last - first) v).1
        (equalRange lt xs first (last - first) v).2 [] =
      splice xs first last ((block xs first last).filter fun x => !q x) := by
  have hsum : first + (last - first) = last := Nat.add_sub_of_le hle
  have hlen : last ≤ (xs.map key).length := by rwa [List.length_map]
  have hrange := equalRangeLoop_spec hlt hasc (le_refl (last - first)) (hsum.le.trans hlen) (key v)
  rw [hsum, equalRangeLoop_map hkey hxs hv] at hrange
  obtain ⟨h₁, h₂, h₃⟩ := equalRangeLoop_mem_range xs lt v (last - first) first (last - first)
  rw [hsum] at h₃
  have hat : ∀ {b e : ℕ} {x : α}, x ∈ block xs b e → ∃ i, b ≤ i ∧ i < e ∧ x ∈ xs ∧
      (xs.map key)[i]? = some (key x) := by
    intro b e x hx
    obtain ⟨i, hi, hi', hx⟩ := (mem_block_iff xs).mp hx
    exact ⟨i, hi, hi', List.mem_of_getElem? hx, by rw [List.getElem?_map, hx, Option.map_some]⟩
  apply splice_filter xs h₁ h₂ h₃
  · intro x hx
    obtain ⟨i, hi, hi', hmem, hx⟩ := hat hx
    simpa using fun h => (hrange.below i _ hi hi' hx).ne ((hq x hmem).mp h)
  · intro x hx
    obtain ⟨i, hi, hi', hmem, hx⟩ := hat hx
    simpa using (hq x hmem).mpr (hrange.equal i _ hi hi' hx)
  · intro x hx
    obtain ⟨i, hi, hi', hmem, hx⟩ := hat hx
    simpa using fun h => (hrange.above i _ hi hi' hx).ne' ((hq x hmem).mp h)

theorem setIntersection_map {ys : List α} (hys : ∀ y ∈ ys, P y) :
    (setIntersection lt xs ys).map key = setIntersection ltKey (xs.map key) (ys.map key) := by
  induction xs generalizing ys with
  | nil => rfl
  | cons a as ih =>
    simp only [setIntersection, List.map_cons]
    have ha := hxs a List.mem_cons_self
    have has := fun x hx => hxs x (List.mem_cons_of_mem a hx)
    induction ys with
    | nil => rfl
    | cons b bs ihb =>
      have hb := hys b List.mem_cons_self
      have hbs := fun y hy => hys y (List.mem_cons_of_mem b hy)
      simp only [intersectFrom, List.map_cons, ← hkey a b ha hb, ← hkey b a hb ha]
      split
      · rw [ih has hys, List.map_cons]
      · split
        · exact ihb hbs
        · rw [List.map_cons, ih has hbs]

end Compare

theorem partitionLoop_of_false {p : α → Bool} (h : ∀ x, p x = false) (fuel first len : ℕ) :
    partitionLoop p xs fuel first len = first := by
  induction fuel generalizing len with
  | zero => rfl
  | succ fuel ih =>
    simp only [partitionLoop, h, Bool.false_eq_true, if_false, ih]
    split
    · rfl
    · split <;> rfl

theorem partitionLoop_of_true {p : α → Bool} (h : ∀ x, p x = true) {fuel first len : ℕ}
    (hfuel : len ≤ fuel) (hlen : first + len ≤ xs.length) :
    partitionLoop p xs fuel first len = first + len := by
  induction fuel generalizing first len with
  | zero =>
    obtain rfl : len = 0 := by omega
    rfl
  | succ fuel ih =>
    simp only [partitionLoop, h, if_true]
    split
    · omega
    · rw [List.getElem?_eq_getElem (by omega)]
      simp only
      rw [ih (by omega) (by omega)]
      omega

/-- The equal range of such an element is the whole range searched. -/
theorem equalRange_incomparable {v : α} (hl : ∀ x, lt x v = false) (hr : ∀ x, lt v x = false)
    {first len : ℕ} (hlen : first + len ≤ xs.length) :
    equalRange lt xs first len v = (first, first + len) := by
  unfold equalRange
  cases len with
  | zero => rfl
  | succ n =>
    have hmiddle : first + (n + 1) / 2 < xs.length := by omega
    simp only [equalRangeLoop, Nat.succ_ne_zero, if_false, List.getElem?_eq_getElem hmiddle, hl,
      hr, Bool.false_eq_true]
    unfold lowerBound upperBound
    rw [partitionLoop_of_false hl, partitionLoop_of_true (by simp [hr]) (le_refl _) (by omega)]
    simp only [Prod.mk.injEq, true_and]
    omega

end Algorithm
