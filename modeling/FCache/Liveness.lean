import FCache.Machine
import Mathlib.Tactic.Common

/-!
# Executions that go on for ever

An execution of a machine is fair to an input if it does not ignore the input for ever while the
input could be read. What a fair input is sure to bring about comes about; from such steps the
rest is put together.
-/

namespace Machine

variable {σ ι ο : Type*} {M : Machine σ ι ο}

def Enabled (M : Machine σ ι ο) (s : σ) (i : ι) : Prop := ∃ s' o, M.step s i = some (s', o)

structure Execution (M : Machine σ ι ο) where
  state : ℕ → σ
  input : ℕ → ι
  output : ℕ → ο
  start : state 0 = M.init
  step : ∀ t, M.step (state t) (input t) = some (state (t + 1), output t)

namespace Execution

variable {E : M.Execution} {P Q R : σ → Prop} {i : ι}

theorem invariant {I : σ → Prop} (E : M.Execution) (h₀ : I M.init)
    (hstep : ∀ s i s' o, I s → M.step s i = some (s', o) → I s') (t : ℕ) : I (E.state t) := by
  induction t with
  | zero => exact E.start ▸ h₀
  | succ t ih => exact hstep _ _ _ _ ih (E.step t)

def Fair (E : M.Execution) (i : ι) : Prop :=
  ∀ t, (∀ u, t ≤ u → M.Enabled (E.state u) i) → ∃ u, t ≤ u ∧ E.input u = i

theorem fair_of_disabled (h : ∀ t, ∃ u, t ≤ u ∧ ¬ M.Enabled (E.state u) i) : E.Fair i := by
  intro t henabled
  obtain ⟨u, htu, hnot⟩ := h t
  exact absurd (henabled u htu) hnot

def LeadsTo (E : M.Execution) (P Q : σ → Prop) : Prop :=
  ∀ t, P (E.state t) → ∃ u, t ≤ u ∧ Q (E.state u)

theorem LeadsTo.of_imp (h : ∀ t, P (E.state t) → Q (E.state t)) : E.LeadsTo P Q :=
  fun t hP => ⟨t, le_rfl, h t hP⟩

theorem LeadsTo.trans (hPQ : E.LeadsTo P Q) (hQR : E.LeadsTo Q R) : E.LeadsTo P R := by
  intro t hP
  obtain ⟨u, htu, hQ⟩ := hPQ t hP
  obtain ⟨v, huv, hR⟩ := hQR u hQ
  exact ⟨v, Nat.le_trans htu huv, hR⟩

theorem LeadsTo.or (hP : E.LeadsTo P R) (hQ : E.LeadsTo Q R) :
    E.LeadsTo (fun s => P s ∨ Q s) R := by
  rintro t (h | h)
  · exact hP t h
  · exact hQ t h

/-- An input that can be read as long as `P` holds without `Q`, and then brings about `Q`. -/
theorem leadsTo_of_fair (hfair : E.Fair i)
    (hkeep : ∀ t, P (E.state t) → P (E.state (t + 1)) ∨ Q (E.state (t + 1)))
    (henabled : ∀ t, P (E.state t) → Q (E.state t) ∨ M.Enabled (E.state t) i)
    (heffect : ∀ t, P (E.state t) → E.input t = i → Q (E.state (t + 1))) : E.LeadsTo P Q := by
  intro t hP
  by_contra! hnot
  have hall : ∀ u, t ≤ u → P (E.state u) := by
    intro u htu
    induction u, htu using Nat.le_induction with
    | base => exact hP
    | succ u htu ih => exact (hkeep u ih).resolve_right (hnot (u + 1) (by omega))
  have henabled : ∀ u, t ≤ u → M.Enabled (E.state u) i :=
    fun u htu => (henabled u (hall u htu)).resolve_left (hnot u htu)
  obtain ⟨u, htu, hi⟩ := hfair t henabled
  exact hnot (u + 1) (by omega) (heffect u (hall u htu) hi)

end Execution

/-! ### Executions from their inputs -/

/-- Where the inputs lead; one that cannot be read is passed over. -/
def stateAt (M : Machine σ ι ο) (input : ℕ → ι) : ℕ → σ
  | 0 => M.init
  | t + 1 => ((M.step (stateAt M input t) (input t)).map Prod.fst).getD (stateAt M input t)

def Execution.ofInputs (input : ℕ → ι)
    (h : ∀ t, (M.step (M.stateAt input t) (input t)).isSome) : M.Execution where
  state := M.stateAt input
  input := input
  output t := ((M.step (M.stateAt input t) (input t)).get (h t)).2
  start := rfl
  step t := by
    obtain ⟨r, hr⟩ := Option.isSome_iff_exists.mp (h t)
    simp [stateAt, hr]

end Machine
