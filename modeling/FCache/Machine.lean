import Mathlib.Data.List.Basic
import Mathlib.Data.List.Zip

/-!
# Deterministic machines with outputs

A machine reads inputs one at a time: `step s i` is the successor state together with the output
of the step, or `none` when the input has no successor in `s`. Three rules are derived once for
all machines: invariants of the reachable states, simulation of one machine by another with the
same outputs (step by step, or with stuttering), and the two-run rule for outputs that depend on a
part of the inputs only.
-/

structure Machine (σ ι ο : Type*) where
  init : σ
  step : σ → ι → Option (σ × ο)

namespace Machine

variable {σ τ ι ο : Type*} (M : Machine σ ι ο) (N : Machine τ ι ο)

/-- Final state and outputs of a run, `none` when some input has no successor. -/
def runFrom (s : σ) : List ι → Option (σ × List ο)
  | [] => some (s, [])
  | i :: is =>
    match M.step s i with
    | none => none
    | some (s', o) => (runFrom s' is).map fun r => (r.1, o :: r.2)

def run (is : List ι) : Option (σ × List ο) := M.runFrom M.init is

@[simp] theorem runFrom_nil (s : σ) : M.runFrom s [] = some (s, []) := rfl

theorem runFrom_cons (s : σ) (i : ι) (is : List ι) :
    M.runFrom s (i :: is) = (M.step s i).bind fun r =>
      (M.runFrom r.1 is).map fun q => (q.1, r.2 :: q.2) := by
  cases h : M.step s i <;> simp [runFrom, h]

theorem runFrom_cons_eq_some {s t : σ} {i : ι} {is : List ι} {os : List ο} :
    M.runFrom s (i :: is) = some (t, os) ↔
      ∃ s' o os', M.step s i = some (s', o) ∧ M.runFrom s' is = some (t, os') ∧ os = o :: os' := by
  rw [runFrom_cons]
  constructor
  · intro h
    simp only [Option.bind_eq_some_iff, Option.map_eq_some_iff, Prod.exists, Prod.mk.injEq] at h
    obtain ⟨s', o, hs, t', os', hr, rfl, rfl⟩ := h
    exact ⟨s', o, os', hs, hr, rfl⟩
  · rintro ⟨s', o, os', hs, hr, rfl⟩
    simp [hs, hr]

theorem runFrom_single {s t : σ} {i : ι} {o : ο} (h : M.step s i = some (t, o)) :
    M.runFrom s [i] = some (t, [o]) :=
  M.runFrom_cons_eq_some.mpr ⟨t, o, [], h, rfl, rfl⟩

theorem runFrom_pair_eq_some {s t : σ} {i j : ι} {os : List ο} :
    M.runFrom s [i, j] = some (t, os) ↔ ∃ s' o o',
      M.step s i = some (s', o) ∧ M.step s' j = some (t, o') ∧ os = [o, o'] := by
  rw [runFrom_cons_eq_some]
  constructor
  · rintro ⟨s', o, os', hs, hr, rfl⟩
    obtain ⟨t', o', _, ht, hnil, rfl⟩ := M.runFrom_cons_eq_some.mp hr
    obtain ⟨rfl, rfl⟩ := Prod.mk.inj (Option.some.inj hnil)
    exact ⟨s', o, o', hs, ht, rfl⟩
  · rintro ⟨s', o, o', hs, ht, rfl⟩
    exact ⟨s', o, [o'], hs, M.runFrom_cons_eq_some.mpr ⟨t, o', [], ht, rfl, rfl⟩, rfl⟩

/-- States reached by inputs that meet `ok` in the state in which they are read. -/
inductive ReachableBy (ok : σ → ι → Prop) : σ → Prop
  | init : ReachableBy ok M.init
  | step {s s' : σ} {i : ι} {o : ο} (hs : ReachableBy ok s) (hi : ok s i)
      (h : M.step s i = some (s', o)) : ReachableBy ok s'

abbrev Reachable : σ → Prop := M.ReachableBy fun _ _ => True

variable {M N}

/-- An assertion that holds initially and is preserved by every admitted step holds of every
state reached. -/
theorem ReachableBy.invariant {ok : σ → ι → Prop} {I : σ → Prop} (h₀ : I M.init)
    (hstep : ∀ s i s' o, I s → ok s i → M.step s i = some (s', o) → I s') {s : σ}
    (h : M.ReachableBy ok s) : I s := by
  induction h with
  | init => exact h₀
  | step _ hi hs ih => exact hstep _ _ _ _ ih hi hs

/-- The machine that reads an input only where it meets `ok`. -/
def restrict (M : Machine σ ι ο) (ok : σ → ι → Prop) [∀ s i, Decidable (ok s i)] :
    Machine σ ι ο where
  init := M.init
  step s i := if ok s i then M.step s i else none

theorem step_restrict_eq_some {ok : σ → ι → Prop} [∀ s i, Decidable (ok s i)] {s s' : σ}
    {i : ι} {o : ο} : (M.restrict ok).step s i = some (s', o) ↔
      ok s i ∧ M.step s i = some (s', o) := by
  by_cases hi : ok s i <;> simp [restrict, hi]

theorem reachableBy_of_runFrom_restrict {ok : σ → ι → Prop} [∀ s i, Decidable (ok s i)]
    {s t : σ} {is : List ι} {os : List ο} (hs : M.ReachableBy ok s)
    (h : (M.restrict ok).runFrom s is = some (t, os)) : M.ReachableBy ok t := by
  induction is generalizing s os with
  | nil =>
    simp only [runFrom_nil, Option.some.injEq, Prod.mk.injEq] at h
    exact h.1 ▸ hs
  | cons i is ih =>
    obtain ⟨s', o, os', hstep, hr, _⟩ := (M.restrict ok).runFrom_cons_eq_some.mp h
    obtain ⟨hi, hstep⟩ := step_restrict_eq_some.mp hstep
    exact ih (.step hs hi hstep) hr

/-- Forward simulation: if related states answer every input with the same output and related
successors, whole runs give the same outputs and end in related states. -/
theorem runFrom_simulates {R : σ → τ → Prop}
    (hstep : ∀ s t i, R s t → ∃ s' t' o, M.step s i = some (s', o) ∧ N.step t i = some (t', o) ∧
      R s' t') {s : σ} {t : τ} (h : R s t) (is : List ι) :
    ∃ s' t' os, M.runFrom s is = some (s', os) ∧ N.runFrom t is = some (t', os) ∧ R s' t' := by
  induction is generalizing s t with
  | nil => exact ⟨s, t, [], rfl, rfl, h⟩
  | cons i is ih =>
    obtain ⟨s₁, t₁, o, hs, ht, h₁⟩ := hstep s t i h
    obtain ⟨s₂, t₂, os, hs₂, ht₂, h₂⟩ := ih h₁
    exact ⟨s₂, t₂, o :: os, M.runFrom_cons_eq_some.mpr ⟨s₁, o, os, hs, hs₂, rfl⟩,
      N.runFrom_cons_eq_some.mpr ⟨t₁, o, os, ht, ht₂, rfl⟩, h₂⟩

/-- Simulation of a partial machine: if every step of `N` is matched by `M` on the translated
input, with the translated output, so is every run. -/
theorem runFrom_refines {κ ο' : Type*} {N : Machine τ κ ο'} {R : σ → τ → Prop} {f : κ → ι}
    {g : ο' → ο}
    (hstep : ∀ s t j t' o, R s t → N.step t j = some (t', o) →
      ∃ s', M.step s (f j) = some (s', g o) ∧ R s' t')
    {s : σ} {t t' : τ} {js : List κ} {os : List ο'} (h : R s t)
    (hr : N.runFrom t js = some (t', os)) :
    ∃ s', M.runFrom s (js.map f) = some (s', os.map g) ∧ R s' t' := by
  induction js generalizing s t os with
  | nil =>
    simp only [runFrom_nil, Option.some.injEq, Prod.mk.injEq] at hr
    obtain ⟨rfl, rfl⟩ := hr
    exact ⟨s, rfl, h⟩
  | cons j js ih =>
    obtain ⟨t₁, o, os', ht, hr₁, rfl⟩ := N.runFrom_cons_eq_some.mp hr
    obtain ⟨s₁, hs, h₁⟩ := hstep s t j t₁ o h ht
    obtain ⟨s', hrun, h'⟩ := ih h₁ hr₁
    exact ⟨s', M.runFrom_cons_eq_some.mpr ⟨s₁, g o, os'.map g, hs, hrun, rfl⟩, h'⟩

/-- The outputs of a run that answer the inputs selected by `p`. -/
def observe (p : ι → Bool) (is : List ι) (os : List ο) : List ο :=
  ((is.zip os).filter fun r => p r.1).map Prod.snd

@[simp] theorem observe_nil (p : ι → Bool) (os : List ο) : observe p [] os = [] := rfl

theorem observe_cons (p : ι → Bool) (i : ι) (is : List ι) (o : ο) (os : List ο) :
    observe p (i :: is) (o :: os) =
      if p i then o :: observe p is os else observe p is os := by
  by_cases h : p i <;> simp [observe, h]

/-- A stretch of inputs none of which is relevant keeps the relation and shows nothing. -/
theorem runFrom_irrelevant {R : σ → σ → Prop} {relevant visible : ι → Bool}
    (hvis : ∀ i, visible i → relevant i)
    (hskip : ∀ s t i s' o, R s t → relevant i = false → M.step t i = some (s', o) → R s s')
    {is : List ι} (hrel : is.filter relevant = []) {s t t' : σ} {os : List ο} (h : R s t)
    (hr : M.runFrom t is = some (t', os)) : R s t' ∧ observe visible is os = [] := by
  induction is generalizing t os with
  | nil =>
    simp only [runFrom_nil, Option.some.injEq, Prod.mk.injEq] at hr
    exact ⟨hr.1 ▸ h, rfl⟩
  | cons i is ih =>
    obtain ⟨t₁, o, os', hstep, hr', rfl⟩ := M.runFrom_cons_eq_some.mp hr
    have hi : relevant i = false := by
      by_contra hi
      simp [hi] at hrel
    have hv : visible i = false := by
      by_contra hv
      exact absurd (hvis i (by simpa using hv)) (by simp [hi])
    simp only [List.filter_cons, hi, Bool.false_eq_true, if_false] at hrel
    obtain ⟨h', hobs⟩ := ih hrel (hskip s t i t₁ o h hi hstep) hr'
    exact ⟨h', by simpa [observe_cons, hv] using hobs⟩

/-- Two-run rule. If irrelevant inputs keep the relation on either side, and relevant ones keep
it when read on both sides, with equal outputs where these are visible, then two runs with the
same relevant inputs show the same outputs. -/
theorem runFrom_observe_eq {R : σ → σ → Prop} {relevant visible : ι → Bool}
    (hsymm : ∀ s t, R s t → R t s) (hvis : ∀ i, visible i → relevant i)
    (hskip : ∀ s t i s' o, R s t → relevant i = false → M.step t i = some (s', o) → R s s')
    (hboth : ∀ s t i s' t' o o', R s t → relevant i = true → M.step s i = some (s', o) →
      M.step t i = some (t', o') → R s' t' ∧ (visible i → o = o'))
    {is js : List ι} (hrel : is.filter relevant = js.filter relevant) {s t s' t' : σ}
    {os ps : List ο} (h : R s t) (hs : M.runFrom s is = some (s', os))
    (ht : M.runFrom t js = some (t', ps)) :
    observe visible is os = observe visible js ps := by
  induction is generalizing js s t os ps with
  | nil =>
    have hjs : js.filter relevant = [] := by simpa using hrel.symm
    simp [(runFrom_irrelevant hvis hskip hjs h ht).2]
  | cons i is ih =>
    obtain ⟨s₁, o, os', hstep, hr, rfl⟩ := M.runFrom_cons_eq_some.mp hs
    by_cases hi : relevant i = true
    · -- advance the second run to its own copy of the relevant input `i`
      induction js generalizing t ps with
      | nil => simp [hi] at hrel
      | cons j js ihj =>
        obtain ⟨t₁, o', ps', htstep, htr, rfl⟩ := M.runFrom_cons_eq_some.mp ht
        by_cases hj : relevant j = true
        · simp only [List.filter_cons, hi, hj, if_true, List.cons.injEq] at hrel
          obtain ⟨rfl, hrel⟩ := hrel
          obtain ⟨h₁, ho⟩ := hboth s t i s₁ t₁ o o' h hi hstep htstep
          have hobs := ih hrel h₁ hr htr
          by_cases hv : visible i = true
          · simp [observe_cons, hv, ho hv, hobs]
          · simp [observe_cons, hv, hobs]
        · have hj' : relevant j = false := by simpa using hj
          have hv : visible j = false := by
            by_contra hv
            exact hj (hvis j (by simpa using hv))
          have hrel' : (i :: is).filter relevant = js.filter relevant := by
            simpa [List.filter_cons, hj'] using hrel
          have := ihj hrel' (hskip s t j t₁ o' h hj' htstep) htr
          simpa [observe_cons, hv] using this
    · have hi' : relevant i = false := by simpa using hi
      have hv : visible i = false := by
        by_contra hv
        exact hi (hvis i (by simpa using hv))
      have hrel' : is.filter relevant = js.filter relevant := by
        simpa [List.filter_cons, hi'] using hrel
      have h₁ := hsymm _ _ (hskip t s i s₁ o (hsymm _ _ h) hi' hstep)
      have := ih hrel' h₁ hr ht
      simpa [observe_cons, hv] using this

/-- What the steps of some run show, one after another. -/
def Exhibits {ω : Type*} (M : Machine σ ι (List ω)) (trace : List ω) : Prop :=
  ∃ is s os, M.run is = some (s, os) ∧ os.flatten = trace

theorem exhibits_of_run {ω : Type*} {M : Machine σ ι (List ω)} (is : List ι) {trace : List ω}
    (h : (M.run is).map (fun r => r.2.flatten) = some trace) : M.Exhibits trace := by
  obtain ⟨⟨s, os⟩, hrun, hflat⟩ := Option.map_eq_some_iff.mp h
  exact ⟨is, s, os, hrun, hflat⟩

theorem runFrom_append {s t u : σ} {is js : List ι} {os ps : List ο}
    (hs : M.runFrom s is = some (t, os)) (ht : M.runFrom t js = some (u, ps)) :
    M.runFrom s (is ++ js) = some (u, os ++ ps) := by
  induction is generalizing s os with
  | nil =>
    obtain ⟨rfl, rfl⟩ := Prod.mk.inj (Option.some.inj hs)
    exact ht
  | cons i is ih =>
    obtain ⟨s', o, os', hstep, hr, rfl⟩ := M.runFrom_cons_eq_some.mp hs
    exact M.runFrom_cons_eq_some.mpr ⟨s', o, os' ++ ps, hstep, ih hr, rfl⟩

/-- Simulation with stuttering: if every step of `M` is matched by a stretch of steps of `N` that
shows the same, every run of `M` shows what some run of `N` shows. -/
theorem runFrom_stutters {ω κ : Type*} {M : Machine σ ι (List ω)} {N : Machine τ κ (List ω)}
    {R : σ → τ → Prop}
    (hstep : ∀ s t i s' o, R s t → M.step s i = some (s', o) →
      ∃ js t' os, N.runFrom t js = some (t', os) ∧ os.flatten = o ∧ R s' t')
    {s s' : σ} {t : τ} {is : List ι} {os : List (List ω)} (h : R s t)
    (hr : M.runFrom s is = some (s', os)) :
    ∃ js t' ps, N.runFrom t js = some (t', ps) ∧ ps.flatten = os.flatten ∧ R s' t' := by
  induction is generalizing s t os with
  | nil =>
    obtain ⟨rfl, rfl⟩ := Prod.mk.inj (Option.some.inj hr)
    exact ⟨[], t, [], rfl, rfl, h⟩
  | cons i is ih =>
    obtain ⟨s₁, o, os', hs, hr₁, rfl⟩ := M.runFrom_cons_eq_some.mp hr
    obtain ⟨js₁, t₁, ps₁, ht₁, hflat₁, h₁⟩ := hstep s t i s₁ o h hs
    obtain ⟨js₂, t₂, ps₂, ht₂, hflat₂, h₂⟩ := ih h₁ hr₁
    refine ⟨js₁ ++ js₂, t₂, ps₁ ++ ps₂, runFrom_append ht₁ ht₂, ?_, h₂⟩
    rw [List.flatten_append, List.flatten_cons, hflat₁, hflat₂]

theorem Exhibits.of_stutters {ω κ : Type*} {M : Machine σ ι (List ω)}
    {N : Machine τ κ (List ω)} {R : σ → τ → Prop} (h₀ : R M.init N.init)
    (hstep : ∀ s t i s' o, R s t → M.step s i = some (s', o) →
      ∃ js t' os, N.runFrom t js = some (t', os) ∧ os.flatten = o ∧ R s' t')
    {trace : List ω} (h : M.Exhibits trace) : N.Exhibits trace := by
  obtain ⟨is, s, os, hrun, rfl⟩ := h
  obtain ⟨js, t, ps, hrun', hflat, _⟩ := runFrom_stutters hstep h₀ hrun
  exact ⟨js, t, ps, hrun', hflat⟩

end Machine
