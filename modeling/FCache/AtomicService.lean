import FCache.Machine
import Mathlib.Tactic.Common

/-!
# Atomic services

What it means that a machine is shared by many clients: each call takes effect at one instant
between its invocation and its answer, and the effects are the steps of the machine in the order
of these instants. A call that is given up may still take effect, once, or never; a call that is
refused never does. A system is linearizable if all it shows is shown by the atomic service.
-/

namespace AtomicService

variable {σ τ α β : Type*}

/-- A call by how far it got. What is given up keeps what there is left to execute. -/
inductive Call (α β : Type*) where
  | pending (a : α)
  | executed (b : β)
  | answered (b : β)
  | abandoned (a : Option α)
  | refused

/-- The calls of a client are numbered in the order in which it makes them. -/
inductive Event (α : Type*) where
  | call (i : ℕ) (a : α)
  | execute (i k : ℕ)
  | answer (i k : ℕ)
  | abandon (i k : ℕ)
  | refuse (i k : ℕ)

inductive Observation (α β : Type*) where
  | called (i : ℕ) (a : α)
  | answered (i k : ℕ) (b : β)
  | abandoned (i k : ℕ)
  | refused (i k : ℕ)
  deriving DecidableEq

/-- The answer that is shown, with its call. -/
def Observation.answer : Observation α β → Option (ℕ × ℕ × β)
  | answered i k b => some (i, k, b)
  | _ => none

structure State (σ α β : Type*) where
  server : σ
  sessions : ℕ → List (Call α β)

namespace State

def newCall (s : State σ α β) (i : ℕ) (c : Call α β) : State σ α β :=
  { s with sessions := Function.update s.sessions i (s.sessions i ++ [c]) }

def setCall (s : State σ α β) (i k : ℕ) (c : Call α β) : State σ α β :=
  { s with sessions := Function.update s.sessions i ((s.sessions i).set k c) }

end State

def execute (M : Machine σ α β) (s : State σ α β) (i k : ℕ) (a : α) (after : β → Call α β) :
    Option (State σ α β) :=
  (M.step s.server a).map fun r => { s.setCall i k (after r.2) with server := r.1 }

def step (M : Machine σ α β) (s : State σ α β) :
    Event α → Option (State σ α β × List (Observation α β))
  | .call i a => some (s.newCall i (.pending a), [.called i a])
  | .execute i k =>
    match (s.sessions i)[k]? with
    | some (.pending a) => (execute M s i k a .executed).map fun s' => (s', [])
    | some (.abandoned (some a)) =>
      (execute M s i k a fun _ => .abandoned none).map fun s' => (s', [])
    | _ => none
  | .answer i k =>
    match (s.sessions i)[k]? with
    | some (.executed b) => some (s.setCall i k (.answered b), [.answered i k b])
    | _ => none
  | .abandon i k =>
    match (s.sessions i)[k]? with
    | some (.pending a) => some (s.setCall i k (.abandoned (some a)), [.abandoned i k])
    | some (.executed _) => some (s.setCall i k (.abandoned none), [.abandoned i k])
    | _ => none
  | .refuse i k =>
    match (s.sessions i)[k]? with
    | some (.pending _) => some (s.setCall i k .refused, [.refused i k])
    | _ => none

def machine (M : Machine σ α β) : Machine (State σ α β) (Event α) (List (Observation α β)) where
  init := { server := M.init, sessions := fun _ => [] }
  step := step M

section Steps

variable {M : Machine σ α β} {s : State σ α β} {i k : ℕ} {a : α} {b : β} {server : σ}

theorem step_execute (hk : (s.sessions i)[k]? = some (.pending a))
    (hstep : M.step s.server a = some (server, b)) :
    (machine M).step s (.execute i k) =
      some ({ s.setCall i k (.executed b) with server }, []) := by
  simp [machine, step, execute, hk, hstep]

theorem step_execute_abandoned (hk : (s.sessions i)[k]? = some (.abandoned (some a)))
    (hstep : M.step s.server a = some (server, b)) :
    (machine M).step s (.execute i k) =
      some ({ s.setCall i k (.abandoned none) with server }, []) := by
  simp [machine, step, execute, hk, hstep]

theorem step_answer (hk : (s.sessions i)[k]? = some (.executed b)) :
    (machine M).step s (.answer i k) =
      some (s.setCall i k (.answered b), [.answered i k b]) := by
  simp [machine, step, hk]

theorem step_abandon (hk : (s.sessions i)[k]? = some (.pending a)) :
    (machine M).step s (.abandon i k) =
      some (s.setCall i k (.abandoned (some a)), [.abandoned i k]) := by
  simp [machine, step, hk]

theorem step_abandon_executed (hk : (s.sessions i)[k]? = some (.executed b)) :
    (machine M).step s (.abandon i k) =
      some (s.setCall i k (.abandoned none), [.abandoned i k]) := by
  simp [machine, step, hk]

theorem step_refuse (hk : (s.sessions i)[k]? = some (.pending a)) :
    (machine M).step s (.refuse i k) = some (s.setCall i k .refused, [.refused i k]) := by
  simp [machine, step, hk]

end Steps

/-! ### Services over machines that simulate one another -/

section Simulation

variable {γ : Type*}

def Call.map (g : β → γ) : Call α β → Call α γ
  | pending a => pending a
  | executed b => executed (g b)
  | answered b => answered (g b)
  | abandoned a => abandoned a
  | refused => refused

def Observation.map (g : β → γ) : Observation α β → Observation α γ
  | called i a => called i a
  | answered i k b => answered i k (g b)
  | abandoned i k => abandoned i k
  | refused i k => refused i k

/-- Two services over related machines, with the same calls but for the translation of answers. -/
structure Related (R : σ → τ → Prop) (g : β → γ) (s : State σ α β) (t : State τ α γ) : Prop where
  server : R s.server t.server
  sessions : ∀ i, t.sessions i = (s.sessions i).map (Call.map g)

namespace Related

variable {R : σ → τ → Prop} {g : β → γ} {s : State σ α β} {t : State τ α γ} {i k : ℕ}

theorem call (h : Related R g s t) (i k : ℕ) :
    (t.sessions i)[k]? = ((s.sessions i)[k]?).map (Call.map g) := by
  rw [h.sessions, List.getElem?_map]

theorem newCall (h : Related R g s t) (i : ℕ) (c : Call α β) :
    Related R g (s.newCall i c) (t.newCall i (c.map g)) := by
  refine ⟨h.server, fun j => ?_⟩
  show Function.update t.sessions i _ j = (Function.update s.sessions i _ j).map (Call.map g)
  by_cases hj : j = i
  · subst hj
    rw [Function.update_self, Function.update_self, h.sessions, List.map_append]
    rfl
  · rw [Function.update_of_ne hj, Function.update_of_ne hj]
    exact h.sessions j

theorem setCall (h : Related R g s t) (i k : ℕ) (c : Call α β) :
    Related R g (s.setCall i k c) (t.setCall i k (c.map g)) := by
  refine ⟨h.server, fun j => ?_⟩
  show Function.update t.sessions i _ j = (Function.update s.sessions i _ j).map (Call.map g)
  by_cases hj : j = i
  · subst hj
    rw [Function.update_self, Function.update_self, h.sessions, List.map_set]
  · rw [Function.update_of_ne hj, Function.update_of_ne hj]
    exact h.sessions j

theorem execute {M : Machine σ α β} {N : Machine τ α γ}
    (hsim : ∀ s t a s' b, R s t → M.step s a = some (s', b) →
      ∃ t', N.step t a = some (t', g b) ∧ R s' t')
    (h : Related R g s t) {a : α} {after : β → Call α β} (after' : γ → Call α γ)
    (hafter : ∀ b, (after b).map g = after' (g b)) {s' : State σ α β}
    (hstep : AtomicService.execute M s i k a after = some s') :
    ∃ t', AtomicService.execute N t i k a after' = some t' ∧ Related R g s' t' := by
  obtain ⟨⟨server, b⟩, hserver, rfl⟩ := Option.map_eq_some_iff.mp hstep
  obtain ⟨server', hserver', hR⟩ := hsim _ _ _ _ _ h.server hserver
  refine ⟨{ t.setCall i k (after' (g b)) with server := server' }, ?_, hR, ?_⟩
  · simp [AtomicService.execute, hserver']
  · rw [← hafter]
    exact (h.setCall i k (after b)).sessions

/-- A step of one service is one of the other, and shows the same. -/
theorem step {M : Machine σ α β} {N : Machine τ α γ}
    (hsim : ∀ s t a s' b, R s t → M.step s a = some (s', b) →
      ∃ t', N.step t a = some (t', g b) ∧ R s' t')
    (h : Related R g s t) {e : Event α} {s' : State σ α β} {o : List (Observation α β)}
    (hstep : AtomicService.step M s e = some (s', o)) :
    ∃ t', AtomicService.step N t e = some (t', o.map (Observation.map g)) ∧
      Related R g s' t' := by
  cases e with
  | call i a =>
    cases hstep
    exact ⟨_, rfl, h.newCall i _⟩
  | execute i k =>
    simp only [AtomicService.step, h.call] at hstep ⊢
    split at hstep
    · next a hk =>
      obtain ⟨s'', hexec, heq⟩ := Option.map_eq_some_iff.mp hstep
      cases heq
      obtain ⟨t', ht, hrel⟩ := h.execute hsim .executed (fun _ => rfl) hexec
      exact ⟨t', by simp [hk, Call.map, ht], hrel⟩
    · next a hk =>
      obtain ⟨s'', hexec, heq⟩ := Option.map_eq_some_iff.mp hstep
      cases heq
      obtain ⟨t', ht, hrel⟩ := h.execute hsim (fun _ => .abandoned none) (fun _ => rfl) hexec
      exact ⟨t', by simp [hk, Call.map, ht], hrel⟩
    · cases hstep
  | answer i k =>
    simp only [AtomicService.step, h.call] at hstep ⊢
    split at hstep
    · next b hk =>
      cases hstep
      rw [hk]
      exact ⟨_, rfl, h.setCall i k _⟩
    · cases hstep
  | abandon i k =>
    simp only [AtomicService.step, h.call] at hstep ⊢
    split at hstep
    · next a hk =>
      cases hstep
      rw [hk]
      exact ⟨_, rfl, h.setCall i k _⟩
    · next b hk =>
      cases hstep
      rw [hk]
      exact ⟨_, rfl, h.setCall i k _⟩
    · cases hstep
  | refuse i k =>
    simp only [AtomicService.step, h.call] at hstep ⊢
    split at hstep
    · next a hk =>
      cases hstep
      rw [hk]
      exact ⟨_, rfl, h.setCall i k _⟩
    · cases hstep

end Related

/-- What a service over a machine shows is shown, with the answers translated, by the service over
any machine that simulates it. -/
theorem exhibits_of_simulation {M : Machine σ α β} {N : Machine τ α γ} {R : σ → τ → Prop}
    {g : β → γ} (h₀ : R M.init N.init)
    (hsim : ∀ s t a s' b, R s t → M.step s a = some (s', b) →
      ∃ t', N.step t a = some (t', g b) ∧ R s' t')
    {trace : List (Observation α β)} (h : (machine M).Exhibits trace) :
    (machine N).Exhibits (trace.map (Observation.map g)) := by
  have hrel : Related R g (machine M).init (machine N).init := ⟨h₀, fun _ => rfl⟩
  obtain ⟨es, s, os, hrun, rfl⟩ := h
  obtain ⟨t, hrun', _⟩ := Machine.runFrom_refines (M := machine N) (N := machine M)
    (R := fun t s => Related R g s t) (f := id) (g := List.map (Observation.map g))
    (fun t s e s' o hst hstep => hst.step hsim hstep) hrel hrun
  rw [List.map_id] at hrun'
  exact ⟨es, t, _, hrun', List.map_flatten.symm⟩

end Simulation

/-! ### Answers read by the calls they belong to -/

section Reading

variable {γ : Type*}

/-- The calls of each client, with those that an observation adds. -/
def Observation.record (calls : ℕ → List α) : Observation α β → ℕ → List α
  | called i a => Function.update calls i (calls i ++ [a])
  | _ => calls

def Observation.read (g : α → β → γ) (calls : ℕ → List α) :
    Observation α β → List (Observation α γ)
  | called i a => [called i a]
  | answered i k b => ((calls i)[k]?.map fun a => answered i k (g a b)).toList
  | abandoned i k => [abandoned i k]
  | refused i k => [refused i k]

/-- What clients see that read each answer by the call it belongs to, after the calls they have
made. -/
def readTrace (g : α → β → γ) : (ℕ → List α) → List (Observation α β) → List (Observation α γ)
  | _, [] => []
  | calls, o :: trace => o.read g calls ++ readTrace g (o.record calls) trace

def record (calls : ℕ → List α) (trace : List (Observation α β)) : ℕ → List α :=
  trace.foldl Observation.record calls

theorem readTrace_append (g : α → β → γ) (calls : ℕ → List α)
    (trace trace' : List (Observation α β)) : readTrace g calls (trace ++ trace') =
      readTrace g calls trace ++ readTrace g (record calls trace) trace' := by
  induction trace generalizing calls with
  | nil => rfl
  | cons o trace ih =>
    rw [List.cons_append, readTrace, readTrace, ih, List.append_assoc]
    rfl

/-- How a call stands in a service that gives the answers as they are read, and in one that does
not. -/
inductive Reads (g : α → β → γ) : α → Call α β → Call α γ → Prop
  | pending (a : α) : Reads g a (.pending a) (.pending a)
  | executed (a : α) (b : β) : Reads g a (.executed b) (.executed (g a b))
  | answered (a : α) (b : β) : Reads g a (.answered b) (.answered (g a b))
  | abandoned (a : α) : Reads g a (.abandoned (some a)) (.abandoned (some a))
  | gone (a : α) : Reads g a (.abandoned none) (.abandoned none)
  | refused (a : α) : Reads g a .refused .refused

inductive ReadsAll (g : α → β → γ) : List α → List (Call α β) → List (Call α γ) → Prop
  | nil : ReadsAll g [] [] []
  | cons {a : α} {c : Call α β} {d : Call α γ} {as : List α} {cs : List (Call α β)}
      {ds : List (Call α γ)} (h : Reads g a c d) (hs : ReadsAll g as cs ds) :
      ReadsAll g (a :: as) (c :: cs) (d :: ds)

namespace ReadsAll

variable {g : α → β → γ} {as : List α} {cs : List (Call α β)} {ds : List (Call α γ)} {k : ℕ}
  {a : α} {c : Call α β} {d : Call α γ}

theorem snoc (h : ReadsAll g as cs ds) (hnew : Reads g a c d) :
    ReadsAll g (as ++ [a]) (cs ++ [c]) (ds ++ [d]) := by
  induction h with
  | nil => exact .cons hnew .nil
  | cons hhead _ ih => exact .cons hhead ih

theorem get (h : ReadsAll g as cs ds) (hk : cs[k]? = some c) :
    ∃ a d, as[k]? = some a ∧ ds[k]? = some d ∧ Reads g a c d := by
  induction h generalizing k with
  | nil => simp at hk
  | cons hhead _ ih =>
    cases k with
    | zero =>
      cases hk
      exact ⟨_, _, rfl, rfl, hhead⟩
    | succ k => exact ih hk

theorem set (h : ReadsAll g as cs ds) (hk : as[k]? = some a) (hnew : Reads g a c d) :
    ReadsAll g as (cs.set k c) (ds.set k d) := by
  induction h generalizing k with
  | nil => simp at hk
  | cons hhead htail ih =>
    cases k with
    | zero =>
      cases hk
      exact .cons hnew htail
    | succ k => exact .cons hhead (ih hk)

end ReadsAll

/-- Two services over related machines, of which the second gives the answers as they are read. -/
structure ReadBy (R : σ → τ → Prop) (g : α → β → γ) (calls : ℕ → List α) (s : State σ α β)
    (t : State τ α γ) : Prop where
  server : R s.server t.server
  sessions : ∀ i, ReadsAll g (calls i) (s.sessions i) (t.sessions i)

namespace ReadBy

variable {R : σ → τ → Prop} {g : α → β → γ} {calls : ℕ → List α} {s : State σ α β}
  {t : State τ α γ} {i k : ℕ} {a : α}

theorem newCall (h : ReadBy R g calls s t) (i : ℕ) (a : α) :
    ReadBy R g (Function.update calls i (calls i ++ [a])) (s.newCall i (.pending a))
      (t.newCall i (.pending a)) := by
  refine ⟨h.server, fun j => ?_⟩
  unfold State.newCall
  by_cases hj : j = i
  · subst hj
    simp only [Function.update_self]
    exact (h.sessions j).snoc (.pending a)
  · simp only [Function.update_of_ne hj]
    exact h.sessions j

theorem setCall (h : ReadBy R g calls s t) (hk : (calls i)[k]? = some a) {c : Call α β}
    {d : Call α γ} (hnew : Reads g a c d) :
    ReadBy R g calls (s.setCall i k c) (t.setCall i k d) := by
  refine ⟨h.server, fun j => ?_⟩
  unfold State.setCall
  by_cases hj : j = i
  · subst hj
    simp only [Function.update_self]
    exact (h.sessions j).set hk hnew
  · simp only [Function.update_of_ne hj]
    exact h.sessions j

variable {M : Machine σ α β} {N : Machine τ α γ}

theorem execute (hsim : ∀ s t a s' b, R s t → M.step s a = some (s', b) →
      ∃ t', N.step t a = some (t', g a b) ∧ R s' t')
    (h : ReadBy R g calls s t) (hk : (calls i)[k]? = some a) {after : β → Call α β}
    (after' : γ → Call α γ) (hafter : ∀ b, Reads g a (after b) (after' (g a b)))
    {s' : State σ α β} (hstep : AtomicService.execute M s i k a after = some s') :
    ∃ t', AtomicService.execute N t i k a after' = some t' ∧ ReadBy R g calls s' t' := by
  obtain ⟨⟨server, b⟩, hserver, rfl⟩ := Option.map_eq_some_iff.mp hstep
  obtain ⟨server', hserver', hR⟩ := hsim _ _ _ _ _ h.server hserver
  refine ⟨{ t.setCall i k (after' (g a b)) with server := server' }, ?_, hR, ?_⟩
  · simp [AtomicService.execute, hserver']
  · exact (h.setCall hk (hafter b)).sessions

/-- A step of one service is one of the other, which shows what is read of it. -/
theorem step (hsim : ∀ s t a s' b, R s t → M.step s a = some (s', b) →
      ∃ t', N.step t a = some (t', g a b) ∧ R s' t')
    (h : ReadBy R g calls s t) {e : Event α} {s' : State σ α β} {o : List (Observation α β)}
    (hstep : AtomicService.step M s e = some (s', o)) :
    ∃ t', AtomicService.step N t e = some (t', readTrace g calls o) ∧
      ReadBy R g (record calls o) s' t' := by
  cases e with
  | call i a =>
    cases hstep
    exact ⟨_, rfl, h.newCall i a⟩
  | execute i k =>
    simp only [AtomicService.step] at hstep ⊢
    split at hstep
    · next a hc =>
      obtain ⟨s'', hexec, heq⟩ := Option.map_eq_some_iff.mp hstep
      cases heq
      obtain ⟨_, d, hk, hd, hreads⟩ := (h.sessions i).get hc
      cases hreads
      obtain ⟨t', ht, hrel⟩ := h.execute hsim hk .executed (.executed a) hexec
      exact ⟨t', by simp [hd, ht, readTrace], hrel⟩
    · next a hc =>
      obtain ⟨s'', hexec, heq⟩ := Option.map_eq_some_iff.mp hstep
      cases heq
      obtain ⟨_, d, hk, hd, hreads⟩ := (h.sessions i).get hc
      cases hreads
      obtain ⟨t', ht, hrel⟩ := h.execute hsim hk (fun _ => .abandoned none) (fun _ => .gone a) hexec
      exact ⟨t', by simp [hd, ht, readTrace], hrel⟩
    · cases hstep
  | answer i k =>
    simp only [AtomicService.step] at hstep ⊢
    split at hstep
    · next b hc =>
      cases hstep
      obtain ⟨a, d, hk, hd, hreads⟩ := (h.sessions i).get hc
      cases hreads
      refine ⟨t.setCall i k (.answered (g a b)), ?_, h.setCall hk (.answered a b)⟩
      simp [hd, readTrace, Observation.read, hk]
    · cases hstep
  | abandon i k =>
    simp only [AtomicService.step] at hstep ⊢
    split at hstep
    · next a hc =>
      cases hstep
      obtain ⟨_, d, hk, hd, hreads⟩ := (h.sessions i).get hc
      cases hreads
      rw [hd]
      exact ⟨_, rfl, h.setCall hk (.abandoned a)⟩
    · next b hc =>
      cases hstep
      obtain ⟨a, d, hk, hd, hreads⟩ := (h.sessions i).get hc
      cases hreads
      rw [hd]
      exact ⟨_, rfl, h.setCall hk (.gone a)⟩
    · cases hstep
  | refuse i k =>
    simp only [AtomicService.step] at hstep ⊢
    split at hstep
    · next a hc =>
      cases hstep
      obtain ⟨_, d, hk, hd, hreads⟩ := (h.sessions i).get hc
      cases hreads
      rw [hd]
      exact ⟨_, rfl, h.setCall hk (.refused a)⟩
    · cases hstep

theorem runFrom (hsim : ∀ s t a s' b, R s t → M.step s a = some (s', b) →
      ∃ t', N.step t a = some (t', g a b) ∧ R s' t')
    (h : ReadBy R g calls s t) {es : List (Event α)} {s' : State σ α β}
    {os : List (List (Observation α β))}
    (hrun : (machine M).runFrom s es = some (s', os)) :
    ∃ t' ps, (machine N).runFrom t es = some (t', ps) ∧
      ps.flatten = readTrace g calls os.flatten := by
  induction es generalizing calls s t os with
  | nil =>
    obtain ⟨_, rfl⟩ := Prod.mk.inj (Option.some.inj hrun)
    exact ⟨t, [], rfl, rfl⟩
  | cons e es ih =>
    obtain ⟨s₁, o, os', hstep, hr, rfl⟩ := (machine M).runFrom_cons_eq_some.mp hrun
    obtain ⟨t₁, ht₁, h₁⟩ := h.step hsim hstep
    obtain ⟨t', ps, ht', hflat⟩ := ih h₁ hr
    refine ⟨t', readTrace g calls o :: ps, ?_, ?_⟩
    · exact (machine N).runFrom_cons_eq_some.mpr ⟨t₁, _, ps, ht₁, ht', rfl⟩
    · rw [List.flatten_cons, List.flatten_cons, hflat, readTrace_append]

end ReadBy

/-- What a service over a machine shows is shown, as its callers read it, by the service over any
machine that simulates it up to the reading. -/
theorem exhibits_readTrace {M : Machine σ α β} {N : Machine τ α γ} {R : σ → τ → Prop}
    {g : α → β → γ} (h₀ : R M.init N.init)
    (hsim : ∀ s t a s' b, R s t → M.step s a = some (s', b) →
      ∃ t', N.step t a = some (t', g a b) ∧ R s' t')
    {trace : List (Observation α β)} (h : (machine M).Exhibits trace) :
    (machine N).Exhibits (readTrace g (fun _ => []) trace) := by
  obtain ⟨es, s, os, hrun, rfl⟩ := h
  have hinit : ReadBy R g (fun _ => []) (machine M).init (machine N).init :=
    ⟨h₀, fun _ => .nil⟩
  obtain ⟨t, ps, hrun', hflat⟩ := hinit.runFrom hsim hrun
  exact ⟨es, t, ps, hrun', hflat⟩

end Reading

end AtomicService
