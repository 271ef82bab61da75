import FCache.Machine
import Mathlib.Tactic.Common

/-!
# A client connection

One connection of the client as the event loop runs it: the receive loop, the tasks of the
queries, and the one event and one message slot they share. Between two suspension points a task
runs undisturbed; each such stretch is one step. The server answers every request once and in
order, which is all that is assumed of it. Requests and replies carry no identifier: the numbers
below only record where a buffer went and what a message answers.
-/

namespace FCache

/-- A message of the server, numbered by the request it answers. -/
structure Reply (β : Type*) where
  request : ℕ
  message : β
  deriving DecidableEq

/-- A call of `query` by how far it got. From `sending` on it carries the number of its own
request. -/
inductive Query (α β : Type*) where
  | called (buffer : α)
  | sending (request : ℕ)
  | waiting (request : ℕ)
  | woken (request : ℕ)
  | read (request : ℕ) (msg : Reply β)
  | returned (request : ℕ) (msg : Reply β)
  | timedOut
  | raised
  deriving DecidableEq

structure Connection (α β : Type*) where
  opened : Bool := true
  rspEvt : Bool := false
  message : Option (Reply β) := none
  sent : List α := []
  received : ℕ := 0
  queries : List (Query α β) := []
  deriving DecidableEq

/-- `wait` is the return of `ws.send` up to the next suspension, `wake` the resumption of a task
whose wait was ended, `finish` the return of `query` itself. -/
inductive Event (α β : Type*) where
  | query (buffer : α)
  | send (k : ℕ)
  | wait (k : ℕ)
  | wake (k : ℕ)
  | finish (k : ℕ)
  | timeout (k : ℕ)
  | recv (message : β)
  | close
  deriving DecidableEq

variable {α β : Type*}

namespace Query

/-- The number of the request sent, once there is one. -/
def request : Query α β → Option ℕ
  | sending n | waiting n | woken n | read n _ | returned n _ => some n
  | _ => none

/-- The request of a query that has sent its buffer and has yet to read a message. -/
def pending : Query α β → Option ℕ
  | sending n | waiting n | woken n => some n
  | _ => none

/-- `wait_for` cancels a task at whatever point it has reached. -/
def inProgress : Query α β → Bool
  | called _ | sending _ | waiting _ | woken _ | read _ _ => true
  | _ => false

def wake : Query α β → Query α β
  | waiting n => woken n
  | q => q

@[simp] theorem request_wake (q : Query α β) : q.wake.request = q.request := by
  cases q <;> rfl

@[simp] theorem pending_wake (q : Query α β) : q.wake.pending = q.pending := by
  cases q <;> rfl

@[simp] theorem inProgress_wake (q : Query α β) : q.wake.inProgress = q.inProgress := by
  cases q <;> rfl

theorem inProgress_of_pending {q : Query α β} {n : ℕ} (h : q.pending = some n) :
    q.inProgress = true := by
  cases q <;> first | rfl | cases h

theorem request_of_pending {q : Query α β} {n : ℕ} (h : q.pending = some n) :
    q.request = some n := by
  cases q <;> simp_all [pending, request]

end Query

namespace Connection

def setQuery (c : Connection α β) (k : ℕ) (q : Query α β) : Connection α β :=
  { c with queries := c.queries.set k q }

/-- `rspEvt.set()`: every waiter is scheduled to resume. -/
def setEvt (c : Connection α β) : Connection α β :=
  if c.rspEvt then c else { c with rspEvt := true, queries := c.queries.map Query.wake }

/-- The end of `_query`. Reading `message` before one was stored is an error. -/
def readMessage (c : Connection α β) (k request : ℕ) : Connection α β :=
  match c.message with
  | some msg => { c.setQuery k (.read request msg) with rspEvt := false }
  | none => c.setQuery k .raised

def send (c : Connection α β) (k : ℕ) (buffer : α) : Connection α β :=
  if c.opened then
    { c.setQuery k (.sending c.sent.length) with sent := c.sent ++ [buffer] }
  else c.setQuery k .raised

def wait (c : Connection α β) (k request : ℕ) : Connection α β :=
  if c.rspEvt then c.readMessage k request else c.setQuery k (.waiting request)

/-- One turn of the receive loop. -/
def recv (c : Connection α β) (message : β) : Connection α β :=
  { c with message := some ⟨c.received, message⟩, received := c.received + 1 }.setEvt

def step (c : Connection α β) : Event α β → Option (Connection α β)
  | .query buffer => some { c with queries := c.queries ++ [.called buffer] }
  | .send k =>
    match c.queries[k]? with
    | some (.called buffer) => some (c.send k buffer)
    | _ => none
  | .wait k =>
    match c.queries[k]? with
    | some (.sending request) => some (c.wait k request)
    | _ => none
  | .wake k =>
    match c.queries[k]? with
    | some (.woken request) => some (c.readMessage k request)
    | _ => none
  | .finish k =>
    match c.queries[k]? with
    | some (.read request msg) => some (c.setQuery k (.returned request msg))
    | _ => none
  | .timeout k =>
    match c.queries[k]? with
    | some q => if q.inProgress then some (c.setQuery k .timedOut) else none
    | none => none
  | .recv message =>
    if c.opened ∧ c.received < c.sent.length then some (c.recv message) else none
  | .close => some { c with opened := false, rspEvt := false }

/-- The connection just opened, and the steps of its tasks. -/
def machine : Machine (Connection α β) (Event α β) Unit where
  init := {}
  step c e := (c.step e).map fun c' => (c', ())

/-- What each step may do, with its guard. -/
inductive Effect (c : Connection α β) : Event α β → Connection α β → Prop
  | query (buffer : α) :
      Effect c (.query buffer) { c with queries := c.queries ++ [.called buffer] }
  | send {k : ℕ} {buffer : α} (hk : c.queries[k]? = some (.called buffer))
      (ho : c.opened = true) :
      Effect c (.send k)
        { c.setQuery k (.sending c.sent.length) with sent := c.sent ++ [buffer] }
  | refuse {k : ℕ} {buffer : α} (hk : c.queries[k]? = some (.called buffer))
      (ho : c.opened = false) : Effect c (.send k) (c.setQuery k .raised)
  | block {k n : ℕ} (hk : c.queries[k]? = some (.sending n)) (he : c.rspEvt = false) :
      Effect c (.wait k) (c.setQuery k (.waiting n))
  | read {k n : ℕ} {e : Event α β}
      (hk : c.queries[k]? = some (.sending n) ∧ c.rspEvt = true ∧ e = .wait k ∨
        c.queries[k]? = some (.woken n) ∧ e = .wake k) :
      Effect c e (c.readMessage k n)
  | finish {k n : ℕ} {msg : Reply β} (hk : c.queries[k]? = some (.read n msg)) :
      Effect c (.finish k) (c.setQuery k (.returned n msg))
  | timeout {k : ℕ} {q : Query α β} (hk : c.queries[k]? = some q) (hq : q.inProgress = true) :
      Effect c (.timeout k) (c.setQuery k .timedOut)
  | recv (message : β) (ho : c.opened = true) (hr : c.received < c.sent.length) :
      Effect c (.recv message) (c.recv message)
  | close : Effect c .close { c with opened := false, rspEvt := false }

theorem effect_of_step {c c' : Connection α β} {e : Event α β} (h : c.step e = some c') :
    Effect c e c' := by
  cases e with
  | query buffer =>
    obtain rfl := Option.some.inj h
    exact .query buffer
  | send k =>
    simp only [step] at h
    split at h
    · next buffer hk =>
      obtain rfl := Option.some.inj h
      unfold send
      by_cases ho : c.opened = true
      · rw [if_pos ho]
        exact .send hk ho
      · rw [if_neg ho]
        exact .refuse hk (by simpa using ho)
    · cases h
  | wait k =>
    simp only [step] at h
    split at h
    · next n hk =>
      obtain rfl := Option.some.inj h
      unfold wait
      by_cases he : c.rspEvt = true
      · rw [if_pos he]
        exact .read (.inl ⟨hk, he, rfl⟩)
      · rw [if_neg he]
        exact .block hk (by simpa using he)
    · cases h
  | wake k =>
    simp only [step] at h
    split at h
    · next n hk =>
      obtain rfl := Option.some.inj h
      exact .read (.inr ⟨hk, rfl⟩)
    · cases h
  | finish k =>
    simp only [step] at h
    split at h
    · next n msg hk =>
      obtain rfl := Option.some.inj h
      exact .finish hk
    · cases h
  | timeout k =>
    simp only [step] at h
    split at h
    · next q hk =>
      by_cases hq : q.inProgress = true
      · rw [if_pos hq] at h
        obtain rfl := Option.some.inj h
        exact .timeout hk hq
      · rw [if_neg hq] at h
        cases h
    · cases h
  | recv message =>
    simp only [step] at h
    by_cases hr : c.opened = true ∧ c.received < c.sent.length
    · rw [if_pos hr] at h
      obtain rfl := Option.some.inj h
      exact .recv message hr.1 hr.2
    · rw [if_neg hr] at h
      cases h
  | close =>
    obtain rfl := Option.some.inj h
    exact .close

theorem effect_of_machine_step {c c' : Connection α β} {e : Event α β} {u : Unit}
    (h : machine.step c e = some (c', u)) : Effect c e c' := by
  simp only [machine, Option.map_eq_some_iff, Prod.mk.injEq] at h
  obtain ⟨c'', hstep, rfl, _⟩ := h
  exact effect_of_step hstep

section
variable (c : Connection α β) (k : ℕ) (q : Query α β)

@[simp] theorem setQuery_opened : (c.setQuery k q).opened = c.opened := rfl
@[simp] theorem setQuery_rspEvt : (c.setQuery k q).rspEvt = c.rspEvt := rfl
@[simp] theorem setQuery_message : (c.setQuery k q).message = c.message := rfl
@[simp] theorem setQuery_sent : (c.setQuery k q).sent = c.sent := rfl
@[simp] theorem setQuery_received : (c.setQuery k q).received = c.received := rfl

end

theorem getElem?_setQuery {c : Connection α β} {k j : ℕ} {q p : Query α β}
    (h : (c.setQuery k q).queries[j]? = some p) :
    j = k ∧ p = q ∨ j ≠ k ∧ c.queries[j]? = some p := by
  simp only [setQuery, List.getElem?_set] at h
  by_cases hj : k = j
  · rw [if_pos hj] at h
    split at h
    · exact .inl ⟨hj.symm, (Option.some.inj h).symm⟩
    · cases h
  · rw [if_neg hj] at h
    exact .inr ⟨Ne.symm hj, h⟩

theorem getElem?_query {c : Connection α β} {buffer : α} {j : ℕ} {p : Query α β}
    (h : (c.queries ++ [.called buffer])[j]? = some p) :
    j = c.queries.length ∧ p = .called buffer ∨ c.queries[j]? = some p := by
  rw [List.getElem?_append] at h
  split at h
  · exact .inr h
  · next hj =>
    have hp := List.getElem?_singleton ▸ h
    split at hp
    · exact .inl ⟨by omega, (Option.some.inj hp).symm⟩
    · cases hp

theorem getElem?_setQuery_self {c : Connection α β} {k : ℕ} {p : Query α β} (q : Query α β)
    (hk : c.queries[k]? = some p) : (c.setQuery k q).queries[k]? = some q := by
  obtain ⟨hlt, _⟩ := List.getElem?_eq_some_iff.mp hk
  simp [setQuery, hlt]

end Connection

end FCache
