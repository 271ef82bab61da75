import FCache.AtomicService
import FCache.QueryReplies

/-!
# The clients and the server

Any number of client connections to one server. The server handles the messages of a connection in
the order in which they were sent, one after another, and sends one reply to each on the same
connection; messages of different connections come in any order, and replies take any time. A
connection that closes may still have messages that the server handles.
-/

namespace FCache

open AtomicService (Observation)

variable {σ α β : Type*}

/-- A connection with what the server has sent back on it: the first `replies.length` buffers are
those it has handled. `owners` records the query that sent each buffer. -/
structure Link (α β : Type*) where
  connection : Connection α β := {}
  owners : List ℕ := []
  replies : List β := []

structure Network (σ α β : Type*) where
  server : σ
  links : ℕ → Link α β := fun _ => {}

/-- `client` is a step of a task of the client, `handle` the next call of `onMessage`, `deliver`
the arrival of a reply. -/
inductive NetworkEvent (α β : Type*) where
  | client (i : ℕ) (e : Event α β)
  | handle (i : ℕ)
  | deliver (i : ℕ)

/-- What a step shows of the calls of `query`: that one is made, returns a message, gives up or
raises. -/
def Connection.shows (i : ℕ) (c' : Connection α β) : Event α β → List (Observation α β)
  | .query buffer => [.called i buffer]
  | .send k | .wait k | .wake k =>
    match c'.queries[k]? with
    | some .raised => [.refused i k]
    | _ => []
  | .finish k =>
    match c'.queries[k]? with
    | some (.returned _ msg) => [.answered i k msg.message]
    | _ => []
  | .timeout k => [.abandoned i k]
  | .recv _ | .close => []

/-- Messages arrive from the server only. -/
def Link.client (l : Link α β) : Event α β → Option (Link α β)
  | .recv _ => none
  | .send k => (l.connection.step (.send k)).map fun c =>
    { l with connection := c, owners := if l.connection.opened then l.owners ++ [k] else l.owners }
  | e => (l.connection.step e).map fun c => { l with connection := c }

namespace Network

def setLink (n : Network σ α β) (i : ℕ) (l : Link α β) : Network σ α β :=
  { n with links := Function.update n.links i l }

def step (M : Machine σ α β) (n : Network σ α β) :
    NetworkEvent α β → Option (Network σ α β × List (Observation α β))
  | .client i e => ((n.links i).client e).map fun l => (n.setLink i l, l.connection.shows i e)
  | .handle i =>
    let l := n.links i
    match l.connection.sent[l.replies.length]? with
    | some buffer => (M.step n.server buffer).map fun r =>
      ({ n.setLink i { l with replies := l.replies ++ [r.2] } with server := r.1 }, [])
    | none => none
  | .deliver i =>
    let l := n.links i
    match l.replies[l.connection.received]? with
    | some message => (l.connection.step (.recv message)).map fun c =>
      (n.setLink i { l with connection := c }, [])
    | none => none

def machine (M : Machine σ α β) :
    Machine (Network σ α β) (NetworkEvent α β) (List (Observation α β)) where
  init := { server := M.init }
  step := step M

/-- Every client sends when its connection is quiet. -/
def QuietSend (n : Network σ α β) : NetworkEvent α β → Prop
  | .client i e => (n.links i).connection.QuietSend e
  | _ => True

instance (n : Network σ α β) (ev : NetworkEvent α β) : Decidable (n.QuietSend ev) := by
  cases ev <;> unfold QuietSend <;> infer_instance

end Network

/-- What a step may do to the link it is on. -/
inductive Link.Effect (l : Link α β) : Event α β → Link α β → Prop
  | query (buffer : α) : Effect l (.query buffer)
      { l with connection := { l.connection with
        queries := l.connection.queries ++ [.called buffer] } }
  | send {k : ℕ} {buffer : α} (hk : l.connection.queries[k]? = some (.called buffer))
      (ho : l.connection.opened = true) :
      Effect l (.send k)
        { l with
          connection := { l.connection.setQuery k (.sending l.connection.sent.length) with
            sent := l.connection.sent ++ [buffer] }
          owners := l.owners ++ [k] }
  | refuse {k : ℕ} {buffer : α} (hk : l.connection.queries[k]? = some (.called buffer))
      (ho : l.connection.opened = false) :
      Effect l (.send k) { l with connection := l.connection.setQuery k .raised }
  | block {k m : ℕ} (hk : l.connection.queries[k]? = some (.sending m))
      (he : l.connection.rspEvt = false) :
      Effect l (.wait k) { l with connection := l.connection.setQuery k (.waiting m) }
  | read {k m : ℕ} {e : Event α β}
      (hk : l.connection.queries[k]? = some (.sending m) ∧ l.connection.rspEvt = true ∧
          e = .wait k ∨
        l.connection.queries[k]? = some (.woken m) ∧ e = .wake k) :
      Effect l e { l with connection := l.connection.readMessage k m }
  | finish {k m : ℕ} {msg : Reply β} (hk : l.connection.queries[k]? = some (.read m msg)) :
      Effect l (.finish k) { l with connection := l.connection.setQuery k (.returned m msg) }
  | timeout {k : ℕ} {q : Query α β} (hk : l.connection.queries[k]? = some q)
      (hq : q.inProgress = true) :
      Effect l (.timeout k) { l with connection := l.connection.setQuery k .timedOut }
  | close : Effect l .close
      { l with connection := { l.connection with opened := false, rspEvt := false } }

namespace Link

variable {l l' : Link α β} {e : Event α β}

/-- A step of a link is one of its connection. -/
theorem Effect.connection (h : Effect l e l') : l.connection.Effect e l'.connection := by
  cases h with
  | query buffer => exact .query buffer
  | send hk ho => exact .send hk ho
  | refuse hk ho => exact .refuse hk ho
  | block hk he => exact .block hk he
  | read hk => exact .read hk
  | finish hk => exact .finish hk
  | timeout hk hq => exact .timeout hk hq
  | close => exact .close

theorem effect_of_client (h : l.client e = some l') : Effect l e l' := by
  cases e with
  | recv message => cases h
  | send k =>
    obtain ⟨c, hstep, rfl⟩ := Option.map_eq_some_iff.mp h
    cases Connection.effect_of_step hstep with
    | send hk ho =>
      rw [if_pos ho]
      exact .send hk ho
    | refuse hk ho =>
      rw [if_neg (by simp [ho])]
      exact .refuse hk ho
    | read hk => rcases hk with ⟨_, _, he⟩ | ⟨_, he⟩ <;> cases he
  | query buffer =>
    cases h
    exact .query buffer
  | wait k =>
    obtain ⟨c, hstep, rfl⟩ := Option.map_eq_some_iff.mp h
    cases Connection.effect_of_step hstep with
    | block hk he => exact .block hk he
    | read hk => exact .read hk
  | wake k =>
    obtain ⟨c, hstep, rfl⟩ := Option.map_eq_some_iff.mp h
    cases Connection.effect_of_step hstep with
    | read hk => exact .read hk
  | finish k =>
    obtain ⟨c, hstep, rfl⟩ := Option.map_eq_some_iff.mp h
    cases Connection.effect_of_step hstep with
    | read hk => rcases hk with ⟨_, _, he⟩ | ⟨_, he⟩ <;> cases he
    | finish hk => exact .finish hk
  | timeout k =>
    obtain ⟨c, hstep, rfl⟩ := Option.map_eq_some_iff.mp h
    cases Connection.effect_of_step hstep with
    | read hk => rcases hk with ⟨_, _, he⟩ | ⟨_, he⟩ <;> cases he
    | timeout hk hq => exact .timeout hk hq
  | close =>
    cases h
    exact .close

end Link

namespace Network

variable {M : Machine σ α β} {n n' : Network σ α β} {o : List (Observation α β)}

@[simp] theorem setLink_self (n : Network σ α β) (i : ℕ) (l : Link α β) :
    (n.setLink i l).links i = l := by
  simp [setLink]

theorem setLink_ne {i j : ℕ} (h : j ≠ i) (n : Network σ α β) (l : Link α β) :
    (n.setLink i l).links j = n.links j := by
  simp [setLink, h]

/-- What each step may do. -/
inductive Effect (M : Machine σ α β) (n : Network σ α β) :
    NetworkEvent α β → Network σ α β → List (Observation α β) → Prop
  | client {i : ℕ} {e : Event α β} {l : Link α β} (h : (n.links i).Effect e l) :
      Effect M n (.client i e) (n.setLink i l) (l.connection.shows i e)
  | handle {i : ℕ} {buffer : α} {server : σ} {reply : β}
      (hbuffer : (n.links i).connection.sent[(n.links i).replies.length]? = some buffer)
      (hserver : M.step n.server buffer = some (server, reply)) :
      Effect M n (.handle i)
        { n.setLink i { n.links i with replies := (n.links i).replies ++ [reply] } with server } []
  | deliver {i : ℕ} {message : β}
      (hmessage : (n.links i).replies[(n.links i).connection.received]? = some message)
      (ho : (n.links i).connection.opened = true)
      (hr : (n.links i).connection.received < (n.links i).connection.sent.length) :
      Effect M n (.deliver i)
        (n.setLink i { n.links i with connection := (n.links i).connection.recv message }) []

theorem effect_of_step {ev : NetworkEvent α β} (h : (machine M).step n ev = some (n', o)) :
    Effect M n ev n' o := by
  cases ev with
  | client i e =>
    obtain ⟨l, hl, heq⟩ := Option.map_eq_some_iff.mp h
    cases heq
    exact .client (Link.effect_of_client hl)
  | handle i =>
    simp only [machine, step] at h
    split at h
    · next buffer hbuffer =>
      obtain ⟨⟨server, reply⟩, hserver, heq⟩ := Option.map_eq_some_iff.mp h
      cases heq
      exact .handle hbuffer hserver
    · cases h
  | deliver i =>
    simp only [machine, step] at h
    split at h
    · next message hmessage =>
      obtain ⟨c, hc, heq⟩ := Option.map_eq_some_iff.mp h
      cases heq
      cases Connection.effect_of_step hc with
      | recv _ ho hr => exact .deliver hmessage ho hr
      | read hk => rcases hk with ⟨_, _, he⟩ | ⟨_, he⟩ <;> cases he
    · cases h

end Network

end FCache
