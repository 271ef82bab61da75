import FCache.Network

/-!
# One order of all requests

Whatever the clients do, and however the network interleaves them, the server has run through one
sequence of requests, in which those of each connection stand in the order in which they were
sent, each of them once. A message that a query returns, even the wrong one, is a reply of the
server to a request of the same connection.
-/

namespace FCache

variable {σ α β : Type*}

/-- Requests with the connection they came on and the reply they were given. -/
abbrev Log (α β : Type*) := List (ℕ × α × β)

namespace Log

variable {log : Log α β}

def requests (log : Log α β) : List α := log.map fun entry => entry.2.1

def replies (log : Log α β) : List β := log.map fun entry => entry.2.2

def ofLink (i : ℕ) (log : Log α β) : Log α β := log.filter fun entry => entry.1 = i

theorem ofLink_append_self (i : ℕ) (log : Log α β) (buffer : α) (reply : β) :
    ofLink i (log ++ [(i, buffer, reply)]) = ofLink i log ++ [(i, buffer, reply)] := by
  simp [ofLink]

theorem ofLink_append_ne {i j : ℕ} (h : j ≠ i) (log : Log α β) (buffer : α) (reply : β) :
    ofLink j (log ++ [(i, buffer, reply)]) = ofLink j log := by
  simp [ofLink, h.symm]

end Log

/-- The message that a query holds or has returned. -/
def Query.message : Query α β → Option (Reply β)
  | read _ msg | returned _ msg => some msg
  | _ => none

/-- The messages of a connection: that in the slot and those of its queries. -/
def Connection.Has (c : Connection α β) (msg : Reply β) : Prop :=
  c.message = some msg ∨ ∃ (k : ℕ) (q : Query α β), c.queries[k]? = some q ∧ q.message = some msg

/-- What the entries of a log that came on a link have to be. -/
structure Link.Logged (l : Link α β) (log : Log α β) : Prop where
  requests : Log.requests log = l.connection.sent.take l.replies.length
  replies : Log.replies log = l.replies
  has : ∀ msg, l.connection.Has msg → l.replies[msg.request]? = some msg.message

structure Network.Logged (M : Machine σ α β) (n : Network σ α β) (log : Log α β) : Prop where
  run : M.run log.requests = some (n.server, log.replies)
  links : ∀ i, (n.links i).Logged (Log.ofLink i log)

namespace Connection

variable {c : Connection α β} {k : ℕ} {q p : Query α β} {msg : Reply β}

theorem has_setQuery (hk : c.queries[k]? = some p)
    (hq : q.message = some msg → c.message = some msg ∨ p.message = some msg)
    (h : (c.setQuery k q).Has msg) : c.Has msg := by
  rcases h with h | ⟨j, r, hj, hr⟩
  · exact .inl h
  · rcases getElem?_setQuery hj with ⟨_, rfl⟩ | ⟨_, hj⟩
    · rcases hq hr with h | h
      · exact .inl h
      · exact .inr ⟨k, p, hk, h⟩
    · exact .inr ⟨j, r, hj, hr⟩

theorem has_readMessage {m : ℕ} (hk : c.queries[k]? = some p)
    (h : (c.readMessage k m).Has msg) : c.Has msg := by
  cases hm : c.message with
  | none =>
    have hread : c.readMessage k m = c.setQuery k .raised := by
      simp only [readMessage, hm]
    rw [hread] at h
    exact has_setQuery hk (fun heq => by cases heq) h
  | some msg' =>
    rw [readMessage_of_message hm] at h
    have h : (c.setQuery k (.read m msg')).Has msg := h
    refine has_setQuery hk (fun heq => .inl ?_) h
    exact hm.trans heq

theorem has_recv {message : β} (h : (c.recv message).Has msg) :
    msg = ⟨c.received, message⟩ ∨ c.Has msg := by
  rcases h with h | ⟨j, q, hj, hq⟩
  · left
    simp only [recv, setEvt_message, Option.some.injEq] at h
    exact h.symm
  · right
    unfold recv setEvt at hj
    split at hj
    · exact .inr ⟨j, q, hj, hq⟩
    · simp only [List.getElem?_map, Option.map_eq_some_iff] at hj
      obtain ⟨p, hp, rfl⟩ := hj
      refine .inr ⟨j, p, hp, ?_⟩
      cases p with
      | waiting m => cases hq
      | _ => exact hq

/-- No step but an arrival gives a connection a message. -/
theorem Effect.has {c' : Connection α β} {e : Event α β} (he : Effect c e c')
    (hrecv : ∀ message, e ≠ .recv message) (h : c'.Has msg) : c.Has msg := by
  cases he with
  | query buffer =>
    rcases h with h | ⟨j, q, hj, hq⟩
    · exact .inl h
    · rcases getElem?_query hj with ⟨_, rfl⟩ | hj
      · cases hq
      · exact .inr ⟨j, q, hj, hq⟩
  | @send k buffer hk ho =>
    have h : (c.setQuery k (.sending c.sent.length)).Has msg := h
    exact has_setQuery hk (fun heq => by cases heq) h
  | refuse hk ho => exact has_setQuery hk (fun heq => by cases heq) h
  | block hk he => exact has_setQuery hk (fun heq => by cases heq) h
  | read hk =>
    rcases hk with ⟨hk, _, _⟩ | ⟨hk, _⟩
    · exact has_readMessage hk h
    · exact has_readMessage hk h
  | finish hk =>
    refine has_setQuery hk ?_ h
    exact fun heq => .inr heq
  | timeout hk hq => exact has_setQuery hk (fun heq => by cases heq) h
  | recv message ho hr => exact absurd rfl (hrecv message)
  | close => exact h

/-- Buffers are only ever added at the end. -/
theorem Effect.sent_prefix {c' : Connection α β} {e : Event α β} (he : Effect c e c') :
    c.sent <+: c'.sent := by
  cases he with
  | send hk ho => exact List.prefix_append _ _
  | read hk =>
    unfold readMessage
    cases c.message <;> exact List.prefix_refl _
  | recv message ho hr => simp [Connection.recv]
  | _ => exact List.prefix_refl _

end Connection

namespace Link.Logged

variable {l l' : Link α β} {log : Log α β}

theorem replies_le (h : l.Logged log) : l.replies.length ≤ l.connection.sent.length := by
  have hlen := congrArg List.length h.requests
  have hreplies := congrArg List.length h.replies
  simp only [Log.requests, Log.replies, List.length_map, List.length_take] at hlen hreplies
  omega

theorem client {e : Event α β} (h : l.Logged log) (he : Effect l e l') : l'.Logged log := by
  have hreplies : l'.replies = l.replies := by
    cases he <;> rfl
  have hrecv : ∀ message, e ≠ .recv message := by
    rintro message rfl
    cases he with
    | read hk => rcases hk with ⟨_, _, heq⟩ | ⟨_, heq⟩ <;> cases heq
  obtain ⟨more, hmore⟩ := he.connection.sent_prefix
  refine ⟨?_, ?_, fun msg hmsg => ?_⟩
  · rw [h.requests, hreplies, ← hmore, List.take_append_of_le_length h.replies_le]
  · rw [hreplies]
    exact h.replies
  · rw [hreplies]
    exact h.has msg (he.connection.has hrecv hmsg)

theorem handle {i : ℕ} {buffer : α} {reply : β} (h : l.Logged log)
    (hbuffer : l.connection.sent[l.replies.length]? = some buffer) :
    ({ l with replies := l.replies ++ [reply] } : Link α β).Logged
      (log ++ [(i, buffer, reply)]) := by
  refine ⟨?_, ?_, fun msg hmsg => ?_⟩
  · rw [List.length_append, List.length_singleton, List.take_add_one, hbuffer, ← h.requests]
    simp [Log.requests]
  · simp only [Log.replies, List.map_append, List.map_cons, List.map_nil] at *
    exact congrArg (· ++ [reply]) h.replies
  · have hold := h.has msg hmsg
    obtain ⟨hlt, _⟩ := List.getElem?_eq_some_iff.mp hold
    exact (List.getElem?_append_left hlt).trans hold

theorem deliver {message : β} (h : l.Logged log)
    (hmessage : l.replies[l.connection.received]? = some message) :
    ({ l with connection := l.connection.recv message } : Link α β).Logged log := by
  refine ⟨?_, h.replies, fun msg hmsg => ?_⟩
  · have hsent : (l.connection.recv message).sent = l.connection.sent := by
      simp [Connection.recv]
    simpa only [hsent] using h.requests
  · rcases Connection.has_recv hmsg with rfl | hmsg
    · exact hmessage
    · exact h.has msg hmsg

end Link.Logged

namespace Network.Logged

variable {M : Machine σ α β} {n n' : Network σ α β} {log : Log α β}

theorem init : (Network.machine M).init.Logged M [] where
  run := rfl
  links i := by
    refine ⟨rfl, rfl, fun msg hmsg => ?_⟩
    rcases hmsg with hmsg | ⟨k, q, hk, _⟩
    · cases hmsg
    · simp [Network.machine] at hk

theorem setLink {i : ℕ} {l : Link α β} (h : n.Logged M log) (hl : l.Logged (Log.ofLink i log)) :
    (n.setLink i l).Logged M log := by
  refine ⟨h.run, fun j => ?_⟩
  by_cases hj : j = i
  · subst hj
    rw [setLink_self]
    exact hl
  · rw [setLink_ne hj]
    exact h.links j

/-- A step leaves the log as it is, or the server adds one entry to it. -/
theorem effect {ev : NetworkEvent α β} {o : List (AtomicService.Observation α β)}
    (h : n.Logged M log) (he : Effect M n ev n' o) :
    ∃ more, n'.Logged M (log ++ more) := by
  cases he with
  | client hclient =>
    refine ⟨[], ?_⟩
    rw [List.append_nil]
    exact h.setLink ((h.links _).client hclient)
  | deliver hmessage ho hr =>
    refine ⟨[], ?_⟩
    rw [List.append_nil]
    exact h.setLink ((h.links _).deliver hmessage)
  | @handle i buffer server reply hbuffer hserver =>
    refine ⟨[(i, buffer, reply)], ?_, fun j => ?_⟩
    · have hone : M.runFrom n.server [buffer] = some (server, [reply]) :=
        M.runFrom_single hserver
      have hrun := Machine.runFrom_append h.run hone
      simpa only [Machine.run, Log.requests, Log.replies, List.map_append, List.map_cons,
        List.map_nil] using hrun
    · by_cases hj : j = i
      · subst hj
        have hl : Link.Logged _ (Log.ofLink j log ++ [(j, buffer, reply)]) :=
          (h.links j).handle hbuffer
        rw [Log.ofLink_append_self]
        simpa using hl
      · rw [Log.ofLink_append_ne hj]
        have hlink := h.links j
        rw [← setLink_ne hj n { n.links i with replies := (n.links i).replies ++ [reply] }]
          at hlink
        exact hlink

theorem runFrom {evs : List (NetworkEvent α β)}
    {os : List (List (AtomicService.Observation α β))} (h : n.Logged M log)
    (hrun : (Network.machine M).runFrom n evs = some (n', os)) :
    ∃ more, n'.Logged M (log ++ more) := by
  induction evs generalizing n log os with
  | nil =>
    obtain ⟨rfl, _⟩ := Prod.mk.inj (Option.some.inj hrun)
    exact ⟨[], by rwa [List.append_nil]⟩
  | cons ev evs ih =>
    obtain ⟨n₁, o, os', hstep, hr, _⟩ := (Network.machine M).runFrom_cons_eq_some.mp hrun
    obtain ⟨more₁, h₁⟩ := h.effect (effect_of_step hstep)
    obtain ⟨more₂, h₂⟩ := ih h₁ hr
    exact ⟨more₁ ++ more₂, by rwa [← List.append_assoc]⟩

end Network.Logged

end FCache
