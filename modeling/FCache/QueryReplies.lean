import FCache.ConnectionInvariant
import FCache.Schema

/-!
# Queries and their own replies

A query reads whatever the shared slot holds when it is woken. That is the reply to its own
request as long as every buffer is sent on a quiet connection. A buffer sent at any other time
may be given the reply to another request.
-/

namespace FCache

variable {α β : Type*}

namespace Connection

variable {c c' : Connection α β} {e : Event α β}

/-- Every message returned by a query is the reply to the request of that query. -/
def OwnReplies (c : Connection α β) : Prop :=
  ∀ (k n : ℕ) (msg : Reply β), c.queries[k]? = some (.returned n msg) → msg.request = n

/-- A query is issued only when none is in progress. -/
def Sequential (c : Connection α β) : Event α β → Prop
  | .query _ => ∀ q ∈ c.queries, q.inProgress = false
  | _ => True

instance : Decidable (c.Sequential e) :=
  match e with
  | .query _ => List.decidableBAll _ c.queries
  | .send _ | .wait _ | .wake _ | .finish _ | .timeout _ | .recv _ | .close => .isTrue trivial

/-- In a run that sends every buffer on a quiet connection, with any timeouts and replies at any
time, each query that returns a message returns the reply to its own request. -/
theorem reachableBy_ownReplies (h : machine.ReachableBy QuietSend c) : c.OwnReplies := by
  intro k n msg hk
  exact (reachableBy_orderly h).onCourse k _ hk

theorem reachableBy_ownReplies_timeout : ∃ c : Connection Bytes Bytes,
    c.queries = [.timedOut, .returned 0 ⟨0, [12]⟩] ∧ c.OwnReplies := by
  have hrun : (machine.restrict QuietSend).runFrom ({} : Connection Bytes Bytes)
      [.query [1], .timeout 0, .query [2], .send 1, .wait 1, .recv [12], .wake 1, .finish 1] =
      some ({ message := some ⟨0, [12]⟩, sent := [[2]], received := 1,
              queries := [.timedOut, .returned 0 ⟨0, [12]⟩] }, List.replicate 8 ()) := by
    decide
  exact ⟨_, rfl, reachableBy_ownReplies (Machine.reachableBy_of_runFrom_restrict .init hrun)⟩

/-- The first query times out before its reply comes; the second returns that reply. -/
theorem not_ownReplies_of_sequential : ¬ ∀ c : Connection Bytes Bytes,
    machine.ReachableBy Sequential c → c.OwnReplies := by
  intro h
  have hrun : (machine.restrict Sequential).runFrom ({} : Connection Bytes Bytes)
      [.query [1], .send 0, .wait 0, .timeout 0, .recv [11], .query [2], .send 1, .wait 1,
        .finish 1] =
      some ({ message := some ⟨0, [11]⟩, sent := [[1], [2]], received := 1,
              queries := [.timedOut, .returned 1 ⟨0, [11]⟩] }, List.replicate 9 ()) := by
    decide
  have := h _ (Machine.reachableBy_of_runFrom_restrict .init hrun) 1 1 ⟨0, [11]⟩ rfl
  exact absurd this (by decide)

theorem finish_readMessage {k n : ℕ} {q : Query α β} {msg : Reply β} (hm : c.message = some msg)
    (hk : c.queries[k]? = some q) (hne : msg.request ≠ n) :
    ∃ t, machine.step (c.readMessage k n) (.finish k) = some (t, ()) ∧ ¬ t.OwnReplies := by
  have hread : (c.setQuery k (.read n msg)).queries[k]? = some (.read n msg) :=
    getElem?_setQuery_self _ hk
  rw [readMessage_of_message hm]
  refine ⟨_, by simp only [machine, step, hread]; rfl, ?_⟩
  intro hown
  exact hne (hown k n msg (getElem?_setQuery_self _ hread))

/-- A buffer sent when the connection is not quiet can be given the reply to an earlier request,
without a further query or timeout. -/
theorem Orderly.misdelivers (h : Orderly c) (ho : c.opened = true) (hquiet : ¬ c.Quiet) {k : ℕ}
    {buffer : α} (hk : c.queries[k]? = some (.called buffer)) (message : β) :
    ∃ es t os, machine.runFrom c es = some (t, os) ∧
      es ⊆ [.send k, .wait k, .recv message, .wake k, .finish k] ∧ ¬ t.OwnReplies := by
  have hle := h.received_le
  have hs : machine.step c (.send k) = some (c.send k buffer, ()) := by
    simp only [machine, step, hk]
    rfl
  have hsend : c.send k buffer =
      { c.setQuery k (.sending c.sent.length) with sent := c.sent ++ [buffer] } := if_pos ho
  have hk₁ : (c.send k buffer).queries[k]? = some (.sending c.sent.length) := by
    rw [hsend]
    exact getElem?_setQuery_self _ hk
  have hw : machine.step (c.send k buffer) (.wait k) =
      some ((c.send k buffer).wait k c.sent.length, ()) := by
    simp only [machine, step, hk₁]
    rfl
  by_cases he : c.rspEvt = true
  · -- the event is still set and the slot holds an old message
    obtain ⟨msg, hm, hlast⟩ := h.slot (h.evt he).2
    have hne : msg.request ≠ c.sent.length := by omega
    have hm₁ : (c.send k buffer).message = some msg := by
      rw [hsend]
      exact hm
    have hread : (c.send k buffer).wait k c.sent.length =
        (c.send k buffer).readMessage k c.sent.length := by
      apply if_pos
      rw [hsend]
      exact he
    obtain ⟨t, hf, hbad⟩ := finish_readMessage hm₁ hk₁ hne
    rw [hread] at hw
    exact ⟨[.send k, .wait k, .finish k], t, [(), (), ()],
      by simp [Machine.runFrom_cons, hs, hw, hf], by simp, hbad⟩
  · -- the next message answers an earlier request and wakes this query
    have he : c.rspEvt = false := by simpa using he
    have hlt : c.received < c.sent.length := by
      by_contra hge
      exact hquiet ⟨he, by omega⟩
    let c₂ := (c.send k buffer).setQuery k (.waiting c.sent.length)
    have hblock : (c.send k buffer).wait k c.sent.length = c₂ := by
      apply if_neg
      simp [hsend, he]
    have hk₂ : c₂.queries[k]? = some (.waiting c.sent.length) := getElem?_setQuery_self _ hk₁
    have hr : machine.step c₂ (.recv message) = some (c₂.recv message, ()) := by
      have hguard : c₂.opened = true ∧ c₂.received < c₂.sent.length := by
        simp only [c₂, hsend, setQuery_opened, setQuery_received, setQuery_sent,
          List.length_append, List.length_singleton]
        exact ⟨ho, by omega⟩
      simp [machine, step, hguard]
    have he₂ : c₂.rspEvt = false := by
      simp [c₂, hsend, he]
    have hm₃ : (c₂.recv message).message = some ⟨c.received, message⟩ := by
      simp [Connection.recv, c₂, hsend]
    have hk₃ : (c₂.recv message).queries[k]? = some (.woken c.sent.length) := by
      simp [Connection.recv, setEvt, he₂, hk₂, Query.wake]
    have hwake : machine.step (c₂.recv message) (.wake k) =
        some ((c₂.recv message).readMessage k c.sent.length, ()) := by
      simp only [machine, step, hk₃]
      rfl
    obtain ⟨t, hf, hbad⟩ := finish_readMessage hm₃ hk₃ (Nat.ne_of_lt hlt)
    rw [hblock] at hw
    exact ⟨[.send k, .wait k, .recv message, .wake k, .finish k], t, [(), (), (), (), ()],
      by simp [Machine.runFrom_cons, hs, hw, hr, hwake, hf], by simp, hbad⟩

end Connection

end FCache
