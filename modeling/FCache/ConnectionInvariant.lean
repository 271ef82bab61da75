import FCache.ConnectionNumbers

/-!
# Connections that send when quiet

A connection is quiet when its event is clear and every request has been answered. If buffers are
sent on a quiet connection only, at most one query at a time has something to read, and the
message in the slot, once the event is set, is the reply to its request.
-/

namespace FCache

variable {α β : Type*}

namespace Connection

variable {c c' : Connection α β} {e : Event α β}

def Quiet (c : Connection α β) : Prop :=
  c.rspEvt = false ∧ c.received = c.sent.length

instance : Decidable c.Quiet := inferInstanceAs (Decidable (_ ∧ _))

/-- A buffer is sent on the open connection only when it is quiet. -/
def QuietSend (c : Connection α β) : Event α β → Prop
  | .send _ => c.opened = true → c.Quiet
  | _ => True

instance : Decidable (c.QuietSend e) := by
  cases e <;> unfold QuietSend <;> infer_instance

/-- How far a query may be, given the state of the connection. At most the newest request is
still to be read, and it is either unanswered or what the slot holds. -/
def OnCourse (c : Connection α β) : Query α β → Prop
  | .sending n => n + 1 = c.sent.length ∧
      (c.opened = true → c.received = c.sent.length → c.rspEvt = true)
  | .waiting n => n + 1 = c.sent.length ∧ (c.opened = true → c.received = n)
  | .woken n => n + 1 = c.sent.length ∧ c.received = c.sent.length ∧
      (c.opened = true → c.rspEvt = true)
  | .read n msg | .returned n msg => msg.request = n
  | _ => True

structure Orderly (c : Connection α β) : Prop where
  numbered : Numbered c
  received_le : c.received ≤ c.sent.length
  sent_le : c.sent.length ≤ c.received + 1
  slot : 0 < c.received → ∃ msg, c.message = some msg ∧ msg.request + 1 = c.received
  evt : c.rspEvt = true → c.received = c.sent.length ∧ 0 < c.received
  onCourse : ∀ (k : ℕ) (q : Query α β), c.queries[k]? = some q → c.OnCourse q

theorem OnCourse.newest {q : Query α β} {n : ℕ} (h : c.OnCourse q) (hq : q.pending = some n) :
    n + 1 = c.sent.length := by
  cases q with
  | sending m | woken m | waiting m =>
    obtain rfl := Option.some.inj hq
    exact h.1
  | _ => cases hq

/-- A query that has nothing to read is on course whatever the connection does. -/
theorem OnCourse.of_pending_none {q : Query α β} (h : c.OnCourse q) (hq : q.pending = none) :
    c'.OnCourse q := by
  cases q with
  | read n msg | returned n msg => exact h
  | called _ | timedOut | raised => trivial
  | _ => cases hq

theorem Orderly.init : Orderly ({} : Connection α β) where
  numbered := ⟨by simp [number], by simp [number]⟩
  received_le := Nat.le_refl 0
  sent_le := Nat.zero_le 1
  slot h := absurd h (Nat.lt_irrefl 0)
  evt h := by cases h
  onCourse k q h := by simp at h

namespace Orderly

theorem eq_of_pending (h : Orderly c) {j k n m : ℕ} {p q : Query α β}
    (hj : c.queries[j]? = some p) (hk : c.queries[k]? = some q) (hp : p.pending = some n)
    (hq : q.pending = some m) : j = k := by
  have hn := (h.onCourse j p hj).newest hp
  have hm := (h.onCourse k q hk).newest hq
  have hnm : m = n := by omega
  subst hnm
  apply h.numbered.inj j k m
  · simp [number, hj, Query.request_of_pending hp]
  · simp [number, hk, Query.request_of_pending hq]

/-- On a quiet connection no query has anything to read. -/
theorem pending_eq_none (h : Orderly c) (ho : c.opened = true) (hquiet : c.Quiet) {k : ℕ}
    {q : Query α β} (hk : c.queries[k]? = some q) : q.pending = none := by
  have hq := h.onCourse k q hk
  obtain ⟨he, hr⟩ := hquiet
  cases q with
  | sending n =>
    have := hq.2 ho hr
    simp [he] at this
  | waiting n =>
    have := hq.1
    have := hq.2 ho
    omega
  | woken n =>
    have := hq.2.2 ho
    simp [he] at this
  | _ => rfl

theorem query (h : Orderly c) (buffer : α) :
    Orderly { c with queries := c.queries ++ [.called buffer] } where
  numbered := h.numbered.effect (.query buffer)
  received_le := h.received_le
  sent_le := h.sent_le
  slot := h.slot
  evt := h.evt
  onCourse k q hk := by
    rcases getElem?_query hk with ⟨_, rfl⟩ | hk
    · trivial
    · exact h.onCourse k q hk

/-- A stretch of one query that leaves the shared state as it is. -/
theorem setQuery (h : Orderly c) {k : ℕ} {q : Query α β} (hnum : Numbered (c.setQuery k q))
    (hq : c.OnCourse q) : Orderly (c.setQuery k q) where
  numbered := hnum
  received_le := h.received_le
  sent_le := h.sent_le
  slot := h.slot
  evt := h.evt
  onCourse j p hj := by
    rcases getElem?_setQuery hj with ⟨_, rfl⟩ | ⟨_, hj⟩
    · exact hq
    · exact h.onCourse j p hj

theorem send (h : Orderly c) {k : ℕ} {buffer : α} (hk : c.queries[k]? = some (.called buffer))
    (ho : c.opened = true) (hquiet : c.Quiet) :
    Orderly { c.setQuery k (.sending c.sent.length) with sent := c.sent ++ [buffer] } := by
  obtain ⟨he, hr⟩ := hquiet
  have hlen : (c.sent ++ [buffer]).length = c.sent.length + 1 := by simp
  constructor
  · exact h.numbered.effect (.send hk ho)
  · show c.received ≤ (c.sent ++ [buffer]).length
    omega
  · show (c.sent ++ [buffer]).length ≤ c.received + 1
    omega
  · exact h.slot
  · intro hevt
    exact absurd (he.symm.trans hevt) (by simp)
  · intro j p hj
    rcases getElem?_setQuery hj with ⟨_, rfl⟩ | ⟨_, hj⟩
    · refine ⟨hlen.symm, ?_⟩
      intro _ hrec
      have : c.received = (c.sent ++ [buffer]).length := hrec
      omega
    · exact (h.onCourse j p hj).of_pending_none (h.pending_eq_none ho ⟨he, hr⟩ hj)

/-- The query that reads is the only one with something to read, and what the slot holds is the
reply to its own request. -/
theorem readMessage (h : Orderly c) {k n : ℕ} {q : Query α β} (hk : c.queries[k]? = some q)
    (hq : q.pending = some n) (hrec : c.received = c.sent.length) :
    Orderly (c.readMessage k n) ∧
      ∃ msg, (c.readMessage k n).queries[k]? = some (.read n msg) ∧ msg.request = n := by
  have hn := (h.onCourse k q hk).newest hq
  have hnum := h.numbered.readMessage hk (Query.request_of_pending hq)
  obtain ⟨msg, hm, hmsg⟩ := h.slot (by omega)
  rw [readMessage_of_message hm] at hnum ⊢
  have hown : msg.request = n := by omega
  refine ⟨?_, msg, getElem?_setQuery_self _ hk, hown⟩
  constructor
  · exact hnum
  · exact h.received_le
  · exact h.sent_le
  · exact h.slot
  · intro he
    cases he
  · intro j p hj
    rcases getElem?_setQuery hj with ⟨_, rfl⟩ | ⟨hjk, hj⟩
    · exact hown
    · apply (h.onCourse j p hj).of_pending_none
      cases hp : p.pending with
      | none => rfl
      | some m => exact absurd (h.eq_of_pending hj hk hp hq) hjk

/-- A query that runs on to read a message does so when every request has been answered. -/
theorem pending_of_read (h : Orderly c) {k n : ℕ}
    (hk : c.queries[k]? = some (.sending n) ∧ c.rspEvt = true ∧ e = .wait k ∨
      c.queries[k]? = some (.woken n) ∧ e = .wake k) :
    ∃ q, c.queries[k]? = some q ∧ q.pending = some n ∧ c.received = c.sent.length := by
  rcases hk with ⟨hk, he, _⟩ | ⟨hk, _⟩
  · exact ⟨_, hk, rfl, (h.evt he).1⟩
  · exact ⟨_, hk, rfl, (h.onCourse _ _ hk).2.1⟩

theorem onCourse_wake {q : Query α β} (message : β) (h : c.OnCourse q)
    (hr : c.received + 1 = c.sent.length) :
    (c.recv message).OnCourse q.wake := by
  have hrec : (c.recv message).received = c.received + 1 := by simp [recv]
  have hsent : (c.recv message).sent = c.sent := by simp [recv]
  have hevt : (c.recv message).rspEvt = true := by simp [recv]
  cases q with
  | sending n => exact ⟨by rw [hsent]; exact h.1, fun _ _ => hevt⟩
  | waiting n => exact ⟨by rw [hsent]; exact h.1, by rw [hrec, hsent]; exact hr, fun _ => hevt⟩
  | woken n => exact ⟨by rw [hsent]; exact h.1, by rw [hrec, hsent]; exact hr, fun _ => hevt⟩
  | read n msg | returned n msg => exact h
  | _ => trivial

theorem recv (h : Orderly c) (message : β) (ho : c.opened = true)
    (hr : c.received < c.sent.length) : Orderly (c.recv message) := by
  have hsent := h.sent_le
  have hlt : c.received + 1 = c.sent.length := by omega
  have he : c.rspEvt = false := by
    by_contra he
    have := h.evt (by simpa using he)
    omega
  constructor
  · exact h.numbered.effect (.recv message ho hr)
  · simp only [Connection.recv, setEvt_received, setEvt_sent]
    omega
  · simp only [Connection.recv, setEvt_received, setEvt_sent]
    omega
  · intro _
    refine ⟨⟨c.received, message⟩, ?_, ?_⟩
    · simp [Connection.recv]
    · simp [Connection.recv]
  · intro _
    simp only [Connection.recv, setEvt_received, setEvt_sent]
    omega
  · intro j p hj
    have hq : (c.recv message).queries = c.queries.map Query.wake := by
      simp [Connection.recv, setEvt, he]
    rw [hq, List.getElem?_map, Option.map_eq_some_iff] at hj
    obtain ⟨q, hj, rfl⟩ := hj
    exact onCourse_wake message (h.onCourse j q hj) hlt

theorem close (h : Orderly c) : Orderly { c with opened := false, rspEvt := false } where
  numbered := h.numbered.effect .close
  received_le := h.received_le
  sent_le := h.sent_le
  slot := h.slot
  evt he := by cases he
  onCourse k q hk := by
    have hq := h.onCourse k q hk
    cases q with
    | sending n => exact ⟨hq.1, fun ho => by cases ho⟩
    | waiting n => exact ⟨hq.1, fun ho => by cases ho⟩
    | woken n => exact ⟨hq.1, hq.2.1, fun ho => by cases ho⟩
    | read n msg | returned n msg => exact hq
    | _ => trivial

/-- Every step keeps the connection orderly, provided a buffer is sent only when it is quiet. -/
theorem effect (h : Orderly c) (he : Effect c e c') (hquiet : c.QuietSend e) : Orderly c' := by
  have hnum := h.numbered.effect he
  cases he with
  | query buffer => exact h.query buffer
  | send hk ho => exact h.send hk ho (hquiet ho)
  | refuse hk ho => exact h.setQuery hnum trivial
  | block hk he =>
    apply h.setQuery hnum
    obtain ⟨hn, hset⟩ := h.onCourse _ _ hk
    refine ⟨hn, ?_⟩
    intro ho
    have hle := h.received_le
    have hsent := h.sent_le
    have hne : c.received ≠ c.sent.length := by
      intro hr
      exact absurd (he.symm.trans (hset ho hr)) (by simp)
    omega
  | read hk =>
    obtain ⟨q, hk, hq, hr⟩ := h.pending_of_read hk
    exact (h.readMessage hk hq hr).1
  | finish hk =>
    have hread := h.onCourse _ _ hk
    exact h.setQuery hnum hread
  | timeout hk hq => exact h.setQuery hnum trivial
  | recv message ho hr => exact h.recv message ho hr
  | close => exact h.close

end Orderly

theorem reachableBy_orderly (h : machine.ReachableBy QuietSend c) : Orderly c := by
  apply h.invariant Orderly.init
  intro c e c' _ hc he hstep
  exact hc.effect (effect_of_machine_step hstep) he

end Connection

end FCache
