import FCache.QueryReplies

/-!
# Replies and the queries that return them

Without timeouts, and as long as every buffer is sent on a quiet connection, each reply is
returned by exactly one query. Queries that overlap share one reply and lose the next.
-/

namespace FCache

variable {α β : Type*}

/-- No timeout, and the connection stays open. -/
def Event.undisturbed : Event α β → Bool
  | .timeout _ | .close => false
  | _ => true

namespace Connection

variable {c c' : Connection α β} {e : Event α β}

/-- The reply a query has read, or reads as soon as it runs. -/
def replyOf (c : Connection α β) : Query α β → Option (Reply β)
  | .read _ msg | .returned _ msg => some msg
  | .sending _ | .woken _ => if c.rspEvt then c.message else none
  | _ => none

/-- Every reply received is for exactly one query, and has been returned by it once no query is
in progress. -/
def DeliveredOnce (c : Connection α β) : Prop :=
  ∀ m < c.received,
    (∃! k : ℕ, ∃ q msg, c.queries[k]? = some q ∧ c.replyOf q = some msg ∧ msg.request = m) ∧
    ((∀ q ∈ c.queries, q.inProgress = false) → ∃! k : ℕ, ∃ (n : ℕ) (msg : Reply β),
      c.queries[k]? = some (.returned n msg) ∧ msg.request = m)

/-- The invariant of undisturbed runs: every request sent is that of a query. -/
structure Undisturbed (c : Connection α β) : Prop where
  orderly : Orderly c
  opened : c.opened = true
  numbers : ∀ n < c.sent.length, ∃ k, c.number k = some n

/-- A query whose task is not disturbed keeps its number. -/
theorem Undisturbed.number_effect (h : Undisturbed c) (hu : e.undisturbed = true)
    (he : Effect c e c') {j n : ℕ} (hj : c.number j = some n) : c'.number j = some n := by
  cases he with
  | query buffer => rwa [number_query]
  | @send k buffer hk _ =>
    have hjk : j ≠ k := by
      rintro rfl
      simp [number, hk, Query.request] at hj
    exact (number_setQuery hk).trans (by rwa [if_neg hjk])
  | refuse _ hclosed => exact absurd (h.opened.symm.trans hclosed) (by simp)
  | block hk _ => exact Eq.trans (number_setQuery_same hk (by rfl) j) hj
  | @read k n _ hk =>
    obtain ⟨q, hk, hq, hr⟩ := h.orderly.pending_of_read hk
    have hn := (h.orderly.onCourse _ q hk).newest hq
    obtain ⟨msg, hm, _⟩ := h.orderly.slot (by omega)
    rw [readMessage_of_message hm]
    have hreq : (Query.read n msg : Query α β).request = q.request :=
      (Query.request_of_pending hq).symm
    exact (number_setQuery_same hk hreq j).trans hj
  | finish hk => exact Eq.trans (number_setQuery_same hk (by rfl) j) hj
  | timeout _ _ => cases hu
  | recv message _ _ => rwa [number_recv]
  | close => cases hu

theorem Undisturbed.effect (h : Undisturbed c) (hu : e.undisturbed = true)
    (hquiet : c.QuietSend e) (he : Effect c e c') : Undisturbed c' where
  orderly := h.orderly.effect he hquiet
  opened := by
    cases he with
    | read _ =>
      unfold readMessage
      cases c.message <;> exact h.opened
    | recv _ _ _ => simp [Connection.recv, h.opened]
    | close => cases hu
    | _ => exact h.opened
  numbers n hn := by
    have hkeep : n < c.sent.length → ∃ k, c'.number k = some n := by
      intro hn
      obtain ⟨k, hk⟩ := h.numbers n hn
      exact ⟨k, h.number_effect hu he hk⟩
    cases he with
    | @send k buffer hk _ =>
      by_cases hlt : n < c.sent.length
      · exact hkeep hlt
      · have hlast : n = c.sent.length := by
          simp only [List.length_append, List.length_singleton] at hn
          omega
        refine ⟨k, (number_setQuery hk).trans ?_⟩
        rw [if_pos rfl, hlast]
        rfl
    | read _ =>
      apply hkeep
      unfold readMessage at hn
      cases hm : c.message <;> simpa [hm, setQuery] using hn
    | recv message _ _ =>
      apply hkeep
      simpa [Connection.recv] using hn
    | _ => exact hkeep hn

theorem reachableBy_undisturbed
    (h : machine.ReachableBy (fun c e => e.undisturbed = true ∧ c.QuietSend e) c) :
    Undisturbed c := by
  apply h.invariant
  · exact ⟨Orderly.init, rfl, fun n hn => absurd hn (Nat.not_lt_zero n)⟩
  · intro c e c' _ hc he hstep
    exact hc.effect he.1 he.2 (effect_of_machine_step hstep)

/-- The reply of a query is the reply to its request. -/
theorem Orderly.request_of_replyOf (h : Orderly c) {k : ℕ} {q : Query α β} {msg : Reply β}
    (hk : c.queries[k]? = some q) (hq : c.replyOf q = some msg) :
    c.number k = some msg.request := by
  have hcourse := h.onCourse k q hk
  have hslot : ∀ n, n + 1 = c.sent.length → c.rspEvt = true → c.message = some msg →
      n = msg.request := by
    intro n hn he hm
    obtain ⟨hr, hpos⟩ := h.evt he
    obtain ⟨msg', hm', hmsg⟩ := h.slot hpos
    obtain rfl := Option.some.inj (hm.symm.trans hm')
    omega
  cases q with
  | sending n | woken n =>
    simp only [replyOf, Option.ite_none_right_eq_some] at hq
    simp [number, hk, Query.request, hslot n hcourse.1 hq.1 hq.2]
  | read n msg' | returned n msg' =>
    obtain rfl := Option.some.inj hq
    have hreq : msg'.request = n := hcourse
    simp [number, hk, Query.request, hreq]
  | _ => cases hq

theorem Undisturbed.exists_replyOf (h : Undisturbed c) {m : ℕ} (hm : m < c.received) :
    ∃ (k : ℕ) (q : Query α β) (msg : Reply β),
      c.queries[k]? = some q ∧ c.replyOf q = some msg ∧ msg.request = m := by
  have hle := h.orderly.received_le
  obtain ⟨k, hk⟩ := h.numbers m (by omega)
  obtain ⟨q, hq, hreq⟩ := Option.bind_eq_some_iff.mp hk
  have hcourse := h.orderly.onCourse k q hq
  obtain ⟨msg, hmsg, hlast⟩ := h.orderly.slot (by omega)
  cases q with
  | sending n =>
    obtain rfl := Option.some.inj hreq
    have hn := hcourse.1
    have he := hcourse.2 h.opened (by omega)
    exact ⟨k, _, msg, hq, by simp [replyOf, he, hmsg], by omega⟩
  | waiting n =>
    obtain rfl := Option.some.inj hreq
    have := hcourse.2 h.opened
    omega
  | woken n =>
    obtain rfl := Option.some.inj hreq
    obtain ⟨hn, hr, he⟩ := hcourse
    exact ⟨k, _, msg, hq, by simp [replyOf, he h.opened, hmsg], by omega⟩
  | read n msg' | returned n msg' =>
    obtain rfl := Option.some.inj hreq
    exact ⟨k, _, msg', hq, rfl, hcourse⟩
  | _ => cases hreq

theorem Undisturbed.deliveredOnce (h : Undisturbed c) : c.DeliveredOnce := by
  intro m hm
  have huniq : ∀ j k : ℕ, c.number j = some m → c.number k = some m → j = k :=
    fun j k hj hk => h.orderly.numbered.inj j k m hj hk
  obtain ⟨k, q, msg, hq, hr, rfl⟩ := h.exists_replyOf hm
  have hk := h.orderly.request_of_replyOf hq hr
  constructor
  · refine ⟨k, ⟨q, msg, hq, hr, rfl⟩, ?_⟩
    rintro j ⟨p, msg', hp, hr', hreq⟩
    exact huniq j k (hreq ▸ h.orderly.request_of_replyOf hp hr') hk
  · intro hdone
    have hq' := hdone q (List.mem_of_getElem? hq)
    cases q with
    | returned n msg' =>
      obtain rfl := Option.some.inj hr
      refine ⟨k, ⟨n, msg', hq, rfl⟩, ?_⟩
      rintro j ⟨n', msg, hp, hreq⟩
      exact huniq j k (hreq ▸ h.orderly.request_of_replyOf hp rfl) hk
    | timedOut | raised => cases hr
    | _ => cases hq'

/-- In an undisturbed run that sends every buffer on a quiet connection, each query returns the
reply to its own request and each reply is returned by exactly one query. -/
theorem reachableBy_deliveredOnce
    (h : machine.ReachableBy (fun c e => e.undisturbed = true ∧ c.QuietSend e) c) :
    c.OwnReplies ∧ c.DeliveredOnce := by
  have hc := reachableBy_undisturbed h
  constructor
  · intro k n msg hk
    exact hc.orderly.onCourse k _ hk
  · exact hc.deliveredOnce

theorem reachableBy_deliveredOnce_two : ∃ c : Connection Bytes Bytes,
    c.queries = [.returned 0 ⟨0, [11]⟩, .returned 1 ⟨1, [12]⟩] ∧
      c.OwnReplies ∧ c.DeliveredOnce := by
  have hrun : (machine.restrict fun c e => e.undisturbed = true ∧ QuietSend c e).runFrom
      ({} : Connection Bytes Bytes)
      [.query [1], .query [2], .send 0, .recv [11], .wait 0, .send 1, .wait 1, .finish 0,
        .recv [12], .wake 1, .finish 1] =
      some ({ message := some ⟨1, [12]⟩, sent := [[1], [2]], received := 2,
              queries := [.returned 0 ⟨0, [11]⟩, .returned 1 ⟨1, [12]⟩] },
            List.replicate 11 ()) := by
    decide
  exact ⟨_, rfl, reachableBy_deliveredOnce (Machine.reachableBy_of_runFrom_restrict .init hrun)⟩

/-- Two overlapping queries are woken by one reply, and both return it; the reply to the second
is returned by none. -/
theorem not_deliveredOnce_of_undisturbed : ¬ ∀ c : Connection Bytes Bytes,
    machine.ReachableBy (fun _ e => e.undisturbed = true) c → c.OwnReplies ∧ c.DeliveredOnce := by
  intro h
  have hrun : (machine.restrict fun _ e => e.undisturbed = true).runFrom
      ({} : Connection Bytes Bytes)
      [.query [1], .query [2], .send 0, .send 1, .wait 0, .wait 1, .recv [11], .wake 0, .wake 1,
        .finish 0, .finish 1, .recv [12]] =
      some ({ rspEvt := true, message := some ⟨1, [12]⟩, sent := [[1], [2]], received := 2,
              queries := [.returned 0 ⟨0, [11]⟩, .returned 1 ⟨0, [11]⟩] },
            List.replicate 12 ()) := by
    decide
  have hreach := Machine.reachableBy_of_runFrom_restrict .init hrun
  have := (h _ hreach).1 1 1 ⟨0, [11]⟩ rfl
  exact absurd this (by decide)

end Connection

end FCache
