import FCache.Linearizability
import FCache.Liveness

/-!
# Sent calls return

Where every buffer is sent on a quiet connection, a call whose request was sent gets stuck only if
its connection closes or the call is given up. If the server, the network and the tasks of the
client are fair, it returns the reply to its own request.
-/

namespace FCache

variable {σ α β : Type*}

/-- What a step may do to a query that has something to read, on a connection that stays open. -/
inductive Query.Moves (m : ℕ) : Query α β → Query α β → Prop
  | stay {q : Query α β} (hq : q.pending = some m) : Moves m q q
  | block : Moves m (.sending m) (.waiting m)
  | wake : Moves m (.waiting m) (.woken m)
  | read (q : Query α β) (msg : Reply β) : Moves m q (.read m msg)
  | timeout (q : Query α β) : Moves m q .timedOut

namespace Connection

variable {c c' : Connection α β} {e : Event α β} {k m : ℕ} {q : Query α β}

theorem moves_setQuery {j : ℕ} {p : Query α β} (hk : c.queries[k]? = some q)
    (hq : q.pending = some m) (hself : j = k → q.Moves m p) :
    ∃ q', (c.setQuery j p).queries[k]? = some q' ∧ q.Moves m q' := by
  by_cases hj : j = k
  · subst hj
    exact ⟨p, getElem?_setQuery_self p hk, hself rfl⟩
  · exact ⟨q, (List.getElem?_set_ne hj).trans hk, .stay hq⟩

theorem Orderly.moves (h : Orderly c) (ho : c.opened = true) (hk : c.queries[k]? = some q)
    (hq : q.pending = some m) (hquiet : c.QuietSend e) (he : Effect c e c') :
    c'.opened = false ∨ c'.opened = true ∧ c'.sent = c.sent ∧ c.received ≤ c'.received ∧
      ∃ q', c'.queries[k]? = some q' ∧ q.Moves m q' := by
  cases he with
  | query buffer =>
    obtain ⟨hlt, _⟩ := List.getElem?_eq_some_iff.mp hk
    exact .inr ⟨ho, rfl, le_rfl, q, (List.getElem?_append_left hlt).trans hk, .stay hq⟩
  | send _ _ =>
    have hnone := h.pending_eq_none ho (hquiet ho) hk
    cases hq.symm.trans hnone
  | refuse _ hclosed => cases ho.symm.trans hclosed
  | @block j n hj _ =>
    refine .inr ⟨ho, rfl, le_rfl, moves_setQuery hk hq ?_⟩
    rintro rfl
    obtain rfl := Option.some.inj (hj.symm.trans hk)
    obtain rfl := Option.some.inj hq
    exact .block
  | @read j n _ hj =>
    obtain ⟨p, hj, hp, hr⟩ := h.pending_of_read hj
    obtain rfl := h.eq_of_pending hj hk hp hq
    obtain rfl := Option.some.inj (hj.symm.trans hk)
    obtain rfl := Option.some.inj (hp.symm.trans hq)
    have hnewest := (h.onCourse _ p hj).newest hp
    obtain ⟨msg, hm, _⟩ := h.slot (by omega)
    rw [readMessage_of_message hm]
    exact .inr ⟨ho, rfl, le_rfl, _, getElem?_setQuery_self _ hk, .read p msg⟩
  | finish hj =>
    refine .inr ⟨ho, rfl, le_rfl, moves_setQuery hk hq ?_⟩
    rintro rfl
    obtain rfl := Option.some.inj (hj.symm.trans hk)
    cases hq
  | timeout hj _ =>
    refine .inr ⟨ho, rfl, le_rfl, moves_setQuery hk hq fun _ => .timeout q⟩
  | recv message _ hr =>
    have hevt : c.rspEvt = false := by
      by_contra hevt
      have := h.evt (by simpa using hevt)
      omega
    have hqueries : (c.recv message).queries = c.queries.map Query.wake := by
      simp [Connection.recv, setEvt, hevt]
    refine .inr ⟨by simpa [Connection.recv] using ho, by simp [Connection.recv],
      by simp [Connection.recv], q.wake, ?_, ?_⟩
    · rw [hqueries, List.getElem?_map, hk]
      rfl
    · cases q with
      | waiting n =>
        obtain rfl := Option.some.inj hq
        exact .wake
      | sending n | woken n => exact .stay hq
      | _ => cases hq
  | close => exact .inl rfl

/-- A query whose reply has arrived reads when its task next runs. -/
theorem Orderly.reads (h : Orderly c) (ho : c.opened = true) (hk : c.queries[k]? = some q)
    (hq : q = .sending m ∧ e = .wait k ∨ q = .woken m ∧ e = .wake k) (hm : m < c.received)
    (he : Effect c e c') : ∃ msg, c'.queries[k]? = some (.read m msg) := by
  have hle := h.received_le
  have hread : q.pending = some m →
      ∃ msg, (c.readMessage k m).queries[k]? = some (.read m msg) := by
    intro hp
    have hnewest := (h.onCourse k q hk).newest hp
    obtain ⟨_, msg, hmsg, _⟩ := h.readMessage hk hp (by omega)
    exact ⟨msg, hmsg⟩
  rcases hq with ⟨rfl, rfl⟩ | ⟨rfl, rfl⟩
  · obtain ⟨hnewest, hevt⟩ := h.onCourse k _ hk
    cases he with
    | block hj hclear => cases hclear.symm.trans (hevt ho (by omega))
    | read hj =>
      rcases hj with ⟨hj, _, heq⟩ | ⟨_, heq⟩
      · cases heq
        cases hj.symm.trans hk
        exact hread rfl
      · cases heq
  · cases he with
    | read hj =>
      rcases hj with ⟨_, _, heq⟩ | ⟨hj, heq⟩
      · cases heq
      · cases heq
        cases hj.symm.trans hk
        exact hread rfl

/-- A query that has read its message keeps it until it returns. -/
theorem Effect.read_keeps {msg : Reply β} (hk : c.queries[k]? = some (.read m msg))
    (he : Effect c e c') : c'.queries[k]? = some (.read m msg) ∨
      c'.queries[k]? = some .timedOut ∨ c'.queries[k]? = some (.returned m msg) := by
  have hother : ∀ {j : ℕ} {p r : Query α β}, c.queries[j]? = some p → p ≠ .read m msg →
      (c.queries.set j r)[k]? = some (.read m msg) := by
    intro j p r hj hp
    have hne : j ≠ k := by
      rintro rfl
      exact hp (Option.some.inj (hj.symm.trans hk))
    exact (List.getElem?_set_ne hne).trans hk
  cases he with
  | query buffer =>
    obtain ⟨hlt, _⟩ := List.getElem?_eq_some_iff.mp hk
    exact .inl ((List.getElem?_append_left hlt).trans hk)
  | send hj _ | refuse hj _ | block hj _ => exact .inl (hother hj (by simp))
  | @read j n _ hj =>
    obtain ⟨p, hj, hp⟩ : ∃ p, c.queries[j]? = some p ∧ p ≠ .read m msg := by
      rcases hj with ⟨hj, _⟩ | ⟨hj, _⟩
      · exact ⟨_, hj, by simp⟩
      · exact ⟨_, hj, by simp⟩
    left
    unfold readMessage
    cases c.message with
    | none => exact hother hj hp
    | some msg' => exact hother hj hp
  | @finish j n msg' hj =>
    by_cases hjk : j = k
    · subst hjk
      cases hj.symm.trans hk
      exact .inr (.inr (getElem?_setQuery_self _ hk))
    · exact .inl ((List.getElem?_set_ne hjk).trans hk)
  | @timeout j q hj _ =>
    by_cases hjk : j = k
    · subst hjk
      exact .inr (.inl (getElem?_setQuery_self _ hk))
    · exact .inl ((List.getElem?_set_ne hjk).trans hk)
  | recv message _ _ =>
    left
    unfold Connection.recv setEvt
    split
    · exact hk
    · rw [List.getElem?_map]
      show (c.queries[k]?).map Query.wake = _
      rw [hk]
      rfl
  | close => exact .inl hk

theorem Effect.finishes {msg : Reply β} (hk : c.queries[k]? = some (.read m msg))
    (he : Effect c (.finish k) c') : c'.queries[k]? = some (.returned m msg) := by
  cases he with
  | finish hj =>
    cases hj.symm.trans hk
    exact getElem?_setQuery_self _ hk
  | read hj => rcases hj with ⟨_, _, heq⟩ | ⟨_, heq⟩ <;> cases heq

end Connection

/-! ### Links -/

namespace Link

variable {l l' : Link α β} {k m : ℕ} {a : α} {q : Query α β}
  {session : List (AtomicService.Call α β)}

/-- The query has sent its request, which is `a`, and has yet to read a message. -/
structure Awaits (l : Link α β) (k m : ℕ) (a : α) (q : Query α β) : Prop where
  opened : l.connection.opened = true
  sent : l.connection.sent[m]? = some a
  query : l.connection.queries[k]? = some q
  pending : q.pending = some m

def HasRead (l : Link α β) (k m : ℕ) : Prop := ∃ msg, l.connection.queries[k]? = some (.read m msg)

/-- The connection has closed, the call is given up, or it has returned. -/
def Over (l : Link α β) (k m : ℕ) : Prop :=
  l.connection.opened = false ∨ l.connection.queries[k]? = some .timedOut ∨
    ∃ msg, l.connection.queries[k]? = some (.returned m msg)

def Past (l : Link α β) (k m : ℕ) : Prop := l.HasRead k m ∨ l.Over k m

/-- The request is the newest, and only the reply to it can be outstanding. -/
theorem Awaits.counts (h : l.Awaits k m a q) (hl : l.Matches session) :
    m + 1 = l.connection.sent.length ∧ m ≤ l.connection.received ∧
      l.connection.received ≤ l.replies.length := by
  have hnewest := (hl.orderly.onCourse k q h.query).newest h.pending
  have hle := hl.orderly.sent_le
  refine ⟨hnewest, by omega, ?_⟩
  by_cases hzero : l.connection.received = 0
  · omega
  · obtain ⟨msg, hmsg, hrequest⟩ := hl.orderly.slot (by omega)
    obtain ⟨hlt, _⟩ := List.getElem?_eq_some_iff.mp (hl.slot msg hmsg)
    omega

/-- A step of the link on which a query awaits a message. -/
inductive Advance (l l' : Link α β) (k m : ℕ) (a : α) (q : Query α β) : Prop
  | past (h : l'.Past k m)
  | awaits (q' : Query α β) (h : l'.Awaits k m a q') (hmoves : q.Moves m q')
      (hreceived : l.connection.received ≤ l'.connection.received)
      (hreplies : l.replies.length ≤ l'.replies.length)

theorem Awaits.advance (h : l.Awaits k m a q) (ho : l.connection.Orderly) {e : Event α β}
    (hquiet : l.connection.QuietSend e) (he : l.connection.Effect e l'.connection)
    (hreplies : l.replies.length ≤ l'.replies.length) : l.Advance l' k m a q := by
  rcases ho.moves h.opened h.query h.pending hquiet he with
    hclosed | ⟨hopen, hsent, hreceived, q', hk, hmoves⟩
  · exact .past (.inr (.inl hclosed))
  · have hawaits : q'.pending = some m → l.Advance l' k m a q := fun hq' =>
      .awaits q' ⟨hopen, hsent ▸ h.sent, hk, hq'⟩ hmoves hreceived hreplies
    cases hmoves with
    | stay hq => exact hawaits hq
    | block | wake => exact hawaits rfl
    | read _ msg => exact .past (.inl ⟨msg, hk⟩)
    | timeout _ => exact .past (.inr (.inr (.inl hk)))

end Link

namespace Network

variable {M : Machine σ α β} {n n' : Network σ α β} {s : AtomicService.State σ α β}
  {ev : NetworkEvent α β} {o : List (AtomicService.Observation α β)} {i k m : ℕ} {a : α}
  {q : Query α β}

theorem Matches.advance (h : n.Matches s) (he : Effect M n ev n' o) (hquiet : n.QuietSend ev)
    (hl : (n.links i).Awaits k m a q) : (n.links i).Advance (n'.links i) k m a q := by
  have ho := (h.links i).orderly
  have hsame : n'.links i = n.links i → (n.links i).Advance (n'.links i) k m a q := by
    intro heq
    rw [heq]
    exact .awaits q hl (.stay hl.pending) le_rfl le_rfl
  cases he with
  | @client j e l hclient =>
    by_cases hj : i = j
    · subst hj
      rw [setLink_self]
      have hreplies : l.replies = (n.links i).replies := by
        cases hclient <;> rfl
      exact hl.advance ho hquiet hclient.connection (hreplies ▸ le_rfl)
    · exact hsame (setLink_ne hj n l)
  | @handle j buffer server reply hbuffer hserver =>
    by_cases hj : i = j
    · subst hj
      have hlink : ({ n.setLink i { n.links i with replies := (n.links i).replies ++ [reply] } with
          server } : Network σ α β).links i =
          { n.links i with replies := (n.links i).replies ++ [reply] } := setLink_self n i _
      rw [hlink]
      exact .awaits q ⟨hl.opened, hl.sent, hl.query, hl.pending⟩ (.stay hl.pending) le_rfl (by simp)
    · exact hsame (setLink_ne hj n _)
  | @deliver j message hmessage hopen hr =>
    by_cases hj : i = j
    · subst hj
      rw [setLink_self]
      exact hl.advance ho (e := .recv message) trivial (.recv message hopen hr) le_rfl
    · exact hsame (setLink_ne hj n _)

theorem Effect.hasRead (he : Effect M n ev n' o) (hl : (n.links i).HasRead k m) :
    (n'.links i).HasRead k m ∨ (n'.links i).Over k m := by
  obtain ⟨msg, hk⟩ := hl
  have hkeeps : ∀ {e : Event α β} {c : Connection α β}, (n.links i).connection.Effect e c →
      (n'.links i).connection = c → (n'.links i).HasRead k m ∨ (n'.links i).Over k m := by
    rintro e c hc rfl
    rcases hc.read_keeps hk with hk' | hk' | hk'
    · exact .inl ⟨msg, hk'⟩
    · exact .inr (.inr (.inl hk'))
    · exact .inr (.inr (.inr ⟨msg, hk'⟩))
  have hsame : (n'.links i).connection = (n.links i).connection →
      (n'.links i).HasRead k m ∨ (n'.links i).Over k m := by
    intro heq
    exact .inl ⟨msg, heq ▸ hk⟩
  cases he with
  | @client j e l hclient =>
    by_cases hj : i = j
    · subst hj
      exact hkeeps hclient.connection (by rw [setLink_self])
    · exact hsame (by rw [setLink_ne hj])
  | @handle j buffer server reply hbuffer hserver =>
    apply hsame
    show ((n.setLink j _).links i).connection = _
    by_cases hj : i = j
    · subst hj
      rw [setLink_self]
    · rw [setLink_ne hj]
  | @deliver j message hmessage hopen hr =>
    by_cases hj : i = j
    · subst hj
      exact hkeeps (.recv message hopen hr) (by rw [setLink_self])
    · exact hsame (by rw [setLink_ne hj])

theorem Effect.handled (he : Effect M n (.handle i) n' o) :
    (n'.links i).replies.length = (n.links i).replies.length + 1 := by
  cases he with
  | @handle _ buffer server reply hbuffer hserver =>
    show ((n.setLink i _).links i).replies.length = _
    rw [setLink_self]
    simp

theorem Effect.delivered (he : Effect M n (.deliver i) n' o) :
    (n'.links i).connection.received = (n.links i).connection.received + 1 := by
  cases he with
  | deliver hmessage hopen hr =>
    rw [setLink_self]
    simp [Connection.recv]

theorem Effect.client_self {e : Event α β} (he : Effect M n (.client i e) n' o) :
    (n.links i).Effect e (n'.links i) := by
  cases he with
  | client hclient =>
    rw [setLink_self]
    exact hclient

/-! ### Executions -/

section Executions

variable {E : ((machine M).restrict QuietSend).Execution}

theorem execution_effect (E : ((machine M).restrict QuietSend).Execution) (t : ℕ) :
    (E.state t).QuietSend (E.input t) ∧
      Effect M (E.state t) (E.input t) (E.state (t + 1)) (E.output t) := by
  obtain ⟨hquiet, hstep⟩ := Machine.step_restrict_eq_some.mp (E.step t)
  exact ⟨hquiet, effect_of_step hstep⟩

theorem execution_matches (E : ((machine M).restrict QuietSend).Execution) (t : ℕ) :
    ∃ s, (E.state t).Matches s := by
  refine E.invariant (I := fun n => ∃ s, n.Matches s) ⟨_, Matches.init (M := M)⟩ ?_ t
  rintro n ev n' o ⟨s, hs⟩ hstep
  obtain ⟨hquiet, hstep⟩ := Machine.step_restrict_eq_some.mp hstep
  obtain ⟨_, s', _, _, _, hs'⟩ := hs.effect (effect_of_step hstep) hquiet
  exact ⟨s', hs'⟩

theorem execution_reachable (E : ((machine M).restrict QuietSend).Execution) (t : ℕ) :
    M.Reachable (E.state t).server := by
  refine E.invariant (I := fun n => M.Reachable n.server) .init ?_ t
  intro n ev n' o hn hstep
  cases effect_of_step (Machine.step_restrict_eq_some.mp hstep).2 with
  | client _ => exact hn
  | handle _ hserver => exact .step hn trivial hserver
  | deliver _ _ _ => exact hn

/-- The server, the network and the tasks of the client do not ignore the query for ever. -/
structure FairTo (E : ((machine M).restrict QuietSend).Execution) (i k : ℕ) : Prop where
  handle : E.Fair (.handle i)
  deliver : E.Fair (.deliver i)
  wait : E.Fair (.client i (.wait k))
  wake : E.Fair (.client i (.wake k))
  finish : E.Fair (.client i (.finish k))

/-- What serves a query that has ended has nothing to be unfair to. -/
theorem fairTo_of_ended (t : ℕ)
    (hsent : ∀ u, t ≤ u → ((E.state u).links i).connection.sent.length ≤
      ((E.state u).links i).replies.length)
    (hreplies : ∀ u, t ≤ u → ((E.state u).links i).replies.length ≤
      ((E.state u).links i).connection.received)
    (hended : ∀ u, t ≤ u → ∃ q, ((E.state u).links i).connection.queries[k]? = some q ∧
      q.inProgress = false) : FairTo E i k := by
  have hfair : ∀ ev, (∀ u, t ≤ u → (machine M).step (E.state u) ev = none) → E.Fair ev := by
    intro ev hnone
    refine Machine.Execution.fair_of_disabled fun t' => ⟨max t t', le_max_right t t', ?_⟩
    rintro ⟨n, o, hstep⟩
    have hsome := (Machine.step_restrict_eq_some.mp hstep).2
    rw [hnone _ (le_max_left t t')] at hsome
    cases hsome
  have hclient : ∀ e : Event α β, e = .wait k ∨ e = .wake k ∨ e = .finish k →
      E.Fair (.client i e) := by
    rintro e he
    apply hfair
    intro u htu
    obtain ⟨q, hq, hprogress⟩ := hended u htu
    have hnone : ((E.state u).links i).connection.step e = none := by
      rcases he with rfl | rfl | rfl <;> simp only [Connection.step, hq] <;> split <;>
        simp_all [Query.inProgress]
    rcases he with rfl | rfl | rfl <;> simp [machine, step, Link.client, hnone]
  refine ⟨hfair _ ?_, hfair _ ?_, hclient _ (.inl rfl), hclient _ (.inr (.inl rfl)),
    hclient _ (.inr (.inr rfl))⟩
  · intro u htu
    simp [machine, step, List.getElem?_eq_none (hsent u htu)]
  · intro u htu
    simp [machine, step, List.getElem?_eq_none (hreplies u htu)]

theorem execution_advance {t : ℕ} (hl : ((E.state t).links i).Awaits k m a q) :
    ((E.state t).links i).Advance ((E.state (t + 1)).links i) k m a q := by
  obtain ⟨s, hs⟩ := execution_matches E t
  obtain ⟨hquiet, he⟩ := execution_effect E t
  exact hs.advance he hquiet hl

theorem enabled_iff {n : Network σ α β} {ev : NetworkEvent α β} (hquiet : n.QuietSend ev)
    (h : ((machine M).step n ev).isSome) : ((machine M).restrict QuietSend).Enabled n ev := by
  obtain ⟨⟨n', o⟩, hstep⟩ := Option.isSome_iff_exists.mp h
  exact ⟨n', o, Machine.step_restrict_eq_some.mpr ⟨hquiet, hstep⟩⟩

/-- The server handles the request. -/
theorem leadsTo_handled (hfair : E.Fair (.handle i))
    (hserved : ∀ t, M.Enabled (E.state t).server a) :
    E.LeadsTo (fun n => ∃ q, (n.links i).Awaits k m a q)
      (fun n => (∃ q, (n.links i).Awaits k m a q ∧ m < (n.links i).replies.length) ∨
        (n.links i).Past k m) := by
  refine Machine.Execution.leadsTo_of_fair hfair ?_ ?_ ?_
  · rintro t ⟨q, hl⟩
    cases execution_advance hl with
    | past h => exact .inr (.inr h)
    | awaits q' h _ _ _ => exact .inl ⟨q', h⟩
  · rintro t ⟨q, hl⟩
    obtain ⟨s, hs⟩ := execution_matches E t
    obtain ⟨_, hle, hreplies⟩ := hl.counts (hs.links i)
    by_cases hm : m < ((E.state t).links i).replies.length
    · exact .inl (.inl ⟨q, hl, hm⟩)
    · have hlen : ((E.state t).links i).replies.length = m := by omega
      obtain ⟨server, b, hserver⟩ := hserved t
      refine .inr (enabled_iff trivial ?_)
      simp [machine, step, hlen, hl.sent, hserver]
  · rintro t ⟨q, hl⟩ hinput
    obtain ⟨s, hs⟩ := execution_matches E t
    obtain ⟨_, hle, hreplies⟩ := hl.counts (hs.links i)
    have he := (execution_effect E t).2
    rw [hinput] at he
    have hhandled := he.handled
    cases execution_advance hl with
    | past h => exact .inr h
    | awaits q' h _ _ _ => exact .inl ⟨q', h, by omega⟩

/-- The reply arrives. -/
theorem leadsTo_delivered (hfair : E.Fair (.deliver i)) :
    E.LeadsTo (fun n => ∃ q, (n.links i).Awaits k m a q ∧ m < (n.links i).replies.length)
      (fun n => (∃ q, (n.links i).Awaits k m a q ∧ m < (n.links i).connection.received) ∨
        (n.links i).Past k m) := by
  refine Machine.Execution.leadsTo_of_fair hfair ?_ ?_ ?_
  · rintro t ⟨q, hl, hm⟩
    cases execution_advance hl with
    | past h => exact .inr (.inr h)
    | awaits q' h _ _ hreplies => exact .inl ⟨q', h, by omega⟩
  · rintro t ⟨q, hl, hm⟩
    obtain ⟨s, hs⟩ := execution_matches E t
    obtain ⟨hnewest, hle, _⟩ := hl.counts (hs.links i)
    by_cases hr : m < ((E.state t).links i).connection.received
    · exact .inl (.inl ⟨q, hl, hr⟩)
    · have hreceived : ((E.state t).links i).connection.received = m := by omega
      have hlt : m < ((E.state t).links i).connection.sent.length := by omega
      refine .inr (enabled_iff trivial ?_)
      simp [machine, step, Connection.step, hreceived, hm, hl.opened, hlt]
  · rintro t ⟨q, hl, hm⟩ hinput
    obtain ⟨s, hs⟩ := execution_matches E t
    obtain ⟨_, hle, _⟩ := hl.counts (hs.links i)
    have he := (execution_effect E t).2
    rw [hinput] at he
    have hdelivered := he.delivered
    cases execution_advance hl with
    | past h => exact .inr h
    | awaits q' h _ _ _ => exact .inl ⟨q', h, by omega⟩

/-- A query that is about to wait finds the event set, and one that was woken runs on. -/
theorem leadsTo_read {e : Event α β} (hfair : E.Fair (.client i e))
    (he : q = .sending m ∧ e = .wait k ∨ q = .woken m ∧ e = .wake k) :
    E.LeadsTo (fun n => (n.links i).Awaits k m a q ∧ m < (n.links i).connection.received)
      (fun n => (n.links i).Past k m) := by
  refine Machine.Execution.leadsTo_of_fair hfair ?_ ?_ ?_
  · rintro t ⟨hl, hm⟩
    cases execution_advance hl with
    | past h => exact .inr h
    | awaits q' h hmoves hreceived _ =>
      obtain ⟨s', hs'⟩ := execution_matches E (t + 1)
      have hcourse := (hs'.links i).orderly.onCourse k q' h.query
      have hq : q' = q := by
        rcases he with ⟨rfl, _⟩ | ⟨rfl, _⟩
        · cases hmoves with
          | stay => rfl
          | block =>
            have := hcourse.2 h.opened
            omega
          | read _ msg => cases h.pending
          | timeout => cases h.pending
        · cases hmoves with
          | stay => rfl
          | read _ msg => cases h.pending
          | timeout => cases h.pending
      exact .inl ⟨hq ▸ h, by omega⟩
  · rintro t ⟨hl, hm⟩
    refine .inr (enabled_iff (by rcases he with ⟨_, rfl⟩ | ⟨_, rfl⟩ <;> trivial) ?_)
    have hk := hl.query
    rcases he with ⟨rfl, rfl⟩ | ⟨rfl, rfl⟩
    · simp [machine, step, Link.client, Connection.step, hk]
    · simp [machine, step, Link.client, Connection.step, hk]
  · rintro t ⟨hl, hm⟩ hinput
    obtain ⟨s, hs⟩ := execution_matches E t
    have hlink := (execution_effect E t).2
    rw [hinput] at hlink
    exact .inl ((hs.links i).orderly.reads hl.opened hl.query he hm hlink.client_self.connection)

theorem leadsTo_finished (hfair : E.Fair (.client i (.finish k))) :
    E.LeadsTo (fun n => (n.links i).Past k m) (fun n => (n.links i).Over k m) := by
  refine .or (Machine.Execution.leadsTo_of_fair hfair ?_ ?_ ?_) (.of_imp fun _ h => h)
  · intro t hl
    exact (execution_effect E t).2.hasRead hl
  · rintro t ⟨msg, hk⟩
    refine .inr (enabled_iff trivial ?_)
    simp [machine, step, Link.client, Connection.step, hk]
  · rintro t ⟨msg, hk⟩ hinput
    have he := (execution_effect E t).2
    rw [hinput] at he
    exact .inr (.inr ⟨msg, he.client_self.connection.finishes hk⟩)

/-- A query that has sent its request does not wait for ever. -/
theorem leadsTo_over (hfair : FairTo E i k) (hserved : ∀ t, M.Enabled (E.state t).server a) :
    E.LeadsTo (fun n => ∃ q, (n.links i).Awaits k m a q) (fun n => (n.links i).Over k m) := by
  have hpast : E.LeadsTo (fun n => (n.links i).Past k m) (fun n => (n.links i).Over k m) :=
    leadsTo_finished hfair.finish
  have hread : E.LeadsTo
      (fun n => ∃ q, (n.links i).Awaits k m a q ∧ m < (n.links i).connection.received)
      (fun n => (n.links i).Over k m) := by
    rintro t ⟨q, hl, hm⟩
    obtain ⟨s, hs⟩ := execution_matches E t
    have hcourse := (hs.links i).orderly.onCourse k q hl.query
    have hpending := hl.pending
    cases q with
    | sending n =>
      obtain rfl := Option.some.inj hpending
      exact (leadsTo_read hfair.wait (.inl ⟨rfl, rfl⟩)).trans hpast t ⟨hl, hm⟩
    | woken n =>
      obtain rfl := Option.some.inj hpending
      exact (leadsTo_read hfair.wake (.inr ⟨rfl, rfl⟩)).trans hpast t ⟨hl, hm⟩
    | waiting n =>
      obtain rfl := Option.some.inj hpending
      have := hcourse.2 hl.opened
      omega
    | _ => cases hpending
  exact (leadsTo_handled hfair.handle hserved).trans
    (.or ((leadsTo_delivered hfair.deliver).trans (.or hread hpast)) hpast)

end Executions

end Network

end FCache
