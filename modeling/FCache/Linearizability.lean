import FCache.Network
import FCache.SequentialQueries

/-!
# The clients see an atomic server

Where every buffer is sent on a quiet connection, the clients together observe nothing that a
server whose calls take effect at one instant would not show them. The instant is the one in which
the server handles the message.
-/

namespace FCache

variable {σ α β : Type*}

namespace Link

/-- A call whose request was sent takes effect when the server has handled it. -/
def Executes (l : Link α β) (n : ℕ) (pending : α → AtomicService.Call α β)
    (executed : β → AtomicService.Call α β) (call : AtomicService.Call α β) : Prop :=
  match l.replies[n]? with
  | some b => call = executed b
  | none => ∃ a, l.connection.sent[n]? = some a ∧ call = pending a

/-- Where the call of a query stands in an atomic service. -/
def Stands (l : Link α β) (k : ℕ) : Query α β → AtomicService.Call α β → Prop
  | .called a, call => k ∉ l.owners ∧ call = .pending a
  | .sending n, call | .waiting n, call | .woken n, call =>
    l.owners[n]? = some k ∧ l.Executes n .pending .executed call
  | .read n msg, call =>
    l.owners[n]? = some k ∧ l.replies[n]? = some msg.message ∧ call = .executed msg.message
  | .returned n msg, call =>
    l.owners[n]? = some k ∧ l.replies[n]? = some msg.message ∧ call = .answered msg.message
  | .timedOut, call => (k ∉ l.owners ∧ ∃ a, call = .abandoned (some a)) ∨
    ∃ n, l.owners[n]? = some k ∧
      l.Executes n (fun a => .abandoned (some a)) (fun _ => .abandoned none) call
  | .raised, call => k ∉ l.owners ∧ call = .refused

structure Matches (l : Link α β) (session : List (AtomicService.Call α β)) : Prop where
  orderly : l.connection.Orderly
  owners_length : l.owners.length = l.connection.sent.length
  owners_nodup : l.owners.Nodup
  owners_lt : ∀ k ∈ l.owners, k < l.connection.queries.length
  replies_le : l.replies.length ≤ l.connection.sent.length
  slot : ∀ msg, l.connection.message = some msg → l.replies[msg.request]? = some msg.message
  session_length : session.length = l.connection.queries.length
  stands : ∀ (k : ℕ) (q : Query α β) (call : AtomicService.Call α β),
    l.connection.queries[k]? = some q → session[k]? = some call → l.Stands k q call

variable {l l' : Link α β} {session : List (AtomicService.Call α β)} {k n : ℕ} {q : Query α β}
  {call : AtomicService.Call α β} {a : α} {b : β}

theorem stands_of_pending (hq : q.pending = some n) :
    l.Stands k q call ↔ l.owners[n]? = some k ∧ l.Executes n .pending .executed call := by
  cases q with
  | sending m | waiting m | woken m =>
    obtain rfl := Option.some.inj hq
    exact Iff.rfl
  | _ => cases hq

theorem executes_of_replied {pending : α → AtomicService.Call α β}
    {executed : β → AtomicService.Call α β} (hn : l.replies[n]? = some b) :
    l.Executes n pending executed call ↔ call = executed b := by
  unfold Executes
  rw [hn]

theorem executes_of_unreplied {pending : α → AtomicService.Call α β}
    {executed : β → AtomicService.Call α β} (hn : l.replies[n]? = none)
    (ha : l.connection.sent[n]? = some a) :
    l.Executes n pending executed call ↔ call = pending a := by
  unfold Executes
  rw [hn]
  constructor
  · rintro ⟨a', ha', rfl⟩
    rw [Option.some.inj (ha.symm.trans ha')]
  · rintro rfl
    exact ⟨a, ha, rfl⟩

/-- Requests, replies and owners that agree on what concerns a query. -/
theorem Stands.congr (h : l.Stands k q call) (howners : ∀ n : ℕ, l.owners[n]? = some k →
      l'.owners[n]? = some k ∧ l'.replies[n]? = l.replies[n]? ∧
        l'.connection.sent[n]? = l.connection.sent[n]?)
    (hmem : k ∉ l.owners → k ∉ l'.owners) : l'.Stands k q call := by
  have hexec : ∀ (n : ℕ) pending executed, l.owners[n]? = some k →
      l.Executes n pending executed call → l'.Executes n pending executed call := by
    intro n pending executed hn hex
    obtain ⟨_, hreplies, hsent⟩ := howners n hn
    unfold Executes at hex ⊢
    rwa [hreplies, hsent]
  cases q with
  | called a => exact ⟨hmem h.1, h.2⟩
  | sending n | waiting n | woken n => exact ⟨(howners n h.1).1, hexec n _ _ h.1 h.2⟩
  | read n msg | returned n msg =>
    obtain ⟨hn, hreplies, _⟩ := howners n h.1
    exact ⟨hn, hreplies.trans h.2.1, h.2.2⟩
  | timedOut =>
    rcases h with ⟨hk, hcall⟩ | ⟨n, hn, hex⟩
    · exact .inl ⟨hmem hk, hcall⟩
    · exact .inr ⟨n, (howners n hn).1, hexec n _ _ hn hex⟩
  | raised => exact ⟨hmem h.1, h.2⟩

namespace Matches

theorem call_of_query (h : l.Matches session) (hk : l.connection.queries[k]? = some q) :
    ∃ call, session[k]? = some call ∧ l.Stands k q call := by
  obtain ⟨hlt, _⟩ := List.getElem?_eq_some_iff.mp hk
  obtain ⟨call, hcall⟩ : ∃ call, session[k]? = some call :=
    ⟨_, List.getElem?_eq_getElem (h.session_length ▸ hlt)⟩
  exact ⟨call, hcall, h.stands k q call hk hcall⟩

theorem not_mem_owners (h : l.Matches session) (hk : l.connection.queries.length ≤ k) :
    k ∉ l.owners := by
  intro hmem
  have := h.owners_lt k hmem
  omega

theorem owner_unique (h : l.Matches session) {m : ℕ} (hn : l.owners[n]? = some k)
    (hm : l.owners[m]? = some k) : m = n := by
  obtain ⟨hlt, heq⟩ := List.getElem?_eq_some_iff.mp hn
  obtain ⟨hlt', heq'⟩ := List.getElem?_eq_some_iff.mp hm
  exact (h.owners_nodup.getElem_inj_iff).mp (heq'.trans heq.symm)

theorem init : ({} : Link α β).Matches [] where
  orderly := Connection.Orderly.init
  owners_length := rfl
  owners_nodup := List.nodup_nil
  owners_lt k hk := by cases hk
  replies_le := Nat.le_refl 0
  slot msg hmsg := by cases hmsg
  session_length := rfl
  stands k q call hk := by simp at hk

/-- A step of one query, with the step of its call, that changes nothing else of the link. -/
theorem setQuery (h : l.Matches session) {c : Connection α β} (hc : c.Orderly)
    (hqueries : c.queries = l.connection.queries.set k q) (hsent : c.sent = l.connection.sent)
    (hmessage : c.message = l.connection.message)
    (hstands : ({ l with connection := c } : Link α β).Stands k q call) :
    ({ l with connection := c } : Link α β).Matches (session.set k call) where
  orderly := hc
  owners_length := by
    rw [hsent]
    exact h.owners_length
  owners_nodup := h.owners_nodup
  owners_lt j hj := by
    rw [hqueries, List.length_set]
    exact h.owners_lt j hj
  replies_le := by
    rw [hsent]
    exact h.replies_le
  slot msg hmsg := h.slot msg (hmessage ▸ hmsg)
  session_length := by
    rw [hqueries, List.length_set, List.length_set]
    exact h.session_length
  stands j p r hj hr := by
    rw [hqueries] at hj
    by_cases hjk : k = j
    · subst hjk
      obtain ⟨hlt, _⟩ := List.getElem?_eq_some_iff.mp hj
      rw [List.length_set] at hlt
      rw [List.getElem?_set_self hlt] at hj
      rw [List.getElem?_set_self (h.session_length ▸ hlt)] at hr
      obtain rfl := Option.some.inj hj
      obtain rfl := Option.some.inj hr
      exact hstands
    · rw [List.getElem?_set_ne hjk] at hj hr
      apply (h.stands j p r hj hr).congr
      · intro n hn
        exact ⟨hn, rfl, by rw [hsent]⟩
      · exact id

theorem query (h : l.Matches session) (a : α) :
    ({ l with connection := { l.connection with
        queries := l.connection.queries ++ [.called a] } } : Link α β).Matches
      (session ++ [.pending a]) where
  orderly := h.orderly.query a
  owners_length := h.owners_length
  owners_nodup := h.owners_nodup
  owners_lt j hj := by
    rw [List.length_append]
    have := h.owners_lt j hj
    omega
  replies_le := h.replies_le
  slot := h.slot
  session_length := by
    rw [List.length_append, List.length_append, h.session_length]
    rfl
  stands j p r hj hr := by
    rw [List.getElem?_append] at hj hr
    rw [h.session_length] at hr
    split at hj
    · next hlt =>
      rw [if_pos hlt] at hr
      exact (h.stands j p r hj hr).congr (fun _ hn => ⟨hn, rfl, rfl⟩) id
    · next hlt =>
      rw [if_neg hlt] at hr
      obtain ⟨_, rfl⟩ := List.getElem?_eq_some_iff.mp hj
      obtain ⟨_, rfl⟩ := List.getElem?_eq_some_iff.mp hr
      simp only [List.getElem_singleton]
      exact ⟨h.not_mem_owners (by omega), rfl⟩

theorem send (h : l.Matches session) {c : Connection α β} (hc : c.Orderly)
    (hk : l.connection.queries[k]? = some (.called a))
    (hqueries : c.queries = l.connection.queries.set k (.sending l.connection.sent.length))
    (hsent : c.sent = l.connection.sent ++ [a]) (hmessage : c.message = l.connection.message) :
    ({ l with connection := c, owners := l.owners ++ [k] } : Link α β).Matches session := by
  obtain ⟨call, hcall, hnew, rfl⟩ := h.call_of_query hk
  obtain ⟨hlt, _⟩ := List.getElem?_eq_some_iff.mp hk
  have hle := h.replies_le
  have hlen := h.owners_length
  constructor
  · exact hc
  · rw [hsent, List.length_append, List.length_append, hlen]
    rfl
  · rw [List.nodup_append]
    refine ⟨h.owners_nodup, List.nodup_singleton k, ?_⟩
    rintro j hj _ hm rfl
    exact hnew (List.mem_singleton.mp hm ▸ hj)
  · intro j hj
    rw [hqueries, List.length_set]
    rcases List.mem_append.mp hj with hj | hj
    · exact h.owners_lt j hj
    · exact List.mem_singleton.mp hj ▸ hlt
  · rw [hsent, List.length_append]
    exact Nat.le_add_right_of_le hle
  · intro msg hmsg
    exact h.slot msg (hmessage ▸ hmsg)
  · rw [hqueries, List.length_set]
    exact h.session_length
  · intro j p r hj hr
    rw [hqueries] at hj
    by_cases hjk : k = j
    · subst hjk
      rw [List.getElem?_set_self hlt] at hj
      obtain rfl := Option.some.inj hj
      obtain rfl := Option.some.inj (hcall.symm.trans hr)
      refine ⟨by rw [← hlen]; exact List.getElem?_concat_length, ?_⟩
      have hnone : l.replies[l.connection.sent.length]? = none := List.getElem?_eq_none hle
      have hlast : c.sent[l.connection.sent.length]? = some a := by
        rw [hsent]
        exact List.getElem?_concat_length
      exact Iff.mpr (executes_of_unreplied (by exact hnone) (by exact hlast)) rfl
    · rw [List.getElem?_set_ne hjk] at hj
      apply (h.stands j p r hj hr).congr
      · intro n hn
        obtain ⟨hlt, _⟩ := List.getElem?_eq_some_iff.mp hn
        refine ⟨(List.getElem?_append_left hlt).trans hn, rfl, ?_⟩
        show c.sent[n]? = _
        rw [hsent, List.getElem?_append_left (hlen ▸ hlt)]
      · intro hj' hmem
        rcases List.mem_append.mp hmem with hmem | hmem
        · exact hj' hmem
        · exact hjk (List.mem_singleton.mp hmem).symm

/-- A step of one query that does not concern its call. -/
theorem setQuery_same (h : l.Matches session) {c : Connection α β} (hc : c.Orderly)
    (hqueries : c.queries = l.connection.queries.set k q) (hsent : c.sent = l.connection.sent)
    (hmessage : c.message = l.connection.message) (hcall : session[k]? = some call)
    (hstands : ({ l with connection := c } : Link α β).Stands k q call) :
    ({ l with connection := c } : Link α β).Matches session := by
  have hset := h.setQuery hc hqueries hsent hmessage hstands
  obtain ⟨hlt, rfl⟩ := List.getElem?_eq_some_iff.mp hcall
  rwa [List.set_getElem_self] at hset

theorem close (h : l.Matches session) :
    ({ l with connection := { l.connection with opened := false, rspEvt := false } } :
      Link α β).Matches session where
  orderly := h.orderly.close
  owners_length := h.owners_length
  owners_nodup := h.owners_nodup
  owners_lt := h.owners_lt
  replies_le := h.replies_le
  slot := h.slot
  session_length := h.session_length
  stands j p r hj hr := (h.stands j p r hj hr).congr (fun _ hn => ⟨hn, rfl, rfl⟩) id

/-- A query that reads on a matching link reads the reply to its own request. -/
theorem read (h : l.Matches session) (hq : l.connection.queries[k]? = some q)
    (hp : q.pending = some n) (hr : l.connection.received = l.connection.sent.length)
    (hc : (l.connection.readMessage k n).Orderly) :
    ({ l with connection := l.connection.readMessage k n } : Link α β).Matches session ∧
      ∃ msg, (l.connection.readMessage k n).queries[k]? = some (.read n msg) := by
  obtain ⟨call, hcall, hstands⟩ := h.call_of_query hq
  obtain ⟨hn, hex⟩ := (stands_of_pending hp).mp hstands
  have hnewest := (h.orderly.onCourse k q hq).newest hp
  obtain ⟨msg, hmsg, hrequest⟩ := h.orderly.slot (by omega)
  have hreply := h.slot msg hmsg
  obtain rfl : msg.request = n := by omega
  obtain rfl := (executes_of_replied hreply).mp hex
  rw [Connection.readMessage_of_message hmsg] at hc ⊢
  refine ⟨?_, msg, Connection.getElem?_setQuery_self _ hq⟩
  exact h.setQuery_same hc rfl rfl rfl hcall ⟨hn, hreply, rfl⟩

/-- What is left of a call when its query is given up. -/
theorem timeout (h : l.Matches session) (hq : l.connection.queries[k]? = some q)
    (hp : q.inProgress = true) (hc : (l.connection.setQuery k .timedOut).Orderly) :
    (∃ a, session[k]? = some (.pending a) ∧
      ({ l with connection := l.connection.setQuery k .timedOut } : Link α β).Matches
        (session.set k (.abandoned (some a)))) ∨
    ∃ b, session[k]? = some (.executed b) ∧
      ({ l with connection := l.connection.setQuery k .timedOut } : Link α β).Matches
        (session.set k (.abandoned none)) := by
  obtain ⟨call, hcall, hstands⟩ := h.call_of_query hq
  have hset : ∀ call' : AtomicService.Call α β, l.Stands k .timedOut call' →
      ({ l with connection := l.connection.setQuery k .timedOut } : Link α β).Matches
        (session.set k call') :=
    fun call' hs => h.setQuery hc rfl rfl rfl hs
  cases q with
  | called a =>
    obtain ⟨hmem, rfl⟩ := hstands
    exact .inl ⟨a, hcall, hset _ (.inl ⟨hmem, a, rfl⟩)⟩
  | sending n | waiting n | woken n =>
    obtain ⟨hn, hex⟩ := hstands
    cases hb : l.replies[n]? with
    | some b =>
      obtain rfl := (executes_of_replied hb).mp hex
      exact .inr ⟨b, hcall, hset _ (.inr ⟨n, hn, (executes_of_replied hb).mpr rfl⟩)⟩
    | none =>
      unfold Executes at hex
      rw [hb] at hex
      obtain ⟨a, ha, rfl⟩ := hex
      exact .inl ⟨a, hcall, hset _ (.inr ⟨n, hn, (executes_of_unreplied hb ha).mpr rfl⟩)⟩
  | read n msg =>
    obtain ⟨hn, hb, rfl⟩ := hstands
    exact .inr ⟨_, hcall, hset _ (.inr ⟨n, hn, (executes_of_replied hb).mpr rfl⟩)⟩
  | returned n msg => cases hp
  | timedOut => cases hp
  | raised => cases hp

theorem stands_wake : l.Stands k q.wake call ↔ l.Stands k q call := by
  cases q <;> exact Iff.rfl

theorem recv (h : l.Matches session) (hc : (l.connection.recv b).Orderly)
    (hreply : l.replies[l.connection.received]? = some b) :
    ({ l with connection := l.connection.recv b } : Link α β).Matches session := by
  have hsent : (l.connection.recv b).sent = l.connection.sent := by
    simp [Connection.recv]
  have hlen : (l.connection.recv b).queries.length = l.connection.queries.length := by
    unfold Connection.recv Connection.setEvt
    split
    · rfl
    · exact List.length_map _
  constructor
  · exact hc
  · rw [hsent]
    exact h.owners_length
  · exact h.owners_nodup
  · rw [hlen]
    exact h.owners_lt
  · rw [hsent]
    exact h.replies_le
  · intro msg hmsg
    simp only [Connection.recv, Connection.setEvt_message, Option.some.injEq] at hmsg
    subst hmsg
    exact hreply
  · rw [hlen]
    exact h.session_length
  · intro j p r hj hr
    have hold : l.Stands j p r := by
      simp only [Connection.recv, Connection.setEvt] at hj
      split at hj
      · exact h.stands j p r hj hr
      · obtain ⟨q, hq, rfl⟩ := Option.map_eq_some_iff.mp (List.getElem?_map ▸ hj)
        exact stands_wake.mpr (h.stands j q r hq hr)
    exact hold.congr (fun n hn => ⟨hn, rfl, by rw [hsent]⟩) id

/-- The server handles the next message of the link, which the query `k` has sent. -/
theorem handle (h : l.Matches session) (hk : l.owners[l.replies.length]? = some k)
    (hlt : l.replies.length < l.connection.sent.length)
    (hq : l.connection.queries[k]? = some q)
    (hstands : ({ l with replies := l.replies ++ [b] } : Link α β).Stands k q call) :
    ({ l with replies := l.replies ++ [b] } : Link α β).Matches (session.set k call) where
  orderly := h.orderly
  owners_length := h.owners_length
  owners_nodup := h.owners_nodup
  owners_lt := h.owners_lt
  replies_le := by
    rw [List.length_append]
    exact hlt
  slot msg hmsg := by
    have hold := h.slot msg hmsg
    obtain ⟨hlt, _⟩ := List.getElem?_eq_some_iff.mp hold
    exact (List.getElem?_append_left hlt).trans hold
  session_length := by
    rw [List.length_set]
    exact h.session_length
  stands j p r hj hr := by
    by_cases hjk : k = j
    · subst hjk
      obtain ⟨hlt, _⟩ := List.getElem?_eq_some_iff.mp hj
      rw [List.getElem?_set_self (h.session_length ▸ hlt)] at hr
      obtain rfl := Option.some.inj (hq.symm.trans hj)
      obtain rfl := Option.some.inj hr
      exact hstands
    · rw [List.getElem?_set_ne hjk] at hr
      apply (h.stands j p r hj hr).congr
      · intro n hn
        refine ⟨hn, ?_, rfl⟩
        have hne : n ≠ l.replies.length := by
          rintro rfl
          exact hjk (Option.some.inj (hk.symm.trans hn))
        show (l.replies ++ [b])[n]? = _
        rw [List.getElem?_append]
        split
        · rfl
        · rw [List.getElem?_eq_none (by simp; omega), List.getElem?_eq_none (by omega)]
      · exact id

/-- The call of the message handled next is still to be executed. -/
theorem call_of_handle (h : l.Matches session)
    (hbuffer : l.connection.sent[l.replies.length]? = some a) :
    ∃ k, (session[k]? = some (.pending a) ∧ ∀ b,
        ({ l with replies := l.replies ++ [b] } : Link α β).Matches
          (session.set k (.executed b))) ∨
      session[k]? = some (.abandoned (some a)) ∧ ∀ b,
        ({ l with replies := l.replies ++ [b] } : Link α β).Matches
          (session.set k (.abandoned none)) := by
  obtain ⟨hlt, _⟩ := List.getElem?_eq_some_iff.mp hbuffer
  obtain ⟨k, hk⟩ : ∃ k, l.owners[l.replies.length]? = some k :=
    ⟨_, List.getElem?_eq_getElem (h.owners_length ▸ hlt)⟩
  obtain ⟨q, hq⟩ : ∃ q, l.connection.queries[k]? = some q :=
    ⟨_, List.getElem?_eq_getElem (h.owners_lt k (List.mem_of_getElem? hk))⟩
  obtain ⟨call, hcall, hstands⟩ := h.call_of_query hq
  have hnone : l.replies[l.replies.length]? = none := List.getElem?_eq_none (Nat.le_refl _)
  have hsome : ∀ b, (l.replies ++ [b])[l.replies.length]? = some b :=
    fun b => List.getElem?_concat_length
  refine ⟨k, ?_⟩
  cases hp : q.pending with
  | some n =>
    obtain ⟨hn, hex⟩ := (stands_of_pending hp).mp hstands
    obtain rfl := h.owner_unique hk hn
    obtain rfl := (executes_of_unreplied hnone hbuffer).mp hex
    refine .inl ⟨hcall, fun b => h.handle hk hlt hq ?_⟩
    exact (stands_of_pending hp).mpr ⟨hk, (executes_of_replied (hsome b)).mpr rfl⟩
  | none =>
    cases q with
    | timedOut =>
      rcases hstands with ⟨hmem, _⟩ | ⟨n, hn, hex⟩
      · exact absurd (List.mem_of_getElem? hk) hmem
      · obtain rfl := h.owner_unique hk hn
        obtain rfl := (executes_of_unreplied hnone hbuffer).mp hex
        refine .inr ⟨hcall, fun b => h.handle hk hlt hq ?_⟩
        exact .inr ⟨_, hk, (executes_of_replied (hsome b)).mpr rfl⟩
    | called a => exact absurd (List.mem_of_getElem? hk) hstands.1
    | raised => exact absurd (List.mem_of_getElem? hk) hstands.1
    | read n msg | returned n msg =>
      obtain rfl := h.owner_unique hk hstands.1
      cases hnone.symm.trans hstands.2.1
    | sending n | waiting n | woken n => cases hp

end Matches

end Link

/-- The clients' connections and the sessions of an atomic service with the same server. -/
structure Network.Matches (n : Network σ α β) (s : AtomicService.State σ α β) : Prop where
  server : s.server = n.server
  links : ∀ i, (n.links i).Matches (s.sessions i)

namespace Network.Matches

variable {M : Machine σ α β} {n n' : Network σ α β} {s : AtomicService.State σ α β} {i k : ℕ}
  {l : Link α β} {o : List (AtomicService.Observation α β)}

theorem init : (machine M).init.Matches (AtomicService.machine M).init :=
  ⟨rfl, fun _ => Link.Matches.init⟩

theorem setLink (h : n.Matches s) {session : List (AtomicService.Call α β)}
    (hl : l.Matches session) : (n.setLink i l).Matches
      { s with sessions := Function.update s.sessions i session } := by
  refine ⟨h.server, fun j => ?_⟩
  by_cases hj : j = i
  · subst hj
    show ((n.setLink j l).links j).Matches (Function.update s.sessions j session j)
    rw [setLink_self, Function.update_self]
    exact hl
  · show ((n.setLink i l).links j).Matches (Function.update s.sessions i session j)
    rw [setLink_ne hj, Function.update_of_ne hj]
    exact h.links j

theorem handled (h : n.Matches s) (server : σ) {session : List (AtomicService.Call α β)}
    (hl : l.Matches session) : ({ n.setLink i l with server } : Network σ α β).Matches
      { s with server, sessions := Function.update s.sessions i session } :=
  ⟨rfl, (h.setLink hl).links⟩

/-- A step of a link that its session does not see. -/
theorem setLink_same (h : n.Matches s) (hl : l.Matches (s.sessions i)) :
    (n.setLink i l).Matches s := by
  have hsame := h.setLink (i := i) hl
  rwa [Function.update_eq_self] at hsame

/-- A step that no call of the service takes part in. -/
theorem hidden (h : n'.Matches s) : ∃ es s' os,
    (AtomicService.machine M).runFrom s es = some (s', os) ∧ os.flatten = [] ∧ n'.Matches s' :=
  ⟨[], s, [], rfl, rfl, h⟩

theorem single {s' : AtomicService.State σ α β} {e : AtomicService.Event α} (h : n'.Matches s')
    (hstep : (AtomicService.machine M).step s e = some (s', o)) : ∃ es s' os,
    (AtomicService.machine M).runFrom s es = some (s', os) ∧ os.flatten = o ∧ n'.Matches s' :=
  ⟨[e], s', [o], (AtomicService.machine M).runFrom_single hstep, List.append_nil o, h⟩

theorem client (h : n.Matches s) {e : Event α β} (he : (n.links i).Effect e l)
    (hquiet : (n.links i).connection.QuietSend e) : ∃ es s' os,
    (AtomicService.machine M).runFrom s es = some (s', os) ∧
      os.flatten = l.connection.shows i e ∧ (n.setLink i l).Matches s' := by
  have hi := h.links i
  have hc : l.connection.Orderly := hi.orderly.effect he.connection hquiet
  cases he with
  | query buffer =>
    have hnew := h.setLink (i := i) (hi.query buffer)
    exact hnew.single (e := .call i buffer) rfl
  | @send k buffer hk ho =>
    have hshows : Connection.shows i
        ({ (n.links i).connection.setQuery k (.sending (n.links i).connection.sent.length) with
          sent := (n.links i).connection.sent ++ [buffer] } : Connection α β) (.send k) = [] := by
      simp [Connection.shows, Connection.getElem?_setQuery_self _ hk]
    rw [hshows]
    exact (h.setLink_same (hi.send hc hk rfl rfl rfl)).hidden
  | refuse hk ho =>
    obtain ⟨_, hcall, hmem, rfl⟩ := hi.call_of_query hk
    have hstands : (n.links i).Stands _ .raised .refused := ⟨hmem, rfl⟩
    apply (h.setLink (hi.setQuery hc rfl rfl rfl hstands)).single
    simp only [Connection.shows, Connection.getElem?_setQuery_self _ hk]
    exact AtomicService.step_refuse hcall
  | block hk he =>
    obtain ⟨call, hcall, hstands⟩ := hi.call_of_query hk
    simp only [Connection.shows, Connection.getElem?_setQuery_self _ hk]
    exact (h.setLink_same (hi.setQuery_same hc rfl rfl rfl hcall hstands)).hidden
  | read hk =>
    obtain ⟨q, hq, hp, hr⟩ := hi.orderly.pending_of_read hk
    obtain ⟨hread, msg, hmsg⟩ := hi.read hq hp hr hc
    rcases hk with ⟨_, _, rfl⟩ | ⟨_, rfl⟩ <;>
    · simp only [Connection.shows, hmsg]
      exact (h.setLink_same hread).hidden
  | finish hk =>
    obtain ⟨_, hcall, hn, hreply, rfl⟩ := hi.call_of_query hk
    have hanswered := hi.setQuery hc rfl rfl rfl ⟨hn, hreply, rfl⟩
    apply (h.setLink hanswered).single
    simp only [Connection.shows, Connection.getElem?_setQuery_self _ hk]
    exact AtomicService.step_answer hcall
  | timeout hk hq =>
    rcases hi.timeout hk hq hc with ⟨a, hcall, hl⟩ | ⟨b, hcall, hl⟩
    · exact (h.setLink hl).single (AtomicService.step_abandon hcall)
    · exact (h.setLink hl).single (AtomicService.step_abandon_executed hcall)
  | close => exact (h.setLink_same hi.close).hidden

/-- Each step of the network is one step of the atomic service or none. -/
theorem effect (h : n.Matches s) {ev : NetworkEvent α β} (he : Effect M n ev n' o)
    (hquiet : n.QuietSend ev) : ∃ es s' os,
    (AtomicService.machine M).runFrom s es = some (s', os) ∧ os.flatten = o ∧ n'.Matches s' := by
  cases he with
  | client he => exact h.client he hquiet
  | @deliver i message hmessage ho hr =>
    have hc := (h.links _).orderly.recv message ho hr
    exact (h.setLink_same ((h.links _).recv hc hmessage)).hidden
  | @handle i buffer server reply hbuffer hserver =>
    rw [← h.server] at hserver
    obtain ⟨k, ⟨hcall, hl⟩ | ⟨hcall, hl⟩⟩ := (h.links i).call_of_handle hbuffer
    · exact (h.handled server (hl reply)).single (AtomicService.step_execute hcall hserver)
    · exact (h.handled server (hl reply)).single
        (AtomicService.step_execute_abandoned hcall hserver)

end Network.Matches

namespace Network

variable {M : Machine σ α β} {trace : List (AtomicService.Observation α β)}

/-- What the clients observe where every buffer is sent on a quiet connection, an atomic service
shows them as well. -/
theorem exhibits_of_quietSend (h : ((machine M).restrict QuietSend).Exhibits trace) :
    (AtomicService.machine M).Exhibits trace := by
  have h₀ : ((machine M).restrict QuietSend).init.Matches (AtomicService.machine M).init :=
    Matches.init
  apply Machine.Exhibits.of_stutters h₀ _ h
  intro n s ev n' o hn hstep
  obtain ⟨hquiet, hstep⟩ := Machine.step_restrict_eq_some.mp hstep
  exact hn.effect (effect_of_step hstep) hquiet

instance (c : Connection α β) (e : Event α β) : Decidable (c.SparesPending e) :=
  match e with
  | .timeout k => inferInstanceAs (Decidable (∀ q ∈ c.queries[k]?, q.pending = none))
  | .query _ | .send _ | .wait _ | .wake _ | .finish _ | .recv _ | .close => .isTrue trivial

/-- Every client issues a query when its last one has ended, and none times out between its send
and its read. -/
def Careful (n : Network σ α β) : NetworkEvent α β → Prop
  | .client i e => (n.links i).connection.Sequential e ∧ (n.links i).connection.SparesPending e
  | _ => True

instance (n : Network σ α β) (ev : NetworkEvent α β) : Decidable (n.Careful ev) :=
  match ev with
  | .client i e => inferInstanceAs (Decidable
      ((n.links i).connection.Sequential e ∧ (n.links i).connection.SparesPending e))
  | .handle _ | .deliver _ => .isTrue trivial

def OneAtATime (n : Network σ α β) : Prop := ∀ i, (n.links i).connection.OneAtATime

namespace OneAtATime

variable {n n' : Network σ α β} {ev : NetworkEvent α β}
  {o : List (AtomicService.Observation α β)}

theorem setLink (h : n.OneAtATime) {i : ℕ} {l : Link α β} (hl : l.connection.OneAtATime) :
    (n.setLink i l).OneAtATime := by
  intro j
  by_cases hj : j = i
  · subst hj
    rw [setLink_self]
    exact hl
  · rw [setLink_ne hj]
    exact h j

theorem quietSend (h : n.OneAtATime) (he : Effect M n ev n' o) : n.QuietSend ev := by
  cases he with
  | client he => exact (h _).quietSend he.connection
  | _ => trivial

theorem effect (h : n.OneAtATime) (he : Effect M n ev n' o) (hcareful : n.Careful ev) :
    n'.OneAtATime := by
  cases he with
  | client he => exact h.setLink ((h _).effect he.connection hcareful.1 hcareful.2)
  | handle hbuffer hserver => exact h.setLink (h _)
  | deliver hmessage ho hr =>
    exact h.setLink ((h _).effect (.recv _ ho hr) trivial trivial)

end OneAtATime

/-- Careful clients send on quiet connections only. -/
theorem exhibits_quietSend_of_careful (h : ((machine M).restrict Careful).Exhibits trace) :
    ((machine M).restrict QuietSend).Exhibits trace := by
  have h₀ : (machine M).init = (machine M).init ∧ (machine M).init.OneAtATime :=
    ⟨rfl, fun _ => Connection.OneAtATime.init⟩
  refine Machine.Exhibits.of_stutters (R := fun n t => n = t ∧ n.OneAtATime) h₀ ?_ h
  rintro n _ ev n' o ⟨rfl, hn⟩ hstep
  obtain ⟨hcareful, hstep⟩ := Machine.step_restrict_eq_some.mp hstep
  have he := effect_of_step hstep
  have hquiet := Machine.step_restrict_eq_some.mpr ⟨hn.quietSend he, hstep⟩
  exact ⟨[ev], n', [o], Machine.runFrom_single _ hquiet, List.append_nil o, rfl,
    hn.effect he hcareful⟩

end Network

end FCache
