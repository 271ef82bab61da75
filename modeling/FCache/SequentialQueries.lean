import FCache.QueryReplies

/-!
# Queries issued one at a time

A query that is issued when no other is in progress finds the connection quiet, unless an earlier
one timed out between its send and its read. So sequential use returns own replies as long as no
query times out while its reply is outstanding.
-/

namespace FCache

variable {α β : Type*}

namespace Connection

variable {c c' : Connection α β} {e : Event α β}

/-- Only a query with nothing left to read times out. -/
def SparesPending (c : Connection α β) : Event α β → Prop
  | .timeout k => ∀ q, c.queries[k]? = some q → q.pending = none
  | _ => True

structure OneAtATime (c : Connection α β) : Prop where
  orderly : Orderly c
  eq_of_inProgress : ∀ (j k : ℕ) (p q : Query α β), c.queries[j]? = some p →
    c.queries[k]? = some q → p.inProgress = true → q.inProgress = true → j = k
  quiet : c.opened = true →
    (∀ (k : ℕ) (q : Query α β), c.queries[k]? = some q → q.pending = none) → c.Quiet

namespace OneAtATime

theorem init : OneAtATime ({} : Connection α β) where
  orderly := Orderly.init
  eq_of_inProgress j k p q hj := by simp at hj
  quiet _ _ := ⟨rfl, rfl⟩

/-- While a query is about to send, no other is in progress and the connection is quiet. -/
theorem quiet_of_called (h : OneAtATime c) {k : ℕ} {buffer : α}
    (hk : c.queries[k]? = some (.called buffer)) (ho : c.opened = true) : c.Quiet := by
  apply h.quiet ho
  intro j q hj
  cases hq : q.pending with
  | none => rfl
  | some n =>
    obtain rfl := h.eq_of_inProgress j k q _ hj hk (Query.inProgress_of_pending hq) rfl
    obtain rfl := Option.some.inj (hk.symm.trans hj)
    cases hq

theorem quietSend (h : OneAtATime c) (he : Effect c e c') : c.QuietSend e := by
  cases he with
  | send hk _ => exact h.quiet_of_called hk
  | refuse hk _ => exact h.quiet_of_called hk
  | read hk => rcases hk with ⟨_, _, rfl⟩ | ⟨_, rfl⟩ <;> trivial
  | _ => trivial

/-- A step after which the queries in progress are among those that were. -/
theorem eq_of_inProgress_of (h : OneAtATime c)
    (hold : ∀ (l : ℕ) (u : Query α β), c'.queries[l]? = some u → u.inProgress = true →
      ∃ v, c.queries[l]? = some v ∧ v.inProgress = true)
    (j k : ℕ) (p q : Query α β) (hj : c'.queries[j]? = some p) (hk : c'.queries[k]? = some q)
    (hp : p.inProgress = true) (hq : q.inProgress = true) : j = k := by
  obtain ⟨p', hj', hp'⟩ := hold j p hj hp
  obtain ⟨q', hk', hq'⟩ := hold k q hk hq
  exact h.eq_of_inProgress j k p' q' hj' hk' hp' hq'

theorem inProgress_of_setQuery {k : ℕ} {q p : Query α β} (hk : c.queries[k]? = some p)
    (hq : q.inProgress = true → p.inProgress = true) (l : ℕ) (u : Query α β)
    (hl : (c.setQuery k q).queries[l]? = some u) (hu : u.inProgress = true) :
    ∃ v, c.queries[l]? = some v ∧ v.inProgress = true := by
  rcases getElem?_setQuery hl with ⟨rfl, rfl⟩ | ⟨_, hl⟩
  · exact ⟨p, hk, hq hu⟩
  · exact ⟨u, hl, hu⟩

theorem inProgress_of_recv (message : β) (l : ℕ) (u : Query α β)
    (hl : (c.recv message).queries[l]? = some u) (hu : u.inProgress = true) :
    ∃ v, c.queries[l]? = some v ∧ v.inProgress = true := by
  unfold Connection.recv setEvt at hl
  split at hl
  · exact ⟨u, hl, hu⟩
  · simp only [List.getElem?_map, Option.map_eq_some_iff] at hl
    obtain ⟨v, hv, rfl⟩ := hl
    exact ⟨v, hv, by simpa using hu⟩

theorem eq_of_inProgress_effect (h : OneAtATime c) (he : Effect c e c') (hseq : c.Sequential e) :
    ∀ (j k : ℕ) (p q : Query α β), c'.queries[j]? = some p → c'.queries[k]? = some q →
      p.inProgress = true → q.inProgress = true → j = k := by
  cases he with
  | query buffer =>
    have hlast : ∀ (l : ℕ) (u : Query α β), (c.queries ++ [.called buffer])[l]? = some u →
        u.inProgress = true → l = c.queries.length := by
      intro l u hl hu
      rcases getElem?_query hl with ⟨hl, _⟩ | hl
      · exact hl
      · exact absurd ((hseq u (List.mem_of_getElem? hl)).symm.trans hu) (by simp)
    intro j k p q hj hk hp hq
    rw [hlast j p hj hp, hlast k q hk hq]
  | send hk _ => exact h.eq_of_inProgress_of (inProgress_of_setQuery hk fun _ => rfl)
  | refuse hk _ => exact h.eq_of_inProgress_of (inProgress_of_setQuery hk fun hq => by cases hq)
  | block hk _ => exact h.eq_of_inProgress_of (inProgress_of_setQuery hk fun _ => rfl)
  | read hk =>
    obtain ⟨q, hk, hq, _⟩ := h.orderly.pending_of_read hk
    apply h.eq_of_inProgress_of
    unfold readMessage
    cases c.message with
    | none => exact inProgress_of_setQuery hk fun hr => by cases hr
    | some msg => exact inProgress_of_setQuery hk fun _ => Query.inProgress_of_pending hq
  | finish hk => exact h.eq_of_inProgress_of (inProgress_of_setQuery hk fun hq => by cases hq)
  | timeout hk _ => exact h.eq_of_inProgress_of (inProgress_of_setQuery hk fun hq => by cases hq)
  | recv message _ _ => exact h.eq_of_inProgress_of (inProgress_of_recv message)
  | close => exact h.eq_of_inProgress

theorem pending_none_of_setQuery {k : ℕ} {q p : Query α β} (hk : c.queries[k]? = some p)
    (hp : p.pending = none)
    (hall : ∀ (j : ℕ) (r : Query α β), (c.setQuery k q).queries[j]? = some r → r.pending = none)
    (j : ℕ) (r : Query α β) (hj : c.queries[j]? = some r) : r.pending = none := by
  by_cases hjk : j = k
  · subst hjk
    obtain rfl := Option.some.inj (hk.symm.trans hj)
    exact hp
  · apply hall j r
    rw [← hj]
    exact List.getElem?_set_ne (Ne.symm hjk)

theorem pending_none_of_recv (message : β)
    (hall : ∀ (j : ℕ) (r : Query α β), (c.recv message).queries[j]? = some r → r.pending = none)
    (j : ℕ) (r : Query α β) (hj : c.queries[j]? = some r) : r.pending = none := by
  unfold Connection.recv setEvt at hall
  split at hall
  · exact hall j r hj
  · rw [← r.pending_wake]
    apply hall j
    simp [hj]

/-- Every step but the timeout of a query with something to read leaves the connection quiet as
soon as no query has anything to read. -/
theorem quiet_effect (h : OneAtATime c) (he : Effect c e c') (hspare : c.SparesPending e)
    (ho : c'.opened = true)
    (hall : ∀ (k : ℕ) (q : Query α β), c'.queries[k]? = some q → q.pending = none) :
    c'.Quiet := by
  cases he with
  | query buffer =>
    apply h.quiet ho
    intro k q hk
    apply hall k q
    obtain ⟨hlt, _⟩ := List.getElem?_eq_some_iff.mp hk
    exact (List.getElem?_append_left hlt).trans hk
  | send hk _ => cases hall _ _ (getElem?_setQuery_self _ hk)
  | refuse _ hclosed => exact absurd (hclosed.symm.trans ho) (by simp)
  | block hk _ => cases hall _ _ (getElem?_setQuery_self _ hk)
  | read hk =>
    obtain ⟨q, hk, hq, hr⟩ := h.orderly.pending_of_read hk
    have hn := (h.orderly.onCourse _ q hk).newest hq
    obtain ⟨msg, hm, _⟩ := h.orderly.slot (by omega)
    rw [readMessage_of_message hm]
    exact ⟨rfl, hr⟩
  | finish hk => exact h.quiet ho (pending_none_of_setQuery hk rfl hall)
  | timeout hk _ => exact h.quiet ho (pending_none_of_setQuery hk (hspare _ hk) hall)
  | recv message hopen hr =>
    -- the request just answered is that of a query still to read
    have hquiet := h.quiet hopen (pending_none_of_recv message hall)
    exact absurd hquiet.2 (Nat.ne_of_lt hr)
  | close => cases ho

theorem effect (h : OneAtATime c) (he : Effect c e c') (hseq : c.Sequential e)
    (hspare : c.SparesPending e) : OneAtATime c' where
  orderly := h.orderly.effect he (h.quietSend he)
  eq_of_inProgress := h.eq_of_inProgress_effect he hseq
  quiet := h.quiet_effect he hspare

end OneAtATime

/-- Queries issued one at a time return their own replies, as long as none of them times out
between its send and its read. -/
theorem ownReplies_of_sparesPending
    (h : machine.ReachableBy (fun c e => c.Sequential e ∧ c.SparesPending e) c) :
    c.OwnReplies := by
  have hc : OneAtATime c := by
    apply h.invariant OneAtATime.init
    intro c e c' _ hc he hstep
    exact hc.effect (effect_of_machine_step hstep) he.1 he.2
  intro k n msg hk
  exact hc.orderly.onCourse k _ hk

end Connection

end FCache
