import FCache.Connection

/-!
# The numbers of requests

Each query that has sent its buffer carries the number of its request. No step gives two queries
one number, and the event touches none.
-/

namespace FCache

variable {α β : Type*}

namespace Connection

variable {c c' : Connection α β} {e : Event α β}

/-- The request of the `k`-th query. -/
def number (c : Connection α β) (k : ℕ) : Option ℕ := c.queries[k]?.bind Query.request

theorem number_setQuery {k j : ℕ} {q p : Query α β} (hk : c.queries[k]? = some p) :
    (c.setQuery k q).number j = if j = k then q.request else c.number j := by
  obtain ⟨hlt, _⟩ := List.getElem?_eq_some_iff.mp hk
  by_cases hj : j = k
  · subst hj
    simp [number, getElem?_setQuery_self q hk]
  · rw [if_neg hj]
    simp [number, setQuery, List.getElem?_set_ne (Ne.symm hj)]

/-- A stretch that keeps the request of the query it moves on keeps all numbers. -/
theorem number_setQuery_same {k : ℕ} {q p : Query α β} (hk : c.queries[k]? = some p)
    (hq : q.request = p.request) (j : ℕ) : (c.setQuery k q).number j = c.number j := by
  rw [number_setQuery hk]
  by_cases hj : j = k
  · subst hj
    simp [number, hk, hq]
  · rw [if_neg hj]

@[simp] theorem number_setEvt (j : ℕ) : c.setEvt.number j = c.number j := by
  unfold setEvt
  by_cases he : c.rspEvt = true
  · rw [if_pos he]
  · rw [if_neg he]
    simp only [number, List.getElem?_map]
    cases c.queries[j]? <;> simp

@[simp] theorem setEvt_sent : c.setEvt.sent = c.sent := by
  unfold setEvt
  split <;> rfl

@[simp] theorem setEvt_received : c.setEvt.received = c.received := by
  unfold setEvt
  split <;> rfl

@[simp] theorem setEvt_message : c.setEvt.message = c.message := by
  unfold setEvt
  split <;> rfl

@[simp] theorem setEvt_opened : c.setEvt.opened = c.opened := by
  unfold setEvt
  split <;> rfl

@[simp] theorem setEvt_rspEvt : c.setEvt.rspEvt = true := by
  unfold setEvt
  by_cases he : c.rspEvt = true
  · rw [if_pos he, he]
  · rw [if_neg he]

theorem number_query (buffer : α) (j : ℕ) :
    ({ c with queries := c.queries ++ [.called buffer] } : Connection α β).number j =
      c.number j := by
  unfold number
  rcases Nat.lt_trichotomy j c.queries.length with hj | hj | hj
  · rw [List.getElem?_append_left hj]
  · subst hj
    simp [Query.request]
  · have hlen : (c.queries ++ [Query.called buffer]).length ≤ j := by
      simp only [List.length_append, List.length_singleton]
      omega
    rw [List.getElem?_eq_none hlen, List.getElem?_eq_none (Nat.le_of_lt hj)]

theorem number_recv (message : β) (j : ℕ) : (c.recv message).number j = c.number j := by
  unfold recv
  rw [number_setEvt]
  rfl

theorem readMessage_of_message {k n : ℕ} {msg : Reply β} (hm : c.message = some msg) :
    c.readMessage k n = { c.setQuery k (.read n msg) with rspEvt := false } := by
  unfold readMessage
  rw [hm]

/-- The numbers of requests are those of buffers sent, and no two queries share one. -/
structure Numbered (c : Connection α β) : Prop where
  lt : ∀ k n, c.number k = some n → n < c.sent.length
  inj : ∀ j k n, c.number j = some n → c.number k = some n → j = k

theorem Numbered.of_number (h : Numbered c) (hs : c'.sent = c.sent)
    (hn : ∀ j n, c'.number j = some n → c.number j = some n) : Numbered c' where
  lt k n hk := by
    rw [hs]
    exact h.lt k n (hn k n hk)
  inj j k n hj hk := h.inj j k n (hn j n hj) (hn k n hk)

theorem Numbered.setQuery_none {k : ℕ} {q p : Query α β} (h : Numbered c)
    (hk : c.queries[k]? = some p) (hq : q.request = none) : Numbered (c.setQuery k q) := by
  refine h.of_number rfl ?_
  intro j n hj
  rw [number_setQuery hk] at hj
  by_cases hjk : j = k
  · simp [hjk, hq] at hj
  · rwa [if_neg hjk] at hj

theorem Numbered.setQuery_same {k : ℕ} {q p : Query α β} (h : Numbered c)
    (hk : c.queries[k]? = some p) (hq : q.request = p.request) : Numbered (c.setQuery k q) := by
  refine h.of_number rfl ?_
  intro j n hj
  rwa [number_setQuery_same hk hq] at hj

theorem Numbered.send {k : ℕ} {q : Query α β} (buffer : α) (h : Numbered c)
    (hk : c.queries[k]? = some q) :
    Numbered { c.setQuery k (.sending c.sent.length) with sent := c.sent ++ [buffer] } := by
  have hnum : ∀ j, ({ c.setQuery k (.sending c.sent.length) with
      sent := c.sent ++ [buffer] } : Connection α β).number j =
      if j = k then some c.sent.length else c.number j :=
    fun j => number_setQuery hk
  constructor
  · intro j n hj
    rw [hnum] at hj
    simp only [List.length_append, List.length_singleton]
    by_cases hjk : j = k
    · simp [hjk] at hj
      omega
    · rw [if_neg hjk] at hj
      have := h.lt j n hj
      omega
  · intro i j n hi hj
    rw [hnum] at hi hj
    by_cases hik : i = k <;> by_cases hjk : j = k
    · rw [hik, hjk]
    · rw [if_pos hik] at hi
      rw [if_neg hjk] at hj
      have := h.lt j n hj
      have := Option.some.inj hi
      omega
    · rw [if_neg hik] at hi
      rw [if_pos hjk] at hj
      have := h.lt i n hi
      have := Option.some.inj hj
      omega
    · rw [if_neg hik] at hi
      rw [if_neg hjk] at hj
      exact h.inj i j n hi hj

theorem Numbered.readMessage {k n : ℕ} {q : Query α β} (h : Numbered c)
    (hk : c.queries[k]? = some q) (hq : q.request = some n) : Numbered (c.readMessage k n) := by
  unfold Connection.readMessage
  cases hm : c.message with
  | none => exact h.setQuery_none hk rfl
  | some msg =>
    have hr : (Query.read n msg : Query α β).request = q.request := hq.symm
    refine (h.setQuery_same hk hr).of_number rfl ?_
    intro j m hj
    exact hj

theorem Numbered.effect (h : Numbered c) (he : Effect c e c') : Numbered c' := by
  cases he with
  | query buffer =>
    refine h.of_number rfl ?_
    intro j n hj
    rwa [number_query] at hj
  | send hk ho => exact h.send _ hk
  | refuse hk ho => exact h.setQuery_none hk rfl
  | block hk he => exact h.setQuery_same hk rfl
  | read hk =>
    rcases hk with ⟨hk, _, _⟩ | ⟨hk, _⟩
    · exact h.readMessage hk rfl
    · exact h.readMessage hk rfl
  | finish hk => exact h.setQuery_same hk rfl
  | timeout hk hq => exact h.setQuery_none hk rfl
  | recv message ho hr =>
    apply h.of_number
    · simp [Connection.recv]
    · intro j n hj
      rwa [number_recv] at hj
  | close =>
    refine h.of_number rfl ?_
    intro j n hj
    exact hj

end Connection

end FCache
