import FCache.KvHandler

/-!
# An empty group name

Seven of the eight handlers test whether the group is there and not empty, so an empty name is
the same as none. Getting all keys tests only whether the group is there.
-/

namespace FCache

/-- The request with another group field. -/
def KVRequest.withGroup (group : Option Bytes) : KVRequest → KVRequest
  | .set req => .set { req with group }
  | .get req => .get { req with group }
  | .rmv req => .rmv { req with group }
  | .add req => .add { req with group }
  | .count req => .count { req with group }
  | .contains req => .contains { req with group }
  | .clear req => .clear { req with group }
  | .clearSet req => .clearSet { req with group }

/-- A request for all keys. -/
def KVRequest.getsAll : KVRequest → Bool
  | .get req => req.keys.isNone
  | _ => false

namespace KvHandler

open Cpp

variable {s : KvHandler}

theorem handle_withGroup_nil {req : KVRequest} (h : req.getsAll = false) :
    handle (req.withGroup (some [])) = handle (req.withGroup none) := by
  cases req with
  | get req =>
    cases hkeys : req.keys with
    | none => simp [KVRequest.getsAll, hkeys] at h
    | some keys =>
      simp only [KVRequest.withGroup, handle, handleGet, hkeys]
      rfl
  | _ => rfl

/-- Without keys and without a group the request is not permitted. -/
theorem handleGet_notPermitted (s : KvHandler) (fbb : FlatBuilder) :
    handleGet ⟨none, none⟩ ⟨s, fbb⟩ = .ok () ⟨s, fbb.finish ⟨.notPermitted, .kvGet, none⟩⟩ := rfl

/-- With an empty name the default map is read, whatever comes of it. -/
theorem handleGet_emptyGroup {fbb : FlatBuilder} {s' : KvHandler}
    (h : machine.step s (.get ⟨none, some []⟩) = some (s', fbb)) :
    ∃ status body, fbb.finished = [⟨status, .kvGet, body⟩] ∧ status ≠ .notPermitted := by
  have heq := Handling.answered_eq_some.mp h
  simp only [handle, handleGet, named, get, tryCatch_apply, onMap] at heq
  cases hget : CacheMap.getAll {} s.map with
  | ok flxb m =>
    simp [hget] at heq
    rw [← heq.2]
    exact ⟨.ok, _, rfl, by decide⟩
  | throws m =>
    simp [hget] at heq
    rw [← heq.2]
    exact ⟨.fail, _, rfl, by decide⟩
  | undefined => simp [hget] at heq

/-- Exactly when all keys are asked for does an empty group name differ from none, in the reply
or in the state. -/
theorem step_withGroup_nil_iff (s : KvHandler) (req : KVRequest) :
    machine.step s (req.withGroup (some [])) = machine.step s (req.withGroup none) ↔
      req.getsAll = false := by
  constructor
  · intro h
    cases req with
    | get req =>
      cases hkeys : req.keys with
      | some keys => simp [KVRequest.getsAll, hkeys]
      | none =>
        have hnone : machine.step s (.get ⟨none, none⟩) =
            some (s, ⟨[⟨.notPermitted, .kvGet, none⟩]⟩) :=
          Handling.answered_eq_some.mpr (handleGet_notPermitted s {})
        simp only [KVRequest.withGroup, hkeys] at h
        obtain ⟨status, body, hfinished, hne⟩ := handleGet_emptyGroup (h.trans hnone)
        cases hfinished
        exact absurd rfl hne
    | _ => rfl
  · intro h
    unfold machine
    simp only
    rw [handle_withGroup_nil h]

/-- Asking for all keys of the empty store. -/
theorem not_step_withGroup_nil : ¬ ∀ (s : KvHandler) (req : KVRequest), machine.Reachable s →
    machine.step s (req.withGroup (some [])) = machine.step s (req.withGroup none) := by
  intro h
  have heq := h {} (.get {}) .init
  exact absurd heq (by decide +kernel)

end KvHandler

end FCache
