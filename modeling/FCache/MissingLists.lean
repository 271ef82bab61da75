import FCache.ListReplies

/-!
# Requests that name a missing list

`haveList` answers for a missing list, and six of the eight commands leave it at that. Overwriting
and removing go on to finish the status they started with, which is what the client then decodes.
-/

namespace FCache

/-- The lists a request works on. -/
def ListRequest.inputs : ListRequest → List Bytes
  | .create _ | .delete _ => []
  | .add req => [req.name]
  | .append req => [req.name]
  | .set req => [req.name]
  | .getRange req => [req.name]
  | .remove req => [req.name]
  | .removeIf req => [req.name]
  | .intersect req => [req.list1Name, req.list2Name]
  | .info req => [req.name]

/-- The requests that finish a status of their own after `haveList` has failed. -/
def ListRequest.overrulesFailure : ListRequest → Bool
  | .set _ | .remove _ => true
  | _ => false

namespace ListHandler

def MissesInput (s : ListHandler) (req : ListRequest) : Prop :=
  ∃ name ∈ req.inputs, s.lookup name = none

/-- The client decodes a failure and the store is as it was. -/
def FailsUnchanged (s : ListHandler) (req : ListRequest) : Prop :=
  ∃ fbb rsp, machine.step s req = some (s, fbb) ∧ fbb.decoded = some rsp ∧ rsp.status = .fail

variable {s : ListHandler}

theorem failsUnchanged_of_ok {req : ListRequest} {fbb : FlatBuilder} {bodyType : BodyType}
    {body : Option ResponseTable}
    (h : handle req ⟨s, {}⟩ = .ok () ⟨s, fbb.finish ⟨.fail, bodyType, body⟩⟩) :
    FailsUnchanged s req :=
  ⟨_, _, Handling.answered_eq_some.mpr h, FlatBuilder.finish_decoded _ _, rfl⟩

theorem missing_fails {req : ListRequest} (h : MissesInput s req)
    (hreq : req.overrulesFailure = false) : FailsUnchanged s req := by
  obtain ⟨name, hname, hnone⟩ := h
  cases req with
  | create req => cases hname
  | delete req => cases hname
  | add req =>
    obtain rfl := List.mem_singleton.mp hname
    exact failsUnchanged_of_ok (doAddAppend_missing hnone _ _ _ _)
  | append req =>
    obtain rfl := List.mem_singleton.mp hname
    exact failsUnchanged_of_ok (doAddAppend_missing hnone _ _ _ _)
  | set req => cases hreq
  | getRange req =>
    obtain rfl := List.mem_singleton.mp hname
    exact failsUnchanged_of_ok (handleGetRange_missing hnone)
  | remove req => cases hreq
  | removeIf req =>
    obtain rfl := List.mem_singleton.mp hname
    exact failsUnchanged_of_ok (handleRemoveIf_missing hnone)
  | intersect req =>
    have hmissing : s.lookup req.list1Name = none ∨ s.lookup req.list2Name = none := by
      rcases List.mem_cons.mp hname with rfl | hname
      · exact .inl hnone
      · obtain rfl := List.mem_singleton.mp hname
        exact .inr hnone
    have hhandle := @handleIntersect_missing s {} req hmissing
    by_cases hboth : s.lookup req.list1Name = none ∧ s.lookup req.list2Name = none
    · rw [if_pos hboth] at hhandle
      exact failsUnchanged_of_ok hhandle
    · rw [if_neg hboth] at hhandle
      exact failsUnchanged_of_ok hhandle
  | info req =>
    obtain rfl := List.mem_singleton.mp hname
    exact failsUnchanged_of_ok (handleInfo_missing hnone)

/-- Overwriting or removing from a missing list is answered with a success. -/
theorem missing_succeeds {req : ListRequest} (h : MissesInput s req)
    (hreq : req.overrulesFailure = true) : ∃ fbb rsp, machine.step s req = some (s, fbb) ∧
      fbb.decoded = some rsp ∧ rsp.status = .ok := by
  obtain ⟨name, hname, hnone⟩ := h
  cases req with
  | set req =>
    obtain rfl := List.mem_singleton.mp hname
    exact ⟨_, _, Handling.answered_eq_some.mpr (handleSet_missing hnone),
      FlatBuilder.finish_decoded _ _, rfl⟩
  | remove req =>
    obtain rfl := List.mem_singleton.mp hname
    exact ⟨_, _, Handling.answered_eq_some.mpr (handleRemove_missing hnone),
      FlatBuilder.finish_decoded _ _, rfl⟩
  | _ => cases hreq

/-- A request that names a missing list fails and changes nothing, unless it is one of the two
that overrule the failure. -/
theorem missing_fails_iff (s : ListHandler) (req : ListRequest) :
    (MissesInput s req → FailsUnchanged s req) ↔
      ¬ (MissesInput s req ∧ req.overrulesFailure = true) := by
  constructor
  · rintro h ⟨hmissing, hreq⟩
    obtain ⟨fbb, rsp, hstep, hrsp, hfail⟩ := h hmissing
    obtain ⟨fbb', rsp', hstep', hrsp', hok⟩ := missing_succeeds hmissing hreq
    cases hstep.symm.trans hstep'
    cases hrsp.symm.trans hrsp'
    cases hfail.symm.trans hok
  · intro h hmissing
    apply missing_fails hmissing
    by_contra hreq
    exact h ⟨hmissing, by simpa using hreq⟩

/-- Removing from a list of the empty store. -/
theorem not_missing_fails : ¬ ∀ (s : ListHandler) (req : ListRequest), machine.Reachable s →
    MissesInput s req → FailsUnchanged s req := by
  intro h
  let req : ListRequest := .remove { name := [97], range := {} }
  obtain ⟨fbb, rsp, hstep, hrsp, hfail⟩ := h ∅ req .init ⟨[97], by simp [req, ListRequest.inputs],
    Finmap.lookup_empty _⟩
  have hok : machine.step ∅ req = some (∅,
      ⟨[⟨.fail, .listRemove, none⟩, ⟨.ok, .listRemove, none⟩]⟩) := by decide +kernel
  cases hstep.symm.trans hok
  cases hrsp
  cases hfail

end ListHandler

end FCache
