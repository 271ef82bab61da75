import FCache.Server
import FCache.KvRefinement
import FCache.ListInvariant

/-!
# How many responses a request is answered with

The key-value handlers finish one response each. Of the list handlers some finish none when there
is nothing to add, and some finish a second one after `haveList` has finished the first; a removal
of an inverted range does not get to its response.
-/

namespace FCache

namespace KvHandler

/-- A key-value request is answered with one response, of its own type. -/
theorem Represents.step_reply {s : KvHandler} {t : PlainStore} (h : Represents s t)
    (req : KVRequest) : ∃ s' rsp, machine.step s req = some (s', ⟨[rsp]⟩) ∧
      rsp.bodyType = req.bodyType := by
  obtain ⟨s', t', fbb, hs, ht, _⟩ := h.step req
  cases ht
  refine ⟨s', (t.step req).2, hs, ?_⟩
  cases req with
  | get req =>
    simp only [PlainStore.step, PlainStore.get]
    split <;> rfl
  | contains req =>
    simp only [PlainStore.step, PlainStore.contains]
    split <;> rfl
  | _ => rfl

end KvHandler

namespace ListHandler

variable {s : ListHandler}

/-- The types of the responses a list request finishes, `none` if it does not return. -/
def finishedTypes (s : ListHandler) : ListRequest → Option (List BodyType)
  | .add req =>
    if s.lookup req.name ≠ none ∧ req.items = [] then some [] else some [.listAdd]
  | .append req =>
    if s.lookup req.name ≠ none ∧ req.items = [] then some [] else some [.listAppend]
  | .set req =>
    if s.lookup req.name = none then some [.listSet, .listSet] else some [.listSet]
  | .remove req =>
    match s.lookup req.name with
    | none => some [.listRemove, .listRemove]
    | some l =>
      if (removeOperation req).inverted l.list.elems then none else some [.listRemove]
  | .intersect req =>
    if s.lookup req.list1Name = none ∧ s.lookup req.list2Name = none then
      some [.listIntersect, .listIntersect]
    else some [.listIntersect]
  | req => some [req.bodyType]

/-- The types of the responses in a step's builder. -/
def types (r : Option (ListHandler × FlatBuilder)) : Option (List BodyType) :=
  r.map fun r => r.2.finished.map Response.bodyType

theorem types_of_ok (req : ListRequest) {c : Handling ListHandler}
    (h : handle req ⟨s, {}⟩ = .ok () c) :
    types (machine.step s req) = some (c.fbb.finished.map Response.bodyType) := by
  unfold machine types
  simp only [h]
  rfl

theorem types_doAddAppend (hs : Invariant False s) (name : Bytes) (items : TypedVector)
    (isAppend : Bool) (pos : ℤ) (itemsSorted : Bool) :
    ∃ c, doAddAppend name items isAppend pos itemsSorted ⟨s, {}⟩ = .ok () c ∧
      c.fbb.finished.map Response.bodyType = if s.lookup name ≠ none ∧ items = [] then []
        else [if isAppend then .listAppend else .listAdd] := by
  cases hl : s.lookup name with
  | none => exact ⟨_, doAddAppend_missing hl items isAppend pos itemsSorted, by simp⟩
  | some l =>
    by_cases hne : items = []
    · subst hne
      exact ⟨_, doAddAppend_noItems hl isAppend pos itemsSorted, by simp⟩
    · obtain ⟨elems, _, heq⟩ :=
        @doAddAppend_found s {} name l hl (hs _ l hl).typesAgree items hne isAppend pos itemsSorted
      exact ⟨_, heq, by simp [hne]⟩

theorem types_remove (req : ListRemove) :
    types (machine.step s (.remove req)) = finishedTypes s (.remove req) := by
  cases hl : s.lookup req.name with
  | none =>
    rw [types_of_ok (.remove req) (handleRemove_missing hl)]
    simp [finishedTypes, hl]
  | some l =>
    rcases (removeOperation req).call_cases l.list.elems with
      ⟨hinv, hcall⟩ | ⟨hinv, elems, hcall, _⟩
    · have heq := @handleRemove_of_none s {} l req hl hcall
      simp [finishedTypes, machine, types, handle, heq, Handling.answered, hl, hinv]
    · rw [types_of_ok (.remove req) (handleRemove_of_some hl hcall)]
      simp [finishedTypes, hl, hinv]

theorem types_intersect (hs : Invariant False s) (req : ListIntersect) :
    types (machine.step s (.intersect req)) = finishedTypes s (.intersect req) := by
  rcases intersectInputs_cases s req with hmissing | ⟨l1, l2, hl1, hl2, hcan | hcan⟩
  · rw [types_of_ok (.intersect req) (handleIntersect_missing hmissing)]
    simp only [finishedTypes]
    split <;> rfl
  · rw [types_of_ok (.intersect req) (handleIntersect_refused hl1 hl2 hcan)]
    simp [finishedTypes, hl1]
  · have hft : l1.flexType = l2.flexType := (FcList.canIntersectWith_iff.mp hcan).2.2
    rcases doIntersect_cases s {} {} req (hs _ l1 hl1).typesAgree (hs _ l2 hl2).typesAgree
      hft with ⟨flxb, hdo⟩ | ⟨_, _, _, _, _, hdo⟩ <;>
    · rw [types_of_ok (.intersect req) (handleIntersect_accepted hl1 hl2 hcan hdo)]
      simp [finishedTypes, hl1]

theorem types_set (hs : Invariant False s) (req : ListSet) :
    types (machine.step s (.set req)) = finishedTypes s (.set req) := by
  cases hl : s.lookup req.name with
  | none =>
    rw [types_of_ok (.set req) (handleSet_missing hl)]
    simp [finishedTypes, hl]
  | some l =>
    rcases @handleSet_found s {} l req hl (hs _ l hl).typesAgree with
      ⟨status, heq⟩ | ⟨_, elems, _, heq⟩ <;>
    · rw [types_of_ok (.set req) heq]
      simp [finishedTypes, hl]

/-- On stores whose type tags agree the responses of a request are known from the request and
the lists it names. -/
theorem types_step (hs : Invariant False s) (req : ListRequest) :
    types (machine.step s req) = finishedTypes s req := by
  cases req with
  | create req =>
    rcases handleCreate_cases s {} req with ⟨status, heq⟩ | ⟨a, _, heq⟩
    · exact types_of_ok (.create req) heq
    · exact types_of_ok (.create req) heq
  | add req =>
    obtain ⟨c, heq, htypes⟩ := types_doAddAppend hs req.name req.items false req.position.toInt
      req.itemsSorted
    rw [types_of_ok (.add req) heq, htypes]
    simp only [finishedTypes]
    split <;> rfl
  | append req =>
    obtain ⟨c, heq, htypes⟩ := types_doAddAppend hs req.name req.items true 0 false
    rw [types_of_ok (.append req) heq, htypes]
    simp only [finishedTypes]
    split <;> rfl
  | delete req => exact types_of_ok (.delete req) (handleDelete_apply s {} req)
  | getRange req =>
    cases hl : s.lookup req.name with
    | none => exact types_of_ok (.getRange req) (handleGetRange_missing hl)
    | some l =>
      obtain ⟨flxb, created, _, heq⟩ := @handleGetRange_found s {} l req hl
      exact types_of_ok (.getRange req) heq
  | remove req => exact types_remove req
  | removeIf req =>
    cases hl : s.lookup req.name with
    | none => exact types_of_ok (.removeIf req) (handleRemoveIf_missing hl)
    | some l =>
      cases hval : removeIfValue req.value with
      | none => exact types_of_ok (.removeIf req) (handleRemoveIf_noValue hl hval)
      | some v =>
        obtain ⟨elems, _, heq⟩ := @handleRemoveIf_found s {} l req hl _ _ hval
        exact types_of_ok (.removeIf req) heq
  | intersect req => exact types_intersect hs req
  | set req => exact types_set hs req
  | info req =>
    cases hl : s.lookup req.name with
    | none => exact types_of_ok (.info req) (handleInfo_missing hl)
    | some l => exact types_of_ok (.info req) (handleInfo_found hl)

/-- The requests that are answered with one response: there is something to add to a list that
exists, what is overwritten or removed from exists and the range is not inverted, and one of two
lists to intersect exists. -/
def AnsweredOnce (s : ListHandler) : ListRequest → Prop
  | .add req => s.lookup req.name = none ∨ req.items ≠ []
  | .append req => s.lookup req.name = none ∨ req.items ≠ []
  | .set req => s.lookup req.name ≠ none
  | .remove req => ∃ l, s.lookup req.name = some l ∧
      (removeOperation req).inverted l.list.elems = false
  | .intersect req => s.lookup req.list1Name ≠ none ∨ s.lookup req.list2Name ≠ none
  | _ => True

theorem finishedTypes_eq_iff (s : ListHandler) (req : ListRequest) :
    finishedTypes s req = some [req.bodyType] ↔ AnsweredOnce s req := by
  cases req with
  | add req =>
    by_cases h : s.lookup req.name = none <;> by_cases hne : req.items = [] <;>
      simp [finishedTypes, AnsweredOnce, ListRequest.bodyType, h, hne]
  | append req =>
    by_cases h : s.lookup req.name = none <;> by_cases hne : req.items = [] <;>
      simp [finishedTypes, AnsweredOnce, ListRequest.bodyType, h, hne]
  | set req =>
    by_cases h : s.lookup req.name = none <;>
      simp [finishedTypes, AnsweredOnce, ListRequest.bodyType, h]
  | remove req =>
    cases h : s.lookup req.name with
    | none => simp [finishedTypes, AnsweredOnce, ListRequest.bodyType, h]
    | some l =>
      cases hinv : (removeOperation req).inverted l.list.elems <;>
        simp [finishedTypes, AnsweredOnce, ListRequest.bodyType, h, hinv]
  | intersect req =>
    by_cases h₁ : s.lookup req.list1Name = none <;> by_cases h₂ : s.lookup req.list2Name = none <;>
      simp [finishedTypes, AnsweredOnce, ListRequest.bodyType, h₁, h₂]
  | _ => simp [finishedTypes, AnsweredOnce, ListRequest.bodyType]

theorem step_answeredOnce_iff (hs : Invariant False s) (req : ListRequest) :
    (∃ s' rsp, machine.step s req = some (s', ⟨[rsp]⟩) ∧ rsp.bodyType = req.bodyType) ↔
      AnsweredOnce s req := by
  rw [← finishedTypes_eq_iff, ← types_step hs]
  unfold types
  constructor
  · rintro ⟨s', rsp, hstep, htype⟩
    rw [hstep, ← htype]
    rfl
  · intro h
    obtain ⟨⟨s', fbb⟩, hstep, htypes⟩ := Option.map_eq_some_iff.mp h
    obtain ⟨rsp, hfinished, htype⟩ := List.map_eq_singleton_iff.mp htypes
    refine ⟨s', rsp, ?_, htype⟩
    rw [hstep, ← hfinished]

end ListHandler

/-- The body type of a message that is dispatched to a handler. -/
def Message.bodyType : Message → Option BodyType
  | .kv (some req) => some req.bodyType
  | .list (some req) => some req.bodyType
  | _ => none

namespace Server

/-- The parts of a reachable server: the key-value handler represents a plain store, and the type
tags of the lists agree. -/
def Invariant (server : Server) : Prop :=
  (∃ t, KvHandler.Represents server.kvHandler t) ∧
    ListHandler.Invariant False server.listHandler

theorem reachable_invariant {server : Server} (h : machine.Reachable server) :
    Invariant server := by
  apply h.invariant
  · exact ⟨⟨{}, KvHandler.Represents.init⟩, ListHandler.Invariant.empty⟩
  · rintro server msg server' fbb ⟨⟨t, hkv⟩, hlist⟩ _ hstep
    cases msg with
    | notBinary => cases hstep; exact ⟨⟨t, hkv⟩, hlist⟩
    | unknownIdent => cases hstep; exact ⟨⟨t, hkv⟩, hlist⟩
    | kv body =>
      cases body with
      | none => cases hstep; exact ⟨⟨t, hkv⟩, hlist⟩
      | some req =>
        rw [step_kv] at hstep
        obtain ⟨kv, t', fbb', hkvstep, _, hrep⟩ := hkv.step req
        rw [hkvstep] at hstep
        cases hstep
        exact ⟨⟨t', hrep⟩, hlist⟩
    | list body =>
      cases body with
      | none => cases hstep; exact ⟨⟨t, hkv⟩, hlist⟩
      | some req =>
        rw [step_list] at hstep
        obtain ⟨⟨lists, fbb'⟩, hliststep, heq⟩ := Option.map_eq_some_iff.mp hstep
        cases heq
        exact ⟨⟨t, hkv⟩, ListHandler.step_invariant hlist (fun hf => hf.elim) hliststep⟩

/-- The messages that are answered with one response of their own type. -/
def AnsweredOnce (server : Server) : Message → Prop
  | .list (some req) => ListHandler.AnsweredOnce server.listHandler req
  | _ => True

/-- A dispatched message is answered with exactly one response, of its own type, exactly when its
list request is one of those answered once; key-value requests always are. -/
theorem step_once_iff {server : Server} (h : machine.Reachable server) {msg : Message}
    {bodyType : BodyType} (hmsg : msg.bodyType = some bodyType) :
    (∃ server' rsp, machine.step server msg = some (server', ⟨[rsp]⟩) ∧
      rsp.bodyType = bodyType) ↔ AnsweredOnce server msg := by
  obtain ⟨⟨t, hkv⟩, hlist⟩ := reachable_invariant h
  cases msg with
  | notBinary => cases hmsg
  | unknownIdent => cases hmsg
  | kv body =>
    cases body with
    | none => cases hmsg
    | some req =>
      obtain rfl := Option.some.inj hmsg
      obtain ⟨kv, rsp, hstep, htype⟩ := hkv.step_reply req
      refine ⟨fun _ => trivial, fun _ => ⟨{ server with kvHandler := kv }, rsp, ?_, htype⟩⟩
      rw [step_kv, hstep]
      rfl
  | list body =>
    cases body with
    | none => cases hmsg
    | some req =>
      obtain rfl := Option.some.inj hmsg
      refine Iff.trans ?_ (ListHandler.step_answeredOnce_iff hlist req)
      rw [step_list]
      constructor
      · rintro ⟨server', rsp, hstep, htype⟩
        obtain ⟨⟨lists, fbb⟩, hliststep, heq⟩ := Option.map_eq_some_iff.mp hstep
        cases heq
        exact ⟨lists, rsp, hliststep, htype⟩
      · rintro ⟨lists, rsp, hliststep, htype⟩
        refine ⟨{ server with listHandler := lists }, rsp, ?_, htype⟩
        rw [hliststep]
        rfl

/-- An addition of nothing to a list that exists finishes no response. -/
theorem not_step_once : ¬ ∀ (server : Server) (msg : Message) (bodyType : BodyType),
    machine.Reachable server → msg.bodyType = some bodyType →
      ∃ server' rsp, machine.step server msg = some (server', ⟨[rsp]⟩) ∧
        rsp.bodyType = bodyType := by
  intro h
  let server : Server :=
    { listHandler := Finmap.insert [97] (FcList.ofList ⟨.intList, []⟩ false) ∅ }
  let add : ListAdd := { name := [97], items := [] }
  have hcreate : machine.step {} (.list (some (.create { name := [97], type := 0 }))) =
      some (server, ⟨[⟨.ok, .listCreate, none⟩]⟩) := by decide +kernel
  have hadd : machine.step server (.list (some (.add add))) = some (server, ⟨[]⟩) := by
    decide +kernel
  obtain ⟨server', rsp, hstep, _⟩ :=
    h server (.list (some (.add add))) .listAdd (.step .init trivial hcreate) rfl
  cases hadd.symm.trans hstep

/-- Adding to a list that does not exist is answered once, with a failure. -/
theorem step_once_missing : ∃ server rsp,
    machine.step {} (.list (some (.add { name := [97], items := [] }))) =
      some (server, ⟨[rsp]⟩) ∧ rsp.bodyType = .listAdd :=
  (@step_once_iff {} .init (.list (some (.add { name := [97], items := [] }))) _ rfl).mpr
    (.inl (by decide))

end Server

end FCache
