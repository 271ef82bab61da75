import FCache.ListInvariant

/-!
# The sizes in the replies

The replies to additions, conditional removals and requests for information carry the size of the
list. Each path that replies `Ok` takes it from the list, but for one: a conditional removal
without a value replies `Ok` with the zero its size starts from.
-/

namespace FCache

/-- The size field, of the tables that have one. -/
def ResponseTable.size : ResponseTable → Option UInt32
  | .listAdd size | .listAppend size | .listRemoveIf size | .listInfo size _ _ => some size
  | _ => none

/-- The list named by a request whose reply has a size field. -/
def ListRequest.sizedList : ListRequest → Option Bytes
  | .add req => some req.name
  | .append req => some req.name
  | .removeIf req => some req.name
  | .info req => some req.name
  | _ => none

namespace ListHandler

variable {s s' : ListHandler} {name : Bytes} {req : ListRequest} {fbb : FlatBuilder}

/-- If the reply is `Ok` its size is the number of elements of the list, modulo 2^32. -/
def RepliesSize (s : ListHandler) (name : Bytes) (fbb : FlatBuilder) : Prop :=
  ∀ rsp, fbb.decoded = some rsp → rsp.status = .ok → ∃ l body size, s.lookup name = some l ∧
    rsp.body = some body ∧ body.size = some size ∧
      size.toNat = l.list.elems.length % 2 ^ 32

theorem repliesSize_fail (bodyType : BodyType) :
    RepliesSize s name ⟨[⟨.fail, bodyType, none⟩]⟩ := by
  intro rsp hrsp hok
  cases hrsp
  cases hok

/-- No reply is finished for an addition without items. -/
theorem repliesSize_nil : RepliesSize s name {} := by
  intro rsp hrsp
  cases hrsp

theorem repliesSize_of_length {l : FcList} (h : s.lookup name = some l) {bodyType : BodyType}
    {body : ResponseTable} (hbody : body.size = some (UInt32.ofNat l.list.elems.length)) :
    RepliesSize s name ⟨[⟨.ok, bodyType, some body⟩]⟩ := by
  intro rsp hrsp _
  cases hrsp
  exact ⟨l, body, _, h, rfl, hbody, UInt32.toNat_ofNat' ..⟩

theorem doAddAppend_repliesSize (hs : Invariant False s) {items : TypedVector} {isAppend : Bool}
    {pos : ℤ} {itemsSorted : Bool}
    (h : doAddAppend name items isAppend pos itemsSorted ⟨s, {}⟩ = .ok () ⟨s', fbb⟩) :
    RepliesSize s' name fbb := by
  cases hl : s.lookup name with
  | none =>
    cases (doAddAppend_missing hl items isAppend pos itemsSorted).symm.trans h
    exact repliesSize_fail _
  | some l =>
    by_cases hne : items = []
    · subst hne
      cases (doAddAppend_noItems hl isAppend pos itemsSorted).symm.trans h
      exact repliesSize_nil
    · obtain ⟨elems, _, heq⟩ := @doAddAppend_found s {} name l hl (hs name l hl).typesAgree items
        hne isAppend pos itemsSorted
      cases heq.symm.trans h
      apply repliesSize_of_length (Finmap.lookup_insert s)
      cases isAppend <;> rfl

/-- Without a value the reply has size zero, whatever the list. -/
theorem handleRemoveIf_repliesSize_iff {req : ListRemoveIf}
    (h : handleRemoveIf req ⟨s, {}⟩ = .ok () ⟨s', fbb⟩) :
    RepliesSize s' req.name fbb ↔ ¬ (req.value = .none ∧
      ∃ l, s.lookup req.name = some l ∧ l.list.elems.length % 2 ^ 32 ≠ 0) := by
  cases hl : s.lookup req.name with
  | none =>
    cases (handleRemoveIf_missing hl).symm.trans h
    refine iff_of_true (repliesSize_fail _) ?_
    rintro ⟨_, l, hlookup, _⟩
    cases hlookup
  | some l =>
    cases hval : removeIfValue req.value with
    | none =>
      cases (handleRemoveIf_noValue hl hval).symm.trans h
      have hnone : req.value = .none := by
        cases hv : req.value <;> simp [hv, removeIfValue] at hval ⊢
      constructor
      · rintro hsize ⟨_, l', hlookup, hne⟩
        obtain ⟨l'', body, size, hlookup', hbody, hbodySize, hlen⟩ := hsize _ rfl rfl
        cases hlookup
        cases hl.symm.trans hlookup'
        cases hbody
        cases hbodySize
        exact hne hlen.symm
      · intro hunless rsp hrsp _
        cases hrsp
        have hzero : l.list.elems.length % 2 ^ 32 = 0 := by
          by_contra hne
          exact hunless ⟨hnone, l, rfl, hne⟩
        exact ⟨l, _, 0, hl, rfl, rfl, hzero.symm⟩
    | some v =>
      obtain ⟨elems, _, heq⟩ := @handleRemoveIf_found s {} l req hl v.1 v.2 hval
      cases heq.symm.trans h
      refine iff_of_true (repliesSize_of_length (Finmap.lookup_insert s) rfl) ?_
      rintro ⟨hnone, _⟩
      rw [hnone] at hval
      cases hval

theorem handleInfo_repliesSize {req : ListInfo}
    (h : handleInfo req ⟨s, {}⟩ = .ok () ⟨s', fbb⟩) : RepliesSize s' req.name fbb := by
  cases hl : s.lookup req.name with
  | none =>
    cases (handleInfo_missing hl).symm.trans h
    exact repliesSize_fail _
  | some l =>
    cases (handleInfo_found hl).symm.trans h
    exact repliesSize_of_length hl rfl

/-- The size of a reply is right exactly if the request is not a conditional removal without a
value from a list whose size has a non-zero lower half. -/
theorem step_repliesSize_iff (hs : machine.Reachable s) (hreq : req.sizedList = some name)
    (hstep : machine.step s req = some (s', fbb)) :
    RepliesSize s' name fbb ↔ ¬ ∃ r l, req = .removeIf r ∧ r.value = .none ∧
      s.lookup r.name = some l ∧ l.list.elems.length % 2 ^ 32 ≠ 0 := by
  have hinv := reachable_invariant hs
  have h := Handling.answered_eq_some.mp hstep
  cases req with
  | add r =>
    cases hreq
    exact iff_of_true (doAddAppend_repliesSize hinv h) (by rintro ⟨_, _, hr, _⟩; cases hr)
  | append r =>
    cases hreq
    exact iff_of_true (doAddAppend_repliesSize hinv h) (by rintro ⟨_, _, hr, _⟩; cases hr)
  | info r =>
    cases hreq
    exact iff_of_true (handleInfo_repliesSize h) (by rintro ⟨_, _, hr, _⟩; cases hr)
  | removeIf r =>
    cases hreq
    rw [handleRemoveIf_repliesSize_iff h]
    apply not_congr
    constructor
    · rintro ⟨hnone, l, hl, hne⟩
      exact ⟨r, l, rfl, hnone, hl, hne⟩
    · rintro ⟨_, l, hr, hnone, hl, hne⟩
      cases hr
      exact ⟨hnone, l, hl, hne⟩
  | _ => cases hreq

/-- A list of one integer, reached by two requests. -/
theorem reachable_one :
    machine.Reachable (Finmap.insert [97] (FcList.ofList ⟨.intList, [1]⟩ false) ∅) := by
  let create : ListCreate := { name := [97], type := 0 }
  let append : ListAppend := { name := [97], items := [⟨1, 1, ⟨0⟩, []⟩] }
  have hcreate : machine.step ∅ (.create create) =
      some (Finmap.insert [97] (FcList.ofList ⟨.intList, []⟩ false) ∅,
        ⟨[⟨.ok, .listCreate, none⟩]⟩) := by decide +kernel
  have happend : machine.step (Finmap.insert [97] (FcList.ofList ⟨.intList, []⟩ false) ∅)
      (.append append) = some (Finmap.insert [97] (FcList.ofList ⟨.intList, [1]⟩ false) ∅,
        ⟨[⟨.ok, .listAppend, some (.listAppend 1)⟩]⟩) := by decide +kernel
  exact (Machine.ReachableBy.init.step trivial hcreate).step trivial happend

theorem step_repliesSize_info :
    let s : ListHandler := Finmap.insert [97] (FcList.ofList ⟨.intList, [1]⟩ false) ∅
    RepliesSize s [97] ⟨[⟨.ok, .listInfo, some (.listInfo 1 .int false)⟩]⟩ ↔
      ¬ ∃ r l, ListRequest.info ⟨[97]⟩ = .removeIf r ∧ r.value = .none ∧
        s.lookup r.name = some l ∧ l.list.elems.length % 2 ^ 32 ≠ 0 := by
  intro s
  have hstep : machine.step s (.info ⟨[97]⟩) =
      some (s, ⟨[⟨.ok, .listInfo, some (.listInfo 1 .int false)⟩]⟩) := by decide +kernel
  exact step_repliesSize_iff reachable_one rfl hstep

/-- The list of one integer, with a reply that its size is zero. -/
theorem not_step_repliesSize : ¬ ∀ (s s' : ListHandler) (req : ListRequest) (name : Bytes)
    (fbb : FlatBuilder), machine.Reachable s → req.sizedList = some name →
      machine.step s req = some (s', fbb) → RepliesSize s' name fbb := by
  intro h
  let req : ListRemoveIf := { name := [97], range := { start := 0, hasStop := false } }
  have hstep : machine.step (Finmap.insert [97] (FcList.ofList ⟨.intList, [1]⟩ false) ∅)
      (.removeIf req) = some (Finmap.insert [97] (FcList.ofList ⟨.intList, [1]⟩ false) ∅,
        ⟨[⟨.ok, .listRemoveIf, some (.listRemoveIf 0)⟩]⟩) := by decide +kernel
  obtain ⟨l, body, size, hl, hbody, hsize, hlen⟩ :=
    h _ _ _ [97] _ reachable_one rfl hstep _ rfl rfl
  cases hbody
  cases hsize
  rw [Finmap.lookup_insert] at hl
  cases hl
  cases hlen

end ListHandler

end FCache
