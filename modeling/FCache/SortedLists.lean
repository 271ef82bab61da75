import FCache.FiniteMap
import FCache.ListAddition
import FCache.ListInvariant

/-!
# What holds of every sorted list

The elements of a sorted list change in two ways only: some of them are taken away, or a request
adds items to them. What holds of no elements, of fewer elements, and of what the requests add
holds of every sorted list of every store reached.
-/

namespace FCache

/-- The list a request adds items to, the items, and whether they are flagged as ascending. -/
def ListRequest.addition : ListRequest → Option (Bytes × TypedVector × Bool)
  | .add req => some (req.name, req.items, req.itemsSorted)
  | .append req => some (req.name, req.items, false)
  | _ => none

namespace ListHandler

variable {s s' : ListHandler} {allowed : ListHandler → ListRequest → Prop}
  {Good : (a : Alternative) → List a.ValueType → Prop}

/-- A property of the elements of sorted lists that the allowed requests keep. -/
structure SortedListLaw (allowed : ListHandler → ListRequest → Prop)
    (Good : (a : Alternative) → List a.ValueType → Prop) : Prop where
  nil : ∀ a, Good a []
  sublist : ∀ {a : Alternative} {d d' : List a.ValueType}, Good a d → d'.Sublist d → Good a d'
  add : ∀ {s : ListHandler} {req : ListRequest} {name : Bytes} {items : TypedVector}
    {itemsSorted : Bool} {a : Alternative} {d elems : List a.ValueType},
    allowed s req → req.addition = some (name, items, itemsSorted) → Holds s name a d true →
    items ≠ [] → Good a d → ({ items, itemsSorted } : Add).doAdd true d = some elems →
    Good a elems

/-- The property holds of a list, if it is sorted. -/
def Meets (Good : (a : Alternative) → List a.ValueType → Prop) (l : FcList) : Prop :=
  l.sorted = true → Good l.list.alternative l.list.elems

def AllMeet (Good : (a : Alternative) → List a.ValueType → Prop) (s : ListHandler) : Prop :=
  ∀ name l, s.lookup name = some l → Meets Good l

theorem AllMeet.insert (hs : AllMeet Good s) {l : FcList} (hl : Meets Good l) (name : Bytes) :
    AllMeet Good (s.insert name l) := by
  intro name' l' h
  by_cases hname : name' = name
  · subst hname
    rw [Finmap.lookup_insert] at h
    exact Option.some.inj h ▸ hl
  · rw [Finmap.lookup_insert_of_ne s hname] at h
    exact hs name' l' h

theorem AllMeet.delete (hs : AllMeet Good s) (names : List Bytes) :
    AllMeet Good (names.foldl (fun lists name => lists.erase name) s) := by
  induction names generalizing s with
  | nil => exact hs
  | cons name names ih =>
    apply ih
    intro name' l h
    by_cases hname : name' = name
    · subst hname
      rw [Finmap.lookup_erase] at h
      cases h
    · rw [Finmap.lookup_erase_ne hname] at h
      exact hs name' l h

namespace SortedListLaw

variable (law : SortedListLaw allowed Good) (hinv : Invariant False s) (hs : AllMeet Good s)
  {fbb : FlatBuilder} {c : Handling ListHandler}
include law hinv hs

/-- An addition to a sorted list gets no position, so it takes one of the two sorted paths. -/
theorem doAddAppend_meets {req : ListRequest} {name : Bytes} {items : TypedVector}
    {isAppend itemsSorted : Bool} {pos : ℤ} (hreq : allowed s req)
    (hadd : req.addition = some (name, items, itemsSorted))
    (h : doAddAppend name items isAppend pos itemsSorted ⟨s, fbb⟩ = .ok () c) :
    AllMeet Good c.handler := by
  cases hl : s.lookup name with
  | none =>
    rw [doAddAppend_missing hl] at h
    cases h
    exact hs
  | some l =>
    by_cases hne : items = []
    · subst hne
      rw [doAddAppend_noItems hl] at h
      cases h
      exact hs
    · have htypes := (hinv name l hl).typesAgree
      obtain ⟨elems, hcall, heq⟩ := doAddAppend_found hl htypes hne isAppend pos itemsSorted
      rw [heq] at h
      cases h
      apply hs.insert
      intro hsorted
      have hsorted : l.sorted = true := hsorted
      have hholds := holds_of_typesAgree hl htypes
      have hop : addOperation items isAppend pos itemsSorted l.sorted = { items, itemsSorted } := by
        simp [addOperation, hsorted]
      obtain ⟨added, hadded⟩ := Add.doAdd_defined { items, itemsSorted } true l.list.elems
      rw [hop, hsorted, Add.call_sorted items itemsSorted hadded] at hcall
      obtain rfl : added = elems := (Prod.mk.inj (Option.some.inj hcall)).1
      exact law.add hreq hadd (hsorted ▸ hholds) hne (hs name l hl hsorted) hadded

omit hinv in
theorem handleRemove_meets {req : ListRemove} (h : handleRemove req ⟨s, fbb⟩ = .ok () c) :
    AllMeet Good c.handler := by
  cases hl : s.lookup req.name with
  | none =>
    rw [handleRemove_missing hl] at h
    cases h
    exact hs
  | some l =>
    rcases (removeOperation req).call_cases l.list.elems with
      ⟨_, hcall⟩ | ⟨_, elems, hcall, hsub⟩
    · rw [handleRemove_of_none hl hcall] at h
      cases h
    · rw [handleRemove_of_some hl hcall] at h
      cases h
      apply hs.insert
      intro hsorted
      have hgood := law.sublist (hs _ l hl hsorted) hsub
      exact hgood

omit hinv in
theorem handleRemoveIf_meets {req : ListRemoveIf} (h : handleRemoveIf req ⟨s, fbb⟩ = .ok () c) :
    AllMeet Good c.handler := by
  cases hl : s.lookup req.name with
  | none =>
    rw [handleRemoveIf_missing hl] at h
    cases h
    exact hs
  | some l =>
    cases hval : removeIfValue req.value with
    | none =>
      rw [handleRemoveIf_noValue hl hval] at h
      cases h
      exact hs
    | some v =>
      obtain ⟨elems, hcall, heq⟩ := @handleRemoveIf_found s fbb l req hl _ _ hval
      rw [heq] at h
      cases h
      apply hs.insert
      intro hsorted
      have hsorted : l.sorted = true := hsorted
      rw [hsorted] at hcall
      exact law.sublist (hs _ l hl hsorted) (RemoveIf.call_sublist hcall)

theorem handleIntersect_meets {req : ListIntersect}
    (h : handleIntersect req ⟨s, fbb⟩ = .ok () c) : AllMeet Good c.handler := by
  rcases intersectInputs_cases s req with hmissing | ⟨l1, l2, hl1, hl2, hcan | hcan⟩
  · rw [handleIntersect_missing hmissing] at h
    cases h
    exact hs
  · rw [handleIntersect_refused hl1 hl2 hcan] at h
    cases h
    exact hs
  · obtain ⟨hsorted, _, hft⟩ := FcList.canIntersectWith_iff.mp hcan
    rcases doIntersect_cases s fbb {} req (hinv _ l1 hl1).typesAgree (hinv _ l2 hl2).typesAgree
      hft with ⟨flxb, hdo⟩ | ⟨l2Elems, elems, _, _, helems, hdo⟩
    · rw [handleIntersect_accepted hl1 hl2 hcan hdo] at h
      cases h
      exact hs
    · rw [handleIntersect_accepted hl1 hl2 hcan hdo] at h
      cases h
      obtain ⟨elems', helems', hsub⟩ := intersectToList_nil l1.list.elems l2Elems
        req.list1Range req.list2Range
      obtain rfl : elems' = elems := Option.some.inj (helems'.symm.trans helems)
      apply hs.insert
      intro _
      have hgood := law.sublist (hs _ l1 hl1 hsorted) hsub
      exact hgood

theorem handle_meets {req : ListRequest} (hreq : allowed s req)
    (h : handle req ⟨s, fbb⟩ = .ok () c) : AllMeet Good c.handler := by
  cases req with
  | create req =>
    rcases handleCreate_cases s fbb req with ⟨status, heq⟩ | ⟨a, _, heq⟩
    · cases heq.symm.trans h
      exact hs
    · cases heq.symm.trans h
      exact hs.insert (fun _ => law.nil a) req.name
  | add req => exact law.doAddAppend_meets hinv hs hreq rfl h
  | append req => exact law.doAddAppend_meets hinv hs hreq rfl h
  | delete req =>
    cases (handleDelete_apply s fbb req).symm.trans h
    by_cases hname : req.name = []
    · intro name l hl
      simp only [hname, if_true] at hl
      rw [Finmap.lookup_empty] at hl
      cases hl
    · simpa [hname] using hs.delete req.name
  | getRange req =>
    cases hl : s.lookup req.name with
    | none =>
      cases (handleGetRange_missing hl).symm.trans h
      exact hs
    | some l =>
      obtain ⟨flxb, created, _, heq⟩ := @handleGetRange_found s fbb l req hl
      cases heq.symm.trans h
      exact hs
  | remove req => exact law.handleRemove_meets hs h
  | removeIf req => exact law.handleRemoveIf_meets hs h
  | intersect req => exact law.handleIntersect_meets hinv hs h
  | set req =>
    cases hl : s.lookup req.name with
    | none =>
      cases (handleSet_missing hl).symm.trans h
      exact hs
    | some l =>
      rcases @handleSet_found s fbb l req hl (hinv _ l hl).typesAgree with
        ⟨status, heq⟩ | ⟨hunsorted, elems, _, heq⟩
      · cases heq.symm.trans h
        exact hs
      · cases heq.symm.trans h
        -- only unsorted lists are overwritten
        exact hs.insert (fun hsorted => by cases hunsorted.symm.trans hsorted) req.name
  | info req =>
    cases hl : s.lookup req.name with
    | none =>
      cases (handleInfo_missing hl).symm.trans h
      exact hs
    | some l =>
      cases (handleInfo_found hl).symm.trans h
      exact hs

omit hinv hs in
/-- The run rule of sorted lists. -/
theorem reachableBy (h : machine.ReachableBy allowed s) {name : Bytes} {a : Alternative}
    {d : List a.ValueType} (hholds : Holds s name a d true) : Good a d := by
  have hall : Invariant False s ∧ AllMeet Good s := by
    apply h.invariant
    · refine ⟨Invariant.empty, ?_⟩
      intro name l hl
      cases (Finmap.lookup_empty name).symm.trans hl
    · rintro s req s' fbb ⟨hinv, hs⟩ hreq hstep
      exact ⟨step_invariant hinv False.elim hstep,
        law.handle_meets hinv hs hreq (Handling.answered_eq_some.mp hstep)⟩
  exact hall.2 name _ hholds rfl

end SortedListLaw

end ListHandler

end FCache
