import FCache.ListReplies

/-!
# Sorted lists stay sorted

Every list of a reachable store has type tags that match its alternative, and its elements are
ascending if it is flagged sorted. The clients have one duty: items sent as already sorted are
ascending. The binary searches of later additions, removals and intersections rest on this.
-/

namespace FCache

/-- The order holds if the clients do their duty. -/
structure FcList.Invariant (dutiful : Prop) (l : FcList) : Prop where
  typesAgree : l.TypesAgree
  ascending : dutiful → l.sorted = true → l.list.Ascending

namespace FcList.Invariant

variable {dutiful : Prop}

theorem ofList_nil (a : Alternative) (sorted : Bool) :
    (FcList.ofList ⟨a, []⟩ sorted).Invariant dutiful := by
  refine ⟨FcList.ofList_typesAgree _ _, fun _ _ => ?_⟩
  cases a <;> simp [FcList.ofList, ListVariant.Ascending, Alternative.Ascending]

theorem withElems {l : FcList} (hl : l.Invariant dutiful)
    {elems : List l.list.alternative.ValueType}
    (h : dutiful → l.sorted = true → l.list.alternative.Ascending l.list.elems →
      l.list.alternative.Ascending elems) : (l.withElems elems).Invariant dutiful :=
  ⟨hl.typesAgree, fun hd hs => h hd hs (hl.ascending hd hs)⟩

end FcList.Invariant

namespace ListHandler

def Invariant (dutiful : Prop) (s : ListHandler) : Prop :=
  ∀ name l, s.lookup name = some l → l.Invariant dutiful

/-- The items of a request flagged as sorted are ascending, read at the element type of the list
they are added to. -/
def ItemsAscending (s : ListHandler) : ListRequest → Prop
  | .add req => req.itemsSorted = true → ∀ l, s.lookup req.name = some l →
      l.list.alternative.Ascending (req.items.map ListValue.as)
  | _ => True

variable {s : ListHandler} {dutiful : Prop}

namespace Invariant

theorem empty : Invariant dutiful ∅ := by
  intro name l h
  rw [Finmap.lookup_empty] at h
  cases h

theorem insert (hs : Invariant dutiful s) {l : FcList} (hl : l.Invariant dutiful) (name : Bytes) :
    Invariant dutiful (s.insert name l) := by
  intro name' l' h
  by_cases hname : name' = name
  · subst hname
    rw [Finmap.lookup_insert] at h
    exact Option.some.inj h ▸ hl
  · rw [Finmap.lookup_insert_of_ne s hname] at h
    exact hs name' l' h

theorem erase (hs : Invariant dutiful s) (name : Bytes) : Invariant dutiful (s.erase name) := by
  intro name' l' h
  by_cases hname : name' = name
  · subst hname
    rw [Finmap.lookup_erase] at h
    cases h
  · rw [Finmap.lookup_erase_ne hname] at h
    exact hs name' l' h

end Invariant

/-- An addition keeps the order of a sorted list, whichever path it takes. -/
theorem doAddAppend_ascending {l : FcList} {items : TypedVector} {isAppend : Bool} {pos : ℤ}
    {itemsSorted : Bool} {elems : List l.list.alternative.ValueType} {n : ℕ} (hne : items ≠ [])
    (hduty : itemsSorted = true → l.list.alternative.Ascending (items.map ListValue.as))
    (hs : l.sorted = true) (hl : l.list.alternative.Ascending l.list.elems)
    (h : (addOperation items isAppend pos itemsSorted l.sorted).call l.sorted l.list.elems =
      some (elems, n)) : l.list.alternative.Ascending elems := by
  have hop : addOperation items isAppend pos itemsSorted l.sorted = { items, itemsSorted } := by
    simp [addOperation, hs]
  obtain ⟨l', hadd⟩ := Add.doAdd_defined { items, itemsSorted } true l.list.elems
  have helems : l' = elems := by
    rw [hop, hs] at h
    simp only [Add.call, hadd, Bool.false_eq_true, if_false, Option.bind_eq_bind,
      Option.bind_some, Option.pure_def, Option.some.injEq, Prod.mk.injEq] at h
    exact h.1
  subst helems
  cases itemsSorted with
  | true =>
    apply @Alternative.Ascending.of_linearOrder _ [l.list.elems, items.map ListValue.as]
    · simpa using ⟨hl, hduty rfl⟩
    · intro _ _ h
      exact Add.doAdd_ascending hne (fun _ => h _ (by simp)) (h _ (by simp)) hadd
  | false =>
    apply @Alternative.Ascending.of_linearOrder _ [l.list.elems]
    · simpa using hl
    · intro _ _ h
      exact Add.doAdd_ascending hne (fun hf => by cases hf) (h _ (by simp)) hadd

theorem doAddAppend_invariant (hs : Invariant dutiful s) {fbb : FlatBuilder} {name : Bytes}
    {items : TypedVector} {isAppend : Bool} {pos : ℤ} {itemsSorted : Bool}
    (hduty : dutiful → itemsSorted = true → ∀ l, s.lookup name = some l →
      l.list.alternative.Ascending (items.map ListValue.as)) {c : Handling ListHandler}
    (h : doAddAppend name items isAppend pos itemsSorted ⟨s, fbb⟩ = .ok () c) :
    Invariant dutiful c.handler := by
  cases hl : s.lookup name with
  | none =>
    rw [doAddAppend_missing hl] at h
    cases h
    exact hs
  | some l =>
    by_cases hne : items = []
    · subst hne
      rw [doAddAppend_noItems hl] at h
      cases h
      exact hs
    · have hinv := hs name l hl
      obtain ⟨elems, hcall, heq⟩ :=
        doAddAppend_found hl hinv.typesAgree hne isAppend pos itemsSorted
      rw [heq] at h
      cases h
      apply hs.insert
      apply hinv.withElems
      intro hd hsorted hasc
      exact doAddAppend_ascending hne (fun hi => hduty hd hi l hl) hsorted hasc hcall

theorem handleDelete_invariant (hs : Invariant dutiful s) (names : List Bytes) :
    Invariant dutiful (names.foldl (fun lists name => lists.erase name) s) := by
  induction names generalizing s with
  | nil => exact hs
  | cons name names ih => exact ih (hs.erase name)

theorem handleRemove_invariant (hs : Invariant dutiful s) {fbb : FlatBuilder} {req : ListRemove}
    {c : Handling ListHandler} (h : handleRemove req ⟨s, fbb⟩ = .ok () c) :
    Invariant dutiful c.handler := by
  cases hl : s.lookup req.name with
  | none =>
    rw [handleRemove_missing hl] at h
    cases h
    exact hs
  | some l =>
    rcases (removeOperation req).call_cases l.list.elems with
      ⟨_, hcall⟩ | ⟨_, elems, hcall, hsub⟩
    · rw [handleRemove_of_none hl hcall] at h
      cases h
    · rw [handleRemove_of_some hl hcall] at h
      cases h
      apply hs.insert
      exact (hs _ l hl).withElems fun _ _ hasc => hasc.sublist hsub

theorem handleRemoveIf_invariant (hs : Invariant dutiful s) {fbb : FlatBuilder} {req : ListRemoveIf}
    {c : Handling ListHandler} (h : handleRemoveIf req ⟨s, fbb⟩ = .ok () c) :
    Invariant dutiful c.handler := by
  cases hl : s.lookup req.name with
  | none =>
    rw [handleRemoveIf_missing hl] at h
    cases h
    exact hs
  | some l =>
    cases hval : removeIfValue req.value with
    | none =>
      rw [handleRemoveIf_noValue hl hval] at h
      cases h
      exact hs
    | some v =>
      obtain ⟨elems, hcall, heq⟩ := @handleRemoveIf_found s fbb l req hl _ _ hval
      rw [heq] at h
      cases h
      apply hs.insert
      apply (hs _ l hl).withElems
      intro _ hsorted hasc
      rw [hsorted] at hcall
      exact hasc.sublist (RemoveIf.call_sublist hcall)

/-- A new list holds elements of the first list, which is flagged sorted, in its order. -/
theorem handleIntersect_invariant (hs : Invariant dutiful s) {fbb : FlatBuilder}
    {req : ListIntersect} {c : Handling ListHandler}
    (h : handleIntersect req ⟨s, fbb⟩ = .ok () c) : Invariant dutiful c.handler := by
  rcases intersectInputs_cases s req with hmissing | ⟨l1, l2, hl1, hl2, hcan | hcan⟩
  · rw [handleIntersect_missing hmissing] at h
    cases h
    exact hs
  · rw [handleIntersect_refused hl1 hl2 hcan] at h
    cases h
    exact hs
  · have hinv := hs _ l1 hl1
    obtain ⟨hsorted, _, hft⟩ := FcList.canIntersectWith_iff.mp hcan
    rcases doIntersect_cases s fbb {} req hinv.typesAgree (hs _ l2 hl2).typesAgree hft with
      ⟨flxb, hdo⟩ | ⟨l2Elems, elems, _, _, helems, hdo⟩
    · rw [handleIntersect_accepted hl1 hl2 hcan hdo] at h
      cases h
      exact hs
    · rw [handleIntersect_accepted hl1 hl2 hcan hdo] at h
      cases h
      obtain ⟨elems', helems', hsub⟩ := intersectToList_nil l1.list.elems l2Elems
        req.list1Range req.list2Range
      obtain rfl : elems' = elems := Option.some.inj (helems'.symm.trans helems)
      apply hs.insert
      refine ⟨FcList.ofList_typesAgree _ _, fun hd _ => ?_⟩
      exact Alternative.Ascending.sublist (hinv.ascending hd hsorted) hsub

/-- Every request keeps the invariant, if items flagged as sorted are. -/
theorem handle_invariant (hs : Invariant dutiful s) {req : ListRequest}
    (hduty : dutiful → ItemsAscending s req) {fbb : FlatBuilder} {c : Handling ListHandler}
    (h : handle req ⟨s, fbb⟩ = .ok () c) : Invariant dutiful c.handler := by
  cases req with
  | create req =>
    rcases handleCreate_cases s fbb req with ⟨status, heq⟩ | ⟨a, _, heq⟩
    · cases heq.symm.trans h
      exact hs
    · cases heq.symm.trans h
      exact hs.insert (FcList.Invariant.ofList_nil a req.sorted) req.name
  | add req => exact doAddAppend_invariant hs hduty h
  | append req => exact doAddAppend_invariant hs (fun _ hf => by cases hf) h
  | delete req =>
    cases (handleDelete_apply s fbb req).symm.trans h
    by_cases hname : req.name = []
    · simpa [hname] using Invariant.empty
    · simpa [hname] using handleDelete_invariant hs req.name
  | getRange req =>
    cases hl : s.lookup req.name with
    | none =>
      cases (handleGetRange_missing hl).symm.trans h
      exact hs
    | some l =>
      obtain ⟨flxb, created, _, heq⟩ := @handleGetRange_found s fbb l req hl
      cases heq.symm.trans h
      exact hs
  | remove req => exact handleRemove_invariant hs h
  | removeIf req => exact handleRemoveIf_invariant hs h
  | intersect req => exact handleIntersect_invariant hs h
  | set req =>
    cases hl : s.lookup req.name with
    | none =>
      cases (handleSet_missing hl).symm.trans h
      exact hs
    | some l =>
      have hinv := hs _ l hl
      rcases @handleSet_found s fbb l req hl hinv.typesAgree with
        ⟨status, heq⟩ | ⟨hsorted, elems, _, heq⟩
      · cases heq.symm.trans h
        exact hs
      · cases heq.symm.trans h
        apply hs.insert
        apply hinv.withElems
        intro _ hf
        rw [hsorted] at hf
        cases hf
  | info req =>
    cases hl : s.lookup req.name with
    | none =>
      cases (handleInfo_missing hl).symm.trans h
      exact hs
    | some l =>
      cases (handleInfo_found hl).symm.trans h
      exact hs

theorem step_invariant {s' : ListHandler} {req : ListRequest} {fbb : FlatBuilder}
    (hs : Invariant dutiful s) (hduty : dutiful → ItemsAscending s req)
    (hstep : machine.step s req = some (s', fbb)) : Invariant dutiful s' :=
  handle_invariant hs hduty (Handling.answered_eq_some.mp hstep)

theorem reachableBy_invariant (h : machine.ReachableBy ItemsAscending s) : Invariant True s := by
  apply h.invariant
  · exact Invariant.empty
  · intro s req s' fbb hs hduty hstep
    exact step_invariant hs (fun _ => hduty) hstep

theorem reachable_invariant (h : machine.Reachable s) : Invariant False s := by
  apply h.invariant
  · exact Invariant.empty
  · intro s req s' fbb hs _ hstep
    exact step_invariant hs False.elim hstep

/-- The stored lists of every reachable store have agreeing type tags and are ascending if
flagged sorted, and intersecting two of them never throws. -/
theorem reachableBy_wellFormed (h : machine.ReachableBy ItemsAscending s) :
    (∀ name l, s.lookup name = some l →
      l.TypesAgree ∧ (l.sorted = true → l.list.Ascending)) ∧
    ∀ (req : ListIntersect) l1 l2, s.lookup req.list1Name = some l1 →
      s.lookup req.list2Name = some l2 → l1.canIntersectWith l2 = true → ∀ flxb fbb,
        ∃ flxb' c, doIntersect flxb req l1 l2 ⟨s, fbb⟩ = .ok flxb' c := by
  have hs := reachableBy_invariant h
  constructor
  · intro name l hl
    exact ⟨(hs name l hl).typesAgree, (hs name l hl).ascending trivial⟩
  · intro req l1 l2 hl1 hl2 hcan flxb fbb
    have hft : l1.flexType = l2.flexType := (FcList.canIntersectWith_iff.mp hcan).2.2
    rcases doIntersect_cases s fbb flxb req (hs _ l1 hl1).typesAgree (hs _ l2 hl2).typesAgree
      hft with ⟨flxb', hdo⟩ | ⟨_, _, _, _, _, hdo⟩
    · exact ⟨flxb', _, hdo⟩
    · exact ⟨_, _, hdo⟩

/-- A sorted list that was sent sorted items. -/
theorem reachableBy_wellFormed_sorted : ∃ s : ListHandler,
    (∀ l, s.lookup [97] = some l → l.TypesAgree ∧ (l.sorted = true → l.list.Ascending)) ∧
      s.lookup [97] = some (FcList.ofList ⟨.intList, [3, 5]⟩ true) := by
  let create : ListCreate := { name := [97], type := 0, sorted := true }
  let items : TypedVector := [⟨3, 3, ⟨0⟩, []⟩, ⟨5, 5, ⟨0⟩, []⟩]
  let add : ListAdd := { name := [97], items, itemsSorted := true }
  let s₁ : ListHandler := Finmap.insert [97] (FcList.ofList ⟨.intList, []⟩ true) ∅
  let s₂ : ListHandler := s₁.insert [97] (FcList.ofList ⟨.intList, [3, 5]⟩ true)
  have h₁ : machine.ReachableBy ItemsAscending s₁ := by
    have hstep : machine.step ∅ (.create create) =
        some (s₁, ⟨[⟨.ok, .listCreate, none⟩]⟩) := by decide +kernel
    refine .step .init ?_ hstep
    exact trivial
  have h₂ : machine.ReachableBy ItemsAscending s₂ := by
    have hstep : machine.step s₁ (.add add) =
        some (s₂, ⟨[⟨.ok, .listAdd, some (.listAdd 2)⟩]⟩) := by decide +kernel
    refine h₁.step ?_ hstep
    intro _ l hl
    obtain rfl : FcList.ofList ⟨.intList, []⟩ true = l := Option.some.inj hl
    show List.Pairwise (fun x y : Int64 => x ≤ y) [3, 5]
    decide
  exact ⟨s₂, (reachableBy_wellFormed h₂).1 [97], rfl⟩

end ListHandler

end FCache
