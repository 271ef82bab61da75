import FCache.Footprint
import FCache.ListHandler

/-!
# Requests on different lists

A list request is confined to the lists it names: what it answers and what it leaves under those
names depends on what was stored under them, and nothing else is changed. Requests that name
different lists can therefore be handled in either order.
-/

namespace FCache

open Cpp FiniteMap

/-- The lists a request names. -/
def ListRequest.names : ListRequest → Footprint Bytes
  | .create req => {req.name}
  | .add req => {req.name}
  | .delete req => if req.name = [] then Set.univ else {name | name ∈ req.name}
  | .getRange req => {req.name}
  | .remove req => {req.name}
  | .removeIf req => {req.name}
  | .intersect req => {req.list1Name, req.list2Name} ∪ {name | name ∈ req.newListName}
  | .set req => {req.name}
  | .append req => {req.name}
  | .info req => {req.name}

namespace ListHandler

/-- The stores of the handler in other surroundings. -/
noncomputable def surround (N : Footprint Bytes) (p : ListHandler) (c : Handling ListHandler) :
    Handling ListHandler :=
  { c with handler := overlay N c.handler p }

section Confinement

variable {N : Footprint Bytes} {p : ListHandler} {name : Bytes}

theorem commutes_finish (rsp : Response) : Commutes (surround N p) (finish rsp) :=
  commutes_update fun _ => rfl

theorem commutes_createEmptyBodyResponse (status : Status) (bodyType : BodyType) :
    Commutes (surround N p) (createEmptyBodyResponse status bodyType) :=
  commutes_finish _

theorem commutes_getList (h : name ∈ N) : Commutes (surround N p) (getList name) := by
  intro c
  show Outcome.ok ((overlay N c.handler p).lookup name) (surround N p c) = _
  rw [lookup_overlay_inside h]
  rfl

theorem commutes_setList (h : name ∈ N) (l : FcList) :
    Commutes (surround N p) (setList name l) := by
  apply commutes_update
  intro c
  unfold surround
  rw [overlay_insert h]

/-- What is done with a list that was looked up, in the two cases that there are. -/
theorem commutes_lookup {α : Type} {x : Cpp (Handling ListHandler) (Option FcList)}
    {f : Option FcList → Cpp (Handling ListHandler) α} (hx : Commutes (surround N p) x)
    (hnone : Commutes (surround N p) (f none))
    (hsome : ∀ l, Commutes (surround N p) (f (some l))) :
    Commutes (surround N p) (x >>= f) := by
  apply commutes_bind hx
  intro found
  cases found with
  | none => exact hnone
  | some l => exact hsome l

theorem commutes_haveList (h : name ∈ N) (bodyType : BodyType) :
    Commutes (surround N p) (haveList name bodyType) := by
  unfold haveList
  refine commutes_lookup (commutes_getList h) ?_ fun _ => commutes_pure _
  exact commutes_bind (commutes_createEmptyBodyResponse _ _) fun _ => commutes_pure _

theorem commutes_visit {β : Type} (h : name ∈ N) (l : FcList)
    (op : (a : Alternative) → List a.ValueType → Option (List a.ValueType × β)) :
    Commutes (surround N p) (visit name l op) := by
  unfold visit
  apply commutes_bind (commutes_ofOption _)
  intro r
  exact commutes_bind (commutes_setList h _) fun _ => commutes_pure _

theorem commutes_get (list : ListVariant) (a : Alternative) :
    Commutes (surround N p) (get list a) := by
  unfold get
  split
  · exact commutes_pure _
  · exact commutes_throw

theorem commutes_createList (h : name ∈ N) (type : Int8) (sorted : Bool) :
    Commutes (surround N p) (createList name type sorted) := by
  unfold createList
  split_ifs
  all_goals first
    | exact commutes_pure _
    | refine commutes_lookup (commutes_getList h) ?_ fun _ => commutes_pure _
      exact commutes_bind (commutes_setList h _) fun _ => commutes_pure _

/-! ### The handlers -/

theorem commutes_doAddAppend (h : name ∈ N) (items : TypedVector) (isAppend : Bool) (pos : ℤ)
    (itemsSorted : Bool) :
    Commutes (surround N p) (doAddAppend name items isAppend pos itemsSorted) := by
  unfold doAddAppend
  apply commutes_tryCatch _ (commutes_createEmptyBodyResponse _ _)
  refine commutes_lookup (commutes_haveList h _) (commutes_pure _) ?_
  intro l
  have hvisit : ∀ op : (a : Alternative) → List a.ValueType → Option (List a.ValueType × ℕ),
      Commutes (surround N p) (do return (Status.ok, ← visit name l op)) :=
    fun op => commutes_bind (commutes_visit h l op) fun _ => commutes_pure _
  apply commutes_ite (commutes_pure _)
  apply commutes_bind
  · cases l.flexType
    case vectorInt | vectorUInt | vectorFloat | vectorKey =>
      exact commutes_ite (hvisit _) (commutes_ite (hvisit _) (hvisit _))
    all_goals exact commutes_pure _
  · exact fun _ => commutes_ite (commutes_finish _) (commutes_finish _)

theorem commutes_handleSet {req : ListSet} (h : req.name ∈ N) :
    Commutes (surround N p) (handleSet req) := by
  unfold handleSet
  apply commutes_bind _ fun _ => commutes_createEmptyBodyResponse _ _
  apply commutes_tryCatch _ (commutes_pure _)
  refine commutes_lookup (commutes_haveList h _) (commutes_pure _) ?_
  intro l
  apply commutes_ite (commutes_pure _)
  apply commutes_ite (commutes_pure _)
  cases l.flexType
  case vectorInt | vectorUInt | vectorFloat | vectorKey =>
    exact commutes_bind (commutes_visit h l _) fun _ => commutes_pure _
  all_goals exact commutes_pure _

theorem commutes_handleDelete {req : ListDelete}
    (h : (if req.name = [] then Set.univ else {name | name ∈ req.name}) ⊆ N) :
    Commutes (surround N p) (handleDelete req) := by
  have herase : ∀ keys : List Bytes, (∀ key ∈ keys, key ∈ N) → Commutes (surround N p)
      (update fun c => { c with handler := eraseAll c.handler keys }) := by
    intro keys hkeys
    apply commutes_update
    intro c
    unfold surround
    rw [overlay_eraseAll hkeys]
  have hclear : Set.univ ⊆ N → Commutes (surround N p)
      (update fun c => { c with handler := ∅ }) := by
    intro huniv
    obtain rfl := Set.univ_subset_iff.mp huniv
    apply commutes_update
    intro c
    dsimp only [surround]
    rw [overlay_univ]
  unfold handleDelete
  apply commutes_bind _ fun _ => commutes_createEmptyBodyResponse _ _
  apply commutes_tryCatch _ (commutes_pure _)
  dsimp only
  split_ifs at h ⊢ with hname
  · exact commutes_bind (hclear h) fun _ => commutes_pure _
  · exact commutes_bind (herase req.name h) fun _ => commutes_pure _

theorem commutes_handleGetRange {req : ListGetRange} (h : req.name ∈ N) :
    Commutes (surround N p) (handleGetRange req) := by
  unfold handleGetRange
  apply commutes_tryCatch _ (commutes_createEmptyBodyResponse _ _)
  refine commutes_lookup (commutes_haveList h _) (commutes_pure _) ?_
  exact fun _ => commutes_bind (commutes_ofOption _) fun _ => commutes_finish _

theorem commutes_handleRemove {req : ListRemove} (h : req.name ∈ N) :
    Commutes (surround N p) (handleRemove req) := by
  unfold handleRemove
  apply commutes_bind _ fun _ => commutes_createEmptyBodyResponse _ _
  apply commutes_tryCatch _ (commutes_pure _)
  refine commutes_lookup (commutes_haveList h _) (commutes_pure _) ?_
  exact fun l => commutes_bind (commutes_visit h l _) fun _ => commutes_pure _

theorem commutes_handleRemoveIf {req : ListRemoveIf} (h : req.name ∈ N) :
    Commutes (surround N p) (handleRemoveIf req) := by
  unfold handleRemoveIf
  apply commutes_tryCatch _ (commutes_createEmptyBodyResponse _ _)
  refine commutes_lookup (commutes_haveList h _) (commutes_pure _) ?_
  intro l
  cases req.value with
  | none => exact commutes_bind (commutes_pure _) fun _ => commutes_finish _
  | intValue v => exact commutes_bind (commutes_visit h l _) fun _ => commutes_finish _
  | uintValue v => exact commutes_bind (commutes_visit h l _) fun _ => commutes_finish _
  | stringValue v => exact commutes_bind (commutes_visit h l _) fun _ => commutes_finish _
  | floatValue v => exact commutes_bind (commutes_visit h l _) fun _ => commutes_finish _

theorem commutes_doIntersect {req : ListIntersect} (h : ∀ name ∈ req.newListName, name ∈ N)
    (flxb : FlexBuilder) (l1 l2 : FcList) :
    Commutes (surround N p) (doIntersect flxb req l1 l2) := by
  have hreply : Commutes (surround N p) (do
      let l2 ← get l2.list l1.list.alternative
      ofOption (intersectToFlexBuffer flxb l1.list.elems l2 req.list1Range req.list2Range)) :=
    commutes_bind (commutes_get _ _) fun _ => commutes_ofOption _
  unfold doIntersect
  dsimp only
  by_cases hname : req.newListName.getD [] = []
  · rw [if_neg (not_not.mpr hname)]
    exact hreply
  · have hnew : req.newListName.getD [] ∈ N := by
      cases hn : req.newListName with
      | none => exact absurd (by rw [hn]; rfl) hname
      | some name => exact h name hn
    rw [if_pos hname]
    cases flexTypeToListType l1.flexType with
    | none => exact hreply
    | some listType =>
      apply commutes_bind (commutes_createList hnew _ _)
      intro status
      apply commutes_ite _ (commutes_pure _)
      refine commutes_lookup (commutes_getList hnew) (commutes_pure _) ?_
      intro newList
      apply commutes_bind (commutes_get _ _)
      intro l1Elems
      apply commutes_bind (commutes_get _ _)
      intro l2Elems
      apply commutes_bind (commutes_ofOption _)
      intro list
      exact commutes_bind (commutes_setList hnew _) fun _ => commutes_pure _

theorem commutes_handleIntersect {req : ListIntersect} (h1 : req.list1Name ∈ N)
    (h2 : req.list2Name ∈ N) (hnew : ∀ name ∈ req.newListName, name ∈ N) :
    Commutes (surround N p) (handleIntersect req) := by
  unfold handleIntersect
  apply commutes_tryCatch _ (commutes_createEmptyBodyResponse _ _)
  apply commutes_bind (commutes_haveList h1 _)
  intro list1
  apply commutes_bind (commutes_haveList h2 _)
  intro list2
  cases list1 with
  | none => exact commutes_pure _
  | some l1 =>
    cases list2 with
    | none => exact commutes_pure _
    | some l2 =>
      apply commutes_ite (commutes_createEmptyBodyResponse _ _)
      exact commutes_bind (commutes_doIntersect hnew _ l1 l2) fun _ => commutes_finish _

theorem commutes_handleInfo {req : ListInfo} (h : req.name ∈ N) :
    Commutes (surround N p) (handleInfo req) := by
  unfold handleInfo
  apply commutes_bind
  · apply commutes_tryCatch _ (commutes_pure _)
    refine commutes_lookup (commutes_getList h) (commutes_pure _) ?_
    exact fun _ => commutes_bind (commutes_finish _) fun _ => commutes_pure _
  · exact fun _ => commutes_ite (commutes_createEmptyBodyResponse _ _) (commutes_pure _)

end Confinement

/-- A request neither sees nor changes lists it does not name. -/
theorem commutes_handle (req : ListRequest) (p : ListHandler) :
    Commutes (surround req.names p) (handle req) := by
  cases req with
  | create req =>
    apply commutes_bind (commutes_createList (Set.mem_singleton _) _ _)
    exact fun _ => commutes_createEmptyBodyResponse _ _
  | add req => exact commutes_doAddAppend (Set.mem_singleton _) _ _ _ _
  | append req => exact commutes_doAddAppend (Set.mem_singleton _) _ _ _ _
  | set req => exact commutes_handleSet (Set.mem_singleton _)
  | delete req => exact commutes_handleDelete (Set.Subset.refl _)
  | getRange req => exact commutes_handleGetRange (Set.mem_singleton _)
  | remove req => exact commutes_handleRemove (Set.mem_singleton _)
  | removeIf req => exact commutes_handleRemoveIf (Set.mem_singleton _)
  | intersect req =>
    apply commutes_handleIntersect
    · exact .inl (Set.mem_insert _ _)
    · exact .inl (Set.mem_insert_of_mem _ (Set.mem_singleton _))
    · exact fun name hname => .inr hname
  | info req => exact commutes_handleInfo (Set.mem_singleton _)

theorem step_confinedTo (req : ListRequest) :
    ConfinedTo req.names fun s : ListHandler => machine.step s req := by
  intro s p
  have hhandle := commutes_handle req p ⟨s, {}⟩
  show Handling.answered (handle req (surround req.names p ⟨s, {}⟩)) =
    (Handling.answered (handle req ⟨s, {}⟩)).map _
  rw [hhandle]
  cases handle req ⟨s, {}⟩ <;> rfl

/-- Two requests that name different lists leave one store and get the same replies in either
order. -/
theorem runFrom_disjoint {req1 req2 : ListRequest} (h : Disjoint req1.names req2.names)
    (s : ListHandler) :
    machine.runFrom s [req2, req1] =
      (machine.runFrom s [req1, req2]).map fun r => (r.1, r.2.reverse) :=
  runFrom_swap (step_confinedTo req1) (step_confinedTo req2) h s

/-- An intersection of a list with itself under a new name, and the deletion of another list. -/
theorem runFrom_disjoint_delete : ∃ (s t : ListHandler) (req1 req2 : ListRequest),
    req1 = .intersect
      { list1Name := [97], list2Name := [97], list1Range := { hasStop := false },
        list2Range := { hasStop := false }, newListName := some [99] } ∧
    req2 = .delete { name := [[98]] } ∧
    machine.runFrom s [req2, req1] = some (t, [⟨[⟨.ok, .listDelete, none⟩]⟩,
      ⟨[⟨.ok, .listIntersect, some (.listIntersect (some (.typedVector [])))⟩]⟩]) := by
  let l : FcList := FcList.ofList ⟨.intList, [1, 2]⟩ true
  let s : ListHandler := (Finmap.insert [97] l ∅).insert [98] l
  let t : ListHandler := (Finmap.insert [97] l ∅).insert [99] l
  let req1 : ListRequest := .intersect
    { list1Name := [97], list2Name := [97], list1Range := { hasStop := false },
      list2Range := { hasStop := false }, newListName := some [99] }
  let req2 : ListRequest := .delete { name := [[98]] }
  have hdisjoint : Disjoint req1.names req2.names := by
    simp [Set.disjoint_left, req1, req2, ListRequest.names]
  have hrun : machine.runFrom s [req1, req2] = some (t,
      [⟨[⟨.ok, .listIntersect, some (.listIntersect (some (.typedVector [])))⟩]⟩,
        ⟨[⟨.ok, .listDelete, none⟩]⟩]) := by
    decide +kernel
  refine ⟨s, t, req1, req2, rfl, rfl, ?_⟩
  rw [runFrom_disjoint hdisjoint s, hrun]
  rfl

end ListHandler

end FCache
