import FCache.ListHandler
import FCache.ListSafety

/-!
# The effect and the replies of the list handlers

For each handler: what it finishes in the reply builder and how it changes the store, when the
list it names is missing and when it is there. A handler that changes a stored list replaces its
elements only; the element type and the sorted flag are fixed when the list is created.
-/

namespace FCache

/-- The list with other elements. -/
def FcList.withElems (l : FcList) (elems : List l.list.alternative.ValueType) : FcList :=
  { l with list := ⟨l.list.alternative, elems⟩ }

/-- The types that the switches of the handlers know. -/
theorem FcList.TypesAgree.flexType_cases {l : FcList} (hl : l.TypesAgree) :
    l.flexType = .vectorInt ∨ l.flexType = .vectorUInt ∨ l.flexType = .vectorFloat ∨
      l.flexType = .vectorKey := by
  rw [hl.1]
  cases l.list.alternative <;> simp [Alternative.flexType]

namespace ListHandler

open Cpp

variable {s : ListHandler} {fbb : FlatBuilder} {name : Bytes} {l : FcList}

@[simp] theorem getList_apply (name : Bytes) (c : Handling ListHandler) :
    getList name c = .ok (c.handler.lookup name) c := rfl

@[simp] theorem setList_apply (name : Bytes) (l : FcList) (c : Handling ListHandler) :
    setList name l c = .ok () { c with handler := c.handler.insert name l } := rfl

theorem haveList_found (h : s.lookup name = some l) (bodyType : BodyType) :
    haveList name bodyType ⟨s, fbb⟩ = .ok (some l) ⟨s, fbb⟩ := by
  unfold haveList
  simp [h]

theorem haveList_missing (h : s.lookup name = none) (bodyType : BodyType) :
    haveList name bodyType ⟨s, fbb⟩ =
      .ok none ⟨s, fbb.finish { status := .fail, bodyType }⟩ := by
  unfold haveList
  simp [h]

theorem visit_of_some {β : Type} {r : β} {elems : List l.list.alternative.ValueType}
    {op : (a : Alternative) → List a.ValueType → Option (List a.ValueType × β)}
    (h : op l.list.alternative l.list.elems = some (elems, r)) :
    visit name l op ⟨s, fbb⟩ = .ok r ⟨s.insert name (l.withElems elems), fbb⟩ := by
  unfold visit ListVariant.visit
  rw [h]
  rfl

theorem visit_of_none {β : Type}
    {op : (a : Alternative) → List a.ValueType → Option (List a.ValueType × β)}
    (h : op l.list.alternative l.list.elems = none) :
    visit name l op ⟨s, fbb⟩ = .undefined := by
  unfold visit ListVariant.visit
  rw [h]
  rfl

/-- `std::get` of the alternative that a variant holds. -/
theorem get_of_eq {list : ListVariant} {a : Alternative} {elems : List a.ValueType}
    (h : list = ⟨a, elems⟩) : get list a = pure elems := by
  unfold get
  rw [h, ListVariant.get_self]

/-! ### Creating -/

/-- A list is created with an alternative that the request's byte selects, or nothing happens. -/
theorem createList_cases (s : ListHandler) (fbb : FlatBuilder) (name : Bytes) (type : Int8)
    (sorted : Bool) :
    (∃ status, createList name type sorted ⟨s, fbb⟩ = .ok status ⟨s, fbb⟩ ∧ status ≠ .ok) ∨
      ∃ a : Alternative, a.listType.toByte = type ∧ s.lookup name = none ∧
        createList name type sorted ⟨s, fbb⟩ =
          .ok .ok ⟨s.insert name (FcList.ofList ⟨a, []⟩ sorted), fbb⟩ := by
  cases h : s.lookup name with
  | some l =>
    left
    unfold createList
    simp only [bind_apply, getList_apply, ok_bind, h, if_apply, pure_apply]
    split_ifs <;> exact ⟨_, rfl, by decide⟩
  | none =>
    unfold createList
    simp only [bind_apply, getList_apply, ok_bind, h, if_apply, pure_apply,
      setList_apply]
    split_ifs with h₀ h₁ h₂ h₃ h₄
    · exact .inr ⟨.intList, h₁.symm, trivial, rfl⟩
    · exact .inr ⟨.uintList, h₂.symm, trivial, rfl⟩
    · exact .inr ⟨.floatList, h₃.symm, trivial, rfl⟩
    · exact .inr ⟨.stringList, h₄.symm, trivial, rfl⟩
    · exact .inl ⟨_, rfl, by decide⟩
    · exact .inl ⟨_, rfl, by decide⟩

theorem createList_listType (hfree : s.lookup name = none) (a : Alternative) (sorted : Bool) :
    createList name a.listType.toByte sorted ⟨s, fbb⟩ =
      .ok .ok ⟨s.insert name (FcList.ofList ⟨a, []⟩ sorted), fbb⟩ := by
  unfold createList
  cases a <;> simp [hfree, Alternative.listType, ListType.toByte]

/-! ### Adding and appending -/

theorem doAddAppend_missing (h : s.lookup name = none) (items : TypedVector) (isAppend : Bool)
    (pos : ℤ) (itemsSorted : Bool) :
    doAddAppend name items isAppend pos itemsSorted ⟨s, fbb⟩ =
      .ok () ⟨s, fbb.finish ⟨.fail, if isAppend then .listAppend else .listAdd, none⟩⟩ := by
  unfold doAddAppend
  simp [tryCatch_apply, haveList_missing h]

/-- With no items nothing is finished. -/
theorem doAddAppend_noItems (h : s.lookup name = some l) (isAppend : Bool) (pos : ℤ)
    (itemsSorted : Bool) :
    doAddAppend name [] isAppend pos itemsSorted ⟨s, fbb⟩ = .ok () ⟨s, fbb⟩ := by
  unfold doAddAppend
  simp [tryCatch_apply, haveList_found h]

/-- The operation a list is given: a sorted list never gets a position, an unsorted one never
the flag that the items are sorted. -/
def addOperation (items : TypedVector) (isAppend : Bool) (pos : ℤ) (itemsSorted : Bool)
    (sortedList : Bool) : Add :=
  if isAppend && !sortedList then { items, append := true }
  else if sortedList then { items, itemsSorted }
  else { items, pos }

theorem doAddAppend_found (h : s.lookup name = some l) (hl : l.TypesAgree) {items : TypedVector}
    (hne : items ≠ []) (isAppend : Bool) (pos : ℤ) (itemsSorted : Bool) :
    ∃ elems, (addOperation items isAppend pos itemsSorted l.sorted).call l.sorted l.list.elems =
        some (elems, elems.length) ∧
      doAddAppend name items isAppend pos itemsSorted ⟨s, fbb⟩ =
        .ok () ⟨s.insert name (l.withElems elems), fbb.finish
          ⟨.ok, if isAppend then .listAppend else .listAdd,
            some (if isAppend then .listAppend (UInt32.ofNat elems.length)
              else .listAdd (UInt32.ofNat elems.length))⟩⟩ := by
  obtain ⟨elems, hcall⟩ := Add.call_defined
    (addOperation items isAppend pos itemsSorted l.sorted) l.sorted l.list.elems
  refine ⟨elems, hcall, ?_⟩
  have hlen : items.length ≠ 0 := by simpa using hne
  have hvisit := @visit_of_some s fbb name l _ _ _
    (fun _ => (addOperation items isAppend pos itemsSorted l.sorted).call l.sorted) hcall
  unfold doAddAppend
  simp only [tryCatch_apply, bind_apply, haveList_found h, ok_bind, hlen, if_false]
  rcases hl.flexType_cases with hf | hf | hf | hf <;>
  · rw [hf]
    cases isAppend <;> cases hs : l.sorted <;> rw [hs] at hvisit <;>
      simp [FcList.isSorted, hs, addOperation] at hvisit ⊢ <;> simp [hvisit]

theorem handleCreate_cases (s : ListHandler) (fbb : FlatBuilder) (req : ListCreate) :
    (∃ status, handleCreate req ⟨s, fbb⟩ = .ok () ⟨s, fbb.finish ⟨status, .listCreate, none⟩⟩) ∨
      ∃ a : Alternative, s.lookup req.name = none ∧
        handleCreate req ⟨s, fbb⟩ = .ok () ⟨s.insert req.name (FcList.ofList ⟨a, []⟩ req.sorted),
          fbb.finish ⟨.ok, .listCreate, none⟩⟩ := by
  unfold handleCreate
  rcases createList_cases s fbb req.name req.type req.sorted with
    ⟨status, h, _⟩ | ⟨a, _, hnone, h⟩
  · left
    exact ⟨status, by simp [h]⟩
  · right
    exact ⟨a, hnone, by simp [h]⟩

/-! ### Overwriting -/

/-- The failure of `haveList` is finished first, then the status that was never changed. -/
theorem handleSet_missing {req : ListSet} (h : s.lookup req.name = none) :
    handleSet req ⟨s, fbb⟩ = .ok () ⟨s,
      (fbb.finish ⟨.fail, .listSet, none⟩).finish ⟨.ok, .listSet, none⟩⟩ := by
  unfold handleSet
  simp [tryCatch_apply, haveList_missing h]

theorem handleSet_noItems {req : ListSet} (h : s.lookup req.name = some l)
    (hempty : req.items = []) :
    handleSet req ⟨s, fbb⟩ = .ok () ⟨s, fbb.finish ⟨.ok, .listSet, none⟩⟩ := by
  unfold handleSet
  simp [tryCatch_apply, haveList_found h, hempty]

theorem handleSet_sorted {req : ListSet} (h : s.lookup req.name = some l)
    (hne : req.items ≠ []) (hs : l.sorted = true) :
    handleSet req ⟨s, fbb⟩ = .ok () ⟨s, fbb.finish ⟨.notPermitted, .listSet, none⟩⟩ := by
  unfold handleSet
  simp [tryCatch_apply, haveList_found h, hne, FcList.isSorted, hs]

theorem handleSet_unsorted {req : ListSet} (h : s.lookup req.name = some l) (hl : l.TypesAgree)
    (hne : req.items ≠ []) (hs : l.sorted = false) {elems : List l.list.alternative.ValueType}
    (hcall : Set.call ⟨req.items, req.position.toInt⟩ l.list.elems = some (elems, ())) :
    handleSet req ⟨s, fbb⟩ = .ok () ⟨s.insert req.name (l.withElems elems),
      fbb.finish ⟨.ok, .listSet, none⟩⟩ := by
  have hvisit := @visit_of_some s fbb req.name l _ _ _
    (fun _ => Set.call ⟨req.items, req.position.toInt⟩) hcall
  unfold handleSet
  rcases hl.flexType_cases with hf | hf | hf | hf <;>
    simp [tryCatch_apply, haveList_found h, hne, FcList.isSorted, hs, hf, hvisit]

theorem handleSet_found {req : ListSet} (h : s.lookup req.name = some l) (hl : l.TypesAgree) :
    (∃ status, handleSet req ⟨s, fbb⟩ = .ok () ⟨s, fbb.finish ⟨status, .listSet, none⟩⟩) ∨
      (l.sorted = false ∧ ∃ elems,
        Set.call ⟨req.items, req.position.toInt⟩ l.list.elems = some (elems, ()) ∧
        handleSet req ⟨s, fbb⟩ = .ok () ⟨s.insert req.name (l.withElems elems),
          fbb.finish ⟨.ok, .listSet, none⟩⟩) := by
  by_cases hempty : req.items = []
  · exact .inl ⟨_, handleSet_noItems h hempty⟩
  · cases hs : l.sorted with
    | true => exact .inl ⟨_, handleSet_sorted h hempty hs⟩
    | false =>
      obtain ⟨elems, hcall, _⟩ := Set.call_defined ⟨req.items, req.position.toInt⟩ l.list.elems
      exact .inr ⟨rfl, elems, hcall, handleSet_unsorted h hl hempty hs hcall⟩

/-! ### Deleting -/

theorem handleDelete_apply (s : ListHandler) (fbb : FlatBuilder) (req : ListDelete) :
    handleDelete req ⟨s, fbb⟩ = .ok ()
      ⟨if req.name = [] then ∅ else req.name.foldl (fun lists name => lists.erase name) s,
        fbb.finish ⟨.ok, .listDelete, none⟩⟩ := by
  unfold handleDelete
  by_cases h : req.name = [] <;> simp [tryCatch_apply, h]

/-! ### Reading a range -/

theorem handleGetRange_missing {req : ListGetRange} (h : s.lookup req.name = none) :
    handleGetRange req ⟨s, fbb⟩ = .ok () ⟨s, fbb.finish ⟨.fail, .listGetRange, none⟩⟩ := by
  unfold handleGetRange
  simp [tryCatch_apply, haveList_missing h]

/-- The operation of a range request; without a stop the one in the request is not read. -/
def getRangeOperation (req : ListGetRange) : GetByRange :=
  if req.range.hasStop then
    { start := req.range.start.toInt, stop := req.range.stop.toInt, hasStop := true,
      base := req.base }
  else { start := req.range.start.toInt, hasStop := false, base := req.base }

theorem handleGetRange_found {req : ListGetRange} (h : s.lookup req.name = some l) :
    ∃ flxb created, (getRangeOperation req).call {} l.list.elems = some (flxb, created) ∧
      handleGetRange req ⟨s, fbb⟩ = .ok () ⟨s, fbb.finish ⟨.ok, .listGetRange,
        some (.listGetRange
          (if created then flxb else flxb.typedVector []).finish.getBuffer)⟩⟩ := by
  obtain ⟨⟨flxb, created⟩, hcall⟩ := GetByRange.call_defined (getRangeOperation req) {} l.list.elems
  refine ⟨flxb, created, hcall, ?_⟩
  unfold getRangeOperation at hcall
  unfold handleGetRange
  simp only [tryCatch_apply, bind_apply, haveList_found h, ok_bind]
  rw [hcall]
  rfl

/-! ### Removing -/

theorem handleRemove_missing {req : ListRemove} (h : s.lookup req.name = none) :
    handleRemove req ⟨s, fbb⟩ = .ok () ⟨s,
      (fbb.finish ⟨.fail, .listRemove, none⟩).finish ⟨.ok, .listRemove, none⟩⟩ := by
  unfold handleRemove
  simp [tryCatch_apply, haveList_missing h]

def removeOperation (req : ListRemove) : Remove :=
  if req.range.hasStop then
    { start := req.range.start.toInt, stop := req.range.stop.toInt, hasStop := true }
  else { start := req.range.start.toInt, hasStop := false }

theorem handleRemove_of_some {req : ListRemove} (h : s.lookup req.name = some l)
    {elems : List l.list.alternative.ValueType}
    (hcall : (removeOperation req).call l.list.elems = some (elems, ())) :
    handleRemove req ⟨s, fbb⟩ = .ok () ⟨s.insert req.name (l.withElems elems),
      fbb.finish ⟨.ok, .listRemove, none⟩⟩ := by
  have hvisit := @visit_of_some s fbb req.name l _ _ _ (fun _ => (removeOperation req).call) hcall
  unfold removeOperation at hvisit
  unfold handleRemove
  simp [tryCatch_apply, haveList_found h, hvisit]

theorem handleRemove_of_none {req : ListRemove} (h : s.lookup req.name = some l)
    (hcall : (removeOperation req).call l.list.elems = none) :
    handleRemove req ⟨s, fbb⟩ = .undefined := by
  have hvisit := @visit_of_none s fbb req.name l _ (fun _ => (removeOperation req).call) hcall
  unfold removeOperation at hvisit
  unfold handleRemove
  simp [tryCatch_apply, haveList_found h, hvisit]

theorem handleRemoveIf_missing {req : ListRemoveIf} (h : s.lookup req.name = none) :
    handleRemoveIf req ⟨s, fbb⟩ = .ok () ⟨s, fbb.finish ⟨.fail, .listRemoveIf, none⟩⟩ := by
  unfold handleRemoveIf
  simp [tryCatch_apply, haveList_missing h]

def removeIfOperation (range : Range) (a : Alternative) (val : a.ValueType) : RemoveIf :=
  if range.hasStop then
    { start := range.start.toInt, stop := range.stop.toInt, hasStop := true, type := a, val }
  else { start := range.start.toInt, hasStop := false, type := a, val }

theorem doRemoveIfEquals_apply (s : ListHandler) (fbb : FlatBuilder) (name : Bytes) (l : FcList)
    (range : Range) (a : Alternative) (val : a.ValueType) :
    ∃ elems, (removeIfOperation range a val).call l.sorted l.list.alternative l.list.elems =
        some (elems, elems.length) ∧
      doRemoveIfEquals name l range a val ⟨s, fbb⟩ =
        .ok elems.length ⟨s.insert name (l.withElems elems), fbb⟩ := by
  obtain ⟨elems, hcall⟩ :=
    (removeIfOperation range a val).call_defined l.sorted l.list.alternative l.list.elems
  exact ⟨elems, hcall, visit_of_some hcall⟩

/-- The value a request compares with, and its element type. -/
def removeIfValue : Value → Option (Σ a : Alternative, a.ValueType)
  | .none => none
  | .intValue v => some ⟨.intList, v⟩
  | .uintValue v => some ⟨.uintList, v⟩
  | .floatValue v => some ⟨.floatList, v⟩
  | .stringValue v => some ⟨.stringList, v⟩

theorem handleRemoveIf_noValue {req : ListRemoveIf} (h : s.lookup req.name = some l)
    (hval : removeIfValue req.value = none) : handleRemoveIf req ⟨s, fbb⟩ =
      .ok () ⟨s, fbb.finish ⟨.ok, .listRemoveIf, some (.listRemoveIf 0)⟩⟩ := by
  unfold handleRemoveIf
  cases hv : req.value with
  | none => simp [tryCatch_apply, haveList_found h]
  | _ => simp [hv, removeIfValue] at hval

theorem handleRemoveIf_found {req : ListRemoveIf} (h : s.lookup req.name = some l)
    {a : Alternative} {val : a.ValueType} (hval : removeIfValue req.value = some ⟨a, val⟩) :
    ∃ elems, (removeIfOperation req.range a val).call l.sorted l.list.alternative l.list.elems =
        some (elems, elems.length) ∧
      handleRemoveIf req ⟨s, fbb⟩ = .ok () ⟨s.insert req.name (l.withElems elems),
        fbb.finish ⟨.ok, .listRemoveIf, some (.listRemoveIf (UInt32.ofNat elems.length))⟩⟩ := by
  obtain ⟨elems, hcall, heq⟩ := doRemoveIfEquals_apply s fbb req.name l req.range a val
  refine ⟨elems, hcall, ?_⟩
  unfold handleRemoveIf
  cases hv : req.value with
  | none => simp [hv, removeIfValue] at hval
  | _ =>
    simp only [hv, removeIfValue, Option.some.injEq, Sigma.mk.injEq] at hval
    obtain ⟨rfl, hval⟩ := hval
    obtain rfl := eq_of_heq hval
    simp [tryCatch_apply, haveList_found h, heq]

/-! ### Intersecting -/

/-- The inputs of an intersection are missing, refused or accepted. -/
theorem intersectInputs_cases (s : ListHandler) (req : ListIntersect) :
    (s.lookup req.list1Name = none ∨ s.lookup req.list2Name = none) ∨
      ∃ l1 l2, s.lookup req.list1Name = some l1 ∧ s.lookup req.list2Name = some l2 ∧
        (l1.canIntersectWith l2 = false ∨ l1.canIntersectWith l2 = true) := by
  cases h₁ : s.lookup req.list1Name with
  | none => exact .inl (.inl rfl)
  | some l1 =>
    cases h₂ : s.lookup req.list2Name with
    | none => exact .inl (.inr rfl)
    | some l2 => exact .inr ⟨l1, l2, rfl, rfl, Bool.eq_false_or_eq_true _ |>.symm⟩

theorem handleIntersect_missing {req : ListIntersect}
    (h : s.lookup req.list1Name = none ∨ s.lookup req.list2Name = none) :
    handleIntersect req ⟨s, fbb⟩ = .ok () ⟨s,
      if s.lookup req.list1Name = none ∧ s.lookup req.list2Name = none then
        (fbb.finish ⟨.fail, .listIntersect, none⟩).finish ⟨.fail, .listIntersect, none⟩
      else fbb.finish ⟨.fail, .listIntersect, none⟩⟩ := by
  unfold handleIntersect
  cases h₁ : s.lookup req.list1Name with
  | none =>
    cases h₂ : s.lookup req.list2Name with
    | none => simp [tryCatch_apply, haveList_missing h₁, haveList_missing h₂]
    | some l2 => simp [tryCatch_apply, haveList_missing h₁, haveList_found h₂]
  | some l1 =>
    cases h₂ : s.lookup req.list2Name with
    | none => simp [tryCatch_apply, haveList_found h₁, haveList_missing h₂]
    | some l2 => simp [h₁, h₂] at h

theorem handleIntersect_refused {req : ListIntersect} {l1 l2 : FcList}
    (h₁ : s.lookup req.list1Name = some l1) (h₂ : s.lookup req.list2Name = some l2)
    (hcan : l1.canIntersectWith l2 = false) : handleIntersect req ⟨s, fbb⟩ =
      .ok () ⟨s, fbb.finish ⟨.fail, .listIntersect, none⟩⟩ := by
  unfold handleIntersect
  simp [tryCatch_apply, haveList_found h₁, haveList_found h₂, hcan]

theorem flexTypeToListType_flexType (a : Alternative) :
    flexTypeToListType a.flexType = some a.listType := by
  cases a <;> rfl

theorem toByte_listType_injective {a b : Alternative}
    (h : a.listType.toByte = b.listType.toByte) : a = b := by
  revert h
  cases a <;> cases b <;> decide

/-- The lists of an intersection have the alternative their common flex type says, so no access
to the variants fails. -/
theorem alternative_eq_of_flexType {l1 l2 : FcList} (h₁ : l1.TypesAgree) (h₂ : l2.TypesAgree)
    (hft : l1.flexType = l2.flexType) : l2.list.alternative = l1.list.alternative := by
  apply Alternative.flexType_injective
  rw [← h₁.1, ← h₂.1, hft]

section DoIntersect

variable {flxb flxb' : FlexBuilder} {req : ListIntersect} {l1 l2 : FcList}
  {l2Elems elems : List l1.list.alternative.ValueType}

/-- Without a new name the intersection goes to the reply. -/
theorem doIntersect_unnamed (hname : req.newListName.getD [] = [])
    (hl2 : l2.list = ⟨l1.list.alternative, l2Elems⟩)
    (hflxb : intersectToFlexBuffer flxb l1.list.elems l2Elems req.list1Range req.list2Range =
      some flxb') : doIntersect flxb req l1 l2 ⟨s, fbb⟩ = .ok flxb' ⟨s, fbb⟩ := by
  unfold doIntersect
  simp [hname, get_of_eq hl2, hflxb]

/-- Under a name that is taken nothing is created; the status that says so is not returned. -/
theorem doIntersect_taken (h₁ : l1.TypesAgree) (hname : req.newListName.getD [] ≠ [])
    (htaken : s.lookup (req.newListName.getD []) ≠ none) :
    doIntersect flxb req l1 l2 ⟨s, fbb⟩ = .ok (flxb.typedVector []).finish ⟨s, fbb⟩ := by
  have hlt : flexTypeToListType l1.flexType = some l1.list.alternative.listType := by
    rw [h₁.1, flexTypeToListType_flexType]
  unfold doIntersect
  rcases createList_cases s fbb (req.newListName.getD []) l1.list.alternative.listType.toByte true
    with ⟨status, hcreate, hstatus⟩ | ⟨_, _, hfree, _⟩
  · simp [hname, hlt, hcreate, hstatus]
  · exact absurd hfree htaken

/-- Under a free name a list is created and filled; the reply is then an empty vector. -/
theorem doIntersect_free (h₁ : l1.TypesAgree) (hname : req.newListName.getD [] ≠ [])
    (hfree : s.lookup (req.newListName.getD []) = none)
    (hl2 : l2.list = ⟨l1.list.alternative, l2Elems⟩)
    (helems : intersectToList [] l1.list.elems l2Elems req.list1Range req.list2Range =
      some elems) :
    doIntersect flxb req l1 l2 ⟨s, fbb⟩ = .ok (flxb.typedVector []).finish
      ⟨s.insert (req.newListName.getD []) (FcList.ofList ⟨l1.list.alternative, elems⟩ true),
        fbb⟩ := by
  have hlt : flexTypeToListType l1.flexType = some l1.list.alternative.listType := by
    rw [h₁.1, flexTypeToListType_flexType]
  have hget₁ : get l1.list l1.list.alternative = pure l1.list.elems := get_of_eq rfl
  have hcreate := @createList_listType s fbb _ hfree l1.list.alternative true
  unfold doIntersect
  simp [hname, hlt, hcreate, FcList.ofList, hget₁, get_of_eq hl2, helems,
    Finmap.insert_insert]

theorem doIntersect_cases (s : ListHandler) (fbb : FlatBuilder) (flxb : FlexBuilder)
    (req : ListIntersect) {l1 l2 : FcList} (h₁ : l1.TypesAgree) (h₂ : l2.TypesAgree)
    (hft : l1.flexType = l2.flexType) :
    (∃ flxb', doIntersect flxb req l1 l2 ⟨s, fbb⟩ = .ok flxb' ⟨s, fbb⟩) ∨
      ∃ l2Elems elems, l2.list = ⟨l1.list.alternative, l2Elems⟩ ∧
        s.lookup (req.newListName.getD []) = none ∧
        intersectToList [] l1.list.elems l2Elems req.list1Range req.list2Range = some elems ∧
        doIntersect flxb req l1 l2 ⟨s, fbb⟩ = .ok (flxb.typedVector []).finish
          ⟨s.insert (req.newListName.getD []) (FcList.ofList ⟨l1.list.alternative, elems⟩ true),
            fbb⟩ := by
  obtain ⟨l2Elems, _, hl2⟩ := ListVariant.get_of_eq (alternative_eq_of_flexType h₁ h₂ hft)
  by_cases hname : req.newListName.getD [] = []
  · obtain ⟨flxb', hflxb⟩ := intersectToFlexBuffer_defined flxb l1.list.elems l2Elems
      req.list1Range req.list2Range
    exact .inl ⟨flxb', doIntersect_unnamed hname hl2 hflxb⟩
  · by_cases hfree : s.lookup (req.newListName.getD []) = none
    · obtain ⟨elems, helems, _⟩ := intersectToList_nil l1.list.elems l2Elems
        req.list1Range req.list2Range
      exact .inr ⟨l2Elems, elems, hl2, hfree, helems,
        doIntersect_free h₁ hname hfree hl2 helems⟩
    · exact .inl ⟨_, doIntersect_taken h₁ hname hfree⟩

end DoIntersect

theorem handleIntersect_accepted {req : ListIntersect} {l1 l2 : FcList}
    (h₁ : s.lookup req.list1Name = some l1) (h₂ : s.lookup req.list2Name = some l2)
    (hcan : l1.canIntersectWith l2 = true) {flxb : FlexBuilder} {c : Handling ListHandler}
    (hdo : doIntersect {} req l1 l2 ⟨s, fbb⟩ = .ok flxb c) :
    handleIntersect req ⟨s, fbb⟩ = .ok () ⟨c.handler,
      c.fbb.finish ⟨.ok, .listIntersect, some (.listIntersect flxb.getBuffer)⟩⟩ := by
  unfold handleIntersect
  simp [tryCatch_apply, haveList_found h₁, haveList_found h₂, hcan, hdo]

/-! ### Information -/

theorem handleInfo_missing {req : ListInfo} (h : s.lookup req.name = none) :
    handleInfo req ⟨s, fbb⟩ = .ok () ⟨s, fbb.finish ⟨.fail, .listInfo, none⟩⟩ := by
  unfold handleInfo
  simp [tryCatch_apply, h]

theorem handleInfo_found {req : ListInfo} (h : s.lookup req.name = some l) :
    handleInfo req ⟨s, fbb⟩ = .ok () ⟨s, fbb.finish ⟨.ok, .listInfo,
      some (.listInfo (Info.call l.list.elems) l.listType l.sorted)⟩⟩ := by
  unfold handleInfo
  simp [tryCatch_apply, h, FcList.isSorted]

end ListHandler

end FCache
