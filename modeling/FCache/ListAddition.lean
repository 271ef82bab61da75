import FCache.ListRanges

/-!
# Adding to a list

Items added to an unsorted list go in front of the element at their position, or to the tail when
there is none. Items added to a sorted list end up in ascending order among its elements, whether
they are searched for one by one or merged as already ascending.
-/

namespace FCache

open Slice

section Operations

variable {α : Type}

/-- Where items are inserted into an unsorted list. -/
def insertionPoint (size : ℕ) (pos : ℤ) : ℕ :=
  if InBounds size pos then (position size pos).toNat else size

theorem insertionPoint_le (size : ℕ) (pos : ℤ) : insertionPoint size pos ≤ size := by
  unfold insertionPoint
  split
  · next h =>
    have := position_bounds h
    omega
  · exact Nat.le_refl size

theorem positionToStartIterator_eq (pos : ℤ) (l : List α) :
    positionToStartIterator pos l = some (insertionPoint l.length pos) := by
  unfold positionToStartIterator insertionPoint
  rcases selection_cases l.length pos 0 false with ⟨h, hlt, hsel⟩ | ⟨hnot, hsel⟩
  · have hpos := position_bounds h
    have hends : (position l.length pos).toNat < (stopIndex l.length 0 false).toNat := by omega
    rw [positionsToIterators_eq hsel]
    simp [hends, h]
  · -- without a stop, an invalid range has its start out of bounds
    have hout : ¬ InBounds l.length pos := by
      intro h
      apply hnot
      rw [stopIndex_noStop rfl]
      exact ⟨h, (position_bounds h).2⟩
    rw [positionsToIterators_eq hsel]
    simp [hout]

namespace Add

variable [ListValue α]

theorem call_unsorted (items : TypedVector) (pos : ℤ) (l : List α) :
    ({ items, pos } : Add).call false l =
      some (l.take (insertionPoint l.length pos) ++ items.map ListValue.as ++
          l.drop (insertionPoint l.length pos),
        (l.take (insertionPoint l.length pos) ++ items.map ListValue.as ++
          l.drop (insertionPoint l.length pos)).length) := by
  have hinsert := insertFrom_eq (insertionPoint_le l.length pos) items
  simp only [call, doAdd, Bool.false_eq_true, if_false, positionToStartIterator_eq,
    Option.bind_eq_bind, Option.bind_some, hinsert]
  rfl

/-! ### Nothing is lost -/

omit [ListValue α] in
theorem insert_perm (l : List α) (k : ℕ) (v : α) :
    (l.take k ++ v :: l.drop k).Perm (v :: l) := by
  have hperm : (l.take k ++ v :: l.drop k).Perm (v :: (l.take k ++ l.drop k)) := List.perm_middle
  rwa [List.take_append_drop] at hperm

omit [ListValue α] in
theorem insert_items_perm {l l' : List α} {k : ℕ} {v : α} {vs : List α}
    (h : l'.Perm (l.take k ++ v :: l.drop k ++ vs)) : l'.Perm (l ++ v :: vs) := by
  have hitem := h.trans ((insert_perm l k v).append_right vs)
  exact hitem.trans List.perm_middle.symm

theorem sortedInsert_perm {l l' : List α} {items : TypedVector}
    (h : sortedInsert l items = some l') : l'.Perm (l ++ items.map ListValue.as) := by
  induction items generalizing l with
  | nil =>
    obtain rfl := Option.some.inj h
    simp
  | cons item items ih =>
    unfold sortedInsert at h
    simp only at h
    rw [emplace_lowerBound (Nat.zero_add _)] at h
    exact insert_items_perm (ih h)

theorem mergeInsert_perm {l l' : List α} {it : ℕ} {items : TypedVector} (hit : it ≤ l.length)
    (h : mergeInsert l it items = some l') : l'.Perm (l ++ items.map ListValue.as) := by
  induction items generalizing l it with
  | nil =>
    obtain rfl := Option.some.inj h
    simp
  | cons item items ih =>
    have hle := (Algorithm.lowerBound_mem_range ListValue.lt l it (l.length - it)
      (ListValue.as item)).2
    unfold mergeInsert at h
    simp only at h
    rw [emplace_lowerBound (Nat.add_sub_of_le hit)] at h
    refine insert_items_perm (ih ?_ h)
    simp only [List.length_append, List.length_take, List.length_cons, List.length_drop]
    omega

theorem doSourceListSortedAdd_perm {l l' : List α} {items : TypedVector}
    (h : doSourceListSortedAdd items l = some l') : l'.Perm (l ++ items.map ListValue.as) := by
  unfold doSourceListSortedAdd at h
  simp only [prepend_eq, append_eq] at h
  split at h
  · obtain rfl := Option.some.inj h
    exact List.perm_append_comm
  · split at h
    · obtain rfl := Option.some.inj h
      exact List.Perm.refl _
    · exact mergeInsert_perm (Nat.zero_le _) h

theorem doAdd_perm {op : Add} {l l' : List α} (h : op.doAdd true l = some l') :
    l'.Perm (l ++ op.items.map ListValue.as) := by
  unfold doAdd at h
  rw [if_pos rfl] at h
  split at h
  · exact doSourceListSortedAdd_perm h
  · exact sortedInsert_perm h

/-- Either path gives the one ascending list of the elements and the items. -/
theorem doAdd_sorted [LinearOrder α] [LawfulListValue α] {l : List α} {items : TypedVector}
    (hne : items ≠ []) (hl : l.Pairwise (· ≤ ·)) :
    ∃ added : List α, added.Pairwise (· ≤ ·) ∧ added.Perm (l ++ items.map ListValue.as) ∧
      ∀ itemsSorted : Bool,
        (itemsSorted = true → (items.map ListValue.as : List α).Pairwise (· ≤ ·)) →
        ({ items, itemsSorted } : Add).doAdd true l = some added := by
  obtain ⟨added, hadd⟩ := doAdd_defined { items } true l
  have hasc : added.Pairwise (· ≤ ·) := doAdd_ascending hne (fun hf => by cases hf) hl hadd
  refine ⟨added, hasc, doAdd_perm hadd, ?_⟩
  intro itemsSorted hitems
  obtain ⟨added', hadd'⟩ := doAdd_defined { items, itemsSorted } true l
  have hasc' : added'.Pairwise (· ≤ ·) := doAdd_ascending hne hitems hl hadd'
  have hperm : added'.Perm added := (doAdd_perm hadd').trans (doAdd_perm hadd).symm
  rw [hadd', hperm.eq_of_pairwise (fun x y _ _ => le_antisymm) hasc' hasc]

theorem call_sorted (items : TypedVector) (itemsSorted : Bool) {l added : List α}
    (h : ({ items, itemsSorted } : Add).doAdd true l = some added) :
    ({ items, itemsSorted } : Add).call true l = some (added, added.length) := by
  simp only [call, Bool.false_eq_true, if_false, h]
  rfl

end Add

end Operations

/-! ### Requests -/

namespace ListHandler

variable {s : ListHandler} {name : Bytes} {a : Alternative} {d : List a.ValueType}
  {items : TypedVector}

/-- Items added to an unsorted list go to their position, appended items to its tail, in the order
given; both answer the new size. -/
theorem step_add_unsorted (h : Holds s name a d false) (hne : items ≠ []) (position : Int32)
    (itemsSorted : Bool) :
    (∃ added : List a.ValueType,
      added = d.take (insertionPoint d.length position.toInt) ++ items.map ListValue.as ++
        d.drop (insertionPoint d.length position.toInt) ∧
      ({ items, pos := position.toInt } : Add).call false d = some (added, added.length) ∧
      machine.step s (.add { name, items, position, itemsSorted }) =
        some (s.insert name (FcList.ofList ⟨a, added⟩ false),
          ⟨[⟨.ok, .listAdd, some (.listAdd (UInt32.ofNat added.length))⟩]⟩)) ∧
    (∃ added : List a.ValueType, added = d ++ items.map ListValue.as ∧
      ({ items, append := true } : Add).call false d = some (added, added.length) ∧
      machine.step s (.append { name, items }) =
        some (s.insert name (FcList.ofList ⟨a, added⟩ false),
          ⟨[⟨.ok, .listAppend, some (.listAppend (UInt32.ofNat added.length))⟩]⟩)) := by
  constructor
  · have hcall := Add.call_unsorted items position.toInt d
    refine ⟨_, rfl, hcall, ?_⟩
    exact Handling.answered_eq_some.mpr
      (@doAddAppend_holds s {} name a d false h items hne false position.toInt itemsSorted _ hcall)
  · have hcall := Add.call_tail items d
    refine ⟨_, rfl, hcall, ?_⟩
    exact Handling.answered_eq_some.mpr
      (@doAddAppend_holds s {} name a d false h items hne true 0 false _ hcall)

/-- Adding to a sorted list gives the one ascending list of its elements and the items, with or
without the flag that these are ascending already. -/
theorem step_add_sorted (h : Holds s name a d true) (ha : a ≠ .floatList) (hd : a.Ascending d)
    (hne : items ≠ []) (position : Int32) :
    ∃ added : List a.ValueType, a.Ascending added ∧ added.Perm (d ++ items.map ListValue.as) ∧
      ∀ itemsSorted : Bool, (itemsSorted = true → a.Ascending (items.map ListValue.as)) →
        ({ items, itemsSorted } : Add).call true d = some (added, added.length) ∧
        machine.step s (.add { name, items, position, itemsSorted }) =
          some (s.insert name (FcList.ofList ⟨a, added⟩ true),
            ⟨[⟨.ok, .listAdd, some (.listAdd (UInt32.ofNat added.length))⟩]⟩) := by
  apply Alternative.linearOrder_elim ha
  intro _ _ hasc
  obtain ⟨added, hadded, hperm, hadd⟩ := Add.doAdd_sorted hne ((hasc d).mp hd)
  refine ⟨added, (hasc added).mpr hadded, hperm, ?_⟩
  intro itemsSorted hitems
  have hcall := Add.call_sorted items itemsSorted
    (hadd itemsSorted fun hs => (hasc _).mp (hitems hs))
  exact ⟨hcall, Handling.answered_eq_some.mpr
    (@doAddAppend_holds s {} name a d true h items hne false position.toInt itemsSorted _ hcall)⟩

/-- At the last element, and at the tail. -/
theorem step_add_unsorted_last : ∃ s : ListHandler, Holds s [97] .intList [1, 3] false ∧
    machine.step s (.add { name := [97], items := [⟨2, 2, ⟨0⟩, []⟩], position := -1 }) =
      some (s.insert [97] (FcList.ofList ⟨.intList, [1, 2, 3]⟩ false),
        ⟨[⟨.ok, .listAdd, some (.listAdd 3)⟩]⟩) ∧
    machine.step s (.append { name := [97], items := [⟨2, 2, ⟨0⟩, []⟩] }) =
      some (s.insert [97] (FcList.ofList ⟨.intList, [1, 3, 2]⟩ false),
        ⟨[⟨.ok, .listAppend, some (.listAppend 3)⟩]⟩) := by
  have h : Holds (Finmap.insert [97] (FcList.ofList ⟨.intList, [1, 3]⟩ false) ∅) [97] .intList
      [1, 3] false := Finmap.lookup_insert _
  have hne : ([⟨2, 2, ⟨0⟩, []⟩] : TypedVector) ≠ [] := List.cons_ne_nil _ _
  obtain ⟨⟨added, rfl, _, hadd⟩, ⟨appended, rfl, _, happend⟩⟩ := step_add_unsorted h hne (-1) false
  exact ⟨_, h, hadd, happend⟩

/-- Before, between and behind the elements, flagged as ascending. -/
theorem step_add_sorted_between : ∃ s : ListHandler, Holds s [97] .intList [1, 3] true ∧
    ∃ added : List Int64, Alternative.Ascending .intList added ∧ added.Perm [1, 3, 0, 2, 4] ∧
      machine.step s (.add
          { name := [97]
            items := [⟨0, 0, ⟨0⟩, []⟩, ⟨2, 2, ⟨0⟩, []⟩, ⟨4, 4, ⟨0⟩, []⟩]
            itemsSorted := true }) =
        some (s.insert [97] (FcList.ofList ⟨.intList, added⟩ true),
          ⟨[⟨.ok, .listAdd, some (.listAdd (UInt32.ofNat added.length))⟩]⟩) := by
  have h : Holds (Finmap.insert [97] (FcList.ofList ⟨.intList, [1, 3]⟩ true) ∅) [97] .intList
      [1, 3] true := Finmap.lookup_insert _
  have hne : ([⟨0, 0, ⟨0⟩, []⟩, ⟨2, 2, ⟨0⟩, []⟩, ⟨4, 4, ⟨0⟩, []⟩] : TypedVector) ≠ [] :=
    List.cons_ne_nil _ _
  have hasc : Alternative.Ascending .intList [1, 3] := by
    show List.Pairwise (fun x y : Int64 => x ≤ y) [1, 3]
    decide
  have hitems : Alternative.Ascending .intList [0, 2, 4] := by
    show List.Pairwise (fun x y : Int64 => x ≤ y) [0, 2, 4]
    decide
  obtain ⟨added, hadded, hperm, hadd⟩ := step_add_sorted h (by decide) hasc hne 0
  exact ⟨_, h, added, hadded, hperm, (hadd true fun _ => hitems).2⟩

end ListHandler

end FCache
