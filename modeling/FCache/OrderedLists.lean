import FCache.ElementKeys
import FCache.SortedLists

/-!
# Sorted lists of every type

The clients have one duty: what they add to a sorted list compares with itself, so it is no NaN,
and is in order if it is flagged so. Then every sorted list is in order, whatever its type, and
additions, removals by value and intersections do on floats what they do on integers and strings,
up to the equality of the two zeros. A removal by NaN alone is different: nothing equals a NaN, yet
a sorted list loses all that the range selects.
-/

namespace FCache

section Paths

variable {α κ : Type} [ListValue α] [LinearOrder κ] {key : α → κ}

theorem ComparedBy.forall₂_eq (hkey : ComparedBy key) {l l' : List α}
    (hl : ∀ x ∈ l, Comparable x) (hl' : ∀ x ∈ l', Comparable x) (h : l.map key = l'.map key) :
    List.Forall₂ (fun x y => ListValue.eq x y = true) l l' := by
  induction l generalizing l' with
  | nil =>
    obtain rfl : l' = [] := by simpa using h.symm
    exact .nil
  | cons x l ih =>
    cases l' with
    | nil => cases h
    | cons y l' =>
      obtain ⟨hxy, htail⟩ := List.cons.inj h
      refine .cons ((hkey.eq_iff x y).mpr ⟨hl x List.mem_cons_self, hl' y List.mem_cons_self, hxy⟩)
        (ih (fun z hz => hl z (List.mem_cons_of_mem x hz))
          (fun z hz => hl' z (List.mem_cons_of_mem y hz)) htail)

/-- Lists in order that hold the same elements differ in elements that are equal. -/
theorem ComparedBy.ordered_perm (hkey : ComparedBy key) {l l' : List α} (hl : Ordered l)
    (hl' : Ordered l') (hperm : l.Perm l') :
    List.Forall₂ (fun x y => ListValue.eq x y = true) l l' := by
  apply hkey.forall₂_eq hl.comparable hl'.comparable
  apply (hperm.map key).eq_of_pairwise (fun x y _ _ => le_antisymm)
  · exact (hkey.pairwise_map_iff hl.comparable).mpr hl.ascending
  · exact (hkey.pairwise_map_iff hl'.comparable).mpr hl'.ascending

end Paths

theorem Range.selected_sublist {α : Type} (range : Range) (l : List α) :
    (range.selected l).Sublist l :=
  (List.drop_sublist _ _).trans (List.take_sublist _ _)

namespace ListHandler

variable {s : ListHandler} {name : Bytes} {a : Alternative} {d : List a.ValueType} {sorted : Bool}
  {items : TypedVector}

/-- The duty of the clients. -/
def AddsOrdered (s : ListHandler) (req : ListRequest) : Prop :=
  ∀ name items itemsSorted, req.addition = some (name, items, itemsSorted) →
    ∀ (a : Alternative) (d : List a.ValueType), Holds s name a d true →
      (∀ item ∈ items, Comparable (ListValue.as item : a.ValueType)) ∧
        (itemsSorted = true → Ordered (items.map ListValue.as : List a.ValueType))

theorem sortedListLaw_ordered : SortedListLaw AddsOrdered fun _ d => Ordered d where
  nil _ := Ordered.nil
  sublist h hsub := h.sublist hsub
  add {_ _ _ _ _ a _ _} hduty hadd hholds hne hd hadded := by
    obtain ⟨_, _, _, hkey⟩ := a.comparedBy
    obtain ⟨hitems, hsorted⟩ := hduty _ _ _ hadd _ _ hholds
    exact hkey.doAdd_ordered hne hitems hsorted hd hadded

/-- In every store reached every sorted list is in order, without a NaN. -/
theorem reachableBy_ordered (h : machine.ReachableBy AddsOrdered s)
    (hholds : Holds s name a d true) : Ordered d :=
  sortedListLaw_ordered.reachableBy h hholds

theorem addsOrdered_add (hholds : Holds s name a d true) {position : Int32} {itemsSorted : Bool}
    (hitems : ∀ item ∈ items, Comparable (ListValue.as item : a.ValueType))
    (hsorted : itemsSorted = true → Ordered (items.map ListValue.as : List a.ValueType)) :
    AddsOrdered s (.add { name, items, position, itemsSorted }) := by
  intro name' items' itemsSorted' hadd a' d' hholds'
  simp only [ListRequest.addition, Option.some.injEq, Prod.mk.injEq] at hadd
  obtain ⟨rfl, rfl, rfl⟩ := hadd
  have hlist := congrArg FcList.list (Option.some.inj (hholds.symm.trans hholds'))
  cases hlist
  exact ⟨hitems, hsorted⟩

/-- A sorted list of the floats 0 and 1, and one of -0 and 2. -/
theorem reachableBy_floats : ∃ s : ListHandler, machine.ReachableBy AddsOrdered s ∧
    Holds s [97] .floatList [⟨0⟩, ⟨0x3f800000⟩] true ∧
    Holds s [98] .floatList [⟨0x80000000⟩, ⟨0x40000000⟩] true ∧ s.lookup [99] = none := by
  let items₁ : TypedVector := [⟨1, 1, ⟨0x3f800000⟩, []⟩, ⟨0, 0, ⟨0⟩, []⟩]
  let items₂ : TypedVector := [⟨0, 0, ⟨0x80000000⟩, []⟩, ⟨2, 2, ⟨0x40000000⟩, []⟩]
  let s₁ : ListHandler := Finmap.insert [97] (FcList.ofList ⟨.floatList, []⟩ true) ∅
  let s₂ : ListHandler :=
    s₁.insert [97] (FcList.ofList ⟨.floatList, [⟨0⟩, ⟨0x3f800000⟩]⟩ true)
  let s₃ : ListHandler := s₂.insert [98] (FcList.ofList ⟨.floatList, []⟩ true)
  let s₄ : ListHandler :=
    s₃.insert [98] (FcList.ofList ⟨.floatList, [⟨0x80000000⟩, ⟨0x40000000⟩]⟩ true)
  have h₁ : machine.ReachableBy AddsOrdered s₁ := by
    have hstep : machine.step ∅ (.create { name := [97], type := 2, sorted := true }) =
        some (s₁, ⟨[⟨.ok, .listCreate, none⟩]⟩) := by decide +kernel
    refine .step .init ?_ hstep
    rintro _ _ _ ⟨⟩
  have h₂ : machine.ReachableBy AddsOrdered s₂ := by
    have hstep : machine.step s₁ (.add { name := [97], items := items₁ }) =
        some (s₂, ⟨[⟨.ok, .listAdd, some (.listAdd 2)⟩]⟩) := by decide +kernel
    have hholds : Holds s₁ [97] .floatList [] true := rfl
    refine h₁.step (addsOrdered_add hholds ?_ fun hf => by cases hf) hstep
    decide
  have h₃ : machine.ReachableBy AddsOrdered s₃ := by
    have hstep : machine.step s₂ (.create { name := [98], type := 2, sorted := true }) =
        some (s₃, ⟨[⟨.ok, .listCreate, none⟩]⟩) := by decide +kernel
    refine h₂.step ?_ hstep
    rintro _ _ _ ⟨⟩
  have h₄ : machine.ReachableBy AddsOrdered s₄ := by
    have hstep : machine.step s₃
        (.add { name := [98], items := items₂, itemsSorted := true }) =
        some (s₄, ⟨[⟨.ok, .listAdd, some (.listAdd 2)⟩]⟩) := by decide +kernel
    have hholds : Holds s₃ [98] .floatList [] true := rfl
    refine h₃.step (addsOrdered_add hholds ?_ fun _ => ⟨?_, ?_⟩) hstep
    · decide
    · decide
    · decide
  exact ⟨s₄, h₄, rfl, rfl, rfl⟩

theorem reachableBy_ordered_floats : ∃ s : ListHandler,
    Holds s [97] .floatList [⟨0⟩, ⟨0x3f800000⟩] true ∧
    Ordered ([⟨0⟩, ⟨0x3f800000⟩] : List FcFloat) := by
  obtain ⟨s, hs, h, _⟩ := reachableBy_floats
  exact ⟨s, h, reachableBy_ordered hs h⟩

/-- Items merged as already in order and items searched for one by one give lists in order of the
same elements, which differ in equal elements only. -/
theorem reachableBy_add (h : machine.ReachableBy AddsOrdered s) (hholds : Holds s name a d true)
    (hne : items ≠ []) (hitems : ∀ item ∈ items, Comparable (ListValue.as item : a.ValueType))
    (position : Int32) :
    ∃ added : Bool → List a.ValueType, ∀ itemsSorted : Bool,
      (itemsSorted = true → Ordered (items.map ListValue.as : List a.ValueType)) →
      Ordered (added itemsSorted) ∧
      (added itemsSorted).Perm (d ++ items.map ListValue.as) ∧
      List.Forall₂ (fun x y => ListValue.eq x y = true) (added itemsSorted) (added false) ∧
      machine.step s (.add { name, items, position, itemsSorted }) =
        some (s.insert name (FcList.ofList ⟨a, added itemsSorted⟩ true),
          ⟨[⟨.ok, .listAdd, some (.listAdd (UInt32.ofNat (added itemsSorted).length))⟩]⟩) := by
  obtain ⟨_, _, _, hkey⟩ := a.comparedBy
  have hd := sortedListLaw_ordered.reachableBy h hholds
  have hdefined := fun itemsSorted =>
    Add.doAdd_defined ({ items, itemsSorted } : Add) true d
  choose added hadded using hdefined
  have hordered : ∀ itemsSorted : Bool,
      (itemsSorted = true → Ordered (items.map ListValue.as : List a.ValueType)) →
        Ordered (added itemsSorted) :=
    fun itemsSorted hsorted => hkey.doAdd_ordered hne hitems hsorted hd (hadded itemsSorted)
  have hperm := fun itemsSorted => Add.doAdd_perm (hadded itemsSorted)
  refine ⟨added, fun itemsSorted hsorted => ⟨hordered itemsSorted hsorted, hperm itemsSorted, ?_,
    ?_⟩⟩
  · exact hkey.ordered_perm (hordered itemsSorted hsorted) (hordered false fun hf => by cases hf)
      ((hperm itemsSorted).trans (hperm false).symm)
  · have hcall := Add.call_sorted items itemsSorted (hadded itemsSorted)
    exact Handling.answered_eq_some.mpr (@doAddAppend_holds s {} name a d true hholds items hne
      false position.toInt itemsSorted _ hcall)

/-- The other zero, with the flag and without it. -/
theorem reachableBy_add_zero : ∃ s : ListHandler,
    Holds s [97] .floatList [⟨0⟩, ⟨0x3f800000⟩] true ∧
    ∃ added : Bool → List FcFloat, ∀ itemsSorted, Ordered (added itemsSorted) ∧
      (added itemsSorted).Perm [⟨0⟩, ⟨0x3f800000⟩, ⟨0x80000000⟩] ∧
      List.Forall₂ (fun x y => FcFloat.eq x y = true) (added itemsSorted) (added false) ∧
      machine.step s (.add
          { name := [97], items := [⟨0, 0, ⟨0x80000000⟩, []⟩], itemsSorted }) =
        some (s.insert [97] (FcList.ofList ⟨.floatList, added itemsSorted⟩ true),
          ⟨[⟨.ok, .listAdd, some (.listAdd (UInt32.ofNat (added itemsSorted).length))⟩]⟩) := by
  obtain ⟨s, hs, h, _⟩ := reachableBy_floats
  obtain ⟨added, hadd⟩ := @reachableBy_add s _ _ _ [⟨0, 0, ⟨0x80000000⟩, []⟩] hs h
    (List.cons_ne_nil _ _) (by decide) 0
  have hitems : Ordered ([⟨0x80000000⟩] : List FcFloat) := ⟨by decide, by decide⟩
  exact ⟨s, h, added, fun itemsSorted => hadd itemsSorted fun _ => hitems⟩

/-! ### Removing by value -/

theorem removeIfOperation_ordered (hd : Ordered d) (range : Range) (v : a.ValueType)
    {p m q : List a.ValueType} (hsel : range.Selects d p m q) :
    (removeIfOperation range a v).call true a d =
      some (p ++ (if Comparable v then m.filter (fun x => !ListValue.eq x v) else []) ++ q,
        (p ++ (if Comparable v then m.filter (fun x => !ListValue.eq x v) else []) ++ q).length)
      := by
  obtain ⟨_, _, _, hkey⟩ := a.comparedBy
  rw [removeIfOperation_call]
  split
  · next hv =>
    rw [hkey.doRemove_comparable hv hd (removeIfOperation_selection range v d.length),
      hsel.splice_eq (f := fun m => m.filter fun x => !ListValue.eq x v) rfl]
    rfl
  · next hv =>
    rw [hkey.doRemove_not_comparable hv (removeIfOperation_selection range v d.length),
      hsel.splice_eq (f := fun _ => []) rfl]
    rfl

theorem removeIfOperation_unordered (range : Range) (v : a.ValueType)
    {p m q : List a.ValueType} (hsel : range.Selects d p m q) :
    (removeIfOperation range a v).call false a d =
      some (p ++ m.filter (fun x => !ListValue.eq x v) ++ q,
        (p ++ m.filter (fun x => !ListValue.eq x v) ++ q).length) :=
  removeIfOperation_filter (fun hf => by cases hf) range v hsel

/-- Removing a value filters the selected block, of sorted lists as of unsorted ones. A NaN is
equal to no element, but takes the whole block from a sorted list. -/
theorem reachableBy_removeIf (h : machine.ReachableBy AddsOrdered s)
    (hholds : Holds s name a d sorted) (range : Range) (v : a.ValueType)
    {p m q : List a.ValueType} (hsel : range.Selects d p m q) :
    ∃ kept : List a.ValueType,
      (Comparable v → kept = m.filter fun x => !ListValue.eq x v) ∧
      (¬ Comparable v → kept = if sorted then [] else m) ∧
      machine.step s (.removeIf { name, range, value := a.toValue v }) =
        some (s.insert name (FcList.ofList ⟨a, p ++ kept ++ q⟩ sorted), ⟨[⟨.ok, .listRemoveIf,
          some (.listRemoveIf (UInt32.ofNat (p ++ kept ++ q).length))⟩]⟩) := by
  obtain ⟨_, _, _, hkey⟩ := a.comparedBy
  cases sorted with
  | true =>
    have hcall :=
      removeIfOperation_ordered (sortedListLaw_ordered.reachableBy h hholds) range v hsel
    exact ⟨_, fun hv => if_pos hv, fun hv => if_neg hv, step_removeIf_of_call hholds hcall⟩
  | false =>
    have hcall := removeIfOperation_unordered range v hsel
    refine ⟨_, fun _ => rfl, ?_, step_removeIf_of_call hholds hcall⟩
    intro hv
    apply List.filter_eq_self.mpr
    intro x _
    rw [Bool.not_eq_true', Bool.eq_false_iff, ne_eq, hkey.eq_iff]
    exact fun h => hv h.2.1

/-- A NaN from the second element on. -/
theorem reachableBy_removeIf_nan : ∃ s : ListHandler,
    Holds s [98] .floatList [⟨0x80000000⟩, ⟨0x40000000⟩] true ∧
    machine.step s (.removeIf
        { name := [98], range := { start := 1, hasStop := false },
          value := .floatValue ⟨0x7fc00000⟩ }) =
      some (s.insert [98] (FcList.ofList ⟨.floatList, [⟨0x80000000⟩]⟩ true),
        ⟨[⟨.ok, .listRemoveIf, some (.listRemoveIf 1)⟩]⟩) := by
  obtain ⟨s, hs, _, h, _⟩ := reachableBy_floats
  have hsel : Range.Selects (a := .floatList) { start := 1, hasStop := false }
      [⟨0x80000000⟩, ⟨0x40000000⟩] [⟨0x80000000⟩] [⟨0x40000000⟩] [] :=
    Range.selects_block { start := 1, hasStop := false } _
  obtain ⟨kept, _, hkept, hstep⟩ := reachableBy_removeIf hs h _ ⟨0x7fc00000⟩ hsel
  obtain rfl : kept = [] := hkept (by decide)
  exact ⟨s, h, hstep⟩

/-! ### Intersecting -/

/-- Under a free name the intersection of two sorted lists is stored in order: elements of the
first block, and as many equal to any value as the block that has fewer of them. -/
theorem reachableBy_intersect (h : machine.ReachableBy AddsOrdered s) {req : ListIntersect}
    {d1 d2 : List a.ValueType} (h1 : Holds s req.list1Name a d1 true)
    (h2 : Holds s req.list2Name a d2 true) (hname : req.newListName.getD [] ≠ [])
    (hfree : s.lookup (req.newListName.getD []) = none) :
    ∃ m1 m2 l : List a.ValueType, req.list1Range.Reads .head d1 m1 ∧
      req.list2Range.Reads .head d2 m2 ∧ l.Sublist m1 ∧ Ordered l ∧
      (∀ v, l.countP (fun x => ListValue.eq x v) =
        min (m1.countP fun x => ListValue.eq x v) (m2.countP fun x => ListValue.eq x v)) ∧
      machine.step s (.intersect req) =
        some (s.insert (req.newListName.getD []) (FcList.ofList ⟨a, l⟩ true),
          ⟨[⟨.ok, .listIntersect, some (.listIntersect (some (.typedVector [])))⟩]⟩) := by
  obtain ⟨_, _, _, hkey⟩ := a.comparedBy
  have hm1 : Ordered (req.list1Range.selected d1) :=
    (sortedListLaw_ordered.reachableBy h h1).sublist (req.list1Range.selected_sublist d1)
  have hm2 : Ordered (req.list2Range.selected d2) :=
    (sortedListLaw_ordered.reachableBy h h2).sublist (req.list2Range.selected_sublist d2)
  have hsub := Algorithm.setIntersection_sublist ListValue.lt (req.list1Range.selected d1)
    (req.list2Range.selected d2)
  exact ⟨_, _, _, (Range.reads_iff _ .head d1 _).mpr rfl, (Range.reads_iff _ .head d2 _).mpr rfl,
    hsub, hm1.sublist hsub, hkey.setIntersection_countP hm1 hm2,
    step_intersect_free h1 h2 hname hfree⟩

/-- The two zeros are equal. -/
theorem reachableBy_intersect_zeros : ∃ s : ListHandler,
    Holds s [97] .floatList [⟨0⟩, ⟨0x3f800000⟩] true ∧
    Holds s [98] .floatList [⟨0x80000000⟩, ⟨0x40000000⟩] true ∧
    ∃ l : List FcFloat, Ordered l ∧ l.countP (fun x => FcFloat.eq x ⟨0⟩) = 1 ∧
      machine.step s (.intersect
          { list1Name := [97], list2Name := [98], list1Range := { hasStop := false },
            list2Range := { hasStop := false }, newListName := some [99] }) =
        some (s.insert [99] (FcList.ofList ⟨.floatList, l⟩ true),
          ⟨[⟨.ok, .listIntersect, some (.listIntersect (some (.typedVector [])))⟩]⟩) := by
  obtain ⟨s, hs, h1, h2, hfree⟩ := reachableBy_floats
  let req : ListIntersect :=
    { list1Name := [97], list2Name := [98], list1Range := { hasStop := false },
      list2Range := { hasStop := false }, newListName := some [99] }
  obtain ⟨m1, m2, l, hm1, hm2, _, hl, hcount, hstep⟩ :=
    @reachableBy_intersect s _ hs req _ _ h1 h2 (List.cons_ne_nil _ _) hfree
  obtain rfl := (Range.reads_iff _ .head _ m1).mp hm1
  obtain rfl := (Range.reads_iff _ .head _ m2).mp hm2
  exact ⟨s, h1, h2, l, hl, hcount ⟨0⟩, hstep⟩

end ListHandler

end FCache
