import FCache.AlgorithmSpec
import FCache.ListInvariant
import FCache.ListRanges
import FCache.MissingLists

/-!
# Intersections

Two sorted lists are intersected in the blocks that their ranges select. The intersection goes to
the reply, or under a new name to the store. The two ways agree on what is in it, but a range that
selects nothing leaves the buffer of the reply unfinished, and a new name that is taken already is
answered as if the list had been stored.
-/

namespace FCache

/-! ### Operations -/

section Operations

variable {α : Type} [ListValue α] {l1 l2 : List α} {range1 range2 : Range}

omit [ListValue α] in
theorem Range.positionsToIterators_ends (range : Range) (l : List α) :
    positionsToIterators range.start.toInt range.stop.toInt range.hasStop l =
      some (decide (range.selected l ≠ []), (range.ends l.length).1, (range.ends l.length).2) := by
  have hvalid : decide ((range.ends l.length).1 < (range.ends l.length).2) =
      decide (range.selected l ≠ []) := by
    apply decide_eq_decide.mpr
    rw [ne_eq, ← not_le]
    exact not_congr (Slice.block_eq_nil_iff l (range.ends_le l.length).2).symm
  rw [positionsToIterators_eq (b := (range.ends l.length).1) (e := (range.ends l.length).2) rfl,
    hvalid]

theorem intersect_selected (h1 : range1.selected l1 ≠ []) (h2 : range2.selected l2 ≠ []) :
    intersect l1 l2 range1 range2 = some (some (Algorithm.setIntersection ListValue.lt
      (range1.selected l1) (range2.selected l2))) := by
  unfold intersect
  rw [range1.positionsToIterators_ends, range2.positionsToIterators_ends, decide_eq_true h1,
    decide_eq_true h2]
  rfl

theorem intersect_nothing (h : range1.selected l1 = [] ∨ range2.selected l2 = []) :
    intersect l1 l2 range1 range2 = some none := by
  unfold intersect
  rw [range1.positionsToIterators_ends, range2.positionsToIterators_ends]
  simp only [Option.bind_eq_bind, Option.bind_some]
  rw [if_neg]
  · rfl
  · rw [Bool.and_eq_true, decide_eq_true_eq, decide_eq_true_eq]
    rintro ⟨h1, h2⟩
    exact h.elim h1 h2

/-- With nothing selected on either side the merge would give nothing as well. -/
theorem intersectToList_eq (l1 l2 : List α) (range1 range2 : Range) :
    intersectToList [] l1 l2 range1 range2 = some (Algorithm.setIntersection ListValue.lt
      (range1.selected l1) (range2.selected l2)) := by
  unfold intersectToList
  by_cases h1 : range1.selected l1 = []
  · rw [intersect_nothing (.inl h1), h1]
    rfl
  · by_cases h2 : range2.selected l2 = []
    · rw [intersect_nothing (.inr h2), h2, Algorithm.setIntersection_nil_right]
      rfl
    · rw [intersect_selected h1 h2]
      rfl

theorem intersectToFlexBuffer_selected (flxb : FlexBuilder) (h1 : range1.selected l1 ≠ [])
    (h2 : range2.selected l2 ≠ []) :
    intersectToFlexBuffer flxb l1 l2 range1 range2 =
      some (flxb.typedVector ((Algorithm.setIntersection ListValue.lt (range1.selected l1)
        (range2.selected l2)).map ListValue.add)).finish := by
  unfold intersectToFlexBuffer
  rw [intersect_selected h1 h2]
  rfl

theorem intersectToFlexBuffer_nothing (flxb : FlexBuilder)
    (h : range1.selected l1 = [] ∨ range2.selected l2 = []) :
    intersectToFlexBuffer flxb l1 l2 range1 range2 = some flxb := by
  unfold intersectToFlexBuffer
  rw [intersect_nothing h]
  rfl

end Operations

/-- What is in the intersection of two lists: the merge of `std::set_intersection`, which on
ascending lists is ascending and has each value as often as the list that has fewer of it. -/
structure Alternative.IsIntersection (a : Alternative) (m1 m2 l : List a.ValueType) : Prop where
  merged : l = Algorithm.setIntersection ListValue.lt m1 m2
  counted : a ≠ .floatList → a.Ascending m1 → a.Ascending m2 →
    a.Ascending l ∧ ∀ v, l.count v = min (m1.count v) (m2.count v)

section Intersection

variable {a : Alternative} {d1 d2 : List a.ValueType}

theorem Alternative.isIntersection_setIntersection (m1 m2 : List a.ValueType) :
    a.IsIntersection m1 m2 (Algorithm.setIntersection ListValue.lt m1 m2) := by
  refine ⟨rfl, ?_⟩
  intro ha h1 h2
  refine ⟨h1.sublist (Algorithm.setIntersection_sublist _ m1 m2), ?_⟩
  intro v
  apply Alternative.linearOrder_elim ha
  intro _ _ hasc
  exact Algorithm.setIntersection_count LawfulListValue.lt_iff ((hasc m1).mp h1)
    ((hasc m2).mp h2) v

theorem Alternative.Ascending.selected (h : a.Ascending d1) (range : Range) :
    a.Ascending (range.selected d1) :=
  h.sublist ((List.drop_sublist _ _).trans (List.take_sublist _ _))

/-- Intersecting ascending lists gives each value as often as both selected blocks have it, and
the same list whichever list comes first. -/
theorem intersectToList_count (ha : a ≠ .floatList) (h1 : a.Ascending d1) (h2 : a.Ascending d2)
    (range1 range2 : Range) :
    ∃ m1 m2 l, range1.Reads .head d1 m1 ∧ range2.Reads .head d2 m2 ∧
      intersectToList [] d1 d2 range1 range2 = some l ∧
      intersectToList [] d2 d1 range2 range1 = some l ∧
      a.Ascending l ∧ (∀ v, l.count v = min (m1.count v) (m2.count v)) ∧
      (m1 = [] ∨ m2 = [] → l = []) := by
  have hm1 := h1.selected range1
  have hm2 := h2.selected range2
  obtain ⟨hasc, hcount⟩ := (Alternative.isIntersection_setIntersection (range1.selected d1)
    (range2.selected d2)).counted ha hm1 hm2
  refine ⟨_, _, _, (range1.reads_iff .head d1 _).mpr rfl, (range2.reads_iff .head d2 _).mpr rfl,
    intersectToList_eq d1 d2 range1 range2, ?_, hasc, hcount, ?_⟩
  · rw [intersectToList_eq]
    apply congrArg some
    apply Alternative.linearOrder_elim ha
    intro _ _ hasc
    exact Algorithm.setIntersection_comm LawfulListValue.lt_iff ((hasc _).mp hm2) ((hasc _).mp hm1)
  · rintro (h | h)
    · rw [if_pos rfl] at h
      rw [h]
      rfl
    · rw [if_pos rfl] at h
      rw [h, Algorithm.setIntersection_nil_right]

/-- Fives that the two blocks have three and two of. -/
theorem intersectToList_count_fives : ∃ l : List Int64,
    intersectToList [] [0, 1, 5, 5, 5, 6] [1, 5, 5, 7] { start := 1, stop := 5 }
        { start := -3, hasStop := false } = some l ∧
      ∀ v, l.count v = min (List.count v [1, 5, 5, 5]) (List.count v [5, 5, 7]) := by
  have h1 : Alternative.Ascending .intList [0, 1, 5, 5, 5, 6] := by
    show List.Pairwise (fun x y : Int64 => x ≤ y) [0, 1, 5, 5, 5, 6]
    decide
  have h2 : Alternative.Ascending .intList [1, 5, 5, 7] := by
    show List.Pairwise (fun x y : Int64 => x ≤ y) [1, 5, 5, 7]
    decide
  obtain ⟨m1, m2, l, hm1, hm2, hl, _, _, hcount, _⟩ := intersectToList_count (by decide) h1 h2
    { start := 1, stop := 5 } { start := -3, hasStop := false }
  obtain rfl := (Range.reads_iff _ .head _ m1).mp hm1
  obtain rfl := (Range.reads_iff _ .head _ m2).mp hm2
  exact ⟨l, hl, hcount⟩

end Intersection

/-! ### Requests -/

namespace ListHandler

variable {s : ListHandler} {a : Alternative} {d1 d2 : List a.ValueType}

theorem canIntersectWith_ofList (v1 v2 : ListVariant) (h : v1.alternative = v2.alternative) :
    (FcList.ofList v1 true).canIntersectWith (FcList.ofList v2 true) = true := by
  rw [FcList.canIntersectWith_iff]
  exact ⟨rfl, rfl, congrArg Alternative.flexType h⟩

/-- Under a free name the intersection is stored, and the reply is an empty vector. -/
theorem step_intersect_free {req : ListIntersect} (h1 : Holds s req.list1Name a d1 true)
    (h2 : Holds s req.list2Name a d2 true) (hname : req.newListName.getD [] ≠ [])
    (hfree : s.lookup (req.newListName.getD []) = none) :
    machine.step s (.intersect req) =
      some (s.insert (req.newListName.getD []) (FcList.ofList ⟨a, Algorithm.setIntersection
          ListValue.lt (req.list1Range.selected d1) (req.list2Range.selected d2)⟩ true),
        ⟨[⟨.ok, .listIntersect, some (.listIntersect (some (.typedVector [])))⟩]⟩) := by
  have helems := intersectToList_eq d1 d2 req.list1Range req.list2Range
  have hdo := @doIntersect_free s {} {} req (FcList.ofList ⟨a, d1⟩ true)
    (FcList.ofList ⟨a, d2⟩ true) d2 _ (FcList.ofList_typesAgree _ _) hname hfree rfl helems
  exact Handling.answered_eq_some.mpr
    (handleIntersect_accepted h1 h2 (canIntersectWith_ofList _ _ rfl) hdo)

theorem step_intersect_unnamed {req : ListIntersect} (h1 : Holds s req.list1Name a d1 true)
    (h2 : Holds s req.list2Name a d2 true) (hname : req.newListName.getD [] = [])
    {flxb : FlexBuilder}
    (hflxb : intersectToFlexBuffer {} d1 d2 req.list1Range req.list2Range = some flxb) :
    machine.step s (.intersect req) =
      some (s, ⟨[⟨.ok, .listIntersect, some (.listIntersect flxb.getBuffer)⟩]⟩) := by
  have hdo := @doIntersect_unnamed s {} {} flxb req (FcList.ofList ⟨a, d1⟩ true)
    (FcList.ofList ⟨a, d2⟩ true) d2 hname rfl hflxb
  exact Handling.answered_eq_some.mpr
    (handleIntersect_accepted h1 h2 (canIntersectWith_ofList _ _ rfl) hdo)

/-- The reply of an intersection without a new name holds what one with a free name stores,
exactly if both ranges select something. -/
theorem step_intersect_agree_iff {list1Name list2Name newListName : Bytes}
    (h1 : Holds s list1Name a d1 true) (h2 : Holds s list2Name a d2 true)
    (hname : newListName ≠ []) (hfree : s.lookup newListName = none) {noName : Option Bytes}
    (hnone : noName.getD [] = []) (list1Range list2Range : Range) :
    (∃ l : List a.ValueType,
      machine.step s (.intersect
          { list1Name, list2Name, list1Range, list2Range, newListName := noName }) =
        some (s, ⟨[⟨.ok, .listIntersect,
          some (.listIntersect (some (.typedVector (l.map ListValue.add))))⟩]⟩) ∧
      machine.step s (.intersect
          { list1Name, list2Name, list1Range, list2Range, newListName := some newListName }) =
        some (s.insert newListName (FcList.ofList ⟨a, l⟩ true),
          ⟨[⟨.ok, .listIntersect, some (.listIntersect (some (.typedVector [])))⟩]⟩)) ↔
    list1Range.selected d1 ≠ [] ∧ list2Range.selected d2 ≠ [] := by
  let unnamed : ListIntersect :=
    { list1Name, list2Name, list1Range, list2Range, newListName := noName }
  let named : ListIntersect :=
    { list1Name, list2Name, list1Range, list2Range, newListName := some newListName }
  have hstored := @step_intersect_free s a d1 d2 named h1 h2 hname hfree
  constructor
  · rintro ⟨l, hreply, _⟩
    by_contra hnot
    rw [not_and_or, not_not, not_not] at hnot
    have hflxb := @intersectToFlexBuffer_nothing _ _ d1 d2 list1Range list2Range {} hnot
    have hempty := @step_intersect_unnamed s a d1 d2 unnamed h1 h2 hnone _ hflxb
    cases hempty.symm.trans hreply
  · rintro ⟨hsel1, hsel2⟩
    have hflxb := intersectToFlexBuffer_selected {} hsel1 hsel2
    exact ⟨_, @step_intersect_unnamed s a d1 d2 unnamed h1 h2 hnone _ hflxb, hstored⟩

/-- Two lists that share two elements. -/
theorem step_intersect_agree_iff_shared : ∃ s : ListHandler,
    Holds s [97] .intList [1, 2, 3] true ∧ Holds s [98] .intList [2, 3, 4] true ∧
    ∃ l : List Int64,
      machine.step s (.intersect
          { list1Name := [97], list2Name := [98], list1Range := { hasStop := false },
            list2Range := { hasStop := false } }) =
        some (s, ⟨[⟨.ok, .listIntersect,
          some (.listIntersect (some (.typedVector (l.map FlexScalar.int))))⟩]⟩) ∧
      machine.step s (.intersect
          { list1Name := [97], list2Name := [98], list1Range := { hasStop := false },
            list2Range := { hasStop := false }, newListName := some [99] }) =
        some (s.insert [99] (FcList.ofList ⟨.intList, l⟩ true),
          ⟨[⟨.ok, .listIntersect, some (.listIntersect (some (.typedVector [])))⟩]⟩) := by
  let s : ListHandler := Finmap.insert [98] (FcList.ofList ⟨.intList, [2, 3, 4]⟩ true)
    (Finmap.insert [97] (FcList.ofList ⟨.intList, [1, 2, 3]⟩ true) ∅)
  have h1 : Holds s [97] .intList [1, 2, 3] true := rfl
  have h2 : Holds s [98] .intList [2, 3, 4] true := rfl
  have hfree : s.lookup [99] = none := rfl
  refine ⟨s, h1, h2, ?_⟩
  exact (step_intersect_agree_iff h1 h2 (List.cons_ne_nil _ _) hfree rfl { hasStop := false }
    { hasStop := false }).mpr ⟨by decide, by decide⟩

/-- An empty list with itself: the reply has no vector in it. -/
theorem not_step_intersect_agree : ¬ ∀ (s : ListHandler) (a : Alternative)
    (d1 d2 : List a.ValueType) (list1Name list2Name newListName : Bytes)
    (list1Range list2Range : Range), Holds s list1Name a d1 true → Holds s list2Name a d2 true →
    newListName ≠ [] → s.lookup newListName = none → ∃ l : List a.ValueType,
      machine.step s (.intersect { list1Name, list2Name, list1Range, list2Range }) =
        some (s, ⟨[⟨.ok, .listIntersect,
          some (.listIntersect (some (.typedVector (l.map ListValue.add))))⟩]⟩) ∧
      machine.step s (.intersect
          { list1Name, list2Name, list1Range, list2Range, newListName := some newListName }) =
        some (s.insert newListName (FcList.ofList ⟨a, l⟩ true),
          ⟨[⟨.ok, .listIntersect, some (.listIntersect (some (.typedVector [])))⟩]⟩) := by
  intro hall
  let s : ListHandler := Finmap.insert [97] (FcList.ofList ⟨.intList, []⟩ true) ∅
  have h : Holds s [97] .intList [] true := rfl
  obtain ⟨l, hreply, _⟩ := hall s .intList [] [] [97] [97] [99] { hasStop := false }
    { hasStop := false } h h (List.cons_ne_nil _ _) rfl
  have hempty : machine.step s (.intersect
      { list1Name := [97], list2Name := [97], list1Range := { hasStop := false },
        list2Range := { hasStop := false } }) =
      some (s, ⟨[⟨.ok, .listIntersect, some (.listIntersect none)⟩]⟩) := by
    decide +kernel
  cases hempty.symm.trans hreply

/-! ### New names -/

/-- Both lists of the request are there, sorted and of one type. -/
def Accepts (s : ListHandler) (req : ListIntersect) : Prop :=
  ∃ l1 l2, s.lookup req.list1Name = some l1 ∧ s.lookup req.list2Name = some l2 ∧
    l1.canIntersectWith l2 = true

/-- What the status of the reply is to say about the store `s'` that an intersection under a new
name leaves. -/
structure Reports (s s' : ListHandler) (req : ListIntersect) (status : Status) : Prop where
  stored : status = .ok → ∃ (a : Alternative) (d1 d2 m1 m2 l : List a.ValueType),
    Holds s req.list1Name a d1 true ∧ Holds s req.list2Name a d2 true ∧
    req.list1Range.Reads .head d1 m1 ∧ req.list2Range.Reads .head d2 m2 ∧
    a.IsIntersection m1 m2 l ∧ Holds s' (req.newListName.getD []) a l true ∧
    ∀ name ≠ req.newListName.getD [], s'.lookup name = s.lookup name
  notStored : s'.lookup (req.newListName.getD []) = s.lookup (req.newListName.getD []) →
    status ≠ .ok

theorem reports_fail (s : ListHandler) (req : ListIntersect) : Reports s s req .fail :=
  ⟨fun h => (by cases h), fun _ => by decide⟩

theorem Accepts.holds {req : ListIntersect} (hs : Invariant False s) (h : Accepts s req) :
    ∃ (a : Alternative) (d1 d2 : List a.ValueType),
      Holds s req.list1Name a d1 true ∧ Holds s req.list2Name a d2 true := by
  obtain ⟨l1, l2, h1, h2, hcan⟩ := h
  have hl1 := (hs _ l1 h1).typesAgree
  have hl2 := (hs _ l2 h2).typesAgree
  obtain ⟨hsorted1, hsorted2, hft⟩ := FcList.canIntersectWith_iff.mp hcan
  obtain ⟨l2Elems, _, hl2Elems⟩ :=
    ListVariant.get_of_eq (alternative_eq_of_flexType hl1 hl2 hft)
  have hholds1 := holds_of_typesAgree h1 hl1
  have hholds2 := holds_of_typesAgree h2 hl2
  refine ⟨l1.list.alternative, l1.list.elems, l2Elems, hsorted1 ▸ hholds1, ?_⟩
  unfold Holds at hholds2 ⊢
  rw [hholds2, hsorted2, ← hl2Elems]

theorem step_intersect_taken {req : ListIntersect} (h1 : Holds s req.list1Name a d1 true)
    (h2 : Holds s req.list2Name a d2 true) (hname : req.newListName.getD [] ≠ [])
    (htaken : s.lookup (req.newListName.getD []) ≠ none) :
    machine.step s (.intersect req) =
      some (s, ⟨[⟨.ok, .listIntersect, some (.listIntersect (some (.typedVector [])))⟩]⟩) := by
  have hdo := @doIntersect_taken s {} {} req (FcList.ofList ⟨a, d1⟩ true)
    (FcList.ofList ⟨a, d2⟩ true) (FcList.ofList_typesAgree _ _) hname htaken
  exact Handling.answered_eq_some.mpr
    (handleIntersect_accepted h1 h2 (canIntersectWith_ofList _ _ rfl) hdo)

/-- A request whose lists are missing or cannot be intersected fails and changes nothing. -/
theorem step_intersect_notAccepted {req : ListIntersect} (h : ¬ Accepts s req) :
    FailsUnchanged s (.intersect req) := by
  rcases intersectInputs_cases s req with (hnone | hnone) | ⟨l1, l2, h1, h2, hcan | hcan⟩
  · exact missing_fails ⟨_, List.mem_cons_self, hnone⟩ rfl
  · exact missing_fails ⟨_, List.mem_cons_of_mem _ (List.mem_singleton_self _), hnone⟩ rfl
  · exact failsUnchanged_of_ok (handleIntersect_refused h1 h2 hcan)
  · exact absurd ⟨l1, l2, h1, h2, hcan⟩ h

/-- The status says whether the intersection was stored, unless it was not because its name is
taken. -/
theorem step_intersect_reports_iff (hs : machine.Reachable s) {req : ListIntersect}
    (hname : req.newListName.getD [] ≠ []) :
    (∃ s' fbb rsp, machine.step s (.intersect req) = some (s', fbb) ∧
      fbb.decoded = some rsp ∧ Reports s s' req rsp.status) ↔
    ¬ (Accepts s req ∧ s.lookup (req.newListName.getD []) ≠ none) := by
  constructor
  · rintro ⟨s', fbb, rsp, hstep, hrsp, hreports⟩ ⟨haccepts, htaken⟩
    obtain ⟨a, d1, d2, h1, h2⟩ := haccepts.holds (reachable_invariant hs)
    cases (step_intersect_taken h1 h2 hname htaken).symm.trans hstep
    cases hrsp
    exact hreports.notStored rfl rfl
  · intro hnot
    by_cases haccepts : Accepts s req
    · obtain ⟨a, d1, d2, h1, h2⟩ := haccepts.holds (reachable_invariant hs)
      have hfree : s.lookup (req.newListName.getD []) = none :=
        not_not.mp fun htaken => hnot ⟨haccepts, htaken⟩
      refine ⟨_, _, _, step_intersect_free h1 h2 hname hfree, rfl, ?_, ?_⟩
      · intro _
        refine ⟨a, d1, d2, _, _, _, h1, h2, (Range.reads_iff _ .head d1 _).mpr rfl,
          (Range.reads_iff _ .head d2 _).mpr rfl, a.isIntersection_setIntersection _ _,
          Finmap.lookup_insert _, ?_⟩
        intro name hne
        exact Finmap.lookup_insert_of_ne _ hne
      · intro hsame
        rw [Finmap.lookup_insert, hfree] at hsame
        cases hsame
    · obtain ⟨fbb, rsp, hstep, hrsp, hfail⟩ := step_intersect_notAccepted haccepts
      exact ⟨s, fbb, rsp, hstep, hrsp, hfail ▸ reports_fail s req⟩

/-- A list that was sent two items, and an empty one. -/
theorem reachable_two : ∃ s : ListHandler, machine.Reachable s ∧
    Holds s [97] .intList [3, 5] true ∧ Holds s [98] .intList [] true ∧
    s.lookup [99] = none := by
  let items : TypedVector := [⟨3, 3, ⟨0⟩, []⟩, ⟨5, 5, ⟨0⟩, []⟩]
  let s₁ : ListHandler := Finmap.insert [97] (FcList.ofList ⟨.intList, []⟩ true) ∅
  let s₂ : ListHandler := s₁.insert [97] (FcList.ofList ⟨.intList, [3, 5]⟩ true)
  let s₃ : ListHandler := s₂.insert [98] (FcList.ofList ⟨.intList, []⟩ true)
  have hcreate : machine.step ∅ (.create { name := [97], type := 0, sorted := true }) =
      some (s₁, ⟨[⟨.ok, .listCreate, none⟩]⟩) := by decide +kernel
  have hadd : machine.step s₁ (.add { name := [97], items, itemsSorted := true }) =
      some (s₂, ⟨[⟨.ok, .listAdd, some (.listAdd 2)⟩]⟩) := by decide +kernel
  have hcreate' : machine.step s₂ (.create { name := [98], type := 0, sorted := true }) =
      some (s₃, ⟨[⟨.ok, .listCreate, none⟩]⟩) := by decide +kernel
  have h₁ : machine.Reachable s₁ := .step .init trivial hcreate
  have h₂ : machine.Reachable s₂ := h₁.step trivial hadd
  exact ⟨s₃, h₂.step trivial hcreate', rfl, rfl, rfl⟩

/-- Under a free name. -/
theorem step_intersect_reports_iff_free : ∃ s : ListHandler, machine.Reachable s ∧
    Holds s [97] .intList [3, 5] true ∧ Holds s [98] .intList [] true ∧
    ∃ (req : ListIntersect) (s' : ListHandler) (fbb : FlatBuilder) (rsp : Response),
      req.list1Name = [97] ∧ req.list2Name = [98] ∧ req.newListName = some [99] ∧
      machine.step s (.intersect req) = some (s', fbb) ∧ fbb.decoded = some rsp ∧
      Reports s s' req rsp.status := by
  obtain ⟨s, hs, h1, h2, hfree⟩ := reachable_two
  let req : ListIntersect :=
    { list1Name := [97], list2Name := [98], list1Range := { hasStop := false },
      list2Range := { hasStop := false }, newListName := some [99] }
  have hreports := (@step_intersect_reports_iff s hs req (List.cons_ne_nil _ _)).mpr
    fun hand => hand.2 hfree
  obtain ⟨s', fbb, rsp, hstep, hrsp, hreports⟩ := hreports
  exact ⟨s, hs, h1, h2, req, s', fbb, rsp, rfl, rfl, rfl, hstep, hrsp, hreports⟩

/-- Under the name of the first list, which is left as it was. -/
theorem not_step_intersect_reports : ¬ ∀ (s : ListHandler) (req : ListIntersect),
    machine.Reachable s → req.newListName.getD [] ≠ [] → ∃ s' fbb rsp,
      machine.step s (.intersect req) = some (s', fbb) ∧ fbb.decoded = some rsp ∧
        Reports s s' req rsp.status := by
  intro hall
  obtain ⟨s, hs, h1, h2, _⟩ := reachable_two
  let req : ListIntersect :=
    { list1Name := [97], list2Name := [98], list1Range := { hasStop := false },
      list2Range := { hasStop := false }, newListName := some [97] }
  have hname : req.newListName.getD [] ≠ [] := List.cons_ne_nil _ _
  have htaken : s.lookup (req.newListName.getD []) ≠ none := by
    rw [show s.lookup (req.newListName.getD []) = some _ from h1]
    exact Option.some_ne_none _
  obtain ⟨s', fbb, rsp, hstep, hrsp, hreports⟩ := hall s req hs hname
  cases (@step_intersect_taken s _ _ _ req h1 h2 hname htaken).symm.trans hstep
  cases hrsp
  exact hreports.notStored rfl rfl

end ListHandler

end FCache
