import FCache.AlgorithmKeys
import FCache.ListAddition
import FCache.ListIntersections
import FCache.ListRemoval

/-!
# Elements of every type in order

The elements of every type are compared by a linearly ordered key: integers and strings by
themselves, floats by the number they denote, which the two zeros share. Only a NaN compares with
nothing, itself included. A sorted list without one is kept in the order of its keys by every
operation, whatever its type.
-/

namespace FCache

open Slice

section Keys

variable {α κ : Type} [ListValue α] [LinearOrder κ] {key : α → κ}

/-- Of the elements of stored lists only a NaN does not compare with itself. -/
def Comparable (x : α) : Prop := ListValue.le x x = true

instance (x : α) : Decidable (Comparable x) := inferInstanceAs (Decidable (_ = true))

structure ComparedBy (key : α → κ) : Prop where
  lt_iff : ∀ x y : α, ListValue.lt x y = true ↔ Comparable x ∧ Comparable y ∧ key x < key y
  le_iff : ∀ x y : α, ListValue.le x y = true ↔ Comparable x ∧ Comparable y ∧ key x ≤ key y
  eq_iff : ∀ x y : α, ListValue.eq x y = true ↔ Comparable x ∧ Comparable y ∧ key x = key y

/-- The order of a sorted list, for which equal elements need not be the same. -/
structure Ordered (l : List α) : Prop where
  comparable : ∀ x ∈ l, Comparable x
  ascending : l.Pairwise fun x y => ListValue.le x y = true

theorem Ordered.nil : Ordered ([] : List α) := ⟨by simp, List.Pairwise.nil⟩

theorem Ordered.sublist {l l' : List α} (h : Ordered l) (hsub : l'.Sublist l) : Ordered l' :=
  ⟨fun x hx => h.comparable x (hsub.subset hx), h.ascending.sublist hsub⟩

theorem ComparedBy.of_lawful [LinearOrder α] [LawfulListValue α] :
    ComparedBy (id : α → α) := by
  have hcomparable : ∀ x : α, Comparable x := fun x => (LawfulListValue.le_iff x x).mpr le_rfl
  refine ⟨?_, ?_, ?_⟩ <;> intro x y
  · simp [LawfulListValue.lt_iff, hcomparable]
  · simp [LawfulListValue.le_iff, hcomparable]
  · simp [LawfulListValue.eq_iff, hcomparable]

theorem FcFloat.comparable_iff (x : FcFloat) : Comparable x ↔ x.isNaN = false := by
  show FcFloat.le x x = true ↔ _
  simp [FcFloat.le]

theorem FcFloat.comparedBy_signed : ComparedBy FcFloat.signed := by
  refine ⟨?_, ?_, ?_⟩ <;> intro x y <;> rw [x.comparable_iff, y.comparable_iff]
  · show FcFloat.lt x y = true ↔ _
    simp [FcFloat.lt, and_assoc]
  · show FcFloat.le x y = true ↔ _
    simp [FcFloat.le, and_assoc]
  · show FcFloat.eq x y = true ↔ _
    simp [FcFloat.eq, and_assoc]

/-- Whatever the element type, its comparisons are those of a key. -/
theorem Alternative.comparedBy (a : Alternative) :
    ∃ (κ : Type) (_ : LinearOrder κ) (key : a.ValueType → κ), ComparedBy key := by
  by_cases ha : a = .floatList
  · subst ha
    exact ⟨ℤ, inferInstance, FcFloat.signed, FcFloat.comparedBy_signed⟩
  · apply Alternative.linearOrder_elim ha
    intro _ _ _
    exact ⟨a.ValueType, inferInstance, id, ComparedBy.of_lawful⟩

namespace ComparedBy

variable (hkey : ComparedBy key) {l l' : List α}
include hkey

theorem comparesKeys : Algorithm.ComparesKeys (Comparable : α → Prop) key ListValue.lt
    fun x y => decide (x < y) := by
  intro x y hx hy
  rw [Bool.eq_iff_iff, decide_eq_true_eq, hkey.lt_iff]
  exact ⟨fun h => h.2.2, fun h => ⟨hx, hy, h⟩⟩

theorem le_eq {x y : α} (hx : Comparable x) (hy : Comparable y) :
    ListValue.le x y = decide (key x ≤ key y) := by
  rw [Bool.eq_iff_iff, decide_eq_true_eq, hkey.le_iff]
  exact ⟨fun h => h.2.2, fun h => ⟨hx, hy, h⟩⟩

theorem pairwise_map_iff (h : ∀ x ∈ l, Comparable x) :
    (l.map key).Pairwise (· ≤ ·) ↔ l.Pairwise fun x y => ListValue.le x y = true := by
  rw [List.pairwise_map]
  apply List.Pairwise.iff_of_mem
  intro x y hx hy
  rw [hkey.le_iff]
  exact ⟨fun hle => ⟨h x hx, h y hy, hle⟩, fun hle => hle.2.2⟩

theorem lt_of_not_comparable {v : α} (hv : ¬ Comparable v) (x : α) :
    ListValue.lt x v = false ∧ ListValue.lt v x = false := by
  constructor <;> rw [Bool.eq_false_iff, ne_eq, hkey.lt_iff]
  · exact fun h => hv h.2.1
  · exact fun h => hv h.1

end ComparedBy

/-! ### Adding -/

/-- Keys as elements: an item is read as the key of the element it is read as. -/
@[reducible] def keyListValue (key : α → κ) : ListValue κ where
  lt x y := decide (x < y)
  le x y := decide (x ≤ y)
  eq x y := decide (x = y)
  as item := key (ListValue.as item)
  -- no key is sent
  add _ := .int 0

theorem lawful_keyListValue (key : α → κ) : @LawfulListValue κ (keyListValue key) _ :=
  @LawfulListValue.mk κ (keyListValue key) _ (fun _ _ => decide_eq_true_iff)
    (fun _ _ => decide_eq_true_iff) fun _ _ => decide_eq_true_iff

omit [ListValue α] [LinearOrder κ] in
theorem emplace_map (key : α → κ) (l : List α) (it : ℕ) (v : α) :
    emplace (l.map key) it (key v) = (emplace l it v).map (List.map key) := by
  unfold emplace
  rw [List.length_map]
  split
  · simp
  · rfl

omit [ListValue α] in
theorem emplace_forall {P : α → Prop} {l l' : List α} {it : ℕ} {v : α} (hl : ∀ x ∈ l, P x)
    (hv : P v) (h : emplace l it v = some l') : ∀ x ∈ l', P x := by
  unfold emplace at h
  split at h
  · obtain rfl := Option.some.inj h
    intro x hx
    rcases List.mem_append.mp hx with hx | hx
    · exact hl x (List.mem_of_mem_take hx)
    · rcases List.mem_cons.mp hx with rfl | hx
      · exact hv
      · exact hl x (List.mem_of_mem_drop hx)
  · cases h

section Adding

variable (hkey : ComparedBy key) {l l' : List α} {items : TypedVector}
include hkey

theorem ComparedBy.emplace_lowerBound_map {v : α} (hl : ∀ x ∈ l, Comparable x)
    (hv : Comparable v) (first len : ℕ) :
    emplace (l.map key)
        (Algorithm.lowerBound (fun x y => decide (x < y)) (l.map key) first len (key v)) (key v) =
      (emplace l (Algorithm.lowerBound ListValue.lt l first len v) v).map (List.map key) := by
  rw [Algorithm.lowerBound_map hkey.comparesKeys hl hv, emplace_map]

theorem ComparedBy.sortedInsert_map (hl : ∀ x ∈ l, Comparable x)
    (hitems : ∀ item ∈ items, Comparable (ListValue.as item : α)) :
    @Add.sortedInsert κ (keyListValue key) (l.map key) items =
      (Add.sortedInsert l items).map (List.map key) := by
  induction items generalizing l with
  | nil => rfl
  | cons item items ih =>
    have hitem := hitems item List.mem_cons_self
    have hrest := fun i hi => hitems i (List.mem_cons_of_mem item hi)
    have hinsert := hkey.emplace_lowerBound_map hl hitem 0 l.length
    simp only [Add.sortedInsert, List.length_map]
    refine (congrArg (Option.bind · _) hinsert).trans ?_
    cases hemplace : emplace l (Algorithm.lowerBound ListValue.lt l 0 l.length
        (ListValue.as item)) (ListValue.as item) with
    | none => rfl
    | some added => exact ih (emplace_forall hl hitem hemplace) hrest

theorem ComparedBy.mergeInsert_map {it : ℕ} (hl : ∀ x ∈ l, Comparable x)
    (hitems : ∀ item ∈ items, Comparable (ListValue.as item : α)) :
    @Add.mergeInsert κ (keyListValue key) (l.map key) it items =
      (Add.mergeInsert l it items).map (List.map key) := by
  induction items generalizing l it with
  | nil => rfl
  | cons item items ih =>
    have hitem := hitems item List.mem_cons_self
    have hrest := fun i hi => hitems i (List.mem_cons_of_mem item hi)
    have hinsert := hkey.emplace_lowerBound_map hl hitem it (l.length - it)
    have hlower := Algorithm.lowerBound_map hkey.comparesKeys hl hitem it (l.length - it)
    simp only [Add.mergeInsert, List.length_map]
    refine (congrArg (Option.bind · _) hinsert).trans ?_
    cases hemplace : emplace l (Algorithm.lowerBound ListValue.lt l it (l.length - it)
        (ListValue.as item)) (ListValue.as item) with
    | none => rfl
    | some added =>
      show @Add.mergeInsert κ (keyListValue key) (added.map key) (Algorithm.lowerBound
          (fun x y => decide (x < y)) (l.map key) it (l.length - it) (key (ListValue.as item)))
        items = _
      rw [hlower]
      exact ih (emplace_forall hl hitem hemplace) hrest

/-- The elements at the ends are compared with the items at the ends. -/
theorem ComparedBy.doSourceListSortedAdd_map (hne : items ≠ []) (hl : ∀ x ∈ l, Comparable x)
    (hitems : ∀ item ∈ items, Comparable (ListValue.as item : α)) :
    @Add.doSourceListSortedAdd κ (keyListValue key) items (l.map key) =
      (Add.doSourceListSortedAdd items l).map (List.map key) := by
  have hhighest : Comparable (ListValue.as (items.getLastD Item.null) : α) := by
    apply hitems
    rw [List.getLastD_eq_getLast?, List.getLast?_eq_some_getLast hne]
    exact List.getLast_mem hne
  have hlowest : Comparable (ListValue.as (items.headD Item.null) : α) := by
    apply hitems
    rw [List.headD_eq_head?_getD, List.head?_eq_some_head hne]
    exact List.head_mem hne
  have hfront : ((l.map key).head?.any fun front => @ListValue.le κ (keyListValue key)
      (@ListValue.as κ (keyListValue key) (items.getLastD Item.null)) front) =
        l.head?.any fun front => ListValue.le (ListValue.as (items.getLastD Item.null)) front := by
    rw [List.head?_map]
    cases hh : l.head? with
    | none => rfl
    | some front => exact (hkey.le_eq hhighest (hl front (List.mem_of_mem_head? hh))).symm
  have hback : ((l.map key).getLast?.any fun back => @ListValue.le κ (keyListValue key) back
      (@ListValue.as κ (keyListValue key) (items.headD Item.null))) =
        l.getLast?.any fun back => ListValue.le back (ListValue.as (items.headD Item.null)) := by
    rw [List.getLast?_map]
    cases hh : l.getLast? with
    | none => rfl
    | some back => exact (hkey.le_eq (hl back (List.mem_of_getLast? hh)) hlowest).symm
  have hvalues : items.map (@ListValue.as κ (keyListValue key)) =
      (items.map ListValue.as).map key := by
    rw [List.map_map]
    rfl
  unfold Add.doSourceListSortedAdd
  simp only [hfront, hback, Add.prepend_eq, Add.append_eq, hvalues]
  split
  · simp
  · split
    · simp
    · exact hkey.mergeInsert_map hl hitems

theorem ComparedBy.doAdd_ordered {op : Add} (hne : op.items ≠ [])
    (hitems : ∀ item ∈ op.items, Comparable (ListValue.as item : α))
    (hsorted : op.itemsSorted = true → Ordered (op.items.map ListValue.as : List α))
    (hl : Ordered l) (h : op.doAdd true l = some l') : Ordered l' := by
  have hmap : @Add.doAdd κ (keyListValue key) op true (l.map key) = some (l'.map key) := by
    have hsome := congrArg (Option.map (List.map key)) h
    rw [Option.map_some] at hsome
    rw [← hsome]
    unfold Add.doAdd
    simp only [if_true]
    split
    · exact hkey.doSourceListSortedAdd_map hne hl.comparable hitems
    · exact hkey.sortedInsert_map hl.comparable hitems
  have hcomparable : ∀ x ∈ l', Comparable x := by
    intro x hx
    rcases List.mem_append.mp ((Add.doAdd_perm h).mem_iff.mp hx) with hx | hx
    · exact hl.comparable x hx
    · obtain ⟨item, hitem, rfl⟩ := List.mem_map.mp hx
      exact hitems item hitem
  refine ⟨hcomparable, (hkey.pairwise_map_iff hcomparable).mp ?_⟩
  refine @Add.doAdd_ascending κ (keyListValue key) _ (lawful_keyListValue key) op _ _ hne ?_
    ((hkey.pairwise_map_iff hl.comparable).mpr hl.ascending) hmap
  intro hflag
  have hitems := hsorted hflag
  have hasc := (hkey.pairwise_map_iff hitems.comparable).mpr hitems.ascending
  rwa [List.map_map] at hasc

end Adding

/-! ### Removing by value and intersecting -/

section Removing

variable (hkey : ComparedBy key) {op : RemoveIf} {l l1 l2 : List α} {b e : ℕ} {v : α}
include hkey

omit [LinearOrder κ] hkey in
/-- Where the equal range is the end of the list, nothing stands in it. -/
theorem RemoveIf.doRemove_equalRange
    (hsel : selection l.length op.start op.stop op.hasStop = (b, e)) (v : α) :
    op.doRemove true v l = some (splice l (Algorithm.equalRange ListValue.lt l b (e - b) v).1
      (Algorithm.equalRange ListValue.lt l b (e - b) v).2 []) := by
  have hle := selection_le l.length op.start op.stop op.hasStop
  rw [hsel] at hle
  obtain ⟨h₁, h₂, h₃⟩ := Algorithm.equalRangeLoop_mem_range l ListValue.lt v (e - b) b (e - b)
  unfold RemoveIf.doRemove Algorithm.equalRange
  rw [positionsToIterators_eq hsel]
  simp only [Option.bind_eq_bind, Option.bind_some]
  by_cases hlt : b < e
  · simp only [hlt, decide_true, Bool.not_true, Bool.false_eq_true, if_false, if_true]
    split
    · rw [erase_of_le h₂ (by omega)]
      simp [splice]
    · next hend =>
      rw [not_not] at hend
      have hhigh : (Algorithm.equalRangeLoop ListValue.lt l v (e - b) b (e - b)).2 =
          l.length := by omega
      rw [hend, hhigh, splice_nil_of_eq]
      rfl
  · have hnone : e - b = 0 := by omega
    simp only [hlt, hnone, Algorithm.equalRangeLoop, splice_nil_of_eq]
    rfl

theorem ComparedBy.doRemove_comparable (hv : Comparable v) (hl : Ordered l)
    (hsel : selection l.length op.start op.stop op.hasStop = (b, e)) :
    op.doRemove true v l =
      some (splice l b e ((block l b e).filter fun x => !ListValue.eq x v)) := by
  have hle := selection_le l.length op.start op.stop op.hasStop
  rw [hsel] at hle
  have heq : ∀ x ∈ l, ListValue.eq x v = true ↔ key x = key v := by
    intro x hx
    rw [hkey.eq_iff]
    exact ⟨fun h => h.2.2, fun h => ⟨hl.comparable x hx, hv, h⟩⟩
  rw [RemoveIf.doRemove_equalRange hsel]
  rw [Algorithm.equalRange_spec_key hkey.comparesKeys hl.comparable
    (fun _ _ => decide_eq_true_iff) ((hkey.pairwise_map_iff hl.comparable).mpr hl.ascending)
    hle.1 hle.2 hv heq]

/-- The equal range of a NaN is all that is searched. -/
theorem ComparedBy.doRemove_not_comparable (hv : ¬ Comparable v)
    (hsel : selection l.length op.start op.stop op.hasStop = (b, e)) :
    op.doRemove true v l = some (splice l b e []) := by
  have hle := selection_le l.length op.start op.stop op.hasStop
  rw [hsel] at hle
  have hsum : b + (e - b) = e := Nat.add_sub_of_le hle.1
  rw [RemoveIf.doRemove_equalRange hsel,
    Algorithm.equalRange_incomparable (fun x => (hkey.lt_of_not_comparable hv x).1)
      (fun x => (hkey.lt_of_not_comparable hv x).2) (hsum.le.trans hle.2), hsum]

/-- Equality to an element that compares with nothing holds of no element. -/
theorem ComparedBy.countP_eq (hl : ∀ x ∈ l, Comparable x) (v : α) :
    l.countP (fun x => ListValue.eq x v) =
      if Comparable v then (l.map key).count (key v) else 0 := by
  split
  · next hv =>
    rw [List.count_eq_countP, List.countP_map]
    apply List.countP_congr
    intro x hx
    show ListValue.eq x v = true ↔ (key x == key v) = true
    rw [hkey.eq_iff, beq_iff_eq]
    exact ⟨fun h => h.2.2, fun h => ⟨hl x hx, hv, h⟩⟩
  · next hv =>
    apply List.countP_eq_zero.mpr
    intro x _
    rw [hkey.eq_iff]
    exact fun h => hv h.2.1

theorem ComparedBy.setIntersection_countP (h1 : Ordered l1) (h2 : Ordered l2) (v : α) :
    (Algorithm.setIntersection ListValue.lt l1 l2).countP (fun x => ListValue.eq x v) =
      min (l1.countP fun x => ListValue.eq x v) (l2.countP fun x => ListValue.eq x v) := by
  have hsub := Algorithm.setIntersection_sublist ListValue.lt l1 l2
  rw [hkey.countP_eq (h1.sublist hsub).comparable, hkey.countP_eq h1.comparable,
    hkey.countP_eq h2.comparable,
    Algorithm.setIntersection_map hkey.comparesKeys h1.comparable h2.comparable,
    Algorithm.setIntersection_count (fun _ _ => decide_eq_true_iff)
      ((hkey.pairwise_map_iff h1.comparable).mpr h1.ascending)
      ((hkey.pairwise_map_iff h2.comparable).mpr h2.ascending)]
  split
  · rfl
  · exact (Nat.min_self 0).symm

end Removing

end Keys

end FCache
