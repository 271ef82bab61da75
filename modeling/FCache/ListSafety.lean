import FCache.ListOperations

/-!
# What the list operations do to every list

Every operation except the removal of an inverted range is defined on every list, whatever
positions the request carries. The operations a sorted list is given keep it ascending.
-/

namespace FCache

variable {α : Type}

theorem next_of_le (l : List α) {it : ℕ} {n : ℤ} (h₀ : 0 ≤ it + n) (h : it + n ≤ l.length) :
    next l it n = some (it + n).toNat := by
  unfold next
  rw [if_pos ⟨h₀, h⟩]

theorem emplace_of_le {l : List α} {it : ℕ} (h : it ≤ l.length) (v : α) :
    emplace l it v = some (l.take it ++ v :: l.drop it) := by
  unfold emplace
  rw [if_pos h]

theorem erase_of_le {l : List α} {first last : ℕ} (h₁ : first ≤ last) (h₂ : last ≤ l.length) :
    erase l first last = some (l.take first ++ l.drop last) := by
  unfold erase
  rw [if_pos ⟨h₁, h₂⟩]

theorem erase_sublist {l l' : List α} {first last : ℕ} (h : erase l first last = some l') :
    l'.Sublist l := by
  unfold erase at h
  split at h
  · rename_i hle
    obtain rfl := Option.some.inj h
    have hdrop : (l.drop last).Sublist (l.drop first) := by
      rw [← Nat.add_sub_of_le hle.1, ← List.drop_drop]
      exact List.drop_sublist _ _
    have := (List.Sublist.refl (l.take first)).append hdrop
    rwa [List.take_append_drop] at this
  · cases h

theorem listToTypedVector_of_le {l : List α} {it count : ℕ} (h : it + count ≤ l.length) :
    listToTypedVector l it count = some ((l.drop it).take count) := by
  induction count generalizing it with
  | zero => simp [listToTypedVector]
  | succ count ih =>
    have hit : it < l.length := by omega
    unfold listToTypedVector
    rw [List.getElem?_eq_getElem hit]
    simp only
    rw [ih (by omega), List.drop_eq_getElem_cons hit]
    rfl

/-! ### Positions -/

section Positions

variable {start stop : ℤ} {hasStop : Bool} {l : List α}

/-- Valid indices lie within the list, though they may be inverted. -/
theorem positionsToIndices_bounds {first last : ℤ}
    (h : positionsToIndices start stop hasStop l = (true, first, last)) :
    0 ≤ first ∧ first < l.length ∧ 0 ≤ last ∧ last ≤ l.length := by
  unfold positionsToIndices at h
  by_cases hout : (0 ≤ start ∧ (l.length : ℤ) ≤ start) ∨ (l.length : ℤ) < labs start
  · rw [if_pos hout] at h
    cases h
  · rw [if_neg hout] at h
    simp only [Prod.mk.injEq, true_and] at h
    obtain ⟨rfl, rfl⟩ := h
    unfold labs at hout ⊢
    cases hasStop <;> simp only [Bool.false_eq_true, if_false, if_true] <;>
      refine ⟨?_, ?_, ?_, ?_⟩ <;> (repeat' split) <;> omega

theorem positionsToIterators_of_indices {first last : ℤ}
    (h : positionsToIndices start stop hasStop l = (true, first, last)) (hlt : first < last) :
    positionsToIterators start stop hasStop l = some (true, first.toNat, last.toNat) := by
  obtain ⟨h₁, h₂, h₃, h₄⟩ := positionsToIndices_bounds h
  unfold positionsToIterators
  rw [h]
  simp only [Bool.not_true, Bool.false_or, decide_eq_true_eq]
  rw [if_neg (by omega), next_of_le l (by omega) (by omega), next_of_le l (by omega) (by omega)]
  have h₀ : ∀ n : ℤ, (((0 : ℕ) : ℤ) + n).toNat = n.toNat := fun n => by omega
  rw [h₀, h₀]
  rfl

/-- The iterators are always defined; valid ones delimit a non-empty range of the list. -/
theorem positionsToIterators_cases (start stop : ℤ) (hasStop : Bool) (l : List α) :
    positionsToIterators start stop hasStop l = some (false, 0, 0) ∨
      ∃ b e, positionsToIterators start stop hasStop l = some (true, b, e) ∧ b < e ∧
        e ≤ l.length := by
  cases h : positionsToIndices start stop hasStop l with
  | mk valid indices =>
    obtain ⟨first, last⟩ := indices
    cases valid with
    | false => left; simp [positionsToIterators, h]
    | true =>
      obtain ⟨h₁, h₂, h₃, h₄⟩ := positionsToIndices_bounds h
      by_cases hlt : first < last
      · right
        exact ⟨_, _, positionsToIterators_of_indices h hlt, by omega, by omega⟩
      · left
        simp [positionsToIterators, h, hlt]

theorem positionToStartIterator_defined (start : ℤ) (l : List α) :
    ∃ it ≤ l.length, positionToStartIterator start l = some it := by
  rcases positionsToIterators_cases start 0 false l with h | ⟨b, e, h, hbe, he⟩
  · exact ⟨l.length, le_refl _, by simp [positionToStartIterator, h]⟩
  · exact ⟨b, by omega, by simp [positionToStartIterator, h]⟩

end Positions

variable [ListValue α]

/-! ### Adding -/

namespace Add

theorem append_eq (items : TypedVector) (l : List α) :
    items.foldl (fun l item => l ++ [ListValue.as item]) l = l ++ items.map ListValue.as := by
  induction items generalizing l with
  | nil => simp
  | cons item items ih =>
    rw [List.foldl_cons, ih, List.append_assoc]
    rfl

theorem prepend_eq (items : TypedVector) (l : List α) :
    items.reverse.foldl (fun l item => ListValue.as item :: l) l =
      items.map ListValue.as ++ l := by
  rw [List.foldl_reverse]
  induction items with
  | nil => rfl
  | cons item items ih => rw [List.foldr_cons, ih]; rfl

/-- The items go in front of the element at `it`, in the order given. -/
theorem insertFrom_eq {l : List α} {it : ℕ} (h : it ≤ l.length) (items : TypedVector) :
    insertFrom l it items = some (l.take it ++ items.map ListValue.as ++ l.drop it) := by
  induction items generalizing l it with
  | nil => simp [insertFrom]
  | cons item items ih =>
    have htake : (l.take it).length = it := List.length_take_of_le h
    unfold insertFrom
    rw [emplace_of_le h]
    simp only [Option.bind_eq_bind, Option.bind_some]
    rw [ih (by simp only [List.length_append, List.length_cons, List.length_drop, htake]; omega)]
    have h₁ : (l.take it ++ ListValue.as item :: l.drop it).take (it + 1) =
        l.take it ++ [ListValue.as item] := by
      rw [List.take_append, htake, List.take_of_length_le (by omega)]
      simp
    have h₂ : (l.take it ++ ListValue.as item :: l.drop it).drop (it + 1) = l.drop it := by
      rw [List.drop_append, htake]
      simp
    rw [h₁, h₂]
    simp

theorem emplace_lowerBound {l : List α} {first len : ℕ} (h : first + len = l.length) (v : α) :
    emplace l (Algorithm.lowerBound ListValue.lt l first len v) v =
      some (l.take (Algorithm.lowerBound ListValue.lt l first len v) ++
        v :: l.drop (Algorithm.lowerBound ListValue.lt l first len v)) := by
  apply emplace_of_le
  rw [← h]
  exact (Algorithm.lowerBound_mem_range ListValue.lt l first len v).2

theorem sortedInsert_defined (l : List α) (items : TypedVector) :
    ∃ l', sortedInsert l items = some l' := by
  induction items generalizing l with
  | nil => exact ⟨l, rfl⟩
  | cons item items ih =>
    unfold sortedInsert
    simp only
    rw [emplace_lowerBound (Nat.zero_add _)]
    exact ih _

theorem mergeInsert_defined {l : List α} {it : ℕ} (h : it ≤ l.length) (items : TypedVector) :
    ∃ l', mergeInsert l it items = some l' := by
  induction items generalizing l it with
  | nil => exact ⟨l, rfl⟩
  | cons item items ih =>
    have hle := (Algorithm.lowerBound_mem_range ListValue.lt l it (l.length - it)
      (ListValue.as item)).2
    unfold mergeInsert
    simp only
    rw [emplace_lowerBound (Nat.add_sub_of_le h)]
    apply ih
    simp only [List.length_append, List.length_take, List.length_cons, List.length_drop]
    omega

theorem doSourceListSortedAdd_defined (items : TypedVector) (l : List α) :
    ∃ l', doSourceListSortedAdd items l = some l' := by
  unfold doSourceListSortedAdd
  simp only
  split
  · exact ⟨_, rfl⟩
  · split
    · exact ⟨_, rfl⟩
    · exact mergeInsert_defined (Nat.zero_le _) items

theorem doAdd_defined (op : Add) (sortedList : Bool) (l : List α) :
    ∃ l', op.doAdd sortedList l = some l' := by
  unfold doAdd
  by_cases hs : sortedList
  · rw [if_pos hs]
    split
    · exact doSourceListSortedAdd_defined op.items l
    · exact sortedInsert_defined l op.items
  · obtain ⟨it, hit, h⟩ := positionToStartIterator_defined op.pos l
    rw [if_neg hs, h]
    exact ⟨_, insertFrom_eq hit op.items⟩

theorem call_defined (op : Add) (sortedList : Bool) (l : List α) :
    ∃ l', op.call sortedList l = some (l', l'.length) := by
  unfold call
  split
  · exact ⟨_, rfl⟩
  · obtain ⟨l', h⟩ := op.doAdd_defined sortedList l
    rw [h]
    exact ⟨l', rfl⟩

section Ascending

variable [LinearOrder α] [LawfulListValue α]

theorem sortedInsert_ascending {l l' : List α} {items : TypedVector}
    (hl : l.Pairwise (· ≤ ·)) (h : sortedInsert l items = some l') : l'.Pairwise (· ≤ ·) := by
  induction items generalizing l with
  | nil => exact Option.some.inj h ▸ hl
  | cons item items ih =>
    have hbelow : ∀ x ∈ l.take 0, x ≤ ListValue.as item := by simp
    have hasc := (Algorithm.insert_lowerBound_ascending LawfulListValue.lt_iff hl
      (Nat.zero_add _) hbelow).2
    unfold sortedInsert at h
    simp only at h
    rw [emplace_lowerBound (Nat.zero_add _)] at h
    exact ih hasc h

/-- What stands before the last insertion is not above it, hence not above the next item. -/
theorem mergeInsert_ascending {l l' : List α} {it : ℕ} {items : TypedVector}
    (hl : l.Pairwise (· ≤ ·)) (hit : it ≤ l.length)
    (hitems : (items.map ListValue.as : List α).Pairwise (· ≤ ·))
    (hbelow : ∀ x ∈ l.take it, ∀ y ∈ items.map ListValue.as, x ≤ y)
    (h : mergeInsert l it items = some l') : l'.Pairwise (· ≤ ·) := by
  induction items generalizing l it with
  | nil => exact Option.some.inj h ▸ hl
  | cons item items ih =>
    rw [List.map_cons, List.pairwise_cons] at hitems
    obtain ⟨hfirst, hrest⟩ := hitems
    have hle := (Algorithm.lowerBound_mem_range ListValue.lt l it (l.length - it)
      (ListValue.as item)).2
    have hbelowItem : ∀ x ∈ l.take it, x ≤ ListValue.as item :=
      fun x hx => hbelow x hx _ (by simp)
    obtain ⟨htake, hasc⟩ := Algorithm.insert_lowerBound_ascending LawfulListValue.lt_iff hl
      (Nat.add_sub_of_le hit) hbelowItem
    unfold mergeInsert at h
    simp only at h
    rw [emplace_lowerBound (Nat.add_sub_of_le hit)] at h
    refine ih hasc ?_ hrest ?_ h
    · simp only [List.length_append, List.length_take, List.length_cons, List.length_drop]
      omega
    · intro x hx y hy
      rw [List.take_append_of_le_length (by simp only [List.length_take]; omega),
        List.take_take, Nat.min_self] at hx
      exact (htake x hx).trans (hfirst y hy)

/-- All three paths rely on the items being ascending: the first compares the front of the list
with the last item only, the second the back with the first item only. -/
theorem doSourceListSortedAdd_ascending {l l' : List α} {items : TypedVector}
    (hne : items ≠ []) (hl : l.Pairwise (· ≤ ·))
    (hitems : (items.map ListValue.as : List α).Pairwise (· ≤ ·))
    (h : doSourceListSortedAdd items l = some l') : l'.Pairwise (· ≤ ·) := by
  have hhighest : (items.map ListValue.as : List α).getLast? =
      some (ListValue.as (items.getLastD Item.null)) := by
    rw [List.getLast?_map, List.getLastD_eq_getLast?, List.getLast?_eq_some_getLast hne]
    rfl
  have hlowest : (items.map ListValue.as : List α).head? =
      some (ListValue.as (items.headD Item.null)) := by
    rw [List.head?_map, List.headD_eq_head?_getD, List.head?_eq_some_head hne]
    rfl
  unfold doSourceListSortedAdd at h
  simp only [prepend_eq, append_eq] at h
  split at h
  · rename_i hany
    obtain rfl := Option.some.inj h
    obtain ⟨front, hfront, hle⟩ := (Option.any_eq_true _ _).mp hany
    have hle := (LawfulListValue.le_iff _ _).mp hle
    refine List.pairwise_append.mpr ⟨hitems, hl, fun x hx y hy => ?_⟩
    exact ((Algorithm.le_back hitems hhighest hx).trans hle).trans (Algorithm.front_le hl hfront hy)
  · split at h
    · rename_i hany
      obtain rfl := Option.some.inj h
      obtain ⟨back, hback, hle⟩ := (Option.any_eq_true _ _).mp hany
      have hle := (LawfulListValue.le_iff _ _).mp hle
      refine List.pairwise_append.mpr ⟨hl, hitems, fun x hx y hy => ?_⟩
      exact ((Algorithm.le_back hl hback hx).trans hle).trans (Algorithm.front_le hitems hlowest hy)
    · exact mergeInsert_ascending hl (Nat.zero_le _) hitems (by simp) h

/-- Adding to a sorted list, when the flag that the items are sorted tells the truth. -/
theorem doAdd_ascending {op : Add} {l l' : List α} (hne : op.items ≠ [])
    (hitems : op.itemsSorted = true → (op.items.map ListValue.as : List α).Pairwise (· ≤ ·))
    (hl : l.Pairwise (· ≤ ·)) (h : op.doAdd true l = some l') : l'.Pairwise (· ≤ ·) := by
  unfold doAdd at h
  rw [if_pos rfl] at h
  by_cases hs : op.itemsSorted = true
  · rw [if_pos hs] at h
    exact doSourceListSortedAdd_ascending hne hl (hitems hs) h
  · rw [if_neg hs] at h
    exact sortedInsert_ascending hl h

end Ascending

end Add

/-! ### Overwriting, reading and removing -/

namespace Set

theorem assign_defined (items : TypedVector) {l : List α} {i it count : ℕ}
    (h : it + count ≤ l.length) :
    ∃ l', assign items l i it count = some l' ∧ l'.length = l.length := by
  induction count generalizing l i it with
  | zero => exact ⟨l, rfl, rfl⟩
  | succ count ih =>
    obtain ⟨l', hl', hlen⟩ := @ih (l.set it (ListValue.as (items.getD i Item.null))) (i + 1)
      (it + 1) (by rw [List.length_set]; omega)
    refine ⟨l', ?_, by rw [hlen, List.length_set]⟩
    unfold assign
    rw [if_pos (by omega), hl']

/-- Overwriting never leaves the list and never changes its length. -/
theorem call_defined (op : Set) (l : List α) :
    ∃ l', op.call l = some (l', ()) ∧ l'.length = l.length := by
  unfold call
  simp only
  generalize (if op.pos < 0 then (l.length : ℤ) + op.pos else op.pos) = pos
  rcases positionsToIterators_cases pos (pos + op.items.length) true l with
    h | ⟨b, e, h, hbe, he⟩
  · exact ⟨l, by rw [h]; rfl, rfl⟩
  · obtain ⟨l', hl', hlen⟩ := @assign_defined _ _ op.items l 0 b (e - b) (by omega)
    refine ⟨l', ?_, hlen⟩
    rw [h]
    simp [hl']

end Set

theorem GetByRange.call_defined (op : GetByRange) (flxb : FlexBuilder) (l : List α) :
    ∃ r, op.call flxb l = some r := by
  unfold GetByRange.call
  cases h : positionsToIndices op.start op.stop op.hasStop l with
  | mk valid indices =>
    obtain ⟨first, last⟩ := indices
    cases valid with
    | false => exact ⟨_, rfl⟩
    | true =>
      obtain ⟨h₁, h₂, h₃, h₄⟩ := positionsToIndices_bounds h
      have hlen : (if op.base = .head then l else l.reverse).length = l.length := by
        split
        · rfl
        · exact List.length_reverse
      simp only [if_true]
      rw [next_of_le _ (by omega) (by rw [hlen]; omega)]
      simp only [Option.bind_eq_bind, Option.bind_some]
      rw [listToTypedVector_of_le (by rw [hlen]; omega)]
      exact ⟨_, rfl⟩

namespace Remove

/-- The normalised range is inverted. -/
def inverted (op : Remove) (l : List α) : Bool :=
  let (valid, first, last) := positionsToIndices op.start op.stop op.hasStop l
  valid && last < first

omit [ListValue α] in
theorem call_cases (op : Remove) (l : List α) :
    (op.inverted l = true ∧ op.call l = none) ∨
      (op.inverted l = false ∧ ∃ l', op.call l = some (l', ()) ∧ l'.Sublist l) := by
  unfold inverted call
  cases h : positionsToIndices op.start op.stop op.hasStop l with
  | mk valid indices =>
    obtain ⟨first, last⟩ := indices
    cases valid with
    | false => exact .inr ⟨rfl, l, rfl, List.Sublist.refl l⟩
    | true =>
      obtain ⟨h₁, h₂, h₃, h₄⟩ := positionsToIndices_bounds h
      simp only [Bool.true_and, if_true]
      by_cases hall : last - first = l.length
      · right
        rw [if_pos hall]
        exact ⟨by simp; omega, [], rfl, List.nil_sublist l⟩
      · rw [if_neg hall, next_of_le l (by omega) (by omega), next_of_le l (by omega) (by omega)]
        simp only [Option.bind_eq_bind, Option.bind_some]
        by_cases hinv : last < first
        · left
          have : erase l (((0 : ℕ) : ℤ) + first).toNat (((0 : ℕ) : ℤ) + last).toNat = none := by
            unfold erase
            rw [if_neg (by omega)]
          exact ⟨by simpa using hinv, by rw [this]; rfl⟩
        · right
          have herase := @erase_of_le _ l (((0 : ℕ) : ℤ) + first).toNat
            (((0 : ℕ) : ℤ) + last).toNat (by omega) (by omega)
          exact ⟨by simpa using hinv, _, by rw [herase]; rfl, erase_sublist herase⟩

end Remove

namespace RemoveIf

theorem doRemove_defined (op : RemoveIf) (sortedList : Bool) (val : α) (l : List α) :
    ∃ l', op.doRemove sortedList val l = some l' := by
  unfold doRemove
  rcases positionsToIterators_cases op.start op.stop op.hasStop l with h | ⟨b, e, h, hbe, he⟩
  · exact ⟨l, by rw [h]; rfl⟩
  · rw [h]
    simp only [Option.bind_eq_bind, Option.bind_some, Bool.not_true, Bool.false_eq_true, if_false]
    by_cases hs : sortedList = true
    · rw [if_pos hs]
      obtain ⟨h₁, h₂, h₃⟩ :=
        Algorithm.equalRangeLoop_mem_range l ListValue.lt val (e - b) b (e - b)
      unfold Algorithm.equalRange
      split
      · exact ⟨_, erase_of_le h₂ (by omega)⟩
      · exact ⟨_, rfl⟩
    · rw [if_neg hs]
      have h₁ := Algorithm.removeIfLoop_le (fun x => ListValue.eq x val) l b b (e - b)
      have h₂ := Algorithm.removeIfLoop_length (fun x => ListValue.eq x val) l b b (e - b)
      unfold Algorithm.removeIf
      exact ⟨_, erase_of_le (by omega) (by omega)⟩

/-- On a sorted list a range is erased, so what is left keeps its order. -/
theorem doRemove_sublist {op : RemoveIf} {val : α} {l l' : List α}
    (h : op.doRemove true val l = some l') : l'.Sublist l := by
  unfold doRemove at h
  rcases positionsToIterators_cases op.start op.stop op.hasStop l with hp | ⟨b, e, hp, _, _⟩
  · rw [hp] at h
    exact Option.some.inj h ▸ List.Sublist.refl _
  · rw [hp] at h
    simp only [Option.bind_eq_bind, Option.bind_some, Bool.not_true, Bool.false_eq_true,
      if_false, if_true] at h
    split at h
    · exact erase_sublist h
    · exact Option.some.inj h ▸ List.Sublist.refl _

theorem call_defined (op : RemoveIf) (sortedList : Bool) (a : Alternative)
    (l : List a.ValueType) : ∃ l', op.call sortedList a l = some (l', l'.length) := by
  unfold call
  split
  · rename_i h
    obtain ⟨l', hl'⟩ := op.doRemove_defined sortedList (h ▸ op.val) l
    exact ⟨l', by rw [hl']; rfl⟩
  · exact ⟨l, rfl⟩

theorem call_sublist {op : RemoveIf} {a : Alternative} {l l' : List a.ValueType} {n : ℕ}
    (h : op.call true a l = some (l', n)) : l'.Sublist l := by
  unfold call at h
  split at h
  · rename_i ha
    obtain ⟨l₁, hl₁⟩ := op.doRemove_defined true (ha ▸ op.val) l
    rw [hl₁] at h
    simp only [Option.bind_eq_bind, Option.bind_some, Option.pure_def, Option.some.injEq,
      Prod.mk.injEq] at h
    exact h.1 ▸ doRemove_sublist hl₁
  · simp only [Option.bind_eq_bind, Option.bind_some, Option.pure_def, Option.some.injEq,
      Prod.mk.injEq] at h
    exact h.1 ▸ List.Sublist.refl _

end RemoveIf

/-! ### Intersection -/

theorem intersect_defined (l1 l2 : List α) (l1Range l2Range : Range) :
    ∃ r, intersect l1 l2 l1Range l2Range = some r ∧ ∀ result ∈ r, result.Sublist l1 := by
  unfold intersect
  rcases positionsToIterators_cases l1Range.start.toInt l1Range.stop.toInt l1Range.hasStop l1
    with h₁ | ⟨b₁, e₁, h₁, _, _⟩ <;>
  rcases positionsToIterators_cases l2Range.start.toInt l2Range.stop.toInt l2Range.hasStop l2
    with h₂ | ⟨b₂, e₂, h₂, _, _⟩ <;>
  rw [h₁, h₂]
  · exact ⟨none, rfl, by simp⟩
  · exact ⟨none, rfl, by simp⟩
  · exact ⟨none, rfl, by simp⟩
  · refine ⟨_, rfl, ?_⟩
    intro result hr
    obtain rfl := Option.some.inj hr
    apply (Algorithm.setIntersection_sublist _ _ _).trans
    exact (List.drop_sublist _ _).trans (List.take_sublist _ _)

/-- Intersecting to a list that was empty gives elements of the first list in its order. -/
theorem intersectToList_nil (l1 l2 : List α) (l1Range l2Range : Range) :
    ∃ l', intersectToList [] l1 l2 l1Range l2Range = some l' ∧ l'.Sublist l1 := by
  obtain ⟨r, hr, hsub⟩ := intersect_defined l1 l2 l1Range l2Range
  unfold intersectToList
  rw [hr]
  cases r with
  | none => exact ⟨[], rfl, List.nil_sublist l1⟩
  | some result => exact ⟨result, rfl, hsub result rfl⟩

theorem intersectToFlexBuffer_defined (flxb : FlexBuilder) (l1 l2 : List α)
    (l1Range l2Range : Range) :
    ∃ flxb', intersectToFlexBuffer flxb l1 l2 l1Range l2Range = some flxb' := by
  obtain ⟨r, hr, _⟩ := intersect_defined l1 l2 l1Range l2Range
  unfold intersectToFlexBuffer
  rw [hr]
  cases r <;> exact ⟨_, rfl⟩

end FCache
