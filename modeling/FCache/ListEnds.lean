import FCache.ListReplies

/-!
# The ends of an unsorted list

What the requests for the head and the tail of a stored list do to it and answer. The client
sends them as ranges; what such a range selects, at the sizes zero and one in particular, is
settled once for each operation.
-/

namespace FCache

/-! ### Operations -/

section Operations

variable {α : Type}

theorem positionsToIndices_nil (start stop : ℤ) (hasStop : Bool) :
    positionsToIndices start stop hasStop ([] : List α) = (false, 0, 0) := by
  unfold positionsToIndices labs
  rw [if_pos]
  simp only [List.length_nil]
  split_ifs <;> omega

theorem positionsToIndices_first {l : List α} (h : l ≠ []) :
    positionsToIndices 0 1 true l = (true, 0, 1) := by
  have hlen : 0 < l.length := List.length_pos_iff.mpr h
  have hmin : min (l.length : ℤ) 1 = 1 := by omega
  unfold positionsToIndices labs
  rw [if_neg (by omega)]
  simp [hmin]

theorem positionsToIndices_last {l : List α} (h : l ≠ []) :
    positionsToIndices (-1) 0 false l = (true, (l.length : ℤ) - 1, (l.length : ℤ)) := by
  have hlen : 0 < l.length := List.length_pos_iff.mpr h
  have hneg : ¬ (l.length : ℤ) < 0 := by omega
  have hfirst : (l.length : ℤ) + -1 = l.length - 1 := by omega
  unfold positionsToIndices labs
  rw [if_neg (by omega)]
  simp [hneg, hfirst]

theorem positionsToIndices_all {l : List α} (h : l ≠ []) :
    positionsToIndices 0 0 false l = (true, 0, (l.length : ℤ)) := by
  have hlen : 0 < l.length := List.length_pos_iff.mpr h
  have hneg : ¬ (l.length : ℤ) < 0 := by omega
  unfold positionsToIndices labs
  rw [if_neg (by omega)]
  simp [hneg]

theorem positionToStartIterator_zero (l : List α) : positionToStartIterator 0 l = some 0 := by
  unfold positionToStartIterator
  by_cases h : l = []
  · subst h
    unfold positionsToIterators
    rw [positionsToIndices_nil]
    rfl
  · have hlen : 0 < l.length := List.length_pos_iff.mpr h
    rw [positionsToIterators_of_indices (positionsToIndices_all h) (by omega)]
    rfl

theorem Remove.call_nil (op : Remove) : op.call ([] : List α) = some ([], ()) := by
  unfold Remove.call
  rw [positionsToIndices_nil]
  rfl

theorem Remove.call_head (l : List α) :
    ({ start := 0, stop := 1, hasStop := true } : Remove).call l = some (l.tail, ()) := by
  by_cases h : l = []
  · subst h
    exact Remove.call_nil _
  · have hlen : 0 < l.length := List.length_pos_iff.mpr h
    unfold Remove.call
    rw [positionsToIndices_first h]
    simp only [if_true]
    by_cases hone : l.length = 1
    · -- the only element goes with the whole list
      rw [if_pos (by omega)]
      have htail : l.tail = [] := List.length_eq_zero_iff.mp (by simp [hone])
      rw [htail]
    · rw [if_neg (by omega), next_of_le l (by omega) (by omega),
        next_of_le l (by omega) (by omega)]
      simp [erase_of_le (Nat.zero_le 1) hlen]

theorem Remove.call_tail (l : List α) :
    ({ start := -1, hasStop := false } : Remove).call l = some (l.dropLast, ()) := by
  by_cases h : l = []
  · subst h
    exact Remove.call_nil _
  · have hlen : 0 < l.length := List.length_pos_iff.mpr h
    unfold Remove.call
    rw [positionsToIndices_last h]
    simp only [if_true]
    by_cases hone : l.length = 1
    · rw [if_pos (by omega)]
      have hinit : l.dropLast = [] := List.length_eq_zero_iff.mp (by simp [hone])
      rw [hinit]
    · rw [if_neg (by omega), next_of_le l (by omega) (by omega),
        next_of_le l (by omega) (by omega)]
      have hfirst : ((0 : ℕ) + ((l.length : ℤ) - 1)).toNat = l.length - 1 := by omega
      have hlast : ((0 : ℕ) + (l.length : ℤ)).toNat = l.length := by omega
      rw [hfirst, hlast]
      simp [erase_of_le (Nat.sub_le l.length 1) (le_refl _), List.dropLast_eq_take]

variable [ListValue α]

theorem Add.call_head (items : TypedVector) (l : List α) :
    ({ items, pos := 0 } : Add).call false l =
      some (items.map ListValue.as ++ l, (items.map ListValue.as ++ l).length) := by
  simp [Add.call, Add.doAdd, positionToStartIterator_zero, Add.insertFrom_eq (Nat.zero_le _)]

theorem Add.call_tail (items : TypedVector) (l : List α) :
    ({ items, append := true } : Add).call false l =
      some (l ++ items.map ListValue.as, (l ++ items.map ListValue.as).length) := by
  simp only [Add.call, if_true, Add.append_eq]
  rfl

/-- The buffer a range request is answered with. -/
def GetByRange.buffer (r : FlexBuilder × Bool) : FlexBuffer :=
  (if r.2 then r.1 else r.1.typedVector []).finish.getBuffer

theorem GetByRange.call_first (base : Base) (l : List α) :
    (({ start := 0, stop := 1, hasStop := true, base } : GetByRange).call {} l).map
        GetByRange.buffer =
      some (some (.typedVector
        (((if base = .head then l else l.reverse).take 1).map ListValue.add))) := by
  unfold GetByRange.call
  by_cases h : l = []
  · subst h
    rw [positionsToIndices_nil]
    by_cases hb : base = .head <;> simp [GetByRange.buffer, hb]
  · have hlen : 0 < l.length := List.length_pos_iff.mpr h
    have hiter : 0 < (if base = .head then l else l.reverse).length := by
      split <;> simp [hlen]
    rw [positionsToIndices_first h]
    simp only [if_true]
    rw [next_of_le _ (by omega) (by omega)]
    have hfirst : ((0 : ℕ) + (0 : ℤ)).toNat = 0 := rfl
    have hcount : ((1 : ℤ) - 0).toNat = 1 := rfl
    rw [hfirst, hcount]
    simp only [Option.bind_eq_bind, Option.bind_some]
    rw [listToTypedVector_of_le (by omega)]
    simp [GetByRange.buffer]

end Operations

/-! ### Requests -/

namespace ListHandler

variable {s : ListHandler} {fbb : FlatBuilder} {name : Bytes} {a : Alternative}
  {d : List a.ValueType} {sorted : Bool}

/-- A list of the alternative `a` is stored under the name. -/
def Holds (s : ListHandler) (name : Bytes) (a : Alternative) (d : List a.ValueType)
    (sorted : Bool) : Prop :=
  s.lookup name = some (FcList.ofList ⟨a, d⟩ sorted)

/-- Every list of a reachable store is held in this form. -/
theorem holds_of_typesAgree {l : FcList} (h : s.lookup name = some l) (hl : l.TypesAgree) :
    Holds s name l.list.alternative l.list.elems l.sorted := by
  obtain ⟨hflex, hlist⟩ := hl
  unfold Holds FcList.ofList
  rw [h, ← hflex, ← hlist]

/-- An unsorted list of the alternative `a` is stored under the name. -/
def HoldsUnsorted (s : ListHandler) (name : Bytes) (a : Alternative) (d : List a.ValueType) :
    Prop :=
  s.lookup name = some (FcList.ofList ⟨a, d⟩ false)

theorem holdsUnsorted_insert (s : ListHandler) (name : Bytes) (d : List a.ValueType) :
    HoldsUnsorted (s.insert name (FcList.ofList ⟨a, d⟩ false)) name a d :=
  Finmap.lookup_insert _

theorem handleCreate_unsorted (s : ListHandler) (fbb : FlatBuilder) (name : Bytes)
    (a : Alternative) :
    (∃ status ≠ .ok, handle (.create { name, type := a.listType.toByte }) ⟨s, fbb⟩ =
      .ok () ⟨s, fbb.finish ⟨status, .listCreate, none⟩⟩) ∨
    handle (.create { name, type := a.listType.toByte }) ⟨s, fbb⟩ =
      .ok () ⟨s.insert name (FcList.ofList ⟨a, []⟩ false),
        fbb.finish ⟨.ok, .listCreate, none⟩⟩ := by
  unfold handle handleCreate
  rcases createList_cases s fbb name a.listType.toByte false with
    ⟨status, h, hstatus⟩ | ⟨b, hb, _, h⟩
  · left
    exact ⟨status, hstatus, by simp [h]⟩
  · right
    obtain rfl := toByte_listType_injective hb
    simp [h]

theorem doAddAppend_holds (h : Holds s name a d sorted) {items : TypedVector}
    (hne : items ≠ []) (isAppend : Bool) (pos : ℤ) (itemsSorted : Bool) {elems : List a.ValueType}
    (hcall : (addOperation items isAppend pos itemsSorted sorted).call sorted d =
      some (elems, elems.length)) :
    doAddAppend name items isAppend pos itemsSorted ⟨s, fbb⟩ =
      .ok () ⟨s.insert name (FcList.ofList ⟨a, elems⟩ sorted), fbb.finish
        ⟨.ok, if isAppend then .listAppend else .listAdd,
          some (if isAppend then .listAppend (UInt32.ofNat elems.length)
            else .listAdd (UInt32.ofNat elems.length))⟩⟩ := by
  obtain ⟨elems', hcall', hadd⟩ := @doAddAppend_found s fbb name _ h
    (FcList.ofList_typesAgree ⟨a, d⟩ sorted) items hne isAppend pos itemsSorted
  have helems : elems = elems' := (Prod.mk.inj (Option.some.inj (hcall.symm.trans hcall'))).1
  subst helems
  exact hadd

theorem handleAdd_head (h : HoldsUnsorted s name a d) {items : TypedVector} (hne : items ≠ []) :
    handle (.add { name, items, position := 0 }) ⟨s, fbb⟩ =
      .ok () ⟨s.insert name (FcList.ofList ⟨a, items.map ListValue.as ++ d⟩ false),
        fbb.finish ⟨.ok, .listAdd, some (.listAdd (UInt32.ofNat
          (items.map ListValue.as ++ d : List a.ValueType).length))⟩⟩ :=
  @doAddAppend_holds s fbb name a d false h items hne false 0 false _ (Add.call_head items d)

theorem handleAppend_tail (h : HoldsUnsorted s name a d) {items : TypedVector}
    (hne : items ≠ []) :
    handle (.append { name, items }) ⟨s, fbb⟩ =
      .ok () ⟨s.insert name (FcList.ofList ⟨a, d ++ items.map ListValue.as⟩ false),
        fbb.finish ⟨.ok, .listAppend, some (.listAppend (UInt32.ofNat
          (d ++ items.map ListValue.as : List a.ValueType).length))⟩⟩ :=
  @doAddAppend_holds s fbb name a d false h items hne true 0 false _ (Add.call_tail items d)

theorem handleRemove_unsorted (h : HoldsUnsorted s name a d) {range : Range}
    {elems : List a.ValueType}
    (hcall : (removeOperation { name, range }).call d = some (elems, ())) :
    handle (.remove { name, range }) ⟨s, fbb⟩ =
      .ok () ⟨s.insert name (FcList.ofList ⟨a, elems⟩ false),
        fbb.finish ⟨.ok, .listRemove, none⟩⟩ :=
  @handleRemove_of_some s fbb _ { name, range } h elems hcall

theorem handleGetRange_first (h : HoldsUnsorted s name a d) (base : Base) :
    handle (.getRange { name, range := { start := 0, stop := 1, hasStop := true }, base })
        ⟨s, fbb⟩ =
      .ok () ⟨s, fbb.finish ⟨.ok, .listGetRange, some (.listGetRange (some (.typedVector
        (((if base = .head then d else d.reverse).take 1).map ListValue.add))))⟩⟩ := by
  let req : ListGetRange := { name, range := { start := 0, stop := 1, hasStop := true }, base }
  obtain ⟨flxb, created, hcall, hget⟩ := @handleGetRange_found s fbb _ req h
  have hbuffer := (congrArg (Option.map GetByRange.buffer) hcall).symm.trans
    (GetByRange.call_first base d)
  rw [← Option.some.inj hbuffer]
  exact hget

theorem handleInfo_unsorted (h : HoldsUnsorted s name a d) :
    handle (.info { name }) ⟨s, fbb⟩ = .ok () ⟨s, fbb.finish ⟨.ok, .listInfo,
      some (.listInfo (UInt32.ofNat d.length) a.listType false)⟩⟩ :=
  @handleInfo_found s fbb _ { name } h

end ListHandler

end FCache
