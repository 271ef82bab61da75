import FCache.ListIntersections
import FCache.ListOverwrite
import FCache.ListRemoval
import FCache.PlainLists

/-!
# The list handler refines the plain lists

One step lemma for each handler: from a store that represents plain lists the client decodes the
reply of the plain lists, and the store represents their successor. A sorted list is represented by
its elements in ascending order. Two things are left to the clients: sorted lists of floats, which
a NaN puts out of order, are not created, and items sent as sorted are.
-/

namespace FCache

open Slice

namespace PlainList

variable {l : PlainList} {a : Alternative} {es es' : List l.type.ValueType}

theorem lawful (ha : a ≠ .floatList) : LawfulListValue a.ValueType := by
  cases a with
  | intList => exact inferInstanceAs (LawfulListValue Int64)
  | uintList => exact inferInstanceAs (LawfulListValue UInt64)
  | stringList => exact inferInstanceAs (LawfulListValue Bytes)
  | floatList => exact absurd rfl ha

theorem ascending_iff (ha : a ≠ .floatList) (d : List a.ValueType) :
    a.Ascending d ↔ d.Pairwise (· ≤ ·) := by
  cases a with
  | intList => exact Iff.rfl
  | uintList => exact Iff.rfl
  | stringList => exact Iff.rfl
  | floatList => exact absurd rfl ha

def Regular (l : PlainList) : Prop := l.isSorted = true → l.type ≠ .floatList

/-- The list as the store keeps it. -/
def stored (l : PlainList) : FcList := FcList.ofList ⟨l.type, l.elems⟩ l.isSorted

@[simp] theorem isSorted_replace (l : PlainList) (es : List l.type.ValueType) :
    (l.replace es).isSorted = l.isSorted :=
  Contents.isSorted_ofList _ _

theorem regular_replace (hl : l.Regular) (es : List l.type.ValueType) : (l.replace es).Regular := by
  intro hs
  rw [isSorted_replace] at hs
  exact hl hs

theorem ascending_elems (hl : l.Regular) (hs : l.isSorted = true) : l.type.Ascending l.elems := by
  rw [ascending_iff (hl hs)]
  obtain ⟨type, contents⟩ := l
  cases contents with
  | sequence d => cases hs
  | multiset m => exact Multiset.pairwise_sort m _

/-- The store keeps the elements of a sorted list in ascending order, and those of an unsorted
list in the order they were given. -/
theorem elems_replace (hl : l.Regular) (hperm : es'.Perm es)
    (hsorted : l.isSorted = true → l.type.Ascending es')
    (hunsorted : l.isSorted = false → es' = es) : (l.replace es).elems = es' := by
  unfold replace elems Contents.ofList Contents.toList
  cases hs : l.isSorted with
  | false => exact (hunsorted hs).symm
  | true =>
    have hasc := (ascending_iff (hl hs) es').mp (hsorted hs)
    have hsort : (Multiset.sort (es : Multiset l.type.ValueType)).Perm es' := by
      apply List.Perm.trans _ hperm.symm
      exact Multiset.coe_eq_coe.mp (Multiset.sort_eq _ _)
    exact hsort.eq_of_pairwise (fun x y _ _ => le_antisymm) (Multiset.pairwise_sort _ _) hasc

theorem elems_replace_sublist (hl : l.Regular) (h : es.Sublist l.elems) :
    (l.replace es).elems = es :=
  elems_replace hl (List.Perm.refl es) (fun hs => (ascending_elems hl hs).sublist h) fun _ => rfl

@[simp] theorem isSorted_new (a : Alternative) (sorted : Bool) :
    (new a sorted).isSorted = sorted :=
  Contents.isSorted_ofList _ _

theorem stored_new (a : Alternative) (sorted : Bool) :
    (new a sorted).stored = FcList.ofList ⟨a, []⟩ sorted := by
  cases sorted with
  | true =>
    have hnil : Multiset.sort (0 : Multiset a.ValueType) = [] := Multiset.sort_zero _
    have helems : (new a true).elems = [] := hnil
    unfold stored
    rw [helems]
    rfl
  | false => rfl

theorem stored_replace (h : (l.replace es).elems = es') :
    (l.replace es).stored = FcList.ofList ⟨l.type, es'⟩ l.isSorted := by
  have hstored : (l.replace es).stored =
      FcList.ofList ⟨l.type, (l.replace es).elems⟩ (l.replace es).isSorted := rfl
  rw [hstored, h, isSorted_replace]

end PlainList

/-! ### Operations -/

section Operations

variable {α : Type} {l : PlainList}

/-- What an operation on the stored list leaves is the successor of the plain list. -/
structure PlainList.Becomes (l l' : PlainList) (es : List l.type.ValueType) : Prop where
  stored : l'.stored = FcList.ofList ⟨l.type, es⟩ l.isSorted
  size : l'.size = es.length
  regular : l'.Regular

namespace PlainList

theorem becomes_replace (hl : l.Regular) {es es' : List l.type.ValueType}
    (h : (l.replace es).elems = es') : l.Becomes (l.replace es) es' :=
  ⟨stored_replace h, congrArg List.length h, regular_replace hl es⟩

theorem splice_perm (l : List α) (i : ℕ) (items : List α) :
    (Slice.splice l i i items).Perm (l ++ items) := by
  have hback : (l.take i ++ items ++ l.drop i).Perm (l.take i ++ (l.drop i ++ items)) := by
    rw [List.append_assoc]
    exact List.perm_append_comm.append_left _
  rwa [← List.append_assoc, List.take_append_drop] at hback

/-- Adding and appending give the elements a place, or merge them into a sorted list. -/
theorem insert_becomes (hl : l.Regular) {items : TypedVector} (hne : items ≠ []) (isAppend : Bool)
    (pos : ℤ) {itemsSorted : Bool}
    (hitems : itemsSorted = true → l.type.Ascending (items.map ListValue.as)) :
    ∃ es, (ListHandler.addOperation items isAppend pos itemsSorted l.isSorted).call l.isSorted
        l.elems = some (es, es.length) ∧
      l.Becomes (l.insert (if isAppend then l.size else insertionPoint l.size pos) items) es := by
  cases hs : l.isSorted with
  | true =>
    have hop : ListHandler.addOperation items isAppend pos itemsSorted true =
        { items, itemsSorted } := by
      simp [ListHandler.addOperation]
    have := lawful (hl hs)
    obtain ⟨added, hasc, hperm, hadd⟩ := Add.doAdd_sorted hne
      ((ascending_iff (hl hs) _).mp (ascending_elems hl hs))
    have hcall := Add.call_sorted items itemsSorted
      (hadd itemsSorted fun h => (ascending_iff (hl hs) _).mp (hitems h))
    rw [hop]
    refine ⟨added, hcall, becomes_replace hl (elems_replace hl ?_ ?_ ?_)⟩
    · exact hperm.trans (splice_perm _ _ _).symm
    · exact fun _ => (ascending_iff (hl hs) _).mpr hasc
    · intro hf
      cases hs.symm.trans hf
  | false =>
    have hsame : ∀ i, l.Becomes (l.insert i items)
        (Slice.splice l.elems i i (items.map ListValue.as)) := by
      intro i
      apply becomes_replace hl
      refine elems_replace hl (List.Perm.refl _) ?_ fun _ => rfl
      intro hf
      cases hs.symm.trans hf
    refine ⟨_, ?_, hsame _⟩
    cases isAppend with
    | true =>
      have htail : Slice.splice l.elems l.size l.size (items.map ListValue.as) =
          l.elems ++ items.map ListValue.as := by
        simp [Slice.splice, size]
      rw [if_pos rfl, htail]
      exact Add.call_tail items l.elems
    | false => exact Add.call_unsorted items pos l.elems

/-- The block that the position and the number of items select, normalised twice. -/
theorem overwrite_ends (size : ℕ) {n : ℕ} (hn : 0 < n) (pos : ℤ) :
    (selection size (position size pos) (position size pos + n) true).2 -
      (selection size (position size pos) (position size pos + n) true).1 ≤ n := by
  by_cases h : InBounds size pos
  · have hpos := position_bounds h
    rw [Set.selection_inBounds h hn]
    show (min (position size pos + n) size).toNat - (position size pos).toNat ≤ n
    omega
  · obtain ⟨b, e, hsel, hcount, _⟩ := Set.selection_outOfBounds (n := n) h hn
    rw [hsel]
    exact hcount.trans_le (Set.strays_le size n pos)

theorem overwrite_becomes (hl : l.Regular) (hs : l.isSorted = false) {items : TypedVector}
    (hne : items ≠ []) (pos : ℤ) : ∃ es, Set.call ⟨items, pos⟩ l.elems = some (es, ()) ∧
      l.Becomes (l.overwrite items pos) es := by
  have hcount := overwrite_ends l.size (List.length_pos_iff.mpr hne) pos
  have hle := selection_le l.size (position l.size pos) (position l.size pos + items.length) true
  rcases hsel : selection l.size (position l.size pos) (position l.size pos + items.length) true
    with ⟨b, e⟩
  rw [hsel] at hcount hle
  obtain ⟨es, hcall, _, hget⟩ := Set.call_getElem? ⟨items, pos⟩ l.elems hsel hcount
  have hlen : ((items.map ListValue.as : List l.type.ValueType).take (e - b)).length = e - b := by
    rw [List.length_take, List.length_map]
    exact Nat.min_eq_left hcount
  have hes : es = Slice.splice l.elems b e ((items.map ListValue.as).take (e - b)) := by
    apply List.ext_getElem?
    intro j
    rw [hget, getElem?_splice l.elems hle.1 hle.2 hlen]
    split
    · rw [List.getElem?_take_of_lt (by omega)]
    · rfl
  have hover : l.overwrite items pos = l.replace es := by
    unfold overwrite splice
    rw [hsel, hes]
  rw [hover]
  refine ⟨es, hcall, becomes_replace hl (elems_replace hl (List.Perm.refl _) ?_ fun _ => rfl)⟩
  intro hf
  cases hs.symm.trans hf

theorem remove_becomes (hl : l.Regular) {req : ListRemove}
    (h : ¬ req.range.inverted l.elems.length) : ∃ es,
      (ListHandler.removeOperation req).call l.elems = some (es, ()) ∧
      l.Becomes (l.remove req.range) es := by
  have hle := req.range.ends_le l.elems.length
  refine ⟨_, ListHandler.removeOperation_call h, becomes_replace hl ?_⟩
  exact elems_replace_sublist hl (splice_sublist l.elems hle.1 (List.nil_sublist _))

theorem removeEqual_becomes (hl : l.Regular) (range : Range) (a : Alternative) (v : a.ValueType) :
    ∃ es, (ListHandler.removeIfOperation range a v).call l.isSorted l.type l.elems =
        some (es, es.length) ∧ l.Becomes (l.removeEqual range a v) es := by
  by_cases h : a = l.type
  · subst h
    have hle := range.ends_le l.elems.length
    have hcall := ListHandler.removeIfOperation_filter
      (fun hs => ⟨hl hs, ascending_elems hl hs⟩) range v (range.selects_block l.elems)
    refine ⟨_, hcall, ?_⟩
    have hremove : l.removeEqual range l.type v = l.replace (Slice.splice l.elems
        (range.ends l.elems.length).1 (range.ends l.elems.length).2
        ((range.selected l.elems).filter fun x => !ListValue.eq x v)) := dif_pos rfl
    rw [hremove]
    apply becomes_replace hl
    exact elems_replace_sublist hl (splice_sublist l.elems hle.1 List.filter_sublist)
  · have hremove : l.removeEqual range a v = l := dif_neg h
    rw [hremove]
    exact ⟨l.elems, ListHandler.removeIfOperation_otherType h range v l.isSorted l.elems,
      rfl, rfl, hl⟩

/-- The merge of two ascending blocks is what they have in common. -/
theorem elems_common (ha : l.type ≠ .floatList) {d1 d2 : List l.type.ValueType}
    (h1 : l.type.Ascending d1) (h2 : l.type.Ascending d2) :
    (l.common d1 d2).elems = Algorithm.setIntersection ListValue.lt d1 d2 := by
  have := lawful ha
  rw [ascending_iff ha] at h1 h2
  have hcount : ∀ v, (Algorithm.setIntersection ListValue.lt d1 d2).count v =
      min (d1.count v) (d2.count v) :=
    fun v => Algorithm.setIntersection_count LawfulListValue.lt_iff h1 h2 v
  have hasc : (Algorithm.setIntersection ListValue.lt d1 d2).Pairwise (· ≤ ·) :=
    h1.sublist (Algorithm.setIntersection_sublist _ d1 d2)
  have hsame : ((d1 : Multiset l.type.ValueType) ∩ d2) =
      (Algorithm.setIntersection ListValue.lt d1 d2 : List l.type.ValueType) := by
    ext v
    rw [Multiset.count_inter, Multiset.coe_count, Multiset.coe_count, Multiset.coe_count, hcount]
  have hperm : (Multiset.sort ((d1 : Multiset l.type.ValueType) ∩ d2)).Perm
      (Algorithm.setIntersection ListValue.lt d1 d2) := by
    apply Multiset.coe_eq_coe.mp
    rw [← hsame]
    exact Multiset.sort_eq _ _
  have heq := hperm.eq_of_pairwise (fun x y _ _ => le_antisymm) (Multiset.pairwise_sort _ _) hasc
  exact heq

end PlainList

end Operations

/-! ### Requests -/

namespace ListHandler

open Cpp

/-- A store that keeps plain lists. -/
def Represents (s : ListHandler) (t : PlainLists) : Prop :=
  FiniteMap.Related (fun l p => l = p.stored ∧ p.Regular) s t

/-- What is left to the clients. -/
def Plain (s : ListHandler) : ListRequest → Prop
  | .create req => req.sorted = true → req.type ≠ ListType.float.toByte
  | req => ItemsAscending s req

instance (a : Alternative) (d : List a.ValueType) : Decidable (a.Ascending d) :=
  match a with
  | .intList => inferInstanceAs (Decidable (d.Pairwise fun x y : Int64 => x ≤ y))
  | .uintList => inferInstanceAs (Decidable (d.Pairwise fun x y : UInt64 => x ≤ y))
  | .stringList => inferInstanceAs (Decidable (d.Pairwise fun x y : Bytes => x ≤ y))
  | .floatList => .isTrue trivial

instance (s : ListHandler) (req : ListRequest) : Decidable (Plain s req) :=
  match req with
  | .create _ => inferInstanceAs (Decidable (_ → _))
  | .add req => inferInstanceAs (Decidable (req.itemsSorted = true →
      ∀ l ∈ s.lookup req.name, l.list.alternative.Ascending (req.items.map ListValue.as)))
  | .append _ | .set _ | .delete _ | .getRange _ | .remove _ | .removeIf _ | .intersect _
  | .info _ => .isTrue trivial

namespace Represents

variable {s s' : ListHandler} {t : PlainLists} {fbb fbb' : FlatBuilder} {name : Bytes}

theorem init : Represents ∅ ∅ := FiniteMap.Related.empty

theorem lookup_cases (h : Represents s t) (name : Bytes) :
    (s.lookup name = none ∧ t.lookup name = none) ∨
      ∃ l : PlainList, s.lookup name = some l.stored ∧ t.lookup name = some l ∧ l.Regular := by
  rcases FiniteMap.Related.lookup_cases h name with h | ⟨_, l, hs, ht, rfl, hl⟩
  · exact .inl h
  · exact .inr ⟨l, hs, ht, hl⟩

theorem insert (h : Represents s t) {l l' : PlainList} {es : List l.type.ValueType}
    (hl : l.Becomes l' es) : Represents
      (s.insert name (FcList.ofList ⟨l.type, es⟩ l.isSorted)) (t.insert name l') :=
  FiniteMap.Related.insert h ⟨hl.stored.symm, hl.regular⟩

/-- What a handler is to do: to leave a store that represents the plain lists' successor, with a
builder from which their reply is decoded. -/
def Answers (answer : PlainLists × Option Response)
    (run : Outcome (Handling ListHandler) Unit) : Prop :=
  ∃ s' fbb, run = .ok () ⟨s', fbb⟩ ∧ Represents s' answer.1 ∧ fbb.decoded = answer.2

theorem answers_finish {run : Outcome (Handling ListHandler) Unit} {rsp : Response}
    (h : Represents s' t) (hrun : run = .ok () ⟨s', fbb.finish rsp⟩) :
    Answers (t, some rsp) run :=
  ⟨s', _, hrun, h, FlatBuilder.finish_decoded _ _⟩

theorem createList_eq (s : ListHandler) (fbb : FlatBuilder) (name : Bytes) (type : Int8)
    (sorted : Bool) : createList name type sorted ⟨s, fbb⟩ =
      match Alternative.ofByte type with
      | none => .ok .fail ⟨s, fbb⟩
      | some a =>
        if (s.lookup name).isSome then .ok .duplicate ⟨s, fbb⟩
        else .ok .ok ⟨s.insert name (FcList.ofList ⟨a, []⟩ sorted), fbb⟩ := by
  have hbyte : ∀ a : Alternative, Alternative.ofByte a.listType.toByte = some a := by
    intro a
    cases a <;> rfl
  by_cases hknown : ∃ a : Alternative, a.listType.toByte = type
  · obtain ⟨a, rfl⟩ := hknown
    rw [hbyte]
    cases hs : s.lookup name with
    | none => exact createList_listType hs a sorted
    | some l =>
      unfold createList
      cases a <;> simp [hs, Alternative.listType, ListType.toByte]
  · have hnone : Alternative.ofByte type = none := by
      unfold Alternative.ofByte
      rw [List.find?_eq_none]
      intro a _ ha
      exact hknown ⟨a, of_decide_eq_true ha⟩
    rw [hnone]
    unfold createList
    simp only [bind_apply, getList_apply, ok_bind, if_apply, pure_apply]
    split_ifs with h₀ h₁ h₂ h₃ h₄
    · exact absurd ⟨.intList, h₁.symm⟩ hknown
    · exact absurd ⟨.uintList, h₂.symm⟩ hknown
    · exact absurd ⟨.floatList, h₃.symm⟩ hknown
    · exact absurd ⟨.stringList, h₄.symm⟩ hknown
    · rfl
    · rfl

theorem handleCreate (h : Represents s t) (req : ListCreate)
    (hfloat : req.sorted = true → req.type ≠ ListType.float.toByte) :
    Answers (t.create req) (ListHandler.handleCreate req ⟨s, fbb⟩) := by
  unfold PlainLists.create ListHandler.handleCreate
  simp only [bind_apply, createList_eq]
  cases hbyte : Alternative.ofByte req.type with
  | none => exact answers_finish h rfl
  | some a =>
    rcases h.lookup_cases req.name with ⟨hs, ht⟩ | ⟨l, hs, ht, hl⟩
    · simp only [hs, ht]
      have hnew : (PlainList.new a req.sorted).Regular := by
        rintro hsorted rfl
        rw [PlainList.isSorted_new] at hsorted
        have htype := List.find?_some hbyte
        exact hfloat hsorted (of_decide_eq_true htype).symm
      have hinsert : Represents (s.insert req.name (FcList.ofList ⟨a, []⟩ req.sorted))
          (t.insert req.name (PlainList.new a req.sorted)) :=
        FiniteMap.Related.insert h ⟨(PlainList.stored_new a req.sorted).symm, hnew⟩
      exact answers_finish hinsert rfl
    · simp only [hs, ht]
      exact answers_finish h rfl

theorem doAddAppend (h : Represents s t) (name : Bytes) {items : TypedVector} (isAppend : Bool)
    (pos : ℤ) {itemsSorted : Bool} (hitems : itemsSorted = true → ∀ l, s.lookup name = some l →
      l.list.alternative.Ascending (items.map ListValue.as)) (hfbb : fbb = {}) :
    Answers (t.add name items (if isAppend then .listAppend else .listAdd)
        (if isAppend then .listAppend else .listAdd)
        (fun size => if isAppend then size else insertionPoint size pos))
      (ListHandler.doAddAppend name items isAppend pos itemsSorted ⟨s, fbb⟩) := by
  unfold PlainLists.add
  rcases h.lookup_cases name with ⟨hs, ht⟩ | ⟨l, hs, ht, hl⟩
  · rw [ht]
    exact answers_finish h (doAddAppend_missing hs items isAppend pos itemsSorted)
  · rw [ht]
    by_cases hne : items = []
    · subst hne hfbb
      exact ⟨s, {}, doAddAppend_noItems hs isAppend pos itemsSorted, h, rfl⟩
    · obtain ⟨es, hcall, hes⟩ := PlainList.insert_becomes hl hne isAppend pos
        (fun hi => hitems hi _ hs)
      have hadd := @doAddAppend_holds s fbb name _ _ _ hs items hne isAppend pos itemsSorted _ hcall
      have hanswer := answers_finish (h.insert hes) hadd
      rw [← hes.size] at hanswer
      simp only [if_neg hne]
      cases isAppend with
      | true => exact hanswer
      | false => exact hanswer

theorem handleSet (h : Represents s t) (req : ListSet) :
    Answers (t.set req) (ListHandler.handleSet req ⟨s, fbb⟩) := by
  unfold PlainLists.set
  rcases h.lookup_cases req.name with ⟨hs, ht⟩ | ⟨l, hs, ht, hl⟩
  · rw [ht]
    exact answers_finish h (handleSet_missing hs)
  · rw [ht]
    by_cases hne : req.items = []
    · simp only [if_pos hne]
      exact answers_finish h (handleSet_noItems hs hne)
    · simp only [if_neg hne]
      cases hsorted : l.isSorted with
      | true => exact answers_finish h (handleSet_sorted hs hne hsorted)
      | false =>
        obtain ⟨es, hcall, hes⟩ := PlainList.overwrite_becomes hl hsorted hne req.position.toInt
        have hset := @handleSet_unsorted s fbb _ req hs (FcList.ofList_typesAgree _ _) hne hsorted
          es hcall
        exact answers_finish (h.insert hes) hset

theorem handleDelete (h : Represents s t) (req : ListDelete) :
    Answers (t.delete req) (ListHandler.handleDelete req ⟨s, fbb⟩) := by
  refine answers_finish ?_ (handleDelete_apply s fbb req)
  by_cases hname : req.name = []
  · rw [if_pos hname, if_pos hname]
    exact init
  · rw [if_neg hname, if_neg hname]
    exact FiniteMap.Related.eraseAll h req.name

theorem handleGetRange (h : Represents s t) (req : ListGetRange) :
    Answers (t.getRange req) (ListHandler.handleGetRange req ⟨s, fbb⟩) := by
  unfold PlainLists.getRange
  rcases h.lookup_cases req.name with ⟨hs, ht⟩ | ⟨l, hs, ht, hl⟩
  · rw [ht]
    exact answers_finish h (handleGetRange_missing hs)
  · rw [ht]
    obtain ⟨flxb, created, hcall, hget⟩ := @handleGetRange_found s fbb _ req hs
    have hbuffer := (congrArg (Option.map GetByRange.buffer) hcall).symm.trans
      (req.range.reads_selected req.base l.elems)
    have hanswer : Answers (t.succeed .listGetRange (some (.listGetRange
        (GetByRange.buffer (flxb, created))))) (ListHandler.handleGetRange req ⟨s, fbb⟩) :=
      answers_finish h hget
    rw [Option.some.inj hbuffer] at hanswer
    exact hanswer

theorem handleRemove_ordered (h : Represents s t) (req : ListRemove)
    (hinv : ∀ l, t.lookup req.name = some l → ¬ req.range.inverted l.elems.length) :
    Answers (t.remove req) (ListHandler.handleRemove req ⟨s, fbb⟩) := by
  unfold PlainLists.remove
  rcases h.lookup_cases req.name with ⟨hs, ht⟩ | ⟨l, hs, ht, hl⟩
  · rw [ht]
    exact answers_finish h (handleRemove_missing hs)
  · rw [ht]
    obtain ⟨es, hcall, hes⟩ := PlainList.remove_becomes hl (hinv l ht)
    exact answers_finish (h.insert hes) (handleRemove_of_some hs hcall)

/-- A range that is inverted has no successor. -/
theorem handleRemove (h : Represents s t) (req : ListRemove) :
    ListHandler.handleRemove req ⟨s, fbb⟩ = .undefined ∨
      Answers (t.remove req) (ListHandler.handleRemove req ⟨s, fbb⟩) := by
  by_cases hinv : ∃ l, t.lookup req.name = some l ∧ req.range.inverted l.elems.length
  · obtain ⟨l, ht, hinv⟩ := hinv
    rcases h.lookup_cases req.name with ⟨_, hnone⟩ | ⟨l', hs, ht', _⟩
    · cases hnone.symm.trans ht
    · cases ht'.symm.trans ht
      exact .inl (handleRemove_of_none hs (removeOperation_call_inverted hinv))
  · exact .inr (h.handleRemove_ordered req fun l ht hinverted => hinv ⟨l, ht, hinverted⟩)

theorem handleRemoveIf (h : Represents s t) (req : ListRemoveIf) :
    Answers (t.removeIf req) (ListHandler.handleRemoveIf req ⟨s, fbb⟩) := by
  unfold PlainLists.removeIf
  rcases h.lookup_cases req.name with ⟨hs, ht⟩ | ⟨l, hs, ht, hl⟩
  · rw [ht]
    exact answers_finish h (handleRemoveIf_missing hs)
  · rw [ht]
    cases hval : removeIfValue req.value with
    | none => exact answers_finish h (handleRemoveIf_noValue hs hval)
    | some value =>
      obtain ⟨a, v⟩ := value
      obtain ⟨es, hcall, hes⟩ := PlainList.removeEqual_becomes hl req.range a v
      obtain ⟨es', hcall', hremove⟩ := @handleRemoveIf_found s fbb _ req hs a v hval
      obtain rfl : es = es' := (Prod.mk.inj (Option.some.inj (hcall.symm.trans hcall'))).1
      have hanswer : Answers (PlainLists.succeed (t.insert req.name (l.removeEqual req.range a v))
          .listRemoveIf (some (.listRemoveIf (UInt32.ofNat (l.removeEqual req.range a v).size))))
          (ListHandler.handleRemoveIf req ⟨s, fbb⟩) := by
        rw [hes.size]
        exact answers_finish (h.insert hes) hremove
      exact hanswer

theorem handleInfo (h : Represents s t) (req : ListInfo) :
    Answers (t.info req) (ListHandler.handleInfo req ⟨s, fbb⟩) := by
  unfold PlainLists.info
  rcases h.lookup_cases req.name with ⟨hs, ht⟩ | ⟨l, hs, ht, hl⟩
  · rw [ht]
    exact answers_finish h (handleInfo_missing hs)
  · rw [ht]
    exact answers_finish h (handleInfo_found hs)

/-- Two plain lists are intersected where the store intersects what it keeps of them. -/
theorem canIntersectWith_stored (l1 l2 : PlainList) :
    l1.stored.canIntersectWith l2.stored = true ↔
      l1.isSorted = true ∧ l2.isSorted = true ∧ l2.type = l1.type := by
  rw [FcList.canIntersectWith_iff]
  constructor
  · rintro ⟨h1, h2, hflex⟩
    exact ⟨h1, h2, (Alternative.flexType_injective hflex).symm⟩
  · rintro ⟨h1, h2, htype⟩
    exact ⟨h1, h2, (congrArg Alternative.flexType htype).symm⟩

theorem answers_step {answer : PlainLists × Option Response} {req : ListIntersect}
    (hstep : machine.step s (.intersect req) = some (s', fbb)) (h : Represents s' answer.1)
    (hfbb : fbb.decoded = answer.2) :
    Answers answer (ListHandler.handleIntersect req ⟨s, {}⟩) :=
  ⟨s', fbb, Handling.answered_eq_some.mp hstep, h, hfbb⟩

theorem intersectSorted (h : Represents s t) (req : ListIntersect) {l : PlainList}
    {d : List l.type.ValueType} (hl : l.Regular) (hsorted : l.isSorted = true)
    (hd : l.type.Ascending d) (h1 : Holds s req.list1Name l.type l.elems true)
    (h2 : Holds s req.list2Name l.type d true) :
    Answers (t.intersectSorted req l d) (ListHandler.handleIntersect req ⟨s, {}⟩) := by
  have helems := PlainList.elems_common (hl hsorted)
    ((PlainList.ascending_elems hl hsorted).selected req.list1Range) (hd.selected req.list2Range)
  unfold PlainLists.intersectSorted
  by_cases hname : req.newListName.getD [] = []
  · simp only [hname, if_true]
    by_cases hsel : req.list1Range.selected l.elems = [] ∨ req.list2Range.selected d = []
    · rw [if_pos hsel]
      have hstep := step_intersect_unnamed h1 h2 hname (intersectToFlexBuffer_nothing {} hsel)
      exact answers_step hstep h rfl
    · rw [if_neg hsel, helems]
      rw [not_or] at hsel
      have hstep := step_intersect_unnamed h1 h2 hname
        (intersectToFlexBuffer_selected {} hsel.1 hsel.2)
      rw [FlexBuilder.getBuffer_finish_typedVector] at hstep
      exact answers_step hstep h rfl
  · simp only [hname, if_false]
    rcases h.lookup_cases (req.newListName.getD []) with ⟨hs, ht⟩ | ⟨taken, hs, ht, _⟩
    · have hinsert : Represents (s.insert (req.newListName.getD []) _)
          (t.insert (req.newListName.getD []) (l.common (req.list1Range.selected l.elems)
            (req.list2Range.selected d))) :=
        FiniteMap.Related.insert h ⟨rfl, fun _ => hl hsorted⟩
      have hstep := step_intersect_free h1 h2 hname hs
      rw [ht]
      refine answers_step hstep ?_ rfl
      unfold PlainList.stored at hinsert
      rw [helems] at hinsert
      exact hinsert
    · have htaken : s.lookup (req.newListName.getD []) ≠ none := by
        rw [hs]
        exact Option.some_ne_none _
      rw [ht]
      exact answers_step (step_intersect_taken h1 h2 hname htaken) h rfl

theorem handleIntersect (h : Represents s t) (req : ListIntersect) :
    Answers (t.intersect req) (ListHandler.handleIntersect req ⟨s, {}⟩) := by
  have hmissing : s.lookup req.list1Name = none ∨ s.lookup req.list2Name = none →
      Answers (t.fail .listIntersect) (ListHandler.handleIntersect req ⟨s, {}⟩) := by
    intro hnone
    refine ⟨s, _, handleIntersect_missing hnone, h, ?_⟩
    split <;> exact FlatBuilder.finish_decoded _ _
  unfold PlainLists.intersect
  rcases h.lookup_cases req.list1Name with ⟨hs1, ht1⟩ | ⟨l1, hs1, ht1, hl1⟩
  · rw [ht1]
    exact hmissing (.inl hs1)
  · rcases h.lookup_cases req.list2Name with ⟨hs2, ht2⟩ | ⟨l2, hs2, ht2, hl2⟩
    · rw [ht1, ht2]
      exact hmissing (.inr hs2)
    · rw [ht1, ht2]
      simp only
      by_cases hcan : l1.stored.canIntersectWith l2.stored = true
      · obtain ⟨hsorted1, hsorted2, htype⟩ := (canIntersectWith_stored l1 l2).mp hcan
        obtain ⟨type, contents⟩ := l2
        cases htype
        have hd := PlainList.ascending_elems hl2 hsorted2
        have h1 : Holds s req.list1Name l1.type l1.elems true := by
          rw [← hsorted1]
          exact hs1
        have h2 : Holds s req.list2Name l1.type (PlainList.elems ⟨l1.type, contents⟩) true := by
          rw [← hsorted2]
          exact hs2
        have hanswer := h.intersectSorted req hl1 hsorted1 hd h1 h2
        simp only [PlainList.sameType, dif_pos, hsorted1, hsorted2, Bool.and_self, if_true]
        exact hanswer
      · have hrefused := answers_finish h
          (@handleIntersect_refused s {} req _ _ hs1 hs2 (by simpa using hcan))
        rw [canIntersectWith_stored] at hcan
        unfold PlainList.sameType
        split
        · next other hother =>
          split at hother
          · next htype =>
            rw [if_neg]
            · exact hrefused
            · rw [Bool.and_eq_true]
              exact fun hand => hcan ⟨hand.1, hand.2, htype⟩
          · cases hother
        · exact hrefused

theorem handle (h : Represents s t) {req : ListRequest} (hplain : Plain s req) :
    ListHandler.handle req ⟨s, {}⟩ = .undefined ∨
      Answers (t.step req) (ListHandler.handle req ⟨s, {}⟩) := by
  cases req with
  | create req => exact .inr (h.handleCreate req hplain)
  | add req => exact .inr (h.doAddAppend req.name false req.position.toInt hplain rfl)
  | append req =>
    have hunsorted : false = true → ∀ l, s.lookup req.name = some l →
        l.list.alternative.Ascending (req.items.map ListValue.as) := fun hf => by cases hf
    exact .inr (h.doAddAppend req.name true 0 hunsorted rfl)
  | set req => exact .inr (h.handleSet req)
  | delete req => exact .inr (h.handleDelete req)
  | getRange req => exact .inr (h.handleGetRange req)
  | remove req => exact h.handleRemove req
  | removeIf req => exact .inr (h.handleRemoveIf req)
  | intersect req => exact .inr (h.handleIntersect req)
  | info req => exact .inr (h.handleInfo req)

theorem step (h : Represents s t) {req : ListRequest} (hplain : Plain s req)
    (hstep : machine.step s req = some (s', fbb)) :
    ∃ t', PlainLists.machine.step t req = some (t', fbb.decoded) ∧ Represents s' t' := by
  have hhandle := Handling.answered_eq_some.mp hstep
  rcases h.handle hplain with hundefined | ⟨s'', fbb'', hanswer, hrep, hdecoded⟩
  · cases hundefined.symm.trans hhandle
  · cases hanswer.symm.trans hhandle
    exact ⟨(t.step req).1, by rw [hdecoded]; rfl, hrep⟩

end Represents

/-- In every run the client decodes the replies of the plain lists, as long as it creates no
sorted list of floats and items it sends as sorted are. -/
theorem run_plain {reqs : List ListRequest} {s : ListHandler} {replies : List FlatBuilder}
    (h : (machine.restrict Plain).run reqs = some (s, replies)) :
    ∃ t, PlainLists.machine.run reqs = some (t, replies.map FlatBuilder.decoded) ∧
      Represents s t := by
  have h₀ : Represents machine.init PlainLists.machine.init := Represents.init
  have hrefines := Machine.runFrom_refines (M := PlainLists.machine)
    (N := machine.restrict Plain) (R := fun t s => Represents s t) (f := id)
    (g := FlatBuilder.decoded) (fun t s req s' fbb hrep hstep => by
      obtain ⟨hplain, hstep⟩ := Machine.step_restrict_eq_some.mp hstep
      exact hrep.step hplain hstep) h₀ h
  rwa [List.map_id] at hrefines

/-- Two items merged into a sorted list. -/
theorem run_plain_merged : ∃ t, PlainLists.machine.run
    [.create { name := [97], type := 0, sorted := true },
      .add { name := [97], items := [⟨5, 5, ⟨0⟩, []⟩, ⟨3, 3, ⟨0⟩, []⟩] },
      .getRange { name := [97], range := { hasStop := false }, base := .head }] =
    some (t, [some ⟨.ok, .listCreate, none⟩, some ⟨.ok, .listAdd, some (.listAdd 2)⟩,
      some ⟨.ok, .listGetRange,
        some (.listGetRange (some (.typedVector [.int 3, .int 5])))⟩]) := by
  have hrun : (machine.restrict Plain).run
      [.create { name := [97], type := 0, sorted := true },
        .add { name := [97], items := [⟨5, 5, ⟨0⟩, []⟩, ⟨3, 3, ⟨0⟩, []⟩] },
        .getRange { name := [97], range := { hasStop := false }, base := .head }] =
      some (Finmap.insert [97] (FcList.ofList ⟨.intList, [3, 5]⟩ true) ∅,
        [⟨[⟨.ok, .listCreate, none⟩]⟩, ⟨[⟨.ok, .listAdd, some (.listAdd 2)⟩]⟩,
          ⟨[⟨.ok, .listGetRange,
            some (.listGetRange (some (.typedVector [.int 3, .int 5])))⟩]⟩]) := by
    decide +kernel
  obtain ⟨t, hplain, _⟩ := run_plain hrun
  exact ⟨t, hplain⟩

end ListHandler

end FCache
