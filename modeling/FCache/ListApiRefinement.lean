import FCache.ClientRules
import FCache.ListApi
import FCache.ListDeque
import FCache.ListRefinement

/-!
# The list API gives what plain lists give

Each call, with its checks, what it sends and what it reads from the reply, gives what plain lists
give, which take positions, ranges and statuses as the server does. Three things are left to the
callers: sorted lists of floats are not created, items flagged as sorted are, and ranges to remove
are not inverted.
-/

namespace FCache.ListApi

open Client Slice UnsortedList

variable {F A : Type} (w : ListWriter F A)

namespace Lists

/-! ### What the calls do -/

def int32 (x : ℤ) : Except PyError Int32 :=
  if -2 ^ 31 ≤ x ∧ x < 2 ^ 31 then .ok (Int32.ofInt x) else .error .badNumber

def int64 (x : ℤ) : Except PyError Int64 :=
  if -2 ^ 63 ≤ x ∧ x < 2 ^ 63 then .ok (Int64.ofInt x) else .error .badNumber

def range (start : ℤ) (stop : Option ℤ) : Except PyError Range := do
  let first ← int32 start
  let last ← int32 (stop.getD 0)
  return { start := first, stop := last, hasStop := stop.isSome }

def items (items : List (PyValue F A)) : Except PyError TypedVector := do
  check (items.length = 0) "items cannot be empty"
  w.elements items

def refused (bodyType : BodyType) (status : Status) : PyError :=
  .responseError (.statusError bodyType status)

def named (s : PlainLists) (name : String) (bodyType : BodyType) : Except PyError PlainList :=
  match s.lookup (encode name) with
  | some l => .ok l
  | none => .error (refused bodyType .fail)

def typeOf (type : String) : Except PyError Alternative :=
  match listTypeOf type with
  | some .int => .ok .intList
  | some .uint => .ok .uintList
  | some .float => .ok .floatList
  | some .string => .ok .stringList
  | none => .error (.valueError "listType invalid")

/-- A name that is taken is an error if it is said to be one. -/
def create (s : PlainLists) (sorted : Bool) (name type : String) (failOnDuplicate : Bool) :
    Except PyError (PlainLists × Unit) := do
  let a ← typeOf type
  if (s.lookup (encode name)).isSome then
    if failOnDuplicate then .error (refused .listCreate .duplicate) else return (s, ())
  else return (s.insert (encode name) (PlainList.new a sorted), ())

/-- No names are all names. -/
def delete (s : PlainLists) (names : List String) : PlainLists :=
  if names = [] then ∅ else FiniteMap.eraseAll s (names.map encode)

def read (s : PlainLists) (name : String) (base : Base) (start : ℤ) (stop : Option ℤ) :
    Except PyError (List FlexScalar) := do
  check (name = "") "name is empty"
  let range ← range start stop
  let l ← named s name .listGetRange
  return (range.selected (if base = .head then l.elems else l.elems.reverse)).map ListValue.add

def first (s : PlainLists) (name : String) (base : Base) : Except PyError (Option FlexScalar) := do
  let items ← read s name base 0 (some 1)
  return items.head?

/-- A range seen to select nothing is not looked up. -/
def getRange (s : PlainLists) (name : String) (base : Base) (start : ℤ) (stop : Option ℤ) :
    Except PyError (List FlexScalar) :=
  if !isRangeValid start stop then .ok [] else read s name base start stop

/-- Nothing is removed from a list that is not there. -/
def remove (s : PlainLists) (name : String) (start : ℤ) (stop : Option ℤ) :
    Except PyError (PlainLists × Unit) := do
  check (!isRangeValid start stop) "range invalid"
  check (name = "") "list name empty"
  let range ← range start stop
  match s.lookup (encode name) with
  | some l => return (s.insert (encode name) (l.remove range), ())
  | none => return (s, ())

/-- The element type and the value of an argument; a `bool` is an `int`. -/
def value : PyValue F A → Except PyError (Σ a : Alternative, a.ValueType)
  | .str s => .ok ⟨.stringList, encode s⟩
  | .int i => (int64 i).map fun v => ⟨.intList, v⟩
  | .bool b => (int64 b.toNat).map fun v => ⟨.intList, v⟩
  | .float x => (w.float x).map fun v => ⟨.floatList, v⟩
  | .none => .error (.valueError "val cannot be none")
  | _ => .error (.valueError "val not supported type")

def removeIfEq (s : PlainLists) (name : String) (start : ℤ) (stop : Option ℤ)
    (val : PyValue F A) : Except PyError (PlainLists × ℕ) := do
  check (!isRangeValid start stop) "range invalid"
  let v ← value w val
  let range ← range start stop
  let l ← named s name .listRemoveIf
  let l' := l.removeEqual range v.1 v.2
  return (s.insert (encode name) l', l'.size % 2 ^ 32)

def info (s : PlainLists) (name : String) : Except PyError (ℕ × String × Bool) := do
  check (name = "") "name is empty"
  let l ← named s name .listInfo
  return (l.size % 2 ^ 32, listTypeName l.type.listType, l.isSorted)

def size (s : PlainLists) (name : String) : Except PyError ℕ := do
  let (size, _, _) ← info s name
  return size

def add (s : PlainLists) (name : String) (vector : List (PyValue F A)) (pos : ℤ) :
    Except PyError (PlainLists × ℕ) := do
  let items ← items w vector
  let position ← int32 pos
  let l ← named s name .listAdd
  let l' := l.insert (insertionPoint l.size position.toInt) items
  return (s.insert (encode name) l', l'.size % 2 ^ 32)

def addTail (s : PlainLists) (name : String) (vector : List (PyValue F A)) :
    Except PyError (PlainLists × ℕ) := do
  let items ← items w vector
  let l ← named s name .listAppend
  let l' := l.insert l.size items
  return (s.insert (encode name) l', l'.size % 2 ^ 32)

def set (s : PlainLists) (name : String) (vector : List (PyValue F A)) (pos : ℤ) :
    Except PyError (PlainLists × Unit) := do
  let items ← items w vector
  let position ← int32 pos
  match s.lookup (encode name) with
  | some l =>
    if l.isSorted then .error (refused .listSet .notPermitted)
    else return (s.insert (encode name) (l.overwrite items position.toInt), ())
  | none => return (s, ())

/-- Stored under a new name unless it is taken; without one, an intersection of which a side
selects nothing cannot be read. -/
def intersectNamed (s : PlainLists) (l : PlainList) (other : List l.type.ValueType)
    (range1 range2 : Range) : Option Bytes → Except PyError (PlainLists × Result)
  | some name =>
    .ok (if (s.lookup name).isSome then s
      else s.insert name (l.common (range1.selected l.elems) (range2.selected other)), .none)
  | none =>
    if range1.selected l.elems = [] ∨ range2.selected other = [] then .error .badBuffer
    else .ok (s, .list ((l.common (range1.selected l.elems)
      (range2.selected other)).elems.map ListValue.add))

def intersect (s : PlainLists) (list1 list2 : String) (l1Start : ℤ) (l1Stop : Option ℤ)
    (l2Start : ℤ) (l2Stop : Option ℤ) (newListName : Option String) :
    Except PyError (PlainLists × Result) := do
  check (list1.length = 0) "name1 empty"
  check (list2.length = 0) "name2 empty"
  let range1 ← range l1Start l1Stop
  let range2 ← range l2Start l2Stop
  let l1 ← named s list1 .listIntersect
  let l2 ← named s list2 .listIntersect
  match l1.sameType l2 with
  | some other =>
    if l1.isSorted && l2.isSorted then
      intersectNamed s l1 other range1 range2 (newNameField newListName)
    else .error (refused .listIntersect .fail)
  | none => .error (refused .listIntersect .fail)

/-- A call that raises changes nothing. -/
def step (s : PlainLists) : Call F A → Except PyError (PlainLists × Result)
  | .create sorted name type failOnDuplicate =>
    (create s sorted name type failOnDuplicate).map fun p => (p.1, .none)
  | .delete names => .ok (delete s names, .none)
  | .deleteAll => .ok (∅, .none)
  | .getHead name => (first s name .head).map fun x => (s, .item x)
  | .getTail name => (first s name .tail).map fun x => (s, .item x)
  | .getN name start count =>
    (read s name .head start (stopOf start count)).map fun xs => (s, .list xs)
  | .getNReverse name start count =>
    (read s name .tail start (stopOf start count)).map fun xs => (s, .list xs)
  | .getRange name start stop => (getRange s name .head start stop).map fun xs => (s, .list xs)
  | .getRangeReverse name start stop =>
    (getRange s name .tail start stop).map fun xs => (s, .list xs)
  | .remove name start stop => (remove s name start stop).map fun p => (p.1, .none)
  | .removeHead name => (remove s name 0 (some 1)).map fun p => (p.1, .none)
  | .removeTail name => (remove s name (-1) none).map fun p => (p.1, .none)
  | .removeIfEq name start stop val =>
    (removeIfEq w s name start stop val).map fun p => (p.1, .int p.2)
  | .size name => (size s name).map fun n => (s, .int n)
  | .info name => (info s name).map fun r => (s, .info r.1 r.2.1 r.2.2)
  | .add name items pos => (add w s name items pos).map fun p => (p.1, .int p.2)
  | .addSorted name items _ => (add w s name items 0).map fun p => (p.1, .int p.2)
  | .addHead name items => (add w s name items 0).map fun p => (p.1, .int p.2)
  | .addTail name items => (addTail w s name items).map fun p => (p.1, .int p.2)
  | .set name items pos => (set w s name items pos).map fun p => (p.1, .none)
  | .intersect list1 list2 l1Start l1Stop l2Start l2Stop newListName =>
    intersect s list1 list2 l1Start l1Stop l2Start l2Stop newListName

def machine : Machine PlainLists (Call F A) (Except PyError Result) where
  init := ∅
  step s c := some (after s (step w s c), (step w s c).map Prod.snd)

end Lists

/-! ### What is left to the callers -/

/-- The type and the size of the list of a name. -/
abbrev Shapes := Bytes → Option (Alternative × ℕ)

def Lists.shapes (t : PlainLists) : Shapes :=
  fun name => (t.lookup name).map fun l => (l.type, l.size)

def shapes (s : ListHandler) : Shapes :=
  fun name => (s.lookup name).map fun l => (l.list.alternative, l.list.elems.length)

def Allowed (shapes : Shapes) : Call F A → Prop
  | .create sorted _ type _ => sorted = true → Lists.typeOf type ≠ .ok .floatList
  | .addSorted name vector itemsSorted => itemsSorted = true →
    ∀ items ∈ (Lists.items w vector).toOption, ∀ l ∈ shapes (encode name),
      l.1.Ascending (items.map ListValue.as)
  | .remove name start stop =>
    ∀ range ∈ (Lists.range start stop).toOption, ∀ l ∈ shapes (encode name), ¬ range.inverted l.2
  | _ => True

instance (range : Range) (size : ℕ) : Decidable (range.inverted size) :=
  inferInstanceAs (Decidable (_ ∧ _))

instance (shapes : Shapes) (c : Call F A) : Decidable (Allowed w shapes c) :=
  match c with
  | .create .. => inferInstanceAs (Decidable (_ → _))
  | .addSorted name vector itemsSorted => inferInstanceAs (Decidable (itemsSorted = true →
      ∀ items ∈ (Lists.items w vector).toOption, ∀ l ∈ shapes (encode name),
        l.1.Ascending (items.map ListValue.as)))
  | .remove name start stop => inferInstanceAs (Decidable
      (∀ range ∈ (Lists.range start stop).toOption, ∀ l ∈ shapes (encode name),
        ¬ range.inverted l.2))
  | .delete .. | .deleteAll | .getHead .. | .getTail .. | .getN .. | .getNReverse ..
  | .getRange .. | .getRangeReverse .. | .removeHead .. | .removeTail .. | .removeIfEq ..
  | .size .. | .info .. | .add .. | .addHead .. | .addTail .. | .set .. | .intersect .. =>
    .isTrue trivial

/-- The plain lists with the calls that are allowed when they are made. -/
def Lists.allowed : Machine PlainLists (Call F A) (Except PyError Result) :=
  (Lists.machine w).restrict fun t c => Allowed w (Lists.shapes t) c

theorem shapes_eq {s : ListHandler} {t : PlainLists} (h : s.Represents t) :
    shapes s = Lists.shapes t := by
  funext name
  unfold shapes Lists.shapes
  rcases h.lookup_cases name with ⟨hs, ht⟩ | ⟨l, hs, ht, _⟩
  · rw [hs, ht]
    rfl
  · rw [hs, ht]
    rfl

section Calls

/-- The plain lists stand for the list handler, and the key-value handler is that given. -/
def Keeps (kv : KvHandler) (server : Server) (t : PlainLists) : Prop :=
  server.listHandler.Represents t ∧ server.kvHandler = kv

variable {w} {kv : KvHandler} {t t' : PlainLists} {req : ListRequest} {name : String}

/-- The handler of the request refines the plain lists from `t` on. -/
def Refines (t : PlainLists) (req : ListRequest) : Prop :=
  ∀ s : ListHandler, s.Represents t →
    ListHandler.Represents.Answers (t.step req) (ListHandler.handle req ⟨s, {}⟩)

theorem answers (h : Refines t req) :
    Answers (Keeps kv) (.list (some req)) t (t.step req).2 (t.step req).1 := by
  rintro server ⟨hlists, hkv⟩
  obtain ⟨lists, fbb, hhandle, hrep, hdecoded⟩ := h _ hlists
  exact ⟨{ server with listHandler := lists }, fbb, Server.step_of_handle hhandle, hdecoded, hrep,
    hkv⟩

theorem sendCmd_yields (h : Refines t req) {expected : BodyType} {body : Option ResponseTable}
    (hstep : t.step req = (t', some ⟨.ok, expected, body⟩)) (allowDuplicate : Bool) :
    Yields (Keeps kv) (sendCmd (.list (some req)) expected allowDuplicate) t
      (.ok ⟨.ok, expected, body⟩) t' := by
  have hanswers := @answers kv t req h
  rw [hstep] at hanswers
  exact .sendCmd_ok hanswers allowDuplicate

theorem sendCmd_refused (h : Refines t req) {status : Status} {expected : BodyType}
    {body : Option ResponseTable}
    (hstep : t.step req = (t', some ⟨status, expected, body⟩)) (hstatus : status ≠ .ok) :
    Yields (Keeps kv) (sendCmd (.list (some req)) expected) t
      (.error (Lists.refused expected status)) t' := by
  have hanswers := @answers kv t req h
  rw [hstep] at hanswers
  have hsend := Yields.sendCmd hanswers expected false
  simpa [raiseIfFail, hstatus, Lists.refused] using hsend

/-! ### Checks and conversions -/

theorem int32_yields (x : ℤ) : Yields (Keeps kv) (int32 x) t (Lists.int32 x) t := by
  unfold int32 Lists.int32
  split
  · exact .pure _ t
  · exact .throw _ t

theorem int64_yields (x : ℤ) : Yields (Keeps kv) (int64 x) t (Lists.int64 x) t := by
  unfold int64 Lists.int64
  split
  · exact .pure _ t
  · exact .throw _ t

theorem range_yields (start : ℤ) (stop : Option ℤ) :
    Yields (Keeps kv) (range start stop) t (Lists.range start stop) t :=
  .seq (int32_yields start) fun _ _ => .seq (int32_yields _) fun _ _ => .pure _ t

theorem itemsVector_yields (items : List (PyValue F A)) :
    Yields (Keeps kv) (itemsVector w items) t (Lists.items w items) t :=
  .seq (.check _ _ t) fun _ _ => .ofExcept _ t

/-- There is an item to be added. -/
theorem items_ne_nil {vector : List (PyValue F A)} {items : TypedVector}
    (h : Lists.items w vector = .ok items) : items ≠ [] := by
  rintro rfl
  unfold Lists.items check at h
  by_cases hempty : vector.length = 0
  · simp [hempty] at h
    cases h
  · simp only [hempty, decide_false, Bool.false_eq_true, if_false] at h
    exact hempty (w.length_eq h).symm

theorem map_toValue (a : Alternative) (r : Except PyError a.ValueType) :
    (r.map fun v => (⟨a, v⟩ : Σ a : Alternative, a.ValueType)).map (fun v => v.1.toValue v.2) =
      r.map a.toValue := by
  cases r <;> rfl

theorem valueOf_yields (val : PyValue F A) : Yields (Keeps kv) (valueOf w val) t
    ((Lists.value w val).map fun v => v.1.toValue v.2) t := by
  cases val with
  | str s => exact .pure _ t
  | int i =>
    have hint := (@int64_yields kv t i).map Value.intValue
    exact (map_toValue .intList (Lists.int64 i)).symm ▸ hint
  | bool b =>
    have hint := (@int64_yields kv t b.toNat).map Value.intValue
    exact (map_toValue .intList (Lists.int64 b.toNat)).symm ▸ hint
  | float x =>
    have hfloat := (Yields.ofExcept (R := Keeps kv) (w.float x) t).map Value.floatValue
    exact (map_toValue .floatList (w.float x)).symm ▸ hfloat
  | none | bytes | array | list => exact .throw _ t

theorem check_name (name msg : String) :
    check (encode name = []) msg = check (name = "") msg := by
  rw [decide_eq_decide.mpr (encode_eq_nil (s := name))]

/-! ### Calls -/

theorem typeOf_cases (type : String) :
    (listTypeOf type = none ∧ Lists.typeOf type = .error (.valueError "listType invalid")) ∨
      ∃ a : Alternative, listTypeOf type = some a.listType ∧ Lists.typeOf type = .ok a := by
  unfold Lists.typeOf
  cases listTypeOf type with
  | none => exact .inl ⟨rfl, rfl⟩
  | some listType =>
    right
    cases listType with
    | int => exact ⟨.intList, rfl, rfl⟩
    | uint => exact ⟨.uintList, rfl, rfl⟩
    | float => exact ⟨.floatList, rfl, rfl⟩
    | string => exact ⟨.stringList, rfl, rfl⟩

theorem ofByte_listType (a : Alternative) : Alternative.ofByte a.listType.toByte = some a := by
  cases a <;> rfl

theorem create_does (sorted : Bool) (name type : String) (failOnDuplicate : Bool)
    (hfloat : sorted = true → Lists.typeOf type ≠ .ok .floatList) :
    Does (Keeps kv) (createList (encode name) type sorted failOnDuplicate) t
      (Lists.create t sorted name type failOnDuplicate) := by
  unfold createList
  rcases typeOf_cases type with ⟨hlist, htype⟩ | ⟨a, hlist, htype⟩
  · have hcreate : Lists.create t sorted name type failOnDuplicate =
        .error (.valueError "listType invalid") := by
      unfold Lists.create
      rw [htype]
      rfl
    rw [hlist, hcreate]
    exact .throw _ t
  · let req : ListRequest := .create { name := encode name, type := a.listType.toByte, sorted }
    have hrefines : Refines t req := by
      intro s h
      apply h.handleCreate
      rintro hsorted hbyte
      rw [htype] at hfloat
      exact hfloat hsorted (congrArg Except.ok (ListHandler.toByte_listType_injective hbyte))
    have hstep : t.step req = if (t.lookup (encode name)).isSome then
        (t, some ⟨.duplicate, .listCreate, none⟩)
        else (t.insert (encode name) (PlainList.new a sorted), some ⟨.ok, .listCreate, none⟩) := by
      show PlainLists.create t _ = _
      unfold PlainLists.create
      rw [ofByte_listType]
      rfl
    have hcreate : Lists.create t sorted name type failOnDuplicate =
        if (t.lookup (encode name)).isSome then
          if failOnDuplicate then .error (Lists.refused .listCreate .duplicate) else .ok (t, ())
        else .ok (t.insert (encode name) (PlainList.new a sorted), ()) := by
      unfold Lists.create
      rw [htype]
      rfl
    rw [hlist, hcreate]
    by_cases htaken : (t.lookup (encode name)).isSome
    · rw [if_pos htaken] at hstep ⊢
      cases failOnDuplicate with
      | true => exact .bind_error (sendCmd_refused hrefines hstep (by decide))
      | false =>
        have hanswers := @answers kv t req hrefines
        rw [hstep] at hanswers
        exact .bind_pure (.sendCmd hanswers .listCreate true) rfl
    · rw [if_neg htaken] at hstep ⊢
      exact .bind_pure (sendCmd_yields hrefines hstep _) rfl

theorem delete_does (names : List String) :
    Does (Keeps kv) (delete names) t (.ok (Lists.delete t names, ())) := by
  have hstep : t.step (.delete { name := (names.map encode).reverse }) =
      (Lists.delete t names, some ⟨.ok, .listDelete, none⟩) := by
    have herase := FiniteMap.eraseAll_congr
      (fun _ => List.mem_reverse : ∀ k, k ∈ (names.map encode).reverse ↔ k ∈ names.map encode) t
    simp [PlainLists.step, PlainLists.delete, PlainLists.succeed, Lists.delete, herase]
  have hrefines : Refines t (.delete { name := (names.map encode).reverse }) :=
    fun s h => h.handleDelete _
  exact .bind_pure (sendCmd_yields hrefines hstep false) rfl

/-! ### Reading -/

theorem doGetRange_yields (name : String) (base : Base) (start : ℤ) (stop : Option ℤ) :
    Yields (Keeps kv) (doGetRange (encode name) base start stop) t
      (Lists.read t name base start stop) t := by
  unfold doGetRange Lists.read
  rw [← check_name]
  refine .seq (.check _ _ t) fun _ _ => .seq (range_yields start stop) fun range _ => ?_
  have hrefines : Refines t (.getRange { name := encode name, range, base }) :=
    fun s h => h.handleGetRange _
  unfold Lists.named
  cases hl : t.lookup (encode name) with
  | none =>
    have hstep : t.step (.getRange { name := encode name, range, base }) =
        (t, some ⟨.fail, .listGetRange, none⟩) := by
      simp [PlainLists.step, PlainLists.getRange, hl, PlainLists.fail]
    exact .bind_error (sendCmd_refused hrefines hstep (by decide))
  | some l =>
    have hstep : t.step (.getRange { name := encode name, range, base }) =
        (t, some ⟨.ok, .listGetRange, some (.listGetRange (some (.typedVector
          ((range.selected (if base = .head then l.elems else l.elems.reverse)).map
            ListValue.add))))⟩) := by
      simp [PlainLists.step, PlainLists.getRange, hl, PlainLists.succeed]
    exact .bind (sendCmd_yields hrefines hstep false) (.pure _ t)

theorem getRange_yields (name : String) (base : Base) (start : ℤ) (stop : Option ℤ) :
    Yields (Keeps kv) (getRange name base start stop) t (Lists.getRange t name base start stop)
      t := by
  unfold getRange Lists.getRange
  split
  · exact .pure _ t
  · exact doGetRange_yields name base start stop

theorem info_yields (name : String) :
    Yields (Keeps kv) (info (encode name)) t (Lists.info t name) t := by
  unfold info Lists.info
  rw [← check_name]
  refine .seq (.check _ _ t) fun _ _ => ?_
  have hrefines : Refines t (.info { name := encode name }) := fun s h => h.handleInfo _
  unfold Lists.named
  cases hl : t.lookup (encode name) with
  | none =>
    have hstep : t.step (.info { name := encode name }) =
        (t, some ⟨.fail, .listInfo, none⟩) := by
      simp [PlainLists.step, PlainLists.info, hl, PlainLists.fail]
    exact .bind_error (sendCmd_refused hrefines hstep (by decide))
  | some l =>
    have hstep : t.step (.info { name := encode name }) = (t, some ⟨.ok, .listInfo,
        some (.listInfo (UInt32.ofNat l.size) l.type.listType l.isSorted)⟩) := by
      simp [PlainLists.step, PlainLists.info, hl, PlainLists.succeed]
    have hsize : (UInt32.ofNat l.size).toNat = l.size % 2 ^ 32 := UInt32.toNat_ofNat
    refine .bind (sendCmd_yields hrefines hstep false) ?_
    simp only [hsize]
    exact .pure _ t

theorem getHead_yields (name : String) :
    Yields (Keeps kv) (getHead (encode name)) t (Lists.first t name .head) t :=
  .seq (doGetRange_yields name .head 0 (some 1)) fun _ _ => .pure _ t

theorem getTail_yields (name : String) :
    Yields (Keeps kv) (getTail (encode name)) t (Lists.first t name .tail) t :=
  .seq (doGetRange_yields name .tail 0 (some 1)) fun _ _ => .pure _ t

theorem size_yields (name : String) :
    Yields (Keeps kv) (size (encode name)) t (Lists.size t name) t :=
  .seq (info_yields name) fun _ _ => .pure _ t

/-! ### Changing -/

theorem remove_does (name : String) (start : ℤ) (stop : Option ℤ)
    (hinv : ∀ range l, Lists.range start stop = .ok range → t.lookup (encode name) = some l →
      ¬ range.inverted l.size) :
    Does (Keeps kv) (remove (encode name) start stop) t (Lists.remove t name start stop) := by
  unfold remove Lists.remove
  rw [← check_name]
  refine .bind (.check _ _ t) fun _ _ => .bind (.check _ _ t) fun _ _ =>
    .bind (range_yields start stop) fun range hrange => ?_
  have hrefines : Refines t (.remove { name := encode name, range }) :=
    fun s h => h.handleRemove_ordered _ fun l hl => hinv range l hrange hl
  cases hl : t.lookup (encode name) with
  | none =>
    have hstep : t.step (.remove { name := encode name, range }) =
        (t, some ⟨.ok, .listRemove, none⟩) := by
      simp [PlainLists.step, PlainLists.remove, hl, PlainLists.succeed]
    exact .bind_pure (sendCmd_yields hrefines hstep false) rfl
  | some l =>
    have hstep : t.step (.remove { name := encode name, range }) =
        (t.insert (encode name) (l.remove range), some ⟨.ok, .listRemove, none⟩) := by
      simp [PlainLists.step, PlainLists.remove, hl, PlainLists.succeed]
    exact .bind_pure (sendCmd_yields hrefines hstep false) rfl

theorem removeIfEq_does (name : String) (start : ℤ) (stop : Option ℤ) (val : PyValue F A) :
    Does (Keeps kv) (removeIfEq w name start stop val) t
      (Lists.removeIfEq w t name start stop val) := by
  unfold removeIfEq Lists.removeIfEq
  refine .bind (.check _ _ t) fun _ _ => ?_
  have hvalue := @valueOf_yields _ _ w kv t val
  cases hv : Lists.value w val with
  | error e =>
    rw [hv] at hvalue
    exact .bind_error hvalue
  | ok v =>
    rw [hv] at hvalue
    refine .bind_ok hvalue (.bind (range_yields start stop) fun range _ => ?_)
    let req : ListRequest := .removeIf { name := encode name, range, value := v.1.toValue v.2 }
    have hrefines : Refines t req := fun s h => h.handleRemoveIf _
    have hremove := ListHandler.removeIfValue_toValue v.1 v.2
    unfold Lists.named
    cases hl : t.lookup (encode name) with
    | none =>
      have hstep : t.step req = (t, some ⟨.fail, .listRemoveIf, none⟩) := by
        simp [req, PlainLists.step, PlainLists.removeIf, hl, PlainLists.fail]
      exact .bind_error (sendCmd_refused hrefines hstep (by decide))
    | some l =>
      have hstep : t.step req = (t.insert (encode name) (l.removeEqual range v.1 v.2),
          some ⟨.ok, .listRemoveIf,
            some (.listRemoveIf (UInt32.ofNat (l.removeEqual range v.1 v.2).size))⟩) := by
        simp [req, PlainLists.step, PlainLists.removeIf, hl, hremove, PlainLists.succeed]
      have hsize : (UInt32.ofNat (l.removeEqual range v.1 v.2).size).toNat =
          (l.removeEqual range v.1 v.2).size % 2 ^ 32 := UInt32.toNat_ofNat
      exact .bind_pure (sendCmd_yields hrefines hstep false) (congrArg pure hsize)

theorem add_does (name : String) (vector : List (PyValue F A)) (pos : ℤ) (itemsSorted : Bool)
    (hsorted : itemsSorted = true → ∀ items l, Lists.items w vector = .ok items →
      t.lookup (encode name) = some l → l.type.Ascending (items.map ListValue.as)) :
    Does (Keeps kv) (add w name vector pos itemsSorted) t (Lists.add w t name vector pos) := by
  unfold add Lists.add doAdd
  refine .bind (itemsVector_yields vector) fun items hitems => ?_
  have hne := items_ne_nil hitems
  refine .bind_ok (.raiseIf_false (by simp [hne]) _ t)
    (.bind (int32_yields pos) fun position _ => ?_)
  rw [List.map_id]
  let req : ListRequest := .add { name := encode name, items, position, itemsSorted }
  have hrefines : Refines t req := by
    intro s h
    refine h.doAddAppend (encode name) false position.toInt ?_ rfl
    intro hflag l hs
    rcases h.lookup_cases (encode name) with ⟨hnone, _⟩ | ⟨p, hsome, hp, _⟩
    · cases hnone.symm.trans hs
    · cases hsome.symm.trans hs
      exact hsorted hflag items p hitems hp
  unfold Lists.named
  cases hl : t.lookup (encode name) with
  | none =>
    have hstep : t.step req = (t, some ⟨.fail, .listAdd, none⟩) := by
      simp [req, PlainLists.step, PlainLists.add, hl, PlainLists.fail]
    exact .bind_error (sendCmd_refused hrefines hstep (by decide))
  | some l =>
    let added := l.insert (insertionPoint l.size position.toInt) items
    have hstep : t.step req = (t.insert (encode name) added,
        some ⟨.ok, .listAdd, some (.listAdd (UInt32.ofNat added.size))⟩) := by
      simp [req, added, PlainLists.step, PlainLists.add, hl, hne, PlainLists.succeed]
    have hsize : (UInt32.ofNat added.size).toNat = added.size % 2 ^ 32 := UInt32.toNat_ofNat
    exact .bind_pure (sendCmd_yields hrefines hstep false) (congrArg pure hsize)

theorem addTail_does (name : String) (vector : List (PyValue F A)) :
    Does (Keeps kv) (addTail w name vector) t (Lists.addTail w t name vector) := by
  unfold addTail Lists.addTail UnsortedList.addTail
  refine .bind (itemsVector_yields vector) fun items hitems => ?_
  have hne := items_ne_nil hitems
  refine .bind_ok (.raiseIf_false (by simp [hne]) _ t) ?_
  rw [List.map_id]
  let req : ListRequest := .append { name := encode name, items }
  have hrefines : Refines t req :=
    fun s h => h.doAddAppend (encode name) true 0 (fun hf => by cases hf) rfl
  unfold Lists.named
  cases hl : t.lookup (encode name) with
  | none =>
    have hstep : t.step req = (t, some ⟨.fail, .listAppend, none⟩) := by
      simp [req, PlainLists.step, PlainLists.add, hl, PlainLists.fail]
    exact .bind_error (sendCmd_refused hrefines hstep (by decide))
  | some l =>
    let added := l.insert l.size items
    have hstep : t.step req = (t.insert (encode name) added,
        some ⟨.ok, .listAppend, some (.listAppend (UInt32.ofNat added.size))⟩) := by
      simp [req, added, PlainLists.step, PlainLists.add, hl, hne, PlainLists.succeed]
    have hsize : (UInt32.ofNat added.size).toNat = added.size % 2 ^ 32 := UInt32.toNat_ofNat
    exact .bind_pure (sendCmd_yields hrefines hstep false) (congrArg pure hsize)

theorem set_does (name : String) (vector : List (PyValue F A)) (pos : ℤ) :
    Does (Keeps kv) (set w name vector pos) t (Lists.set w t name vector pos) := by
  unfold set Lists.set
  refine .bind (itemsVector_yields vector) fun items hitems =>
    .bind (int32_yields pos) fun position _ => ?_
  have hne := items_ne_nil hitems
  let req : ListRequest := .set { name := encode name, position, items }
  have hrefines : Refines t req := fun s h => h.handleSet _
  cases hl : t.lookup (encode name) with
  | none =>
    have hstep : t.step req = (t, some ⟨.ok, .listSet, none⟩) := by
      simp [req, PlainLists.step, PlainLists.set, hl, PlainLists.succeed]
    exact .bind_pure (sendCmd_yields hrefines hstep false) rfl
  | some l =>
    show Does (Keeps kv) _ t (if l.isSorted then .error (Lists.refused .listSet .notPermitted)
      else .ok (t.insert (encode name) (l.overwrite items position.toInt), ()))
    cases hsorted : l.isSorted with
    | true =>
      have hstep : t.step req = (t, some ⟨.notPermitted, .listSet, none⟩) := by
        simp [req, PlainLists.step, PlainLists.set, hl, hne, hsorted]
      exact .bind_error (sendCmd_refused hrefines hstep (by decide))
    | false =>
      have hstep : t.step req = (t.insert (encode name) (l.overwrite items position.toInt),
          some ⟨.ok, .listSet, none⟩) := by
        simp [req, PlainLists.step, PlainLists.set, hl, hne, hsorted, PlainLists.succeed]
      exact .bind_pure (sendCmd_yields hrefines hstep false) rfl

theorem newNameField_ne_nil {newListName : Option String} {n : Bytes}
    (h : newNameField newListName = some n) : n ≠ [] := by
  obtain ⟨s, hs, rfl⟩ := Option.map_eq_some_iff.mp h
  rw [Option.filter_eq_some_iff] at hs
  rw [ne_eq, encode_eq_nil]
  simpa using hs.2

/-- The reply to an intersection of two sorted lists, as the client reads it. -/
theorem intersectNamed_does {req : ListIntersect} (hrefines : Refines t (.intersect req))
    {l : PlainList} {other : List l.type.ValueType}
    (hstep : t.step (.intersect req) = t.intersectSorted req l other)
    {newListName : Option String} (hname : req.newListName = newNameField newListName) :
    Does (Keeps kv) (sendCmd (.list (some (.intersect req))) .listIntersect >>= fun rsp =>
      match newNameField newListName with
      | some _ => return Result.none
      | none =>
        match rsp.body with
        | some (.listIntersect items) => return .list (← loads items)
        | _ => throw .noBody) t
      (Lists.intersectNamed t l other req.list1Range req.list2Range
        (newNameField newListName)) := by
  unfold Lists.intersectNamed
  unfold PlainLists.intersectSorted at hstep
  rw [hname] at hstep
  cases hfield : newNameField newListName with
  | some name =>
    rw [hfield, Option.getD_some] at hstep
    simp only [newNameField_ne_nil hfield, if_false] at hstep
    exact .bind_pure (sendCmd_yields hrefines hstep false) rfl
  | none =>
    simp only [hfield, Option.getD_none, if_true] at hstep
    by_cases hsel : req.list1Range.selected l.elems = [] ∨ req.list2Range.selected other = []
    · rw [if_pos hsel] at hstep
      simp only [if_pos hsel]
      exact .bind_ok (sendCmd_yields hrefines hstep false) (.bind_error (.throw _ t))
    · rw [if_neg hsel] at hstep
      simp only [if_neg hsel]
      exact .bind_ok (sendCmd_yields hrefines hstep false) (.bind_pure (.pure _ t) rfl)

theorem intersect_does (list1 list2 : String) (l1Start : ℤ) (l1Stop : Option ℤ) (l2Start : ℤ)
    (l2Stop : Option ℤ) (newListName : Option String) :
    Does (Keeps kv) (intersect list1 list2 l1Start l1Stop l2Start l2Stop newListName) t
      (Lists.intersect t list1 list2 l1Start l1Stop l2Start l2Stop newListName) := by
  unfold intersect Lists.intersect
  refine .bind (.check _ _ t) fun _ _ => .bind (.check _ _ t) fun _ _ =>
    .bind (range_yields _ _) fun range1 _ => .bind (range_yields _ _) fun range2 _ => ?_
  let req : ListIntersect :=
    { list1Name := encode list1, list2Name := encode list2, list1Range := range1,
      list2Range := range2, newListName := newNameField newListName }
  have hrefines : Refines t (.intersect req) := fun s h => h.handleIntersect req
  have hfailed : t.step (.intersect req) = (t, some ⟨.fail, .listIntersect, none⟩) →
      Yields (Keeps kv) (sendCmd (.list (some (.intersect req))) .listIntersect) t
        (.error (Lists.refused .listIntersect .fail)) t :=
    fun hstep => sendCmd_refused hrefines hstep (by decide)
  have hstep : t.step (.intersect req) = t.intersect req := rfl
  unfold PlainLists.intersect at hstep
  unfold Lists.named
  cases hl1 : t.lookup (encode list1) with
  | none =>
    simp only [req, hl1] at hstep
    exact .bind_error (hfailed hstep)
  | some l1 =>
    cases hl2 : t.lookup (encode list2) with
    | none =>
      simp only [req, hl1, hl2] at hstep
      exact .bind_error (hfailed hstep)
    | some l2 =>
      simp only [req, hl1, hl2] at hstep
      show Does (Keeps kv) _ t (match l1.sameType l2 with
        | some other =>
          if l1.isSorted && l2.isSorted then
            Lists.intersectNamed t l1 other range1 range2 (newNameField newListName)
          else .error (Lists.refused .listIntersect .fail)
        | none => .error (Lists.refused .listIntersect .fail))
      cases hother : l1.sameType l2 with
      | none =>
        rw [hother] at hstep
        exact .bind_error (hfailed hstep)
      | some other =>
        simp only [hother] at hstep
        by_cases hsorted : (l1.isSorted && l2.isSorted) = true
        · simp only [if_pos hsorted] at hstep ⊢
          exact intersectNamed_does hrefines hstep rfl
        · simp only [if_neg hsorted] at hstep ⊢
          exact .bind_error (hfailed hstep)

/-! ### Runs -/

theorem not_inverted_head (size : ℕ) :
    ¬ Range.inverted { start := 0, stop := 1, hasStop := true } size := by
  rintro ⟨_, hlt⟩
  simp [stopIndex, position] at hlt
  omega

theorem not_inverted_noStop {range : Range} (h : range.hasStop = false) (size : ℕ) :
    ¬ range.inverted size := by
  rintro ⟨⟨_, hstart⟩, hlt⟩
  rw [h, stopIndex_noStop rfl] at hlt
  unfold position at hlt
  split at hlt <;> omega

/-- Each call that is allowed does on the server what it does on the plain lists. -/
theorem perform_does (c : Call F A) (h : Allowed w (Lists.shapes t) c) :
    Does (Keeps kv) (perform w c) t (Lists.step w t c) := by
  cases c with
  | create sorted name type failOnDuplicate =>
    exact (create_does sorted name type failOnDuplicate h).map _
  | delete names => exact (delete_does names).map fun _ => Result.none
  | deleteAll => exact (delete_does []).map fun _ => Result.none
  | getHead name => exact (getHead_yields name).map_does _
  | getTail name => exact (getTail_yields name).map_does _
  | getN name start count => exact (doGetRange_yields name .head start _).map_does _
  | getNReverse name start count => exact (doGetRange_yields name .tail start _).map_does _
  | getRange name start stop => exact (getRange_yields name .head start stop).map_does _
  | getRangeReverse name start stop => exact (getRange_yields name .tail start stop).map_does _
  | remove name start stop =>
    refine (remove_does name start stop fun range l hrange hl => ?_).map _
    exact h range (by rw [hrange]; rfl) (l.type, l.size) (by simp [Lists.shapes, hl])
  | removeHead name =>
    refine (remove_does name 0 (some 1) fun range l hrange _ => ?_).map _
    cases hrange
    exact not_inverted_head l.size
  | removeTail name =>
    refine (remove_does name (-1) none fun range l hrange _ => ?_).map _
    cases hrange
    exact not_inverted_noStop rfl l.size
  | removeIfEq name start stop val => exact (removeIfEq_does name start stop val).map _
  | size name => exact (size_yields name).map_does _
  | info name => exact (info_yields name).map_does _
  | add name vector pos => exact (add_does name vector pos false fun hf => by cases hf).map _
  | addSorted name vector itemsSorted =>
    refine (add_does name vector 0 itemsSorted fun hflag items l hitems hl => ?_).map _
    exact h hflag items (by rw [hitems]; rfl) (l.type, l.size) (by simp [Lists.shapes, hl])
  | addHead name vector => exact (add_does name vector 0 false fun hf => by cases hf).map _
  | addTail name vector => exact (addTail_does name vector).map _
  | set name vector pos => exact (set_does name vector pos).map _
  | intersect list1 list2 l1Start l1Stop l2Start l2Stop newListName =>
    exact intersect_does list1 list2 l1Start l1Stop l2Start l2Stop newListName

end Calls

theorem step_lists (kv : KvHandler) {server : Server} {t t' : PlainLists} {c : Call F A}
    {result : Except PyError Result} (h : Keeps kv server t)
    (hstep : (Lists.allowed w).step t c = some (t', result)) :
    ∃ server', (machine w).step server c = some (server', result) ∧ Keeps kv server' t' := by
  obtain ⟨hallowed, hstep⟩ := Machine.step_restrict_eq_some.mp hstep
  obtain ⟨rfl, rfl⟩ := Prod.mk.inj (Option.some.inj hstep)
  obtain ⟨server', hcall, h'⟩ := perform_does c hallowed server h
  refine ⟨server', ?_, h'⟩
  change (call (perform w c) server).map Prod.swap = _
  rw [hcall]
  rfl

/-- Any sequence of calls that are allowed when they are made gives on a server what it gives on
the plain lists that its lists stand for, and leaves the key-value store as it is. -/
theorem runFrom_lists {server : Server} {t t' : PlainLists} {calls : List (Call F A)}
    {results : List (Except PyError Result)} (h : server.listHandler.Represents t)
    (hrun : (Lists.allowed w).runFrom t calls = some (t', results)) :
    ∃ server', (machine w).runFrom server calls = some (server', results) ∧
      server'.listHandler.Represents t' ∧ server'.kvHandler = server.kvHandler := by
  have hrefines := Machine.runFrom_refines (M := machine w)
    (N := Lists.allowed w) (R := Keeps server.kvHandler) (f := id)
    (g := id) (fun _ _ _ _ _ => step_lists w server.kvHandler) ⟨h, rfl⟩ hrun
  rwa [List.map_id, List.map_id] at hrefines

def integer : PyValue FcFloat Empty → Except PyError Item
  | .int i => (Lists.int64 i).map fun v => ⟨v, 0, ⟨0⟩, []⟩
  | _ => .error .badBuffer

theorem length_mapM {α β : Type} {f : α → Except PyError β} :
    ∀ {l : List α} {l' : List β}, l.mapM f = .ok l' → l'.length = l.length := by
  intro l
  induction l with
  | nil =>
    intro l' h
    cases h
    rfl
  | cons x l ih =>
    intro l' h
    rw [List.mapM_cons] at h
    obtain ⟨y, _, h⟩ := bind_eq_ok h
    obtain ⟨ys, hys, h⟩ := bind_eq_ok h
    cases h
    rw [List.length_cons, List.length_cons, ih hys]

/-- A builder that writes integers. -/
def integerWriter : ListWriter FcFloat Empty where
  float x := .ok x
  elements items := items.mapM integer
  length_eq := length_mapM

/-- Two of three items are removed, and what is left is read; a position outside `int32` is not
sent. -/
theorem runFrom_lists_removed :
    let calls : List (Call FcFloat Empty) :=
      [.create false "a" "int" true, .addTail "a" [.int 5, .int 3, .int 5],
        .removeIfEq "a" 0 none (.int 5), .getTail "a", .add "a" [.int 1] (2 ^ 31),
        .remove "a" (-2) (some 1), .getRange "a" 0 none]
    ∃ server' t', (machine integerWriter).runFrom {} calls = some (server',
        [.ok .none, .ok (.int 3), .ok (.int 1), .ok (.item (some (.int 3))),
          .error .badNumber, .ok .none, .ok (.list [.int 3])]) ∧
      server'.listHandler.Represents t' ∧ server'.kvHandler = {} := by
  intro calls
  have hresults : ((Lists.allowed integerWriter).runFrom ∅ calls).map Prod.snd = some
        [.ok .none, .ok (.int 3), .ok (.int 1), .ok (.item (some (.int 3))), .error .badNumber,
          .ok .none, .ok (.list [.int 3])] := by
    decide +kernel
  obtain ⟨⟨t', results⟩, hrun, rfl⟩ := Option.map_eq_some_iff.mp hresults
  have hempty : ListHandler.Represents ({} : Server).listHandler ∅ := ListHandler.Represents.init
  obtain ⟨server', hserver⟩ := runFrom_lists integerWriter hempty hrun
  exact ⟨server', t', hserver⟩

end FCache.ListApi
