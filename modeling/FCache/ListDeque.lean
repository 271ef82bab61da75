import FCache.ListEnds
import FCache.UnsortedList
import FCache.Deque

/-!
# An unsorted list is a deque

A list created by the client and used through the calls that work on its ends answers what the
reference deque answers, for runs of any length.
-/

namespace FCache

open Client

theorem Server.step_of_handle {server : Server} {req : ListRequest} {lists : ListHandler}
    {fbb : FlatBuilder}
    (h : ListHandler.handle req ⟨server.listHandler, {}⟩ = .ok () ⟨lists, fbb⟩) :
    Server.machine.step server (.list (some req)) =
      some ({ server with listHandler := lists }, fbb) := by
  have hstep : ListHandler.machine.step server.listHandler req = some (lists, fbb) :=
    Handling.answered_eq_some.mpr h
  rw [Server.step_list, hstep]
  rfl

/-- The server with other elements in an unsorted list. -/
def Server.withUnsorted (server : Server) (name : Bytes) (a : Alternative)
    (elems : List a.ValueType) : Server :=
  { server with
    listHandler := server.listHandler.insert name (FcList.ofList ⟨a, elems⟩ false) }

theorem Server.withUnsorted_holds (server : Server) (name : Bytes) (a : Alternative)
    (elems : List a.ValueType) :
    (server.withUnsorted name a elems).listHandler.HoldsUnsorted name a elems :=
  Finmap.lookup_insert _

namespace UnsortedList

variable {α : Type} (encode : α → Item) (name : Bytes)

/-- The calls of the API that are operations of a deque. -/
def dequeCall : Deque.Op α → Client (Deque.Answer FlexScalar)
  | .addHead items => return .size (← addHead encode name items)
  | .addTail items => return .size (← addTail encode name items)
  | .removeHead => do
    removeHead name
    return .done
  | .removeTail => do
    removeTail name
    return .done
  | .getHead => return .item (← getHead name)
  | .getTail => return .item (← getTail name)
  | .size => return .size (← size name)

/-- The client and the server together, read call by call. -/
def dequeMachine : Machine Server (Deque.Op α) (Except PyError (Deque.Answer FlexScalar)) where
  init := {}
  step server op := (call (dequeCall encode name op) server).map fun r => (r.2, r.1)

variable {name} {server : Server} {a : Alternative} {d : List a.ValueType}

theorem call_range (start : ℤ) (stop : Option ℤ) (h₁ : -2 ^ 31 ≤ start ∧ start < 2 ^ 31)
    (h₂ : -2 ^ 31 ≤ stop.getD 0 ∧ stop.getD 0 < 2 ^ 31) (server : Server) :
    call (range start stop) server = some (.ok
      { start := Int32.ofInt start, stop := Int32.ofInt (stop.getD 0), hasStop := stop.isSome },
      server) := by
  unfold range
  simp only [call_bind, call_int32 h₁, call_int32 h₂, Option.bind_some, call_pure]

theorem call_first (h : server.listHandler.HoldsUnsorted name a d)
    (hname : name ≠ []) (base : Base) :
    call (doGetRange name base 0 (some 1)) server = some (.ok
      (((if base = .head then d else d.reverse).take 1).map ListValue.add), server) := by
  have hstep := Server.step_of_handle (ListHandler.handleGetRange_first h base)
  have hsend := call_sendCmd_ok hstep rfl false
  unfold doGetRange
  rw [decide_eq_false hname]
  simp only [call_bind, call_raiseIf_false, Option.bind_some,
    call_range 0 (some 1) (by decide) (by decide)]
  exact congrArg (fun r => Option.bind r _) hsend

theorem call_getHead (h : server.listHandler.HoldsUnsorted name a d)
    (hname : name ≠ []) :
    call (getHead name) server = some (.ok (d.head?.map ListValue.add), server) := by
  have hstop : stopOf 0 (some 1) = some 1 := rfl
  unfold getHead getN
  rw [hstop, call_bind, call_first h hname .head]
  simp only [if_true, Option.bind_some, call_pure, List.head?_map, List.head?_take]
  rfl

theorem call_getTail (h : server.listHandler.HoldsUnsorted name a d)
    (hname : name ≠ []) :
    call (getTail name) server = some (.ok (d.getLast?.map ListValue.add), server) := by
  have hstop : stopOf 0 (some 1) = some 1 := rfl
  have hbase : ¬ Base.tail = Base.head := by decide
  unfold getTail getNReverse
  rw [hstop, call_bind, call_first h hname .tail, if_neg hbase]
  simp only [Option.bind_some, call_pure, List.head?_map, List.head?_take, List.head?_reverse]
  rfl

theorem call_remove (h : server.listHandler.HoldsUnsorted name a d)
    (hname : name ≠ []) {start : ℤ} {stop : Option ℤ}
    (hvalid : isRangeValid start stop = true) (h₁ : -2 ^ 31 ≤ start ∧ start < 2 ^ 31)
    (h₂ : -2 ^ 31 ≤ stop.getD 0 ∧ stop.getD 0 < 2 ^ 31) {elems : List a.ValueType}
    (hcall : (ListHandler.removeOperation
      ⟨name, ⟨Int32.ofInt start, Int32.ofInt (stop.getD 0), stop.isSome⟩⟩).call d =
        some (elems, ())) :
    call (remove name start stop) server = some (.ok (), server.withUnsorted name a elems) := by
  have hstep := Server.step_of_handle (ListHandler.handleRemove_unsorted h hcall)
  have hsend := call_sendCmd_ok hstep rfl false
  unfold remove
  rw [hvalid, decide_eq_false hname]
  simp only [Bool.not_true, call_bind, call_raiseIf_false, Option.bind_some,
    call_range start stop h₁ h₂]
  exact congrArg (fun r => Option.bind r _) hsend

theorem call_removeHead (h : server.listHandler.HoldsUnsorted name a d) (hname : name ≠ []) :
    call (removeHead name) server = some (.ok (), server.withUnsorted name a d.tail) :=
  call_remove h hname rfl (by decide) (by decide) (Remove.call_head d)

theorem call_removeTail (h : server.listHandler.HoldsUnsorted name a d) (hname : name ≠ []) :
    call (removeTail name) server = some (.ok (), server.withUnsorted name a d.dropLast) :=
  call_remove h hname rfl (by decide) (by decide) (Remove.call_tail d)

theorem call_size (h : server.listHandler.HoldsUnsorted name a d) (hname : name ≠ [])
    (hlen : d.length < 2 ^ 32) : call (size name) server = some (.ok d.length, server) := by
  have hstep := Server.step_of_handle (ListHandler.handleInfo_unsorted h)
  have hsend := call_sendCmd_ok hstep rfl false
  have hsize : (UInt32.ofNat d.length).toNat = d.length := UInt32.toNat_ofNat_of_lt hlen
  have hinfo : call (info name) server =
      some (.ok ((UInt32.ofNat d.length).toNat, listTypeName a.listType, false), server) := by
    unfold info
    rw [decide_eq_false hname]
    simp only [call_bind, call_raiseIf_false, Option.bind_some]
    exact congrArg (fun r => Option.bind r _) hsend
  unfold size
  rw [call_bind, hinfo, hsize]
  rfl

/-- What the server stores of an item in a list of the alternative `a`. -/
def stored (a : Alternative) (encode : α → Item) (x : α) : a.ValueType := ListValue.as (encode x)

theorem map_stored (items : List α) :
    (items.map encode).map ListValue.as = items.map (stored a encode) :=
  List.map_map

theorem call_addHead (h : server.listHandler.HoldsUnsorted name a d) {items : List α}
    (hne : 0 < items.length) {elems : List a.ValueType}
    (helems : elems = items.map (stored a encode) ++ d) (hlen : elems.length < 2 ^ 32) :
    call (addHead encode name items) server =
      some (.ok elems.length, server.withUnsorted name a elems) := by
  have hitems : items.map encode ≠ [] :=
    List.map_eq_nil_iff.not.mpr (List.ne_nil_of_length_pos hne)
  have hstep := Server.step_of_handle (ListHandler.handleAdd_head h hitems)
  rw [map_stored, ← helems] at hstep
  have hsend := call_sendCmd_ok hstep rfl false
  have hsize : (UInt32.ofNat elems.length).toNat = elems.length := UInt32.toNat_ofNat_of_lt hlen
  have hzero : -2 ^ 31 ≤ (0 : ℤ) ∧ (0 : ℤ) < 2 ^ 31 := by decide
  unfold addHead doAdd
  rw [decide_eq_false (by omega)]
  simp only [call_bind, call_raiseIf_false, Option.bind_some, call_int32 hzero]
  refine (congrArg (fun r => Option.bind r _) hsend).trans ?_
  exact congrArg (fun n => some (Except.ok n, server.withUnsorted name a elems)) hsize

theorem call_addTail (h : server.listHandler.HoldsUnsorted name a d) {items : List α}
    (hne : 0 < items.length) {elems : List a.ValueType}
    (helems : elems = d ++ items.map (stored a encode)) (hlen : elems.length < 2 ^ 32) :
    call (addTail encode name items) server =
      some (.ok elems.length, server.withUnsorted name a elems) := by
  have hitems : items.map encode ≠ [] :=
    List.map_eq_nil_iff.not.mpr (List.ne_nil_of_length_pos hne)
  have hstep := Server.step_of_handle (ListHandler.handleAppend_tail h hitems)
  rw [map_stored, ← helems] at hstep
  have hsend := call_sendCmd_ok hstep rfl false
  have hsize : (UInt32.ofNat elems.length).toNat = elems.length := UInt32.toNat_ofNat_of_lt hlen
  unfold addTail
  rw [decide_eq_false (by omega)]
  simp only [call_bind, call_raiseIf_false, Option.bind_some]
  refine (congrArg (fun r => Option.bind r _) hsend).trans ?_
  exact congrArg (fun n => some (Except.ok n, server.withUnsorted name a elems)) hsize

/-- A list whose creation did not raise is there, empty. -/
theorem call_create {type : String} (htype : listTypeOf type = some a.listType)
    {server₀ : Server} (h : call (create name type) server = some (.ok (), server₀)) :
    server₀.listHandler.HoldsUnsorted name a [] := by
  unfold create createList at h
  simp only [htype, Bool.not_true] at h
  rw [call_bind] at h
  rcases ListHandler.handleCreate_unsorted server.listHandler {} name a with
    ⟨status, hstatus, hcreate⟩ | hcreate
  · have hsend := call_sendCmd (Server.step_of_handle hcreate) .listCreate false
    have hraise := (congrArg (fun r => Option.bind r _) hsend).symm.trans h
    simp [raiseIfFail, hstatus] at hraise
  · have hsend := call_sendCmd_ok (Server.step_of_handle hcreate) rfl false
    have hreturn := (congrArg (fun r => Option.bind r _) hsend).symm.trans h
    obtain rfl := (Prod.mk.inj (Option.some.inj hreturn)).2
    exact ListHandler.holdsUnsorted_insert server.listHandler name []

/-- What a call returns for an answer of the deque: an item as the client reads it back. -/
def returned (a : Alternative) (encode : α → Item) (answer : Deque.Answer α) :
    Except PyError (Deque.Answer FlexScalar) :=
  .ok (answer.map fun x => ListValue.add (stored a encode x))

variable {encode} {d : List α}

theorem dequeMachine_step (hname : name ≠ [])
    (h : server.listHandler.HoldsUnsorted name a (d.map (stored a encode))) {op : Deque.Op α}
    {d' : List α} {answer : Deque.Answer α}
    (hstep : (Deque.bounded (2 ^ 31)).step d op = some (d', answer)) :
    ∃ server', (dequeMachine encode name).step server op =
        some (server', returned a encode answer) ∧
      server'.listHandler.HoldsUnsorted name a (d'.map (stored a encode)) := by
  obtain ⟨hadmits, hstep⟩ := Deque.bounded_step_eq_some.mp hstep
  have hcall : ∀ {server' : Server} {r : Except PyError (Deque.Answer FlexScalar)},
      call (dequeCall encode name op) server = some (r, server') →
      (dequeMachine encode name).step server op = some (server', r) := by
    intro server' r hr
    simp [dequeMachine, hr]
  cases op with
  | addHead items =>
    obtain ⟨rfl, rfl⟩ := Prod.mk.inj hstep
    obtain ⟨hne, hlt⟩ := hadmits
    have hlen : ((items ++ d).map (stored a encode)).length < 2 ^ 32 := by
      rw [List.length_map, List.length_append]
      omega
    refine ⟨_, hcall ?_, server.withUnsorted_holds name a _⟩
    unfold dequeCall
    rw [call_bind, call_addHead encode h hne List.map_append hlen, List.length_map]
    rfl
  | addTail items =>
    obtain ⟨rfl, rfl⟩ := Prod.mk.inj hstep
    obtain ⟨hne, hlt⟩ := hadmits
    have hlen : ((d ++ items).map (stored a encode)).length < 2 ^ 32 := by
      rw [List.length_map, List.length_append]
      omega
    refine ⟨_, hcall ?_, server.withUnsorted_holds name a _⟩
    unfold dequeCall
    rw [call_bind, call_addTail encode h hne List.map_append hlen, List.length_map]
    rfl
  | removeHead =>
    obtain ⟨rfl, rfl⟩ := Prod.mk.inj hstep
    refine ⟨_, hcall ?_, server.withUnsorted_holds name a _⟩
    unfold dequeCall
    rw [call_bind, call_removeHead h hname, List.map_tail]
    rfl
  | removeTail =>
    obtain ⟨rfl, rfl⟩ := Prod.mk.inj hstep
    refine ⟨_, hcall ?_, server.withUnsorted_holds name a _⟩
    unfold dequeCall
    rw [call_bind, call_removeTail h hname, List.map_dropLast]
    rfl
  | getHead =>
    obtain ⟨rfl, rfl⟩ := Prod.mk.inj hstep
    refine ⟨server, hcall ?_, h⟩
    unfold dequeCall
    rw [call_bind, call_getHead h hname, List.head?_map, Option.map_map]
    rfl
  | getTail =>
    obtain ⟨rfl, rfl⟩ := Prod.mk.inj hstep
    refine ⟨server, hcall ?_, h⟩
    unfold dequeCall
    rw [call_bind, call_getTail h hname, List.getLast?_map, Option.map_map]
    rfl
  | size =>
    obtain ⟨rfl, rfl⟩ := Prod.mk.inj hstep
    have hlt : d.length < 2 ^ 31 := hadmits
    have hlen : (d.map (stored a encode)).length < 2 ^ 32 := by
      rw [List.length_map]
      omega
    refine ⟨server, hcall ?_, h⟩
    unfold dequeCall
    rw [call_bind, call_size h hname hlen, List.length_map]
    rfl

theorem runFrom_deque (hname : name ≠ [])
    (h : server.listHandler.HoldsUnsorted name a (d.map (stored a encode)))
    {ops : List (Deque.Op α)} {d' : List α} {answers : List (Deque.Answer α)}
    (hrun : (Deque.bounded (2 ^ 31)).runFrom d ops = some (d', answers)) :
    ∃ server', (dequeMachine encode name).runFrom server ops =
      some (server', answers.map (returned a encode)) := by
  have hsim : ∀ (server : Server) (d : List α) (op : Deque.Op α) d' answer,
      server.listHandler.HoldsUnsorted name a (d.map (stored a encode)) →
      (Deque.bounded (2 ^ 31)).step d op = some (d', answer) →
      ∃ server', (dequeMachine encode name).step server (id op) =
          some (server', returned a encode answer) ∧
        server'.listHandler.HoldsUnsorted name a (d'.map (stored a encode)) :=
    fun _ _ _ _ _ h hstep => dequeMachine_step hname h hstep
  obtain ⟨server', hrun', _⟩ := Machine.runFrom_refines hsim h hrun
  exact ⟨server', by simpa using hrun'⟩

/-- A list created by the client is a deque, and in particular a stack and a queue: as long as it
is shorter than `2 ^ 31`, the calls on it return what the reference machines answer. -/
theorem runFrom_created (encode : α → Item) (hname : name ≠ []) {type : String}
    (htype : listTypeOf type = some a.listType) {server₀ : Server}
    (hcreate : call (create name type) server = some (.ok (), server₀)) :
    (∀ ops d answers, (Deque.bounded (2 ^ 31)).run ops = some (d, answers) →
      ∃ server', (dequeMachine encode name).runFrom server₀ ops =
        some (server', answers.map (returned a encode))) ∧
    (∀ ops s answers, (Stack.bounded (2 ^ 31)).run ops = some (s, answers) →
      ∃ server', (dequeMachine encode name).runFrom server₀ (ops.map Stack.Op.toDeque) =
        some (server', answers.map (returned a encode))) ∧
    (∀ ops q answers, (Queue.bounded (2 ^ 31)).run ops = some (q, answers) →
      ∃ server', (dequeMachine encode name).runFrom server₀ (ops.map Queue.Op.toDeque) =
        some (server', answers.map (returned a encode))) := by
  have h := call_create htype hcreate
  refine ⟨?_, ?_, ?_⟩
  · intro ops d answers hrun
    exact runFrom_deque hname h hrun
  · intro ops s answers hrun
    exact runFrom_deque hname h (Stack.runFrom_toDeque hrun)
  · intro ops q answers hrun
    exact runFrom_deque hname h (Queue.runFrom_toDeque hrun)

theorem runFrom_created_int :
    ∃ server', (dequeMachine (fun x : Int64 => (⟨x, x.toUInt64,
        ⟨if x = 7 then 0x40e00000 else 0x41000000⟩, []⟩ : Item)) [105]).runFrom
      { listHandler := (∅ : ListHandler).insert [105] (FcList.ofList ⟨.intList, []⟩ false) }
      [.removeTail, .addTail [7, 8], .removeHead, .getHead, .removeTail, .getTail, .size] =
      some (server', [.ok .done, .ok (.size 2), .ok .done, .ok (.item (some (.int 8))), .ok .done,
        .ok (.item none), .ok (.size 0)]) := by
  have htype : listTypeOf "int" = some Alternative.intList.listType := by decide +kernel
  have hcreate : call (create [105] "int") {} = some (.ok (),
      { listHandler := (∅ : ListHandler).insert [105] (FcList.ofList ⟨.intList, []⟩ false) }) := by
    decide +kernel
  have hrun : (Deque.bounded (2 ^ 31)).run [.removeTail, .addTail [(7 : Int64), 8], .removeHead,
      .getHead, .removeTail, .getTail, .size] =
      some ([], [.done, .size 2, .done, .item (some 8), .done, .item none, .size 0]) := rfl
  exact (runFrom_created _ (by decide) htype hcreate).1 _ _ _ hrun

/-- Under the empty name a list is created and added to, but its head is not read. -/
theorem not_runFrom_created : ¬ ∀ (encode : Int64 → Item) (name : Bytes) (a : Alternative)
    (type : String) (server server₀ : Server), listTypeOf type = some a.listType →
    call (create name type) server = some (.ok (), server₀) →
    ∀ ops d answers, (Deque.bounded (2 ^ 31)).run ops = some (d, answers) →
      ∃ server', (dequeMachine encode name).runFrom server₀ ops =
        some (server', answers.map (returned a encode)) := by
  intro h
  let encode (x : Int64) : Item := ⟨x, x.toUInt64, ⟨0x40a00000⟩, []⟩
  let server₀ : Server :=
    { listHandler := (∅ : ListHandler).insert [] (FcList.ofList ⟨.intList, []⟩ false) }
  have htype : listTypeOf "int" = some Alternative.intList.listType := by decide +kernel
  have hcreate : call (create [] "int") {} = some (.ok (), server₀) := by decide +kernel
  have hdeque : (Deque.bounded (2 ^ 31)).run [.addHead [(5 : Int64)], .getHead] =
      some ([5], [.size 1, .item (some 5)]) := rfl
  have hrun : ((dequeMachine encode []).runFrom server₀ [.addHead [5], .getHead]).map Prod.snd =
      some [.ok (.size 1), .error (.valueError "name is empty")] := by
    decide +kernel
  obtain ⟨server', hanswers⟩ := h encode [] .intList "int" {} server₀ htype hcreate _ _ _ hdeque
  rw [hanswers] at hrun
  cases hrun

end UnsortedList

end FCache
