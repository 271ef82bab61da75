import FCache.ListOperations
import FCache.Machine
import Mathlib.Data.Finmap

/-!
# The list handler

The lists of the store by name, and the handler of each list request over them. A handler works
on the store and on the builder of its reply; what it changed before an exception stays. The
machine of the handler reads requests; a request that ends in undefined behaviour, or lets an
exception escape from a handler that may not throw, has no successor.
-/

namespace FCache

abbrev ListHandler := Finmap fun _ : Bytes => FcList

namespace ListHandler

open Cpp

def getList (name : Bytes) : Cpp (Handling ListHandler) (Option FcList) := do
  return (← read).handler.lookup name

def haveList (name : Bytes) (bodyType : BodyType) :
    Cpp (Handling ListHandler) (Option FcList) := do
  match ← getList name with
  | some fcList => return some fcList
  | none =>
    createEmptyBodyResponse .fail bodyType
    return none

def setList (name : Bytes) (fcList : FcList) : Cpp (Handling ListHandler) Unit :=
  update fun c => { c with handler := c.handler.insert name fcList }

/-- `std::visit` of an operation on the list stored under a name. -/
def visit {β : Type} (name : Bytes) (fcList : FcList)
    (op : (a : Alternative) → List a.ValueType → Option (List a.ValueType × β)) :
    Cpp (Handling ListHandler) β := do
  let (list, result) ← ofOption (fcList.list.visit op)
  setList name { fcList with list }
  return result

/-- `std::get<ListT>(list)`. -/
def get (list : ListVariant) (a : Alternative) :
    Cpp (Handling ListHandler) (List a.ValueType) :=
  match list.get a with
  | some l => pure l
  | none => throw

/-- An enumerator of `ListType` is the byte of the request; a negative byte is let through by the
comparison but meets no alternative. -/
def createList (name : Bytes) (type : Int8) (sorted : Bool) :
    Cpp (Handling ListHandler) Status := do
  let create (a : Alternative) : Cpp (Handling ListHandler) Status := do
    match ← getList name with
    | some _ => return .duplicate
    | none =>
      setList name (FcList.ofList ⟨a, []⟩ sorted)
      return .ok
  if type ≤ ListType.string.toByte then
    if type = ListType.int.toByte then create .intList
    else if type = ListType.uint.toByte then create .uintList
    else if type = ListType.float.toByte then create .floatList
    else if type = ListType.string.toByte then create .stringList
    else return .fail
  else return .fail

def flexTypeToListType : FlexType → Option ListType
  | .vectorInt => some .int
  | .vectorUInt => some .uint
  | .vectorFloat => some .float
  | .vectorKey => some .string
  | _ => none

def doAddAppend (name : Bytes) (items : TypedVector) (isAppend : Bool) (pos : ℤ)
    (itemsSorted : Bool) : Cpp (Handling ListHandler) Unit :=
  let bodyType : BodyType := if isAppend then .listAppend else .listAdd
  tryCatch
    (do
      match ← haveList name bodyType with
      | none => return
      | some fcList =>
        if items.length = 0 then return
        else
          let (status, size) ← (match fcList.flexType with
            | .vectorInt | .vectorUInt | .vectorFloat | .vectorKey => do
              let size ←
                if isAppend && !fcList.isSorted then
                  visit name fcList fun _ => Add.call { items, append := true } false
                else if fcList.isSorted then
                  visit name fcList fun _ => Add.call { items, itemsSorted } true
                else visit name fcList fun _ => Add.call { items, pos } false
              return (Status.ok, size)
            | _ => return (Status.fail, 0))
          if isAppend then
            finish { status, bodyType, body := some (.listAppend (UInt32.ofNat size)) }
          else finish { status, bodyType, body := some (.listAdd (UInt32.ofNat size)) })
    (createEmptyBodyResponse .fail bodyType)

def doRemoveIfEquals (name : Bytes) (fcList : FcList) (range : Range) (a : Alternative)
    (val : a.ValueType) : Cpp (Handling ListHandler) ℕ :=
  let start := range.start.toInt
  let op : RemoveIf :=
    if range.hasStop then
      { start, stop := range.stop.toInt, hasStop := true, type := a, val }
    else { start, hasStop := false, type := a, val }
  visit name fcList (op.call fcList.isSorted)

def doIntersect (flxb : FlexBuilder) (req : ListIntersect) (fcList1 fcList2 : FcList) :
    Cpp (Handling ListHandler) FlexBuilder := do
  let newListName := req.newListName.getD []
  match if newListName ≠ [] then flexTypeToListType fcList1.flexType else none with
  | some listType =>
    let status ← createList newListName listType.toByte true
    if status = .ok then
      match ← getList newListName with
      | none => pure ()
      | some newList =>
        let l1 ← get fcList1.list newList.list.alternative
        let l2 ← get fcList2.list newList.list.alternative
        let list ←
          ofOption (intersectToList newList.list.elems l1 l2 req.list1Range req.list2Range)
        setList newListName { newList with list := ⟨newList.list.alternative, list⟩ }
    return (flxb.typedVector []).finish
  | none =>
    let l2 ← get fcList2.list fcList1.list.alternative
    ofOption (intersectToFlexBuffer flxb fcList1.list.elems l2 req.list1Range req.list2Range)

def handleCreate (req : ListCreate) : Cpp (Handling ListHandler) Unit := do
  let status ← createList req.name req.type req.sorted
  createEmptyBodyResponse status .listCreate

def handleAdd (req : ListAdd) : Cpp (Handling ListHandler) Unit :=
  doAddAppend req.name req.items false req.position.toInt req.itemsSorted

def handleAppend (req : ListAppend) : Cpp (Handling ListHandler) Unit :=
  doAddAppend req.name req.items true 0 false

def handleSet (req : ListSet) : Cpp (Handling ListHandler) Unit := do
  let status ← tryCatch
    (do
      match ← haveList req.name .listSet with
      | none => return .ok
      | some fcList =>
        if req.items.length = 0 then return .ok
        else if fcList.isSorted then return .notPermitted
        else
          match fcList.flexType with
          | .vectorInt | .vectorUInt | .vectorFloat | .vectorKey =>
            visit req.name fcList fun _ => Set.call ⟨req.items, req.position.toInt⟩
            return .ok
          | _ => return .fail)
    (return Status.fail)
  createEmptyBodyResponse status .listSet

def handleDelete (req : ListDelete) : Cpp (Handling ListHandler) Unit := do
  let status ← tryCatch
    (do
      if req.name = [] then update fun c => { c with handler := ∅ }
      else
        update fun c =>
          { c with handler := req.name.foldl (fun lists name => lists.erase name) c.handler }
      return Status.ok)
    (return Status.fail)
  createEmptyBodyResponse status .listDelete

def handleGetRange (req : ListGetRange) : Cpp (Handling ListHandler) Unit :=
  let start := req.range.start.toInt
  let op : GetByRange :=
    if req.range.hasStop then
      { start, stop := req.range.stop.toInt, hasStop := true, base := req.base }
    else { start, hasStop := false, base := req.base }
  tryCatch
    (do
      match ← haveList req.name .listGetRange with
      | none => return
      | some fcList =>
        let (flxb, createdBuffer) ← ofOption (op.call {} fcList.list.elems)
        let flxb := if createdBuffer then flxb else flxb.typedVector []
        finish ⟨.ok, .listGetRange, some (.listGetRange flxb.finish.getBuffer)⟩)
    (createEmptyBodyResponse .fail .listGetRange)

def handleRemove (req : ListRemove) : Cpp (Handling ListHandler) Unit := do
  let start := req.range.start.toInt
  let op : Remove :=
    if req.range.hasStop then { start, stop := req.range.stop.toInt, hasStop := true }
    else { start, hasStop := false }
  let status ← tryCatch
    (do
      match ← haveList req.name .listRemove with
      | none => return .ok
      | some fcList =>
        visit req.name fcList fun _ => op.call
        return .ok)
    (return Status.fail)
  createEmptyBodyResponse status .listRemove

def handleRemoveIf (req : ListRemoveIf) : Cpp (Handling ListHandler) Unit :=
  tryCatch
    (do
      match ← haveList req.name .listRemoveIf with
      | none => return
      | some fcList =>
        let size ←
          match req.value with
          | .intValue v => doRemoveIfEquals req.name fcList req.range .intList v
          | .uintValue v => doRemoveIfEquals req.name fcList req.range .uintList v
          | .stringValue v => doRemoveIfEquals req.name fcList req.range .stringList v
          | .floatValue v => doRemoveIfEquals req.name fcList req.range .floatList v
          | .none => pure 0
        finish ⟨.ok, .listRemoveIf, some (.listRemoveIf (UInt32.ofNat size))⟩)
    (createEmptyBodyResponse .fail .listRemoveIf)

def handleIntersect (req : ListIntersect) : Cpp (Handling ListHandler) Unit :=
  tryCatch
    (do
      let list1Opt ← haveList req.list1Name .listIntersect
      let list2Opt ← haveList req.list2Name .listIntersect
      match list1Opt, list2Opt with
      | some fcList1, some fcList2 =>
        if !fcList1.canIntersectWith fcList2 then createEmptyBodyResponse .fail .listIntersect
        else
          let flxb ← doIntersect {} req fcList1 fcList2
          finish ⟨.ok, .listIntersect, some (.listIntersect flxb.getBuffer)⟩
      | _, _ => return)
    (createEmptyBodyResponse .fail .listIntersect)

def handleInfo (req : ListInfo) : Cpp (Handling ListHandler) Unit := do
  let status ← tryCatch
    (do
      match ← getList req.name with
      | some fcList =>
        finish ⟨.ok, .listInfo,
          some (.listInfo (Info.call fcList.list.elems) fcList.listType fcList.isSorted)⟩
        return .ok
      | none => return .fail)
    (return Status.fail)
  if status = .fail then createEmptyBodyResponse .fail .listInfo

def handle : ListRequest → Cpp (Handling ListHandler) Unit
  | .create req => handleCreate req
  | .add req => handleAdd req
  | .delete req => handleDelete req
  | .getRange req => handleGetRange req
  | .remove req => handleRemove req
  | .removeIf req => handleRemoveIf req
  | .intersect req => handleIntersect req
  | .set req => handleSet req
  | .append req => handleAppend req
  | .info req => handleInfo req

/-- Each message is answered with a builder of its own. -/
def machine : Machine ListHandler ListRequest FlatBuilder where
  init := ∅
  step lists req := Handling.answered (handle req ⟨lists, {}⟩)

end ListHandler

end FCache
