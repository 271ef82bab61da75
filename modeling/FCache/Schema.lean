import FCache.FlexBuffers
import FCache.Cpp

/-!
# Requests and responses

The tables of the request and response schemas with the fields the handlers read or write. A
field that may be absent is an `Option`; strings, vectors and ranges a handler dereferences
without a test are present. Handlers write their responses to a FlatBuffer builder, which keeps
every response finished in it; the client decodes the last one.
-/

namespace FCache

inductive ListType where
  | int | uint | float | string
  deriving DecidableEq

/-- The enumerator's byte on the wire. -/
def ListType.toByte : ListType → Int8
  | .int => 0
  | .uint => 1
  | .float => 2
  | .string => 3

inductive Base where
  | none | head | tail
  deriving DecidableEq

inductive ClearOperation where
  | all | groups | group | groupsKeysOnly | groupKeysOnly
  deriving DecidableEq

/-- The `Value` union of `ListRemoveIf`. -/
inductive Value where
  | none
  | intValue (v : Int64)
  | uintValue (v : UInt64)
  | floatValue (v : FcFloat)
  | stringValue (v : Bytes)
  deriving DecidableEq

structure Range where
  start : Int32 := 0
  stop : Int32 := 0
  hasStop : Bool := true
  deriving DecidableEq

/-- `KVSet`, `KVAdd` and `KVClearSet` carry the same fields. -/
structure KVWrite where
  kv : List (Key × FlexReference)
  group : Option Bytes := none
  deriving DecidableEq

/-- `KVGet`, `KVRmv` and `KVContains` carry the same fields. -/
structure KVKeys where
  keys : Option (List Bytes) := none
  group : Option Bytes := none
  deriving DecidableEq

structure KVCount where
  group : Option Bytes := none
  deriving DecidableEq

structure KVClear where
  op : ClearOperation
  group : Option Bytes := none
  deriving DecidableEq

/-- The map a request works on: a named group, or the default map for no or an empty name. -/
def target (group : Option Bytes) : Option Bytes := group.filter fun name => name ≠ []

inductive KVRequest where
  | set (req : KVWrite)
  | get (req : KVKeys)
  | rmv (req : KVKeys)
  | add (req : KVWrite)
  | count (req : KVCount)
  | contains (req : KVKeys)
  | clear (req : KVClear)
  | clearSet (req : KVWrite)
  deriving DecidableEq

structure ListCreate where
  name : Bytes
  type : Int8
  sorted : Bool := false
  deriving DecidableEq

structure ListDelete where
  name : List Bytes
  deriving DecidableEq

structure ListAdd where
  name : Bytes
  items : TypedVector
  position : Int32 := 0
  itemsSorted : Bool := false
  deriving DecidableEq

structure ListAppend where
  name : Bytes
  items : TypedVector
  deriving DecidableEq

structure ListGetRange where
  name : Bytes
  range : Range
  base : Base := .none
  deriving DecidableEq

structure ListRemove where
  name : Bytes
  range : Range
  deriving DecidableEq

structure ListRemoveIf where
  name : Bytes
  range : Range
  value : Value := .none
  deriving DecidableEq

structure ListIntersect where
  list1Name : Bytes
  list2Name : Bytes
  list1Range : Range
  list2Range : Range
  newListName : Option Bytes := none
  deriving DecidableEq

structure ListSet where
  name : Bytes
  position : Int32 := 0
  items : TypedVector
  deriving DecidableEq

structure ListInfo where
  name : Bytes
  deriving DecidableEq

inductive ListRequest where
  | create (req : ListCreate)
  | add (req : ListAdd)
  | delete (req : ListDelete)
  | getRange (req : ListGetRange)
  | remove (req : ListRemove)
  | removeIf (req : ListRemoveIf)
  | intersect (req : ListIntersect)
  | set (req : ListSet)
  | append (req : ListAppend)
  | info (req : ListInfo)
  deriving DecidableEq

/-- The enumerators shared by the `RequestBody` and `ResponseBody` unions. -/
inductive BodyType where
  | none
  | kvSet | kvGet | kvRmv | kvAdd | kvCount | kvContains | kvClear | kvClearSet
  | listCreate | listAdd | listDelete | listGetRange | listRemove | listRemoveIf
  | listIntersect | listSet | listAppend | listInfo
  deriving DecidableEq

def KVRequest.bodyType : KVRequest → BodyType
  | .set _ => .kvSet
  | .get _ => .kvGet
  | .rmv _ => .kvRmv
  | .add _ => .kvAdd
  | .count _ => .kvCount
  | .contains _ => .kvContains
  | .clear _ => .kvClear
  | .clearSet _ => .kvClearSet

def ListRequest.bodyType : ListRequest → BodyType
  | .create _ => .listCreate
  | .add _ => .listAdd
  | .delete _ => .listDelete
  | .getRange _ => .listGetRange
  | .remove _ => .listRemove
  | .removeIf _ => .listRemoveIf
  | .intersect _ => .listIntersect
  | .set _ => .listSet
  | .append _ => .listAppend
  | .info _ => .listInfo

inductive Status where
  | fail | ok | commandUnknown | parseError | duplicate | notPermitted | notExist
  deriving DecidableEq

/-- The response tables that carry data. A count is the 64-bit size of a map, never truncated;
sizes of lists are cut to 32 bits. -/
inductive ResponseTable where
  | kvGet (kv : FlexBuffer)
  | kvContains (keys : FlexBuffer)
  | kvCount (count : ℕ)
  | listAdd (size : UInt32)
  | listAppend (size : UInt32)
  | listRemoveIf (size : UInt32)
  | listGetRange (items : FlexBuffer)
  | listIntersect (items : FlexBuffer)
  | listInfo (size : UInt32) (type : ListType) (sorted : Bool)
  deriving DecidableEq

structure Response where
  status : Status
  bodyType : BodyType
  body : Option ResponseTable := none
  deriving DecidableEq

structure FlatBuilder where
  finished : List Response := []
  deriving DecidableEq

/-- `fbb.Finish(rsp)`. -/
def FlatBuilder.finish (fbb : FlatBuilder) (rsp : Response) : FlatBuilder :=
  ⟨fbb.finished ++ [rsp]⟩

/-- The response a client decodes: the last one finished. -/
def FlatBuilder.decoded (fbb : FlatBuilder) : Option Response := fbb.finished.getLast?

@[simp] theorem FlatBuilder.finish_finished (fbb : FlatBuilder) (rsp : Response) :
    (fbb.finish rsp).finished = fbb.finished ++ [rsp] := rfl

@[simp] theorem FlatBuilder.finish_decoded (fbb : FlatBuilder) (rsp : Response) :
    (fbb.finish rsp).decoded = some rsp := by
  simp [decoded]

/-- The state of a handler together with the builder of the message it is answering. -/
structure Handling (σ : Type) where
  handler : σ
  fbb : FlatBuilder := {}
  deriving DecidableEq

variable {σ : Type}

/-- The new state of a handler and its finished builder, unless an exception escapes or the
behaviour is undefined. -/
def Handling.answered : Outcome (Handling σ) Unit → Option (σ × FlatBuilder)
  | .ok _ c => some (c.handler, c.fbb)
  | _ => none

theorem Handling.answered_eq_some {r : Outcome (Handling σ) Unit} {s : σ} {fbb : FlatBuilder} :
    answered r = some (s, fbb) ↔ r = .ok () ⟨s, fbb⟩ := by
  cases r with
  | ok u c =>
    cases c
    simp [answered]
  | throws c => simp [answered]
  | undefined => simp [answered]

def finish (rsp : Response) : Cpp (Handling σ) Unit :=
  Cpp.update fun c => { c with fbb := c.fbb.finish rsp }

def createEmptyBodyResponse (status : Status) (bodyType : BodyType) : Cpp (Handling σ) Unit :=
  finish { status, bodyType }

@[simp] theorem finish_apply (rsp : Response) (c : Handling σ) :
    finish rsp c = .ok () { c with fbb := c.fbb.finish rsp } := rfl

@[simp] theorem createEmptyBodyResponse_apply (status : Status) (bodyType : BodyType)
    (c : Handling σ) : createEmptyBodyResponse status bodyType c =
      .ok () { c with fbb := c.fbb.finish { status, bodyType } } := rfl

end FCache
