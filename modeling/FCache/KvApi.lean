import FCache.Client

/-!
# The key-value API of the Python client

A string is sent as its UTF-8 bytes, and a string of a result is shown by its bytes. The builder of
FlexBuffers is not part of the client: `FlexWriter` gives what the server reads of what it writes.
-/

namespace FCache

/-- The UTF-8 bytes of a string. -/
def encode (s : String) : Bytes := s.toByteArray.data.toList

theorem encode_injective : Function.Injective encode := by
  intro s t h
  exact String.toByteArray_inj.mp (ByteArray.ext (Array.toList_inj.mp h))

theorem encode_eq_nil {s : String} : encode s = [] ↔ s = "" :=
  encode_injective.eq_iff' rfl

/-- The values a caller can give a key: `F` are the floats, `A` the arrays of `array.array`. -/
inductive PyValue (F A : Type) where
  | none
  | bool (b : Bool)
  | int (i : ℤ)
  | float (x : F)
  | str (s : String)
  | bytes (b : Bytes)
  | array (a : A)
  | list (items : List (PyValue F A))

inductive PyType where
  | none | bool | int | float | str | bytes | array | list
  deriving DecidableEq

variable {F A : Type}

def PyValue.type : PyValue F A → PyType
  | .none => .none
  | .bool _ => .bool
  | .int _ => .int
  | .float _ => .float
  | .str _ => .str
  | .bytes _ => .bytes
  | .array _ => .array
  | .list _ => .list

/-- In Python `bool` is a subclass of `int`. -/
def PyValue.isInstance (v : PyValue F A) (t : PyType) : Bool :=
  v.type = t || (v.type = .bool && t = .int)

/-- A dict with string keys, in insertion order. -/
structure PyDict (V : Type) where
  items : List (String × V)
  nodup : (items.map Prod.fst).Nodup

/-- What the server reads of what the FlexBuffers builder of the client writes. An element of a
typed vector is written as the vector's type asks for, so what is not a typed vector of the builder
raises. -/
structure FlexWriter (F A : Type) where
  key : String → Except PyError Key
  int : ℤ → Except PyError Int64
  float : F → FcFloat
  blob : Bytes → Except PyError Blob
  typedVectorFromArray : A → Except PyError FlexReference
  typedVectorFromElements : List (PyValue F A) → Except PyError FlexReference
  typedVectorOfKeys : List (PyValue F A) → Except PyError (List Key)
  key_bytes : ∀ {s k}, key s = .ok k → k.1 = encode s
  array_storable : ∀ {a v}, typedVectorFromArray a = .ok v → v.getType.storable = true
  elements_storable : ∀ {xs v}, typedVectorFromElements xs = .ok v → v.getType.storable = true

namespace KV

open Client

variable (w : FlexWriter F A)

def createTypedVector (key : String) : List (PyValue F A) → Except PyError FlexReference
  | [] => throw (.valueError s!"Key {key}: contains empty list")
  | first :: items =>
    let elementType := first.type
    if ¬ (first :: items).all (fun s => s.isInstance elementType) then
      throw (.valueError s!"Key {key}: all elements must be the same type")
    else if elementType = .str then do
      let xs ← w.typedVectorOfKeys (first :: items)
      return .vectorKey xs
    else w.typedVectorFromElements (first :: items)

def createValue (key : String) : PyValue F A → Except PyError FlexReference
  | .bool b => return .bool b
  | .int i => do
    let v ← w.int i
    return .int v
  | .float x => return .float (w.float x)
  | .str s => return .string (encode s)
  | .bytes b => do
    let v ← w.blob b
    return .blob v
  | .array a => w.typedVectorFromArray a
  | .list items => createTypedVector w key items
  | .none => throw (.valueError s!"Key {key}: has invalid value type")

def createEntry (item : String × PyValue F A) : Except PyError (Key × FlexReference) := do
  let key ← w.key item.1
  let value ← createValue w item.1 item.2
  return (key, value)

/-- The map is sorted by key when it is closed. -/
def createKvMap (kv : PyDict (PyValue F A)) : Except PyError (List (Key × FlexReference)) := do
  let entries ← kv.items.mapM (createEntry w)
  return entries.insertionSort fun x y => Bytes.lt y.1.1 x.1.1 = false

/-- Neither `None` nor the empty name is sent. -/
def groupField (group : Option String) : Option Bytes :=
  (group.filter fun name => name ≠ "").map encode

/-- The vector is filled from its end, so the keys arrive in reverse order. -/
def createKeyStrings (strings : List String) : List Bytes := (strings.map encode).reverse

/-- What a call returns; a call that is done for its effect returns `None`. -/
inductive PyResult where
  | none
  | value (x : FlexValue)
  | dict (m : Finmap fun _ : Bytes => FlexValue)
  | list (xs : List FlexScalar)
  | int (n : ℕ)
  deriving DecidableEq

/-- A call that logs an error gives `None` in place of raising it. -/
def logErrors (m : Client PyResult) : Client PyResult := tryCatch m fun _ => return .none

/-- `flatbuffers.flexbuffers.Loads` of a map: of two values with one key a dict keeps the last. -/
def loadsDict : FlexBuffer → Client (Finmap fun _ : Bytes => FlexValue)
  | some (.map entries) => return entries.foldl (fun m e => m.insert e.1 e.2) ∅
  | _ => throw .badBuffer

/-- The command of a request type that writes a dict. -/
def writeBody (requestType : BodyType) (req : KVWrite) : Option KVRequest :=
  match requestType with
  | .kvSet => some (.set req)
  | .kvAdd => some (.add req)
  | .kvClearSet => some (.clearSet req)
  | _ => none

def doSetAdd (kv : PyDict (PyValue F A)) (requestType : BodyType) (group : Option String) :
    Client PyResult := do
  raiseIf (kv.items.length = 0) "keys empty"
  let entries ← MonadExcept.ofExcept (createKvMap w kv)
  match writeBody requestType { kv := entries, group := groupField group } with
  | some body =>
    let _ ← sendCmd (.kv (some body)) requestType
    return .none
  | none => throw (.valueError "RequestBody not permitted")

def set (kv : PyDict (PyValue F A)) (group : Option String) : Client PyResult :=
  doSetAdd w kv .kvSet group

def setKey (key : String) (value : PyValue F A) (group : Option String) : Client PyResult :=
  doSetAdd w { items := [(key, value)], nodup := List.nodup_singleton key } .kvSet group

def add (kv : PyDict (PyValue F A)) (group : Option String) : Client PyResult :=
  doSetAdd w kv .kvAdd group

def clearSet (kv : PyDict (PyValue F A)) (group : Option String) : Client PyResult :=
  doSetAdd w kv .kvClearSet group

def doGet (key : Option String := none) (keys : Option (List String) := none)
    (group : Option String := none) : Client PyResult := do
  raiseIf (key.isNone && keys.isNone && group.isNone) "invalid _do_get() call"
  let isGetAll := key.isNone && keys.isNone
  let singleKey := key.filter fun key => key ≠ ""
  let keys := (singleKey.map fun key => [key]).or keys
  logErrors do
    let keysField ← match keys with
      | some keys => pure (some (createKeyStrings keys))
      | none => if isGetAll then pure none else throw .badBuffer -- iterates over `None`
    let req : KVKeys := { keys := keysField, group := groupField group }
    let rsp ← sendCmd (.kv (some (.get req))) .kvGet
    match rsp.body with
    | some (.kvGet kv) =>
      let result ← loadsDict kv
      match singleKey with
      | some key =>
        match result.lookup (encode key) with
        | some x => return .value x
        | none => return .none
      | none => return .dict result
    | _ => throw .noBody

def get (key : Option String) (keys : List String) (group : Option String) : Client PyResult := do
  raiseIf (key.isNone && keys.length = 0) "key or keys must be set"
  raiseIf (group.any fun name => name ≠ "" && name.length = 0) "group name cannot be empty"
  doGet key (some keys) group

def getAll (group : String) : Client PyResult := do
  raiseIf (group.length = 0) "group name cannot be empty"
  doGet none none (some group)

def getKey (key : String) (group : Option String) : Client PyResult := do
  raiseIf (key.length = 0) "key is empty"
  doGet (some key) none group

def getKeys (keys : List String) (group : Option String) : Client PyResult := do
  raiseIf (keys.length = 0) "keys is empty"
  doGet none (some keys) group

def remove (key : Option String) (keys : List String) (group : Option String) :
    Client PyResult := do
  raiseIf (key.isNone && keys.length = 0) "key or keys must be set"
  raiseIf (key.any fun key => key.length = 0) "key or keys must be set"
  let keys := (key.map fun key => [key]).getD keys
  logErrors do
    let req : KVKeys := { keys := createKeyStrings keys, group := groupField group }
    let _ ← sendCmd (.kv (some (.rmv req))) .kvRmv
    return .none

def count (group : Option String) : Client PyResult := do
  let rsp ← sendCmd (.kv (some (.count { group := groupField group }))) .kvCount
  match rsp.body with
  | some (.kvCount n) => return .int n
  | _ => throw .noBody

def contains (keys : List String) (group : Option String) : Client PyResult := do
  raiseIf (keys.length = 0) "keys is empty"
  logErrors do
    let req : KVKeys := { keys := createKeyStrings keys, group := groupField group }
    let rsp ← sendCmd (.kv (some (.contains req))) .kvContains
    match rsp.body with
    | some (.kvContains (some (.typedVector xs))) =>
      return if xs.length > 0 then .list xs else .dict ∅
    | some (.kvContains kv) =>
      let result ← loadsDict kv
      return .dict result
    | _ => throw .noBody

def doClear (op : ClearOperation) (group : Option String := none) : Client PyResult := do
  if op = .group ∨ op = .groupKeysOnly then
    raiseIf (group.all fun name => name.length = 0) "group name required"
  let _ ← sendCmd (.kv (some (.clear { op, group := groupField group }))) .kvClear
  return .none

def clearAll : Client PyResult := doClear .all

def clear : Client PyResult := clearAll

def clearGroup (name : String) (deleteGroup : Bool) : Client PyResult :=
  doClear (if deleteGroup then .group else .groupKeysOnly) (some name)

def clearGroups (deleteGroups : Bool) : Client PyResult :=
  doClear (if deleteGroups then .groups else .groupsKeysOnly)

/-- The calls of the API with their arguments. -/
inductive Call (F A : Type) where
  | set (kv : PyDict (PyValue F A)) (group : Option String)
  | setKey (key : String) (value : PyValue F A) (group : Option String)
  | add (kv : PyDict (PyValue F A)) (group : Option String)
  | clearSet (kv : PyDict (PyValue F A)) (group : Option String)
  | get (key : Option String) (keys : List String) (group : Option String)
  | getAll (group : String)
  | getKey (key : String) (group : Option String)
  | getKeys (keys : List String) (group : Option String)
  | remove (key : Option String) (keys : List String) (group : Option String)
  | count (group : Option String)
  | contains (keys : List String) (group : Option String)
  | clear
  | clearAll
  | clearGroup (name : String) (deleteGroup : Bool)
  | clearGroups (deleteGroups : Bool)

def perform : Call F A → Client PyResult
  | .set kv group => set w kv group
  | .setKey key value group => setKey w key value group
  | .add kv group => add w kv group
  | .clearSet kv group => clearSet w kv group
  | .get key keys group => get key keys group
  | .getAll group => getAll group
  | .getKey key group => getKey key group
  | .getKeys keys group => getKeys keys group
  | .remove key keys group => remove key keys group
  | .count group => count group
  | .contains keys group => contains keys group
  | .clear => clear
  | .clearAll => clearAll
  | .clearGroup name deleteGroup => clearGroup name deleteGroup
  | .clearGroups deleteGroups => clearGroups deleteGroups

/-- A server and the calls made on it, one after another, by any number of clients. -/
def machine : Machine Server (Call F A) (Except PyError PyResult) where
  init := {}
  step server c := (Client.call (perform w c) server).map Prod.swap

end KV

end FCache
