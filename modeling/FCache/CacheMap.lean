import FCache.Schema
import FCache.Buffer
import FCache.FiniteMap

/-!
# The map of cached values

A cached value is a variant of a fixed-width value and a vector of bytes, with a tag beside the
variant, and in either alternative a pointer to the function that adds the value to a reply. A
null pointer and an uninitialised tag are `none`; using them is undefined behaviour, as is a read
or write outside a vector. Allocations may fail: the storing functions take which of theirs
succeed.
-/

namespace FCache

/-- `std::variant<fcint, fcuint, fcfloat, fcbool>`. -/
inductive FixedVariant where
  | int (v : Int64)
  | uint (v : UInt64)
  | float (v : FcFloat)
  | bool (v : Bool)
  deriving DecidableEq

inductive ExtractFixedF where
  | extractInt | extractUInt | extractFloat | extractBool
  deriving DecidableEq

structure FixedValue where
  value : FixedVariant
  extract : ExtractFixedF
  deriving DecidableEq

inductive ExtractVectorF where
  | extractBlob | extractString | extractStringV | extractIntV | extractUIntV | extractFloatV
  | extractBoolV
  deriving DecidableEq

structure VectorValue where
  data : List UInt8 := []
  extract : Option ExtractVectorF := none
  type : FlexType := .null
  deriving DecidableEq

inductive ValueVariant where
  | fixed (v : FixedValue)
  | vector (v : VectorValue)
  deriving DecidableEq

structure CachedValue where
  value : ValueVariant
  valueType : Option UInt8
  deriving DecidableEq

namespace CachedValue

def FIXED : UInt8 := 0

def VEC : UInt8 := 1

def ofFixed (v : FixedValue) : CachedValue := ⟨.fixed v, some FIXED⟩

def ofVector (v : VectorValue) : CachedValue := ⟨.vector v, some VEC⟩

end CachedValue

/-! ### The bytes of the stored scalars -/

def encodeInt (v : Int64) : List UInt8 := Buffer.encode 8 v.toUInt64.toNat

def encodeUInt (v : UInt64) : List UInt8 := Buffer.encode 8 v.toNat

def encodeFloat (v : FcFloat) : List UInt8 := Buffer.encode 4 v.bits.toNat

def encodeBool (v : Bool) : List UInt8 := [if v then 1 else 0]

def decodeInt (bytes : List UInt8) : FlexScalar :=
  .int (UInt64.ofNat (Buffer.decode bytes)).toInt64

def decodeUInt (bytes : List UInt8) : FlexScalar := .uint (UInt64.ofNat (Buffer.decode bytes))

def decodeFloat (bytes : List UInt8) : FlexScalar :=
  .float ⟨UInt32.ofNat (Buffer.decode bytes)⟩

def decodeBool (bytes : List UInt8) : FlexScalar := .bool (Buffer.decode bytes ≠ 0)

/-- The allocations of one call of a storing function that succeed. -/
structure Allocation where
  tryEmplace : Bool := true
  resize : Bool := true
  deriving DecidableEq

abbrev CacheMap := Finmap fun _ : Bytes => CachedValue

namespace CacheMap

open Cpp

/-! ### Extracting -/

section Extract

variable {σ : Type}

/-- `std::get` of the alternative an extractor is made for. -/
def extractFixed (extract : ExtractFixedF) (v : FixedVariant) : Cpp σ FlexValue :=
  match extract, v with
  | .extractInt, .int v => pure (.scalar (.int v))
  | .extractUInt, .uint v => pure (.scalar (.uint v))
  | .extractFloat, .float v => pure (.scalar (.float v))
  | .extractBool, .bool v => pure (.scalar (.bool v))
  | _, _ => throw

def toTypedVector (width : ℕ) (decode : List UInt8 → FlexScalar) (data : List UInt8) :
    Cpp σ FlexValue := do
  let fields ← ofOption (Buffer.readFields data width data.length 0)
  return .typedVector (fields.map decode)

def extractBlob (data : List UInt8) : Cpp σ FlexValue := do
  let size ← ofOption (Buffer.read data 0 4)
  let blob ← ofOption (Buffer.read data 4 (Buffer.decode size))
  return .blob blob

def extractString (data : List UInt8) : Cpp σ FlexValue := do
  let sv ← ofOption (Buffer.readString data 0)
  return .scalar (.string sv)

def extractStringV (data : List UInt8) : Cpp σ FlexValue := do
  let strings ← ofOption (Buffer.readStrings data data.length 0)
  return .typedVector (strings.map .string)

def extractVector (extract : ExtractVectorF) (data : List UInt8) : Cpp σ FlexValue :=
  match extract with
  | .extractBlob => extractBlob data
  | .extractString => extractString data
  | .extractStringV => extractStringV data
  | .extractIntV => toTypedVector 8 decodeInt data
  | .extractUIntV => toTypedVector 8 decodeUInt data
  | .extractFloatV => toTypedVector 4 decodeFloat data
  | .extractBoolV => toTypedVector 1 decodeBool data

/-- The entry a cached value adds to the map of a reply; a tag that is neither of the two known
adds none. -/
def extract (key : Bytes) (cachedValue : CachedValue) : Cpp σ (List (Bytes × FlexValue)) := do
  let valueType ← ofOption cachedValue.valueType
  if valueType = CachedValue.FIXED then
    match cachedValue.value with
    | .fixed fixedValue =>
      let v ← extractFixed fixedValue.extract fixedValue.value
      return [(cString key, v)]
    | .vector _ => throw
  else if valueType = CachedValue.VEC then
    match cachedValue.value with
    | .vector vecValue =>
      let extract ← ofOption vecValue.extract
      let v ← extractVector extract vecValue.data
      return [(cString key, v)]
    | .fixed _ => throw
  else return []

end Extract

def getEntries : List Bytes → Cpp CacheMap (List (Bytes × FlexValue))
  | [] => return []
  | key :: keys => do
    match (← read).lookup key with
    | none => getEntries keys
    | some cachedValue =>
      let entry ← extract key cachedValue
      let entries ← getEntries keys
      return entry ++ entries

def get (keys : List Bytes) (fb : FlexBuilder) : Cpp CacheMap FlexBuilder := do
  let entries ← getEntries keys
  return fb.map entries

/-- All keys, visited in some order: the builder sorts the entries. -/
def getAll (fb : FlexBuilder) : Cpp CacheMap FlexBuilder := do
  let keys := FiniteMap.sortedKeys (← read)
  let entries ← getEntries keys
  return fb.map entries

def remove (keys : List Bytes) : Cpp CacheMap Unit :=
  update fun m => keys.foldl (fun m key => m.erase key) m

def clear : Cpp CacheMap Bool := do
  write ∅
  return true

def contains (fb : FlexBuilder) (keys : List Bytes) : Cpp CacheMap FlexBuilder := do
  let m ← read
  return fb.typedVector
    ((keys.filter fun key => (m.lookup key).isSome).map fun key => .string (cString key))

def count : Cpp CacheMap ℕ := do
  return (← read).keys.card

/-! ### Storing -/

def tryEmplace (alloc : Allocation) (key : Bytes) (v : CachedValue) : Cpp CacheMap Unit :=
  if alloc.tryEmplace then update fun m => m.insert key v else throw

def set (key : Bytes) (v : CachedValue) : Cpp CacheMap Unit := update fun m => m.insert key v

/-- `std::get<CachedValue::VEC>(it->second.value)`. -/
def getVector (key : Bytes) : Cpp CacheMap (VectorValue × CachedValue) := do
  match (← read).lookup key with
  | none => undefined
  | some cachedValue =>
    match cachedValue.value with
    | .vector vec => return (vec, cachedValue)
    | .fixed _ => throw

/-- Set the type and the extractor of the vector under a key, resize its data and fill it. The
first two stay when the allocation of the third fails; only data that grows is allocated. -/
def fillVector (alloc : Allocation) (key : Bytes) (type : FlexType) (extract : ExtractVectorF)
    (size : ℕ) (fill : List UInt8 → Option (List UInt8)) : Cpp CacheMap Unit := do
  let (vec, cachedValue) ← getVector key
  let vec : VectorValue := { vec with type, extract := some extract }
  set key { cachedValue with value := .vector vec }
  if size ≤ vec.data.length || alloc.resize then
    let data ← ofOption (fill (Buffer.resize vec.data size))
    set key { cachedValue with value := .vector { vec with data } }
  else throw

/-- The copying loop of `scalarsToMap` with the next write at `j`. -/
def copyScalars {α : Type} (encode : α → List UInt8) :
    List α → (j : ℕ) → List UInt8 → Option (List UInt8)
  | [], _, data => some data
  | v :: vs, j, data => do
    let data ← Buffer.write data j (encode v)
    copyScalars encode vs (j + (encode v).length) data

def scalarsToMap {α : Type} (alloc : Allocation) (key : Bytes) (width : ℕ)
    (encode : α → List UInt8) (v : List α) (flexType : FlexType) (extract : ExtractVectorF) :
    Cpp CacheMap Unit :=
  fillVector alloc key flexType extract (width * v.length) (copyScalars encode v 0)

/-- The copying loop of `stringsToMap`: the bytes of a string, then its NUL. -/
def copyStrings : List Key → (dest : ℕ) → List UInt8 → Option (List UInt8)
  | [], _, buffer => some buffer
  | s :: strings, dest, buffer => do
    let buffer ← Buffer.write buffer dest s.1
    let buffer ← Buffer.write buffer (dest + s.1.length) [0]
    copyStrings strings (dest + (s.1.length + 1)) buffer

def stringsToMap (alloc : Allocation) (key : Bytes) (v : List Key) : Cpp CacheMap Unit :=
  let totalLength := v.foldl (fun n s => n + s.1.length) 0
  fillVector alloc key .vectorKey .extractStringV (totalLength + v.length) (copyStrings v 0)

def stringToMap (alloc : Allocation) (key : Bytes) (str : Bytes) : Cpp CacheMap Unit :=
  fillVector alloc key .string .extractString (str.length + 1) fun buffer => do
    let buffer ← Buffer.write buffer 0 str
    Buffer.write buffer str.length [0]

def blobToMap (alloc : Allocation) (key : Bytes) (blob : Blob) : Cpp CacheMap Unit :=
  fillVector alloc key .blob .extractBlob (blob.1.length + 4) fun buffer => do
    let buffer ← Buffer.write buffer 0 (Buffer.encode 4 blob.1.length)
    Buffer.write buffer 4 blob.1

def setOrAddFixed (alloc : Allocation) (isSet : Bool) (key : Bytes) (value : FixedValue) :
    Cpp CacheMap Bool :=
  tryCatch
    (do
      match (← read).lookup key with
      | none => tryEmplace alloc key (.ofFixed value)
      | some _ => if isSet then set key (.ofFixed value)
      return true)
    (return false)

/-- The vector overloads differ in how they fill the vector they emplace or reset. -/
def setOrAddVector (alloc : Allocation) (isSet : Bool) (key : Bytes)
    (store : Cpp CacheMap Unit) : Cpp CacheMap Bool :=
  tryCatch
    (do
      match (← read).lookup key with
      | none =>
        tryEmplace alloc key (.ofVector {})
        store
      | some _ =>
        if isSet then
          set key (.ofVector {})
          store
      return true)
    (return false)

/-- The overload a value of a request is stored with; `none` is an unsupported type. A string is
passed as a pointer to its first byte. -/
def setOrAdd (alloc : Allocation) (isSet : Bool) (key : Bytes) :
    FlexReference → Option (Cpp CacheMap Bool)
  | .int v => some (setOrAddFixed alloc isSet key ⟨.int v, .extractInt⟩)
  | .uint v => some (setOrAddFixed alloc isSet key ⟨.uint v, .extractUInt⟩)
  | .bool v => some (setOrAddFixed alloc isSet key ⟨.bool v, .extractBool⟩)
  | .float v => some (setOrAddFixed alloc isSet key ⟨.float v, .extractFloat⟩)
  | .string s => some (setOrAddVector alloc isSet key (stringToMap alloc key (cString s)))
  | .blob b => some (setOrAddVector alloc isSet key (blobToMap alloc key b))
  | .vectorInt xs => some (setOrAddVector alloc isSet key
      (scalarsToMap alloc key 8 encodeInt xs .vectorInt .extractIntV))
  | .vectorUInt xs => some (setOrAddVector alloc isSet key
      (scalarsToMap alloc key 8 encodeUInt xs .vectorUInt .extractUIntV))
  | .vectorFloat xs => some (setOrAddVector alloc isSet key
      (scalarsToMap alloc key 4 encodeFloat xs .vectorFloat .extractFloatV))
  | .vectorBool xs => some (setOrAddVector alloc isSet key
      (scalarsToMap alloc key 1 encodeBool xs .vectorBool .extractBoolV))
  | .vectorKey xs => some (setOrAddVector alloc isSet key (stringsToMap alloc key xs))
  | .other _ => none

end CacheMap

end FCache
