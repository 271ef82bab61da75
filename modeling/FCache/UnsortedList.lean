import FCache.Client

/-!
# Unsorted lists in the Python API

The calls of the list classes that an unsorted list offers and a deque needs. `encode` is how the
FlexBuffers builder of the client writes an item of a typed vector, seen as the server reads it.
-/

namespace FCache.UnsortedList

open Client

variable {α : Type}

/-- Easy checks that need no list size. -/
def isRangeValid (start : ℤ) : Option ℤ → Bool
  | none => true
  | some stop =>
    if start = stop then false
    else if start < 0 ∧ stop < 0 ∨ 0 < start ∧ 0 < stop then start ≤ stop
    else true

def range (start : ℤ) (stop : Option ℤ) : Client Range := do
  let first ← int32 start
  let last ← int32 (stop.getD 0)
  return { start := first, stop := last, hasStop := stop.isSome }

def listTypeOf (type : String) : Option ListType :=
  if type.toLower = "int" then some .int
  else if type.toLower = "float" then some .float
  else if type.toLower = "str" then some .string
  else none

/-- `List._create`, with the sorted flag the concrete classes pass. -/
def createList (name : Bytes) (type : String) (isSorted failOnDuplicate : Bool) : Client Unit := do
  match listTypeOf type with
  | none => throw (.valueError "listType invalid")
  | some listType =>
    let req : ListRequest := .create { name, type := listType.toByte, sorted := isSorted }
    let _ ← sendCmd (.list (some req)) .listCreate (!failOnDuplicate)

def create (name : Bytes) (type : String) (failOnDuplicate : Bool := true) : Client Unit :=
  createList name type false failOnDuplicate

def doGetRange (name : Bytes) (base : Base) (start : ℤ) (stop : Option ℤ) :
    Client (List FlexScalar) := do
  raiseIf (name = []) "name is empty"
  let range ← range start stop
  let req : ListRequest := .getRange { name, range, base }
  let rsp ← sendCmd (.list (some req)) .listGetRange
  match rsp.body with
  | some (.listGetRange items) => loads items
  | _ => throw .noBody

/-- A count of zero means all remaining items, like no count. -/
def stopOf (start : ℤ) (count : Option ℤ) : Option ℤ :=
  (count.filter fun n => n ≠ 0).map fun n => start + n

def getN (name : Bytes) (start : ℤ := 0) (count : Option ℤ := none) : Client (List FlexScalar) :=
  doGetRange name .head start (stopOf start count)

def getNReverse (name : Bytes) (start : ℤ := 0) (count : Option ℤ := none) :
    Client (List FlexScalar) :=
  doGetRange name .tail start (stopOf start count)

def getHead (name : Bytes) : Client (Option FlexScalar) := do
  let items ← getN name 0 (some 1)
  return items.head?

def getTail (name : Bytes) : Client (Option FlexScalar) := do
  let items ← getNReverse name 0 (some 1)
  return items.head?

def remove (name : Bytes) (start : ℤ := 0) (stop : Option ℤ := none) : Client Unit := do
  raiseIf (!isRangeValid start stop) "range invalid"
  raiseIf (name = []) "list name empty"
  let range ← range start stop
  let _ ← sendCmd (.list (some (.remove { name, range }))) .listRemove

def removeHead (name : Bytes) : Client Unit := remove name 0 (some 1)

def removeTail (name : Bytes) : Client Unit := remove name (-1)

def listTypeName : ListType → String
  | .float => "float"
  | .string => "str"
  | .int | .uint => "int"

def info (name : Bytes) : Client (ℕ × String × Bool) := do
  raiseIf (name = []) "name is empty"
  let rsp ← sendCmd (.list (some (.info { name }))) .listInfo
  match rsp.body with
  | some (.listInfo size type sorted) => return (size.toNat, listTypeName type, sorted)
  | _ => throw .noBody

def size (name : Bytes) : Client ℕ := do
  let (size, _, _) ← info name
  return size

def doAdd (encode : α → Item) (name : Bytes) (items : List α) (pos : ℤ) (itemsSorted : Bool) :
    Client ℕ := do
  raiseIf (items.length = 0) "items cannot be empty"
  let position ← int32 pos
  let req : ListRequest := .add { name, items := items.map encode, position, itemsSorted }
  let rsp ← sendCmd (.list (some req)) .listAdd
  match rsp.body with
  | some (.listAdd size) => return size.toNat
  | _ => throw .noBody

def addHead (encode : α → Item) (name : Bytes) (items : List α) : Client ℕ :=
  doAdd encode name items 0 false

def addTail (encode : α → Item) (name : Bytes) (items : List α) : Client ℕ := do
  raiseIf (items.length = 0) "items cannot be empty"
  let req : ListRequest := .append { name, items := items.map encode }
  let rsp ← sendCmd (.list (some req)) .listAppend
  match rsp.body with
  | some (.listAppend size) => return size.toNat
  | _ => throw .noBody

end FCache.UnsortedList
