import FCache.KvApi
import FCache.UnsortedList

/-!
# The list API of the Python client

The calls of the sorted and the unsorted list classes, by the name of the list: the classes share
most calls, and either may be given the name of a list of the other. The values a caller gives are
written by the builders of the client, of which `ListWriter` gives what the server reads.
-/

namespace FCache

structure ListWriter (F A : Type) where
  float : F → Except PyError FcFloat
  elements : List (PyValue F A) → Except PyError TypedVector
  length_eq : ∀ {items v}, elements items = .ok v → v.length = items.length

namespace ListApi

open Client UnsortedList

variable {F A : Type} (w : ListWriter F A)

/-- What a call returns; a call that is done for its effect returns `None`. -/
inductive Result where
  | none
  | item (x : Option FlexScalar)
  | list (xs : List FlexScalar)
  | int (n : ℕ)
  | info (size : ℕ) (type : String) (sorted : Bool)
  deriving DecidableEq

/-- An `int64` field of a request. -/
def int64 (x : ℤ) : Client Int64 :=
  if -2 ^ 63 ≤ x ∧ x < 2 ^ 63 then return Int64.ofInt x else throw .badNumber

/-- The items of a call that adds some. -/
def itemsVector (items : List (PyValue F A)) : Client TypedVector := do
  raiseIf (items.length = 0) "items cannot be empty"
  MonadExcept.ofExcept (w.elements items)

/-- The vector is filled from its end, so the names arrive in reverse order. -/
def delete (names : List String) : Client Unit := do
  let req : ListRequest := .delete { name := (names.map encode).reverse }
  let _ ← sendCmd (.list (some req)) .listDelete

def deleteAll : Client Unit := delete []

def getRange (name : String) (base : Base) (start : ℤ) (stop : Option ℤ) :
    Client (List FlexScalar) :=
  if !isRangeValid start stop then return [] else doGetRange (encode name) base start stop

/-- In Python `bool` is a subclass of `int`. -/
def valueOf : PyValue F A → Client Value
  | .str s => return .stringValue (encode s)
  | .int i => .intValue <$> int64 i
  | .bool b => .intValue <$> int64 b.toNat
  | .float x => .floatValue <$> MonadExcept.ofExcept (w.float x)
  | .none => throw (.valueError "val cannot be none")
  | _ => throw (.valueError "val not supported type")

def removeIfEq (name : String) (start : ℤ) (stop : Option ℤ) (val : PyValue F A) : Client ℕ := do
  raiseIf (!isRangeValid start stop) "range invalid"
  let value ← valueOf w val
  let range ← range start stop
  let req : ListRequest := .removeIf { name := encode name, range, value }
  let rsp ← sendCmd (.list (some req)) .listRemoveIf
  match rsp.body with
  | some (.listRemoveIf size) => return size.toNat
  | _ => throw .noBody

/-- `_do_add`, of items still to be written. -/
def add (name : String) (items : List (PyValue F A)) (pos : ℤ) (itemsSorted : Bool) :
    Client ℕ := do
  let items ← itemsVector w items
  doAdd id (encode name) items pos itemsSorted

def addTail (name : String) (items : List (PyValue F A)) : Client ℕ := do
  let items ← itemsVector w items
  UnsortedList.addTail id (encode name) items

def set (name : String) (items : List (PyValue F A)) (pos : ℤ) : Client Unit := do
  let items ← itemsVector w items
  let position ← int32 pos
  let req : ListRequest := .set { name := encode name, position, items }
  let _ ← sendCmd (.list (some req)) .listSet

/-- Neither `None` nor the empty name is sent. -/
def newNameField (newListName : Option String) : Option Bytes :=
  (newListName.filter fun name => name ≠ "").map encode

/-- The items of the reply are not read if the intersection is to be stored. -/
def intersect (list1 list2 : String) (l1Start : ℤ) (l1Stop : Option ℤ) (l2Start : ℤ)
    (l2Stop : Option ℤ) (newListName : Option String) : Client Result := do
  raiseIf (list1.length = 0) "name1 empty"
  raiseIf (list2.length = 0) "name2 empty"
  let list1Range ← range l1Start l1Stop
  let list2Range ← range l2Start l2Stop
  let req : ListRequest := .intersect
    { list1Name := encode list1, list2Name := encode list2, list1Range, list2Range,
      newListName := newNameField newListName }
  let rsp ← sendCmd (.list (some req)) .listIntersect
  match newNameField newListName with
  | some _ => return .none
  | none =>
    match rsp.body with
    | some (.listIntersect items) => return .list (← loads items)
    | _ => throw .noBody

/-- The calls of the API with their arguments. Creating and adding are given the sorted flag or
the position by the class they are called on. -/
inductive Call (F A : Type) where
  | create (sorted : Bool) (name type : String) (failOnDuplicate : Bool)
  | delete (names : List String)
  | deleteAll
  | getHead (name : String)
  | getTail (name : String)
  | getN (name : String) (start : ℤ) (count : Option ℤ)
  | getNReverse (name : String) (start : ℤ) (count : Option ℤ)
  | getRange (name : String) (start : ℤ) (stop : Option ℤ)
  | getRangeReverse (name : String) (start : ℤ) (stop : Option ℤ)
  | remove (name : String) (start : ℤ) (stop : Option ℤ)
  | removeHead (name : String)
  | removeTail (name : String)
  | removeIfEq (name : String) (start : ℤ) (stop : Option ℤ) (val : PyValue F A)
  | size (name : String)
  | info (name : String)
  | add (name : String) (items : List (PyValue F A)) (pos : ℤ)
  | addSorted (name : String) (items : List (PyValue F A)) (itemsSorted : Bool)
  | addHead (name : String) (items : List (PyValue F A))
  | addTail (name : String) (items : List (PyValue F A))
  | set (name : String) (items : List (PyValue F A)) (pos : ℤ)
  | intersect (list1 list2 : String) (l1Start : ℤ) (l1Stop : Option ℤ) (l2Start : ℤ)
      (l2Stop : Option ℤ) (newListName : Option String)

def perform : Call F A → Client Result
  | .create sorted name type failOnDuplicate =>
    (fun _ => .none) <$> createList (encode name) type sorted failOnDuplicate
  | .delete names => (fun _ => .none) <$> delete names
  | .deleteAll => (fun _ => .none) <$> deleteAll
  | .getHead name => .item <$> getHead (encode name)
  | .getTail name => .item <$> getTail (encode name)
  | .getN name start count => .list <$> getN (encode name) start count
  | .getNReverse name start count => .list <$> getNReverse (encode name) start count
  | .getRange name start stop => .list <$> getRange name .head start stop
  | .getRangeReverse name start stop => .list <$> getRange name .tail start stop
  | .remove name start stop => (fun _ => .none) <$> remove (encode name) start stop
  | .removeHead name => (fun _ => .none) <$> removeHead (encode name)
  | .removeTail name => (fun _ => .none) <$> removeTail (encode name)
  | .removeIfEq name start stop val => .int <$> removeIfEq w name start stop val
  | .size name => .int <$> size (encode name)
  | .info name => (fun r => .info r.1 r.2.1 r.2.2) <$> info (encode name)
  | .add name items pos => .int <$> add w name items pos false
  | .addSorted name items itemsSorted => .int <$> add w name items 0 itemsSorted
  | .addHead name items => .int <$> add w name items 0 false
  | .addTail name items => .int <$> addTail w name items
  | .set name items pos => (fun _ => .none) <$> set w name items pos
  | .intersect list1 list2 l1Start l1Stop l2Start l2Stop newListName =>
    intersect list1 list2 l1Start l1Stop l2Start l2Stop newListName

/-- A server and the calls made on it, one after another, by any number of clients. -/
def machine : Machine Server (Call F A) (Except PyError Result) where
  init := {}
  step server c := (Client.call (perform w c) server).map Prod.swap

end ListApi

end FCache
