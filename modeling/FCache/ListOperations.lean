import FCache.List
import FCache.Algorithm

/-!
# List operations

The visitors applied to a stored list. Iterators are positions in `[0, size]`. Every dereference,
advance, insertion and erasure is checked: an operation is `none` where the program would have
undefined behaviour. Positions are `int64` values in the source; they are integers here, because
no list is long enough for the computations to leave the range.
-/

namespace FCache

variable {α : Type}

def labs (x : ℤ) : ℤ := if x < 0 then -x else x

/-- `std::next(it, n)`. -/
def next (l : List α) (it : ℕ) (n : ℤ) : Option ℕ :=
  if 0 ≤ it + n ∧ it + n ≤ l.length then some (it + n).toNat else none

/-- `list.emplace(it, v)`; the iterator it returns is `it` again. -/
def emplace (l : List α) (it : ℕ) (v : α) : Option (List α) :=
  if it ≤ l.length then some (l.take it ++ v :: l.drop it) else none

/-- `list.erase(first, last)`. -/
def erase (l : List α) (first last : ℕ) : Option (List α) :=
  if first ≤ last ∧ last ≤ l.length then some (l.take first ++ l.drop last) else none

/-- Read `count` elements from `it` on. -/
def listToTypedVector (l : List α) (it : ℕ) : (count : ℕ) → Option (List α)
  | 0 => some []
  | count + 1 =>
    match l[it]? with
    | none => none
    | some x => (listToTypedVector l (it + 1) count).map (x :: ·)

def positionsToIndices (start stop : ℤ) (hasStop : Bool) (l : List α) : Bool × ℤ × ℤ :=
  let size : ℤ := l.length
  if (0 ≤ start ∧ size ≤ start) ∨ size < labs start then (false, 0, 0)
  else
    let stop := if hasStop then stop else size
    let first := if start < 0 then size + start else start
    let last := if stop < 0 then min size (labs (size + stop)) else min size stop
    (true, first, last)

def positionsToIterators (start stop : ℤ) (hasStop : Bool) (l : List α) :
    Option (Bool × ℕ × ℕ) :=
  let (valid, first, last) := positionsToIndices start stop hasStop l
  if !valid || last ≤ first then some (false, 0, 0)
  else do
    let itBegin ← next l 0 first
    let itLast ← next l 0 last
    return (true, itBegin, itLast)

/-- Unlike `positionsToIterators`, an out of bounds start gives the end of the list. -/
def positionToStartIterator (start : ℤ) (l : List α) : Option ℕ := do
  let (valid, s, _) ← positionsToIterators start 0 false l
  return if valid then s else l.length

variable [ListValue α]

structure Add where
  items : TypedVector
  pos : ℤ := 0
  itemsSorted : Bool := false
  append : Bool := false

namespace Add

def insertFrom (l : List α) (it : ℕ) : TypedVector → Option (List α)
  | [] => some l
  | item :: items => do
    let l' ← emplace l it (ListValue.as item)
    insertFrom l' (it + 1) items

/-- One `lower_bound` over the whole list for each item. -/
def sortedInsert (l : List α) : TypedVector → Option (List α)
  | [] => some l
  | item :: items => do
    let val := ListValue.as item
    let itPos := Algorithm.lowerBound ListValue.lt l 0 l.length val
    let l' ← emplace l itPos val
    sortedInsert l' items

/-- Each `lower_bound` starts from the element inserted last. -/
def mergeInsert (l : List α) (it : ℕ) : TypedVector → Option (List α)
  | [] => some l
  | item :: items => do
    let val := ListValue.as item
    let itPos := Algorithm.lowerBound ListValue.lt l it (l.length - it) val
    let l' ← emplace l itPos val
    mergeInsert l' itPos items

def doSourceListSortedAdd (items : TypedVector) (l : List α) : Option (List α) :=
  let highestItem : α := ListValue.as (items.getLastD Item.null)
  let lowestItem : α := ListValue.as (items.headD Item.null)
  if l.head?.any fun front => ListValue.le highestItem front then
    some (items.reverse.foldl (fun l item => ListValue.as item :: l) l)
  else if l.getLast?.any fun back => ListValue.le back lowestItem then
    some (items.foldl (fun l item => l ++ [ListValue.as item]) l)
  else mergeInsert l 0 items

def doAdd (op : Add) (sortedList : Bool) (l : List α) : Option (List α) :=
  if sortedList then
    if op.itemsSorted then doSourceListSortedAdd op.items l
    else sortedInsert l op.items
  else do
    let it ← positionToStartIterator op.pos l
    insertFrom l it op.items

def call (op : Add) (sortedList : Bool) (l : List α) : Option (List α × ℕ) := do
  let l' ← if op.append then some (op.items.foldl (fun l item => l ++ [ListValue.as item]) l)
    else op.doAdd sortedList l
  return (l', l'.length)

end Add

structure Set where
  items : TypedVector
  pos : ℤ

namespace Set

/-- Write `items[i], items[i + 1], …` to the `count` elements from `it` on. -/
def assign (items : TypedVector) (l : List α) (i it : ℕ) : (count : ℕ) → Option (List α)
  | 0 => some l
  | count + 1 =>
    if it < l.length then
      assign items (l.set it (ListValue.as (items.getD i Item.null))) (i + 1) (it + 1) count
    else none

def call (op : Set) (l : List α) : Option (List α × Unit) := do
  let pos := if op.pos < 0 then l.length + op.pos else op.pos
  let (valid, first, last) ← positionsToIterators pos (pos + op.items.length) true l
  if !valid then return (l, ())
  else
    let l' ← assign op.items l 0 first (last - first)
    return (l', ())

end Set

structure GetByRange where
  start : ℤ
  stop : ℤ := 0
  hasStop : Bool
  base : Base

/-- The elements read, or that no vector was created. -/
def GetByRange.call (op : GetByRange) (flxb : FlexBuilder) (l : List α) :
    Option (FlexBuilder × Bool) :=
  let (valid, first, last) := positionsToIndices op.start op.stop op.hasStop l
  if valid then do
    let iterated := if op.base = .head then l else l.reverse
    let itStart ← next iterated 0 first
    let items ← listToTypedVector iterated itStart (last - first).toNat
    return (flxb.typedVector (items.map ListValue.add), true)
  else some (flxb, false)

structure Remove where
  start : ℤ
  stop : ℤ := 0
  hasStop : Bool

def Remove.call (op : Remove) (l : List α) : Option (List α × Unit) :=
  let (valid, first, last) := positionsToIndices op.start op.stop op.hasStop l
  if valid then
    if last - first = l.length then some ([], ())
    else do
      let itStart ← next l 0 first
      let itEnd ← next l 0 last
      let l' ← erase l itStart itEnd
      return (l', ())
  else some (l, ())

/-- The condition is equality with `val`, a value of the alternative `type`. -/
structure RemoveIf where
  start : ℤ
  stop : ℤ := 0
  hasStop : Bool
  type : Alternative
  val : type.ValueType

namespace RemoveIf

def doRemove (op : RemoveIf) (sortedList : Bool) (val : α) (l : List α) : Option (List α) := do
  let (valid, itBegin, itEnd) ← positionsToIterators op.start op.stop op.hasStop l
  if !valid then return l
  else if sortedList then
    let (itLow, itHigh) := Algorithm.equalRange ListValue.lt l itBegin (itEnd - itBegin) val
    if itLow ≠ l.length then erase l itLow itHigh else return l
  else
    let (l', newEnd) := Algorithm.removeIf (fun x => ListValue.eq x val) l itBegin itEnd
    erase l' newEnd itEnd

/-- Nothing is removed from a list of another element type. -/
def call (op : RemoveIf) (sortedList : Bool) (a : Alternative) (l : List a.ValueType) :
    Option (List a.ValueType × ℕ) := do
  let l' ← if h : op.type = a then op.doRemove sortedList (h ▸ op.val) l else some l
  return (l', l'.length)

end RemoveIf

/-- The intersected elements, or that one of the ranges is empty or invalid. -/
def intersect (l1 l2 : List α) (l1Range l2Range : Range) : Option (Option (List α)) := do
  let (l1Valid, l1Begin, l1Last) ←
    positionsToIterators l1Range.start.toInt l1Range.stop.toInt l1Range.hasStop l1
  let (l2Valid, l2Begin, l2Last) ←
    positionsToIterators l2Range.start.toInt l2Range.stop.toInt l2Range.hasStop l2
  if l1Valid && l2Valid then
    return some (Algorithm.setIntersection ListValue.lt
      ((l1.take l1Last).drop l1Begin) ((l2.take l2Last).drop l2Begin))
  else return none

/-- `intersect` to a new list. -/
def intersectToList (newList l1 l2 : List α) (l1Range l2Range : Range) : Option (List α) := do
  match ← intersect l1 l2 l1Range l2Range with
  | some result => return newList ++ result
  | none => return newList

/-- `intersect` to the response buffer; the buffer is finished only when the ranges are valid. -/
def intersectToFlexBuffer (flxb : FlexBuilder) (l1 l2 : List α) (l1Range l2Range : Range) :
    Option FlexBuilder := do
  match ← intersect l1 l2 l1Range l2Range with
  | some result => return (flxb.typedVector (result.map ListValue.add)).finish
  | none => return flxb

def Info.call (l : List α) : UInt32 := UInt32.ofNat l.length

end FCache
