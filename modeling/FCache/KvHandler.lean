import FCache.CacheMap
import FCache.FiniteMap
import FCache.Machine

/-!
# The key-value handler

The default map and the named groups, and the handler of each key-value request. Every handler
that works on one map picks it with its own test of the request's group.
-/

namespace FCache

/-- The groups are kept as their maps. -/
structure KvHandler where
  map : CacheMap := ∅
  groups : Finmap fun _ : Bytes => CacheMap := ∅
  deriving DecidableEq

namespace KvHandler

open Cpp

/-- Run an operation on the default map. -/
def onMap {α : Type} (x : Cpp CacheMap α) : Cpp (Handling KvHandler) α :=
  zoom (fun c => c.handler.map) (fun m c => { c with handler := { c.handler with map := m } }) x

/-- Run an operation on the map of a group found before. -/
def onGroup {α : Type} (name : Bytes) (x : Cpp CacheMap α) : Cpp (Handling KvHandler) α :=
  zoom (fun c => (c.handler.groups.lookup name).getD ∅)
    (fun m c =>
      { c with handler := { c.handler with groups := c.handler.groups.insert name m } }) x

/-- Whether there is a group of this name. -/
def getGroup (name : Bytes) : Cpp (Handling KvHandler) Bool := do
  return ((← read).handler.groups.lookup name).isSome

def createGroup (name : Bytes) : Cpp (Handling KvHandler) Unit :=
  update fun c => { c with handler := { c.handler with groups := c.handler.groups.insert name ∅ } }

def getOrCreateGroup (name : Bytes) : Cpp (Handling KvHandler) Unit := do
  if !(← getGroup name) then createGroup name

/-- Store the values in order, up to the first that cannot be stored. -/
def setOrAdd (isSet : Bool) : List (Key × FlexReference) → Cpp CacheMap Bool
  | [] => return true
  | (key, value) :: kv => do
    let valid ←
      match CacheMap.setOrAdd {} isSet key.1 value with
      | some store => store
      | none => pure false
    if valid then setOrAdd isSet kv else return false

/-- `group && !group->empty()`. -/
def named (group : Option Bytes) : Bool :=
  match group with
  | some name => name ≠ []
  | none => false

def groupName (group : Option Bytes) : Bytes := group.getD []

def handleSetAdd (isSet : Bool) (bodyType : BodyType) (req : KVWrite) :
    Cpp (Handling KvHandler) Unit := do
  let valid ← tryCatch
    (if named req.group then do
      getOrCreateGroup (groupName req.group)
      onGroup (groupName req.group) (setOrAdd isSet req.kv)
    else onMap (setOrAdd isSet req.kv))
    (return false)
  createEmptyBodyResponse (if valid then .ok else .fail) bodyType

def handleSet (req : KVWrite) : Cpp (Handling KvHandler) Unit := handleSetAdd true .kvSet req

def handleAdd (req : KVWrite) : Cpp (Handling KvHandler) Unit := handleSetAdd false .kvAdd req

/-- The keys asked for, or all keys. -/
def get (keys : Option (List Bytes)) : Cpp CacheMap FlexBuilder :=
  match keys with
  | some keys => CacheMap.get keys {}
  | none => CacheMap.getAll {}

/-- The presence of the group is tested here, not whether it is named. -/
def handleGet (req : KVKeys) : Cpp (Handling KvHandler) Unit :=
  tryCatch
    (if req.keys.isNone && req.group.isNone then createEmptyBodyResponse .notPermitted .kvGet
    else do
      let flxb ←
        if named req.group then do
          if ← getGroup (groupName req.group) then onGroup (groupName req.group) (get req.keys)
          else pure (FlexBuilder.map {} [])
        else onMap (get req.keys)
      finish ⟨.ok, .kvGet, some (.kvGet flxb.finish.getBuffer)⟩)
    (createEmptyBodyResponse .fail .kvGet)

def handleRmv (req : KVKeys) : Cpp (Handling KvHandler) Unit :=
  tryCatch
    (do
      match req.keys with
      | none => pure ()
      | some keys =>
        if named req.group then
          if ← getGroup (groupName req.group) then
            onGroup (groupName req.group) (CacheMap.remove keys)
        else onMap (CacheMap.remove keys)
      createEmptyBodyResponse .ok .kvRmv)
    (createEmptyBodyResponse .fail .kvRmv)

def handleCount (req : KVCount) : Cpp (Handling KvHandler) Unit := do
  let count ←
    if named req.group then do
      if ← getGroup (groupName req.group) then onGroup (groupName req.group) CacheMap.count
      else pure 0
    else onMap CacheMap.count
  finish ⟨.ok, .kvCount, some (.kvCount count)⟩

def handleContains (req : KVKeys) : Cpp (Handling KvHandler) Unit := do
  match req.keys with
  | none => createEmptyBodyResponse .fail .kvContains
  | some keys =>
    let flxb ←
      if named req.group then do
        if ← getGroup (groupName req.group) then
          onGroup (groupName req.group) (CacheMap.contains {} keys)
        else pure (FlexBuilder.map {} [])
      else onMap (CacheMap.contains {} keys)
    finish ⟨.ok, .kvContains, some (.kvContains flxb.finish.getBuffer)⟩

def clearGroups : Cpp (Handling KvHandler) Unit :=
  update fun c => { c with handler := { c.handler with groups := ∅ } }

/-- `group.second.kv.clear()` for every group. -/
def clearGroupsKeys : Cpp (Handling KvHandler) Unit :=
  update fun c =>
    { c with
      handler := { c.handler with groups := FiniteMap.mapValues (fun _ => ∅) c.handler.groups } }

def eraseGroup (name : Bytes) : Cpp (Handling KvHandler) Unit :=
  update fun c => { c with handler := { c.handler with groups := c.handler.groups.erase name } }

def handleClear (req : KVClear) : Cpp (Handling KvHandler) Unit := do
  let valid ← tryCatch
    (match req.op with
    | .all => do
      clearGroups
      onMap CacheMap.clear
    | .groups => do
      clearGroups
      return true
    | .groupsKeysOnly => do
      clearGroupsKeys
      return true
    | .group | .groupKeysOnly => do
      if named req.group then
        if ← getGroup (groupName req.group) then
          if req.op = .groupKeysOnly then onGroup (groupName req.group) CacheMap.clear
          else
            eraseGroup (groupName req.group)
            return true
        else return true
      else return true)
    (return false)
  createEmptyBodyResponse (if valid then .ok else .fail) .kvClear

/-- Unlike the other writes this one does not create a missing group. -/
def handleClearSet (req : KVWrite) : Cpp (Handling KvHandler) Unit := do
  let clearSet : Cpp CacheMap Bool := do
    let _ ← CacheMap.clear
    setOrAdd true req.kv
  let valid ← tryCatch
    (if named req.group then do
      if ← getGroup (groupName req.group) then onGroup (groupName req.group) clearSet
      else return false
    else onMap clearSet)
    (return false)
  createEmptyBodyResponse (if valid then .ok else .fail) .kvClearSet

def handle : KVRequest → Cpp (Handling KvHandler) Unit
  | .set req => handleSet req
  | .get req => handleGet req
  | .rmv req => handleRmv req
  | .add req => handleAdd req
  | .count req => handleCount req
  | .contains req => handleContains req
  | .clear req => handleClear req
  | .clearSet req => handleClearSet req

/-- Each message is answered with a builder of its own. -/
def machine : Machine KvHandler KVRequest FlatBuilder where
  init := {}
  step kv req := Handling.answered (handle req ⟨kv, {}⟩)

end KvHandler

end FCache
