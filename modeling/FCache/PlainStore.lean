import FCache.Schema
import FCache.FiniteMap
import FCache.Machine

/-!
# The plain store

What the key-value commands are for, with no word on how values are kept: a default map and named
groups of maps from keys to typed values. A write goes through its values in request order and
stops at the first one no type can hold; a string value ends at its first NUL.
-/

namespace FCache

inductive TypedValue where
  | int (v : Int64)
  | uint (v : UInt64)
  | bool (v : Bool)
  | float (v : FcFloat)
  | string (s : Key)
  | blob (b : Blob)
  | vectorInt (xs : List Int64)
  | vectorUInt (xs : List UInt64)
  | vectorFloat (xs : List FcFloat)
  | vectorBool (xs : List Bool)
  | vectorKey (xs : List Key)
  deriving DecidableEq

namespace TypedValue

/-- The typed value a request carries, if its type is supported. -/
def ofFlex : FlexReference → Option TypedValue
  | .int v => some (.int v)
  | .uint v => some (.uint v)
  | .bool v => some (.bool v)
  | .float v => some (.float v)
  | .string s => some (.string (Key.ofBytes s))
  | .blob b => some (.blob b)
  | .vectorInt xs => some (.vectorInt xs)
  | .vectorUInt xs => some (.vectorUInt xs)
  | .vectorFloat xs => some (.vectorFloat xs)
  | .vectorBool xs => some (.vectorBool xs)
  | .vectorKey xs => some (.vectorKey xs)
  | .other _ => none

/-- The value as a reply shows it. -/
def reply : TypedValue → FlexValue
  | .int v => .scalar (.int v)
  | .uint v => .scalar (.uint v)
  | .bool v => .scalar (.bool v)
  | .float v => .scalar (.float v)
  | .string s => .scalar (.string s.1)
  | .blob b => .blob b.1
  | .vectorInt xs => .typedVector (xs.map .int)
  | .vectorUInt xs => .typedVector (xs.map .uint)
  | .vectorFloat xs => .typedVector (xs.map .float)
  | .vectorBool xs => .typedVector (xs.map .bool)
  | .vectorKey xs => .typedVector (xs.map fun s => .string s.1)

end TypedValue

abbrev PlainMap := Finmap fun _ : Bytes => TypedValue

namespace PlainMap

/-- Write one value; only an overwriting command replaces the value of a key. -/
def put (overwrite : Bool) (m : PlainMap) (key : Bytes) (v : TypedValue) : PlainMap :=
  if overwrite || (m.lookup key).isNone then m.insert key v else m

/-- The map after the values that were written, and whether all of them were. -/
def write (overwrite : Bool) : PlainMap → List (Key × FlexReference) → PlainMap × Bool
  | m, [] => (m, true)
  | m, (key, value) :: kv =>
    match TypedValue.ofFlex value with
    | none => (m, false)
    | some v => write overwrite (m.put overwrite key.1 v) kv

/-- The requested keys that are present, with their values. -/
def select (m : PlainMap) (keys : List Bytes) : List (Bytes × FlexValue) :=
  keys.filterMap fun key => (m.lookup key).map fun v => (key, v.reply)

def allKeys (m : PlainMap) : List Bytes := FiniteMap.sortedKeys m

/-- The requested keys that are present. -/
def present (m : PlainMap) (keys : List Bytes) : List Bytes :=
  keys.filter fun key => (m.lookup key).isSome

end PlainMap

structure PlainStore where
  map : PlainMap := ∅
  groups : Finmap (fun _ : Bytes => PlainMap) := ∅
  deriving DecidableEq

namespace PlainStore

def lookup (s : PlainStore) : Option Bytes → Option PlainMap
  | none => some s.map
  | some name => s.groups.lookup name

def assign (s : PlainStore) : Option Bytes → PlainMap → PlainStore
  | none, m => { s with map := m }
  | some name, m => { s with groups := s.groups.insert name m }

@[simp] theorem lookup_assign (s : PlainStore) (g : Option Bytes) (m : PlainMap) :
    (s.assign g m).lookup g = some m := by
  cases g with
  | none => rfl
  | some name => exact Finmap.lookup_insert _

theorem lookup_assign_ne {g g' : Option Bytes} (hg : g' ≠ g) (s : PlainStore)
    (m : PlainMap) : (s.assign g' m).lookup g = s.lookup g := by
  cases g with
  | none =>
    cases g' with
    | none => exact absurd rfl hg
    | some name => rfl
  | some name =>
    cases g' with
    | none => rfl
    | some name' =>
      apply Finmap.lookup_insert_of_ne
      intro h
      exact hg (by rw [h])

/-- Change the map of a target, if there is one. -/
def update (s : PlainStore) (g : Option Bytes) (f : PlainMap → PlainMap) : PlainStore :=
  match s.lookup g with
  | none => s
  | some m => s.assign g (f m)

def writeReply (ok : Bool) (bodyType : BodyType) : Response :=
  ⟨if ok then .ok else .fail, bodyType, none⟩

/-- A missing group is created even when nothing can be written to it. -/
def write (s : PlainStore) (overwrite : Bool) (bodyType : BodyType) (req : KVWrite) :
    PlainStore × Response :=
  let written := ((s.lookup (target req.group)).getD ∅).write overwrite req.kv
  (s.assign (target req.group) written.1, writeReply written.2 bodyType)

def clearWrite (s : PlainStore) (req : KVWrite) : PlainStore × Response :=
  let written := PlainMap.write true ∅ req.kv
  (s.update (target req.group) fun _ => written.1,
    writeReply (written.2 && (s.lookup (target req.group)).isSome) .kvClearSet)

def get (s : PlainStore) (req : KVKeys) : Response :=
  if req.keys = none ∧ req.group = none then ⟨.notPermitted, .kvGet, none⟩
  else
    let m := (s.lookup (target req.group)).getD ∅
    ⟨.ok, .kvGet, some (.kvGet (some (.map (sortByKey (m.select (req.keys.getD m.allKeys))))))⟩

def remove (s : PlainStore) (req : KVKeys) : PlainStore :=
  s.update (target req.group) fun m => FiniteMap.eraseAll m (req.keys.getD [])

def count (s : PlainStore) (req : KVCount) : Response :=
  ⟨.ok, .kvCount, some (.kvCount ((s.lookup (target req.group)).getD ∅).keys.card)⟩

/-- For a missing group the names come as an empty map. -/
def contains (s : PlainStore) (req : KVKeys) : Response :=
  match req.keys with
  | none => ⟨.fail, .kvContains, none⟩
  | some keys =>
    let root : FlexRoot :=
      match s.lookup (target req.group) with
      | some m => .typedVector ((m.present keys).map .string)
      | none => .map []
    ⟨.ok, .kvContains, some (.kvContains (some root))⟩

def clear (s : PlainStore) (req : KVClear) : PlainStore :=
  match req.op, target req.group with
  | .all, _ => {}
  | .groups, _ => { s with groups := ∅ }
  | .groupsKeysOnly, _ => { s with groups := FiniteMap.mapValues (fun _ => ∅) s.groups }
  | .group, some name => { s with groups := s.groups.erase name }
  | .groupKeysOnly, some name => s.update (some name) fun _ => ∅
  | _, none => s

def step (s : PlainStore) : KVRequest → PlainStore × Response
  | .set req => s.write true .kvSet req
  | .add req => s.write false .kvAdd req
  | .clearSet req => s.clearWrite req
  | .get req => (s, s.get req)
  | .rmv req => (s.remove req, ⟨.ok, .kvRmv, none⟩)
  | .count req => (s, s.count req)
  | .contains req => (s, s.contains req)
  | .clear req => (s.clear req, ⟨.ok, .kvClear, none⟩)

def machine : Machine PlainStore KVRequest FlatBuilder where
  init := {}
  step s req := some ((s.step req).1, ⟨[(s.step req).2]⟩)

end PlainStore

end FCache
