import FCache.ClientRules
import FCache.KvApi
import FCache.KvFailures
import FCache.KvIsolation
import Mathlib.Data.List.Find

/-!
# The key-value API gives what a dict of dicts gives

Each call, with its checks, what it sends and what it reads from the reply, gives what a dict of
dicts gives: setting is a union in which the new values win, adding one in which the old ones do.
The values of the dicts are those the store keeps of what is written: of a string the bytes up to
the first zero byte. A key of a group then behaves as a cell of its own.
-/

namespace FCache

namespace KV

open Client

variable {F A : Type} (w : FlexWriter F A)

/-- The value of an item of a dict as the store keeps it: a string ends at its first zero byte. -/
def stored (item : String × PyValue F A) : Option TypedValue :=
  (createValue w item.1 item.2).toOption.bind TypedValue.ofFlex

def valueOf (kv : PyDict (PyValue F A)) (key : Bytes) : Option TypedValue :=
  (kv.items.find? fun item => encode item.1 = key).bind (stored w)

def plainMap (kv : PyDict (PyValue F A)) : PlainMap :=
  FiniteMap.ofKeys (kv.items.map fun item => encode item.1) (valueOf w kv)

/-- The value of one key, or `None`. -/
def PyResult.ofValue : Option TypedValue → PyResult
  | some v => .value v.reply
  | Option.none => .none

namespace Dicts

/-- The dict of a group, of values as the store keeps them; a group that is not there is as good as
an empty one. -/
def dictOf (s : PlainStore) (group : Option String) : PlainMap :=
  (s.lookup (groupField group)).getD ∅

def shown (m : PlainMap) (keys : List Bytes) : PyResult :=
  .dict (FiniteMap.ofKeys keys fun key => (m.lookup key).map TypedValue.reply)

def item (m : PlainMap) (key : String) : PyResult := .ofValue (m.lookup (encode key))

/-- The requested keys that are present, the last one first. -/
def present (m : PlainMap) (keys : List Bytes) : PyResult :=
  match m.present keys.reverse with
  | [] => .dict ∅
  | keys => .list (keys.map .string)

def raises (s : PlainStore) (msg : String) : PlainStore × Except PyError PyResult :=
  (s, .error (.valueError msg))

/-- Nothing is written unless every value of the dict can be. -/
def write (s : PlainStore) (kv : PyDict (PyValue F A))
    (f : PlainMap → PlainStore × Except PyError PyResult) :
    PlainStore × Except PyError PyResult :=
  if kv.items = [] then raises s "keys empty"
  else match createKvMap w kv with
    | .error e => (s, .error e)
    | .ok _ => f (plainMap w kv)

def set (s : PlainStore) (kv : PyDict (PyValue F A)) (group : Option String) :
    PlainStore × Except PyError PyResult :=
  write w s kv fun m => (s.assign (groupField group) (m ∪ dictOf s group), .ok .none)

def add (s : PlainStore) (kv : PyDict (PyValue F A)) (group : Option String) :
    PlainStore × Except PyError PyResult :=
  write w s kv fun m => (s.assign (groupField group) (dictOf s group ∪ m), .ok .none)

def clearSet (s : PlainStore) (kv : PyDict (PyValue F A)) (group : Option String) :
    PlainStore × Except PyError PyResult :=
  write w s kv fun m =>
    if (s.lookup (groupField group)).isSome then (s.assign (groupField group) m, .ok .none)
    else (s, .error (.responseError (.statusError .kvClearSet .fail)))

def get (s : PlainStore) (key : Option String) (keys : List String) (group : Option String) :
    PlainStore × Except PyError PyResult :=
  match key with
  | some key =>
    if key = "" then (s, .ok (shown (dictOf s group) (keys.map encode)))
    else (s, .ok (item (dictOf s group) key))
  | none =>
    if keys = [] then raises s "key or keys must be set"
    else (s, .ok (shown (dictOf s group) (keys.map encode)))

def getAll (s : PlainStore) (group : String) : PlainStore × Except PyError PyResult :=
  if group = "" then raises s "group name cannot be empty"
  else (s, .ok (shown (dictOf s (some group)) (dictOf s (some group)).allKeys))

def getKey (s : PlainStore) (key : String) (group : Option String) :
    PlainStore × Except PyError PyResult :=
  if key = "" then raises s "key is empty"
  else (s, .ok (item (dictOf s group) key))

def getKeys (s : PlainStore) (keys : List String) (group : Option String) :
    PlainStore × Except PyError PyResult :=
  if keys = [] then raises s "keys is empty"
  else (s, .ok (shown (dictOf s group) (keys.map encode)))

def remove (s : PlainStore) (key : Option String) (keys : List String) (group : Option String) :
    PlainStore × Except PyError PyResult :=
  if key = some "" ∨ key = none ∧ keys = [] then raises s "key or keys must be set"
  else
    let erase m := FiniteMap.eraseAll m (((key.map fun key => [key]).getD keys).map encode)
    (s.update (groupField group) erase, .ok .none)

def contains (s : PlainStore) (keys : List String) (group : Option String) :
    PlainStore × Except PyError PyResult :=
  if keys = [] then raises s "keys is empty"
  else (s, .ok (present (dictOf s group) (keys.map encode)))

def clearGroup (s : PlainStore) (name : String) (deleteGroup : Bool) :
    PlainStore × Except PyError PyResult :=
  if name = "" then raises s "group name required"
  else if deleteGroup then ({ s with groups := s.groups.erase (encode name) }, .ok .none)
  else (s.update (some (encode name)) fun _ => ∅, .ok .none)

def clearGroups (s : PlainStore) (deleteGroups : Bool) : PlainStore × Except PyError PyResult :=
  if deleteGroups then ({ s with groups := ∅ }, .ok .none)
  else ({ s with groups := FiniteMap.mapValues (fun _ => ∅) s.groups }, .ok .none)

def step (s : PlainStore) : Call F A → PlainStore × Except PyError PyResult
  | .set kv group => set w s kv group
  | .setKey key value group => set w s ⟨[(key, value)], List.nodup_singleton key⟩ group
  | .add kv group => add w s kv group
  | .clearSet kv group => clearSet w s kv group
  | .get key keys group => get s key keys group
  | .getAll group => getAll s group
  | .getKey key group => getKey s key group
  | .getKeys keys group => getKeys s keys group
  | .remove key keys group => remove s key keys group
  | .count group => (s, .ok (.int (dictOf s group).keys.card))
  | .contains keys group => contains s keys group
  | .clear | .clearAll => ({}, .ok .none)
  | .clearGroup name deleteGroup => clearGroup s name deleteGroup
  | .clearGroups deleteGroups => clearGroups s deleteGroups

def machine : Machine PlainStore (Call F A) (Except PyError PyResult) where
  init := {}
  step s c := some (step w s c)

end Dicts

section Entries

variable {w} {kv : PyDict (PyValue F A)} {entries : List (Key × FlexReference)}

theorem createTypedVector_storable {key : String} {items : List (PyValue F A)}
    {value : FlexReference} (h : createTypedVector w key items = .ok value) :
    value.getType.storable = true := by
  unfold createTypedVector at h
  cases items with
  | nil => cases h
  | cons first items =>
    simp only at h
    split at h
    · cases h
    · split at h
      · obtain ⟨xs, _, hxs⟩ := bind_eq_ok h
        cases hxs
        rfl
      · exact w.elements_storable h

theorem createValue_storable {key : String} {v : PyValue F A} {value : FlexReference}
    (h : createValue w key v = .ok value) : value.getType.storable = true := by
  unfold createValue at h
  cases v with
  | none => cases h
  | bool b | float b | str b =>
    cases h
    rfl
  | int i =>
    obtain ⟨x, _, hx⟩ := bind_eq_ok h
    cases hx
    rfl
  | bytes b =>
    obtain ⟨x, _, hx⟩ := bind_eq_ok h
    cases hx
    rfl
  | array a => exact w.array_storable h
  | list items => exact createTypedVector_storable h

theorem createEntry_ok {item : String × PyValue F A} {entry : Key × FlexReference}
    (h : createEntry w item = .ok entry) :
    entry.1.1 = encode item.1 ∧ createValue w item.1 item.2 = .ok entry.2 := by
  obtain ⟨key, hkey, h⟩ := bind_eq_ok h
  obtain ⟨value, hvalue, h⟩ := bind_eq_ok h
  cases h
  exact ⟨w.key_bytes hkey, hvalue⟩

/-- The entries carry the items, one each and in the same order. -/
abbrev Carries (w : FlexWriter F A) : List (String × PyValue F A) → List (Key × FlexReference) →
    Prop :=
  List.Forall₂ fun item entry =>
    entry.1.1 = encode item.1 ∧ createValue w item.1 item.2 = .ok entry.2

theorem Carries.of_mapM {items : List (String × PyValue F A)} {es : List (Key × FlexReference)}
    (h : items.mapM (createEntry w) = .ok es) : Carries w items es := by
  induction items generalizing es with
  | nil =>
    cases h
    exact .nil
  | cons item items ih =>
    rw [List.mapM_cons] at h
    obtain ⟨entry, hentry, h⟩ := bind_eq_ok h
    obtain ⟨es', hes', h⟩ := bind_eq_ok h
    cases h
    exact .cons (createEntry_ok hentry) (ih hes')

theorem createKvMap_ok (h : createKvMap w kv = .ok entries) :
    ∃ es, entries.Perm es ∧ Carries w kv.items es := by
  obtain ⟨es, hes, h⟩ := bind_eq_ok h
  cases h
  exact ⟨es, List.perm_insertionSort _ es, Carries.of_mapM hes⟩

theorem Carries.storable {items : List (String × PyValue F A)}
    {es : List (Key × FlexReference)} (h : Carries w items es) :
    ∀ entry ∈ es, entry.2.getType.storable = true := by
  induction h with
  | nil => exact fun _ h => absurd h List.not_mem_nil
  | cons hentry _ ih =>
    intro entry hmem
    rcases List.mem_cons.mp hmem with rfl | hmem
    · exact createValue_storable hentry.2
    · exact ih entry hmem

theorem Carries.keys {items : List (String × PyValue F A)} {es : List (Key × FlexReference)}
    (h : Carries w items es) :
    (es.map fun entry => entry.1.1) = items.map fun item => encode item.1 := by
  induction h with
  | nil => rfl
  | cons hentry _ ih => rw [List.map_cons, List.map_cons, hentry.1, ih]

/-- The value the entries give a key. -/
def entryValue (entries : List (Key × FlexReference)) (key : Bytes) : Option TypedValue :=
  (entries.find? fun entry => entry.1.1 = key).bind fun entry => TypedValue.ofFlex entry.2

theorem Carries.entryValue {items : List (String × PyValue F A)}
    {es : List (Key × FlexReference)} (h : Carries w items es) (key : Bytes) :
    entryValue es key = (items.find? fun item => encode item.1 = key).bind (stored w) := by
  induction h with
  | nil => rfl
  | @cons item entry items es hentry _ ih =>
    unfold KV.entryValue at ih ⊢
    rw [List.find?_cons, List.find?_cons, hentry.1]
    by_cases hkey : encode item.1 = key
    · simp [hkey, stored, hentry.2, Except.toOption]
    · simpa [hkey] using ih

theorem PyDict.nodup_encode (kv : PyDict (PyValue F A)) :
    (kv.items.map fun item => encode item.1).Nodup := by
  have h := kv.nodup.map encode_injective
  rwa [List.map_map] at h

theorem createKvMap_storable (h : createKvMap w kv = .ok entries) :
    ∀ entry ∈ entries, entry.2.getType.storable = true := by
  obtain ⟨es, hperm, hes⟩ := createKvMap_ok h
  exact fun entry hmem => hes.storable entry (hperm.mem_iff.mp hmem)

theorem createKvMap_nodup (h : createKvMap w kv = .ok entries) :
    (entries.map fun entry => entry.1.1).Nodup := by
  obtain ⟨es, hperm, hes⟩ := createKvMap_ok h
  rw [(hperm.map _).nodup_iff, hes.keys]
  exact PyDict.nodup_encode kv

theorem createKvMap_entryValue (h : createKvMap w kv = .ok entries) (key : Bytes) :
    entryValue entries key = valueOf w kv key := by
  have hnodup := createKvMap_nodup h
  obtain ⟨es, hperm, hes⟩ := createKvMap_ok h
  rw [valueOf, ← hes.entryValue]
  unfold entryValue
  rw [List.find?_eq_find?_of_perm hperm]
  intro x hx y hy
  have hkey : x.1.1 = y.1.1 := by
    have hx := hx.2
    have hy := hy.2
    simp only [decide_eq_true_eq] at hx hy
    rw [hx, hy]
  exact List.inj_on_of_nodup_map hnodup hx.1 hy.1 hkey

end Entries

theorem lookup_put_key (overwrite : Bool) (m : PlainMap) (key key' : Bytes) (v : TypedValue) :
    (m.put overwrite key v).lookup key' =
      if key = key' then (if overwrite then some v else (m.lookup key').or (some v))
      else m.lookup key' := by
  unfold PlainMap.put
  by_cases hkey : key = key'
  · subst hkey
    cases overwrite with
    | true => simp
    | false => cases h : m.lookup key <;> simp [h]
  · rw [if_neg hkey]
    split
    · exact Finmap.lookup_insert_of_ne m (Ne.symm hkey)
    · rfl

/-- Values with distinct keys: an overwriting command lets them win, the other one the old. -/
theorem write_distinct (overwrite : Bool) (m : PlainMap) {entries : List (Key × FlexReference)}
    (hstorable : ∀ entry ∈ entries, entry.2.getType.storable = true)
    (hnodup : (entries.map fun entry => entry.1.1).Nodup) :
    (m.write overwrite entries).2 = true ∧ ∀ key, (m.write overwrite entries).1.lookup key =
      if overwrite then (entryValue entries key).or (m.lookup key)
      else (m.lookup key).or (entryValue entries key) := by
  induction entries generalizing m with
  | nil => exact ⟨rfl, fun key => by cases overwrite <;> simp [PlainMap.write, entryValue]⟩
  | cons entry entries ih =>
    obtain ⟨key, value⟩ := entry
    obtain ⟨hkey, hnodup⟩ := List.nodup_cons.mp hnodup
    have hsome := (KvHandler.ofFlex_isSome value).trans (hstorable _ List.mem_cons_self)
    obtain ⟨v, hv⟩ := Option.isSome_iff_exists.mp hsome
    obtain ⟨hok, hlookup⟩ := ih (m.put overwrite key.1 v)
      (fun e he => hstorable e (List.mem_cons_of_mem _ he)) hnodup
    unfold PlainMap.write
    simp only [hv]
    refine ⟨hok, fun key' => ?_⟩
    rw [hlookup, lookup_put_key]
    by_cases hkey' : key.1 = key'
    · subst hkey'
      have hrest : entryValue entries key.1 = none := by
        have hfind : entries.find? (fun entry => entry.1.1 = key.1) = none := by
          rw [List.find?_eq_none]
          intro entry hentry heq
          exact hkey (List.mem_map.mpr ⟨entry, hentry, by simpa using heq⟩)
        unfold entryValue
        rw [hfind, Option.bind_none]
      have hfirst : entryValue ((key, value) :: entries) key.1 = some v := by
        simp [entryValue, hv]
      rw [hrest, hfirst]
      cases overwrite <;> simp
    · have hskip : entryValue ((key, value) :: entries) key' = entryValue entries key' := by
        simp [entryValue, hkey']
      rw [hskip, if_neg hkey']

theorem lookup_plainMap (kv : PyDict (PyValue F A)) (key : Bytes) :
    (plainMap w kv).lookup key = valueOf w kv key := by
  unfold plainMap
  rw [FiniteMap.lookup_ofKeys]
  by_cases hkey : key ∈ kv.items.map fun item => encode item.1
  · rw [if_pos hkey]
  · have hfind : kv.items.find? (fun item => encode item.1 = key) = none := by
      rw [List.find?_eq_none]
      intro item hitem heq
      exact hkey (List.mem_map.mpr ⟨item, hitem, by simpa using heq⟩)
    rw [if_neg hkey, valueOf, hfind, Option.bind_none]

section Calls

variable {w} {kv : PyDict (PyValue F A)} {entries : List (Key × FlexReference)}

theorem write_createKvMap (h : createKvMap w kv = .ok entries) (m : PlainMap) :
    m.write true entries = (plainMap w kv ∪ m, true) := by
  obtain ⟨hok, hlookup⟩ :=
    write_distinct true m (createKvMap_storable h) (createKvMap_nodup h)
  refine Prod.ext (Finmap.ext_lookup fun key => ?_) hok
  rw [hlookup, if_pos rfl, FiniteMap.lookup_union, lookup_plainMap, createKvMap_entryValue h]

theorem write_false_createKvMap (h : createKvMap w kv = .ok entries) (m : PlainMap) :
    m.write false entries = (m ∪ plainMap w kv, true) := by
  obtain ⟨hok, hlookup⟩ :=
    write_distinct false m (createKvMap_storable h) (createKvMap_nodup h)
  refine Prod.ext (Finmap.ext_lookup fun key => ?_) hok
  rw [hlookup, if_neg Bool.false_ne_true, FiniteMap.lookup_union, lookup_plainMap,
    createKvMap_entryValue h]

theorem target_groupField (group : Option String) :
    target (groupField group) = groupField group := by
  unfold target groupField
  cases group with
  | none => rfl
  | some name =>
    by_cases hname : name = ""
    · subst hname
      rfl
    · have hbytes : encode name ≠ [] := fun h => hname (encode_eq_nil.mp h)
      rw [Option.filter_some_pos (by simpa using hname), Option.map_some,
        Option.filter_some_pos (by simpa using hbytes)]

/-- The store stands for the key-value handler, and the lists are those given. -/
def Keeps (lists : ListHandler) (server : Server) (t : PlainStore) : Prop :=
  server.kvHandler.Represents t ∧ server.listHandler = lists

variable {lists : ListHandler}

/-- A command is answered as the plain store answers it. -/
theorem answers (req : KVRequest) (t : PlainStore) :
    Answers (Keeps lists) (.kv (some req)) t (some (t.step req).2) (t.step req).1 := by
  rintro server ⟨h, hlists⟩
  obtain ⟨s', t', fbb, hs, ht, hrep⟩ := h.step req
  obtain ⟨rfl, rfl⟩ := Prod.mk.inj (Option.some.inj ht)
  refine ⟨{ server with kvHandler := s' }, ⟨[(t.step req).2]⟩, ?_, rfl, hrep, hlists⟩
  rw [Server.step_kv, hs]
  rfl

theorem sendCmd_yields {req : KVRequest} {t t' : PlainStore} {expectedRspBody : BodyType}
    {body : Option ResponseTable} (h : t.step req = (t', ⟨.ok, expectedRspBody, body⟩)) :
    Yields (Keeps lists) (sendCmd (.kv (some req)) expectedRspBody) t
      (.ok ⟨.ok, expectedRspBody, body⟩) t' := by
  have hanswers := @answers lists req t
  rw [h] at hanswers
  exact .sendCmd_ok hanswers false

theorem call_logErrors (m : Client PyResult) (server : Server) : call (logErrors m) server =
    (call m server).map fun r => (.ok (r.1.toOption.getD .none), r.2) := by
  unfold call logErrors
  simp only [tryCatch, tryCatchThe, MonadExceptOf.tryCatch, ExceptT.tryCatch]
  rw [ExceptT.run_mk, StateT.run_bind, Option.map_eq_bind]
  change Option.bind (StateT.run (ExceptT.run m) server) _ = _
  congr 1
  funext r
  rcases r with ⟨e | x, server'⟩ <;> rfl

theorem logErrors_yields {m : Client PyResult} {r : Except PyError PyResult} {t t' : PlainStore}
    (hm : Yields (Keeps lists) m t r t') :
    Yields (Keeps lists) (logErrors m) t (.ok (r.toOption.getD .none)) t' := by
  intro server h
  obtain ⟨server', hcall, h'⟩ := hm server h
  refine ⟨server', ?_, h'⟩
  rw [call_logErrors, hcall]
  rfl

theorem doSetAdd_yields {requestType : BodyType} {group : Option String} {t : PlainStore}
    {f : PlainMap → PlainStore × Except PyError PyResult}
    (hsend : ∀ entries, createKvMap w kv = .ok entries → ∃ body,
      writeBody requestType { kv := entries, group := groupField group } = some body ∧
        Yields (Keeps lists)
          (sendCmd (.kv (some body)) requestType >>= fun _ => return PyResult.none) t
          (f (plainMap w kv)).2 (f (plainMap w kv)).1) :
    Yields (Keeps lists) (doSetAdd w kv requestType group) t (Dicts.write w t kv f).2
      (Dicts.write w t kv f).1 := by
  unfold doSetAdd Dicts.write
  by_cases hitems : kv.items = []
  · rw [if_pos hitems]
    exact .bind_error (.raiseIf_true (by simp [hitems]) _ t)
  · rw [if_neg hitems]
    refine .bind (.raiseIf_false (by simp [hitems]) _ t) ?_
    cases hmap : createKvMap w kv with
    | error e => exact .bind_error (.ofExcept _ t)
    | ok entries =>
      obtain ⟨body, hbody, hyields⟩ := hsend entries hmap
      refine .bind (.ofExcept _ t) ?_
      simp only [hbody]
      exact hyields

theorem set_yields (kv : PyDict (PyValue F A)) (group : Option String) (t : PlainStore) :
    Yields (Keeps lists) (set w kv group) t (Dicts.set w t kv group).2
      (Dicts.set w t kv group).1 := by
  refine doSetAdd_yields fun entries hmap => ⟨_, rfl, ?_⟩
  have hstep : t.step (.set ⟨entries, groupField group⟩) =
      (t.assign (groupField group) (plainMap w kv ∪ Dicts.dictOf t group),
        ⟨.ok, .kvSet, none⟩) := by
    simp only [PlainStore.step, PlainStore.write, target_groupField, write_createKvMap hmap]
    rfl
  exact .bind (sendCmd_yields hstep) (.pure PyResult.none _)

theorem add_yields (kv : PyDict (PyValue F A)) (group : Option String) (t : PlainStore) :
    Yields (Keeps lists) (add w kv group) t (Dicts.add w t kv group).2
      (Dicts.add w t kv group).1 := by
  refine doSetAdd_yields fun entries hmap => ⟨_, rfl, ?_⟩
  have hstep : t.step (.add ⟨entries, groupField group⟩) =
      (t.assign (groupField group) (Dicts.dictOf t group ∪ plainMap w kv),
        ⟨.ok, .kvAdd, none⟩) := by
    simp only [PlainStore.step, PlainStore.write, target_groupField, write_false_createKvMap hmap]
    rfl
  exact .bind (sendCmd_yields hstep) (.pure PyResult.none _)

theorem clearSet_yields (kv : PyDict (PyValue F A)) (group : Option String) (t : PlainStore) :
    Yields (Keeps lists) (clearSet w kv group) t (Dicts.clearSet w t kv group).2
      (Dicts.clearSet w t kv group).1 := by
  refine doSetAdd_yields fun entries hmap => ⟨_, rfl, ?_⟩
  have hwritten := write_createKvMap hmap ∅
  rw [Finmap.union_empty] at hwritten
  cases hg : t.lookup (groupField group) with
  | none =>
    have hstep : t.step (.clearSet ⟨entries, groupField group⟩) =
        (t, ⟨.fail, .kvClearSet, none⟩) := by
      simp [PlainStore.step, PlainStore.clearWrite, target_groupField, hg, PlainStore.update,
        PlainStore.writeReply]
    have hanswers := @answers lists (.clearSet ⟨entries, groupField group⟩) t
    rw [hstep] at hanswers
    exact .bind_error (.sendCmd hanswers .kvClearSet false)
  | some m =>
    have hstep : t.step (.clearSet ⟨entries, groupField group⟩) =
        (t.assign (groupField group) (plainMap w kv), ⟨.ok, .kvClearSet, none⟩) := by
      simp [PlainStore.step, PlainStore.clearWrite, target_groupField, hg, PlainStore.update,
        PlainStore.writeReply, hwritten]
    exact .bind (sendCmd_yields hstep) (.pure PyResult.none _)

theorem mem_select {m : PlainMap} {keys : List Bytes} {e : Bytes × FlexValue} :
    e ∈ sortByKey (m.select keys) ↔
      e.1 ∈ keys ∧ (m.lookup e.1).map TypedValue.reply = some e.2 := by
  unfold sortByKey PlainMap.select
  rw [(List.perm_insertionSort _ _).mem_iff, List.mem_filterMap]
  obtain ⟨key, x⟩ := e
  constructor
  · rintro ⟨key', hmem, heq⟩
    obtain ⟨v, hv, heq⟩ := Option.map_eq_some_iff.mp heq
    cases heq
    exact ⟨hmem, by rw [hv]; rfl⟩
  · rintro ⟨hmem, heq⟩
    obtain ⟨v, hv, rfl⟩ := Option.map_eq_some_iff.mp heq
    exact ⟨key, hmem, by rw [hv]; rfl⟩

/-- `Loads` of a reply with the selected entries of a map. -/
theorem loadsDict_select (m : PlainMap) (keys : List Bytes) :
    loadsDict (some (.map (sortByKey (m.select keys)))) =
      return FiniteMap.ofKeys keys fun key => (m.lookup key).map TypedValue.reply := by
  change pure _ = pure _
  apply congrArg
  apply Finmap.ext_lookup
  intro key
  rw [FiniteMap.lookup_foldl_insert (f := fun key => (m.lookup key).map TypedValue.reply)
    (fun e he => (mem_select.mp he).2), FiniteMap.lookup_ofKeys, Finmap.lookup_empty]
  by_cases hkey : key ∈ keys
  · rw [if_pos hkey]
    cases hv : (m.lookup key).map TypedValue.reply with
    | none => exact ite_self _
    | some x =>
      exact if_pos (List.mem_map.mpr ⟨(key, x), mem_select.mpr ⟨hkey, hv⟩, rfl⟩)
  · rw [if_neg hkey, if_neg]
    intro hmem
    obtain ⟨e, he, rfl⟩ := List.mem_map.mp hmem
    exact hkey (mem_select.mp he).1

theorem step_get (keys : Option (List Bytes)) (group : Option String) (t : PlainStore)
    (h : keys ≠ none ∨ groupField group ≠ none) :
    let m := Dicts.dictOf t group
    t.step (.get { keys, group := groupField group }) =
      (t, ⟨.ok, .kvGet,
        some (.kvGet (some (.map (sortByKey (m.select (keys.getD m.allKeys))))))⟩) := by
  have hreq : ¬ (keys = none ∧ groupField group = none) := by tauto
  simp only [PlainStore.step, PlainStore.get, if_neg hreq, target_groupField]
  rfl

theorem shown_createKeyStrings (m : PlainMap) (keys : List String) :
    Dicts.shown m (createKeyStrings keys) = Dicts.shown m (keys.map encode) :=
  congrArg PyResult.dict (FiniteMap.ofKeys_congr (fun _ => List.mem_reverse) _)

/-- A single key. -/
theorem doGet_key {key : String} (hkey : key ≠ "") (keys : Option (List String))
    (group : Option String) (t : PlainStore) :
    Yields (Keeps lists) (doGet (some key) keys group) t
      (.ok (Dicts.item (Dicts.dictOf t group) key)) t := by
  unfold doGet
  have hsingle : (some key).filter (fun key => key ≠ "") = some key := by simp [hkey]
  refine .bind (.raiseIf_false (by simp) _ t) ?_
  simp only [hsingle, Option.map_some, Option.some_or]
  refine logErrors_yields (r := .ok (Dicts.item (Dicts.dictOf t group) key)) ?_
  have hstep := step_get (createKeyStrings [key]) group t (.inl (Option.some_ne_none _))
  refine .bind (.pure _ t) (.bind (sendCmd_yields hstep) ?_)
  simp only [Option.getD_some, loadsDict_select]
  refine .bind (.pure _ t) ?_
  rw [FiniteMap.lookup_ofKeys, if_pos (by simp [createKeyStrings])]
  unfold Dicts.item PyResult.ofValue
  cases (Dicts.dictOf t group).lookup (encode key) <;> exact .pure _ t

/-- A list of keys. -/
theorem doGet_keys {key : Option String} (hkey : key = none ∨ key = some "")
    (keys : List String) (group : Option String) (t : PlainStore) :
    Yields (Keeps lists) (doGet key (some keys) group) t
      (.ok (Dicts.shown (Dicts.dictOf t group) (keys.map encode))) t := by
  unfold doGet
  have hsingle : key.filter (fun key => key ≠ "") = none := by
    rcases hkey with rfl | rfl <;> rfl
  refine .bind (.raiseIf_false (by simp) _ t) ?_
  simp only [hsingle, Option.map_none, Option.none_or]
  refine logErrors_yields (r := .ok (Dicts.shown (Dicts.dictOf t group) (keys.map encode))) ?_
  have hstep := step_get (createKeyStrings keys) group t (.inl (Option.some_ne_none _))
  refine .bind (.pure _ t) (.bind (sendCmd_yields hstep) ?_)
  simp only [Option.getD_some, loadsDict_select]
  rw [← shown_createKeyStrings]
  exact .bind (.pure _ t) (.pure _ t)

/-- All keys of a group. -/
theorem doGet_all {group : String} (hgroup : group ≠ "") (t : PlainStore) :
    Yields (Keeps lists) (doGet none none (some group)) t
      (.ok (Dicts.shown (Dicts.dictOf t (some group)) (Dicts.dictOf t (some group)).allKeys))
      t := by
  unfold doGet
  have hfield : groupField (some group) ≠ none := by simp [groupField, hgroup]
  refine .bind (.raiseIf_false (by simp) _ t) ?_
  simp only [Option.filter_none, Option.map_none, Option.none_or]
  refine logErrors_yields (r := .ok _) ?_
  refine .bind (.pure _ t) (.bind (sendCmd_yields (step_get none _ t (.inr hfield))) ?_)
  simp only [Option.getD_none, loadsDict_select]
  exact .bind (.pure _ t) (.pure _ t)

theorem get_yields (key : Option String) (keys : List String) (group : Option String)
    (t : PlainStore) :
    Yields (Keeps lists) (get key keys group) t (Dicts.get t key keys group).2
      (Dicts.get t key keys group).1 := by
  have hgroup : (group.any fun name => name ≠ "" && name.length = 0) = false := by
    cases group with
    | none => rfl
    | some name => simp [String.length_eq_zero_iff, decide_not]
  unfold get Dicts.get
  cases key with
  | none =>
    by_cases hkeys : keys = []
    · simp only [hkeys, if_pos]
      exact .bind_error (.raiseIf_true (by simp) _ t)
    · simp only [if_neg hkeys]
      refine .bind (.raiseIf_false (by simp [hkeys]) _ t) (.bind (.raiseIf_false hgroup _ t) ?_)
      exact doGet_keys (.inl rfl) keys group t
  | some key =>
    refine .bind (.raiseIf_false (by simp) _ t) (.bind (.raiseIf_false hgroup _ t) ?_)
    by_cases hkey : key = ""
    · simp only [hkey, if_pos]
      exact doGet_keys (.inr rfl) keys group t
    · simp only [if_neg hkey]
      exact doGet_key hkey (some keys) group t

theorem getAll_yields (group : String) (t : PlainStore) :
    Yields (Keeps lists) (getAll group) t (Dicts.getAll t group).2 (Dicts.getAll t group).1 := by
  unfold getAll Dicts.getAll
  by_cases hgroup : group = ""
  · rw [if_pos hgroup]
    exact .bind_error (.raiseIf_true (by simp [hgroup]) _ t)
  · rw [if_neg hgroup]
    exact .bind (.raiseIf_false (by simpa using hgroup) _ t) (doGet_all hgroup t)

theorem getKey_yields (key : String) (group : Option String) (t : PlainStore) :
    Yields (Keeps lists) (getKey key group) t (Dicts.getKey t key group).2
      (Dicts.getKey t key group).1 := by
  unfold getKey Dicts.getKey
  by_cases hkey : key = ""
  · rw [if_pos hkey]
    exact .bind_error (.raiseIf_true (by simp [hkey]) _ t)
  · rw [if_neg hkey]
    exact .bind (.raiseIf_false (by simpa using hkey) _ t) (doGet_key hkey none group t)

theorem getKeys_yields (keys : List String) (group : Option String) (t : PlainStore) :
    Yields (Keeps lists) (getKeys keys group) t (Dicts.getKeys t keys group).2
      (Dicts.getKeys t keys group).1 := by
  unfold getKeys Dicts.getKeys
  by_cases hkeys : keys = []
  · rw [if_pos hkeys]
    exact .bind_error (.raiseIf_true (by simp [hkeys]) _ t)
  · rw [if_neg hkeys]
    exact .bind (.raiseIf_false (by simpa using hkeys) _ t) (doGet_keys (.inl rfl) keys group t)

theorem remove_yields (key : Option String) (keys : List String) (group : Option String)
    (t : PlainStore) :
    Yields (Keeps lists) (remove key keys group) t (Dicts.remove t key keys group).2
      (Dicts.remove t key keys group).1 := by
  have hrmv : ∀ keys : List String, Yields (Keeps lists) (logErrors do
      let _ ← sendCmd (.kv (some (.rmv
        { keys := createKeyStrings keys, group := groupField group }))) .kvRmv
      return .none) t (.ok .none)
      (t.update (groupField group) fun m => FiniteMap.eraseAll m (keys.map encode)) := by
    intro keys
    have herase : ∀ m : PlainMap, FiniteMap.eraseAll m (createKeyStrings keys) =
        FiniteMap.eraseAll m (keys.map encode) :=
      FiniteMap.eraseAll_congr fun _ => List.mem_reverse
    have hstep : t.step (.rmv { keys := createKeyStrings keys, group := groupField group }) =
        (t.update (groupField group) fun m => FiniteMap.eraseAll m (keys.map encode),
          ⟨.ok, .kvRmv, none⟩) := by
      simp only [PlainStore.step, PlainStore.remove, target_groupField, Option.getD_some, herase]
    exact logErrors_yields (r := .ok .none) (.bind (sendCmd_yields hstep) (.pure _ _))
  unfold remove Dicts.remove
  cases key with
  | none =>
    by_cases hkeys : keys = []
    · rw [if_pos (.inr ⟨rfl, hkeys⟩)]
      exact .bind_error (.raiseIf_true (by simp [hkeys]) _ t)
    · rw [if_neg (by simp [hkeys])]
      refine .bind (.raiseIf_false (by simp [hkeys]) _ t) (.bind (.raiseIf_false rfl _ t) ?_)
      exact hrmv keys
  | some key =>
    refine .bind (.raiseIf_false (by simp) _ t) ?_
    by_cases hkey : key = ""
    · rw [if_pos (.inl (by rw [hkey]))]
      exact .bind_error (.raiseIf_true (by simp [hkey]) _ t)
    · rw [if_neg (by simp [hkey])]
      exact .bind (.raiseIf_false (by simpa using hkey) _ t) (hrmv [key])

theorem count_yields (group : Option String) (t : PlainStore) :
    Yields (Keeps lists) (count group) t (.ok (.int (Dicts.dictOf t group).keys.card)) t := by
  have hstep : t.step (.count { group := groupField group }) =
      (t, ⟨.ok, .kvCount, some (.kvCount (Dicts.dictOf t group).keys.card)⟩) := by
    simp only [PlainStore.step, PlainStore.count, target_groupField]
    rfl
  exact .bind (sendCmd_yields hstep) (.pure _ t)

theorem step_contains (keys : List String) (group : Option String) (t : PlainStore) :
    ∃ root, t.step (.contains { keys := createKeyStrings keys, group := groupField group }) =
        (t, ⟨.ok, .kvContains, some (.kvContains (some root))⟩) ∧
      (root = .map [] ∧ Dicts.dictOf t group = ∅ ∨ root = .typedVector
        (((Dicts.dictOf t group).present (keys.map encode).reverse).map FlexScalar.string)) := by
  simp only [PlainStore.step, PlainStore.contains, target_groupField]
  refine ⟨_, rfl, ?_⟩
  unfold Dicts.dictOf
  cases t.lookup (groupField group) with
  | none => exact .inl ⟨rfl, rfl⟩
  | some m => exact .inr rfl

theorem contains_yields (keys : List String) (group : Option String) (t : PlainStore) :
    Yields (Keeps lists) (contains keys group) t (Dicts.contains t keys group).2
      (Dicts.contains t keys group).1 := by
  unfold contains Dicts.contains
  by_cases hkeys : keys = []
  · rw [if_pos hkeys]
    exact .bind_error (.raiseIf_true (by simp [hkeys]) _ t)
  · rw [if_neg hkeys]
    refine .bind (.raiseIf_false (by simpa using hkeys) _ t) ?_
    refine logErrors_yields (r := .ok _) ?_
    obtain ⟨root, hstep, hroot⟩ := step_contains keys group t
    refine .bind (sendCmd_yields hstep) ?_
    unfold Dicts.present
    rcases hroot with ⟨rfl, hempty⟩ | rfl
    · have hnone : PlainMap.present ∅ (keys.map encode).reverse = [] := by simp [PlainMap.present]
      rw [hempty, hnone]
      exact .bind (.pure _ t) (.pure _ t)
    · cases (Dicts.dictOf t group).present (keys.map encode).reverse with
      | nil => exact .pure _ t
      | cons key keys => exact .pure _ t

/-- A clearing command that is sent. -/
theorem doClear_yields (op : ClearOperation) (group : Option String) (t : PlainStore)
    (h : op = .group ∨ op = .groupKeysOnly →
      (group.all fun name => name.length = 0) = false) :
    Yields (Keeps lists) (doClear op group) t (.ok .none)
      (t.clear { op, group := groupField group }) := by
  have hstep : t.step (.clear { op, group := groupField group }) =
      (t.clear { op, group := groupField group }, ⟨.ok, .kvClear, none⟩) := rfl
  have hsend : Yields (Keeps lists)
      (sendCmd (.kv (some (.clear { op, group := groupField group }))) .kvClear >>=
        fun _ => return PyResult.none) t (.ok .none)
      (t.clear { op, group := groupField group }) :=
    .bind (sendCmd_yields hstep) (.pure _ _)
  unfold doClear
  by_cases hop : op = .group ∨ op = .groupKeysOnly
  · rw [if_pos hop]
    exact .bind (.raiseIf_false (h hop) _ t) hsend
  · rw [if_neg hop]
    exact hsend

theorem clearAll_yields (t : PlainStore) : Yields (Keeps lists) clearAll t (.ok .none) {} :=
  doClear_yields .all none t (by simp)

theorem clearGroup_yields (name : String) (deleteGroup : Bool) (t : PlainStore) :
    Yields (Keeps lists) (clearGroup name deleteGroup) t (Dicts.clearGroup t name deleteGroup).2
      (Dicts.clearGroup t name deleteGroup).1 := by
  unfold clearGroup Dicts.clearGroup
  by_cases hname : name = ""
  · rw [if_pos hname]
    unfold doClear
    rw [if_pos (by cases deleteGroup <;> simp)]
    exact .bind_error (.raiseIf_true (by simp [hname]) _ t)
  · have hfield : target (groupField (some name)) = some (encode name) := by
      rw [target_groupField]
      simp [groupField, hname]
    have hclear := @doClear_yields lists (if deleteGroup then .group else .groupKeysOnly)
      (some name) t fun _ => by simpa using hname
    rw [if_neg hname]
    unfold PlainStore.clear at hclear
    cases deleteGroup <;> simpa [hfield] using hclear

theorem clearGroups_yields (deleteGroups : Bool) (t : PlainStore) :
    Yields (Keeps lists) (clearGroups deleteGroups) t (Dicts.clearGroups t deleteGroups).2
      (Dicts.clearGroups t deleteGroups).1 := by
  have hclear := @doClear_yields lists (if deleteGroups then .groups else .groupsKeysOnly) none t
    (by cases deleteGroups <;> simp)
  unfold clearGroups Dicts.clearGroups
  cases deleteGroups <;> exact hclear

/-- Each call does on the server what the dict of dicts does, with the values the store keeps. -/
theorem perform_yields (c : Call F A) (t : PlainStore) :
    Yields (Keeps lists) (perform w c) t (Dicts.step w t c).2 (Dicts.step w t c).1 := by
  cases c with
  | set kv group => exact set_yields kv group t
  | setKey key value group => exact set_yields _ group t
  | add kv group => exact add_yields kv group t
  | clearSet kv group => exact clearSet_yields kv group t
  | get key keys group => exact get_yields key keys group t
  | getAll group => exact getAll_yields group t
  | getKey key group => exact getKey_yields key group t
  | getKeys keys group => exact getKeys_yields keys group t
  | remove key keys group => exact remove_yields key keys group t
  | count group => exact count_yields group t
  | contains keys group => exact contains_yields keys group t
  | clear | clearAll => exact clearAll_yields t
  | clearGroup name deleteGroup => exact clearGroup_yields name deleteGroup t
  | clearGroups deleteGroups => exact clearGroups_yields deleteGroups t

end Calls

theorem step_dicts (lists : ListHandler) (server : Server) (t : PlainStore) (c : Call F A)
    (h : Keeps lists server t) : ∃ server' t' result,
      (machine w).step server c = some (server', result) ∧
      (Dicts.machine w).step t c = some (t', result) ∧ Keeps lists server' t' := by
  obtain ⟨server', hcall, h'⟩ := @perform_yields _ _ w lists c t server h
  refine ⟨server', (Dicts.step w t c).1, (Dicts.step w t c).2, ?_, rfl, h'⟩
  change (call (perform w c) server).map Prod.swap = _
  rw [hcall]
  rfl

/-- Any sequence of calls on a server gives what the dict of dicts gives, whatever commands the
server has had before, and leaves the lists as they are. The values of the dicts are those the
store keeps: a string is cut at its first zero byte. -/
theorem runFrom_dicts {server : Server} {t : PlainStore} (h : server.kvHandler.Represents t)
    (calls : List (Call F A)) :
    ∃ server' t' results, (machine w).runFrom server calls = some (server', results) ∧
      (Dicts.machine w).runFrom t calls = some (t', results) ∧
      server'.kvHandler.Represents t' ∧ server'.listHandler = server.listHandler :=
  Machine.runFrom_simulates (step_dicts w server.listHandler) ⟨h, rfl⟩ calls

def keyOf (s : String) : Except PyError Key :=
  if h : (0 : UInt8) ∈ encode s then throw (.valueError "key contains zero byte")
  else return ⟨encode s, h⟩

def int64 (i : ℤ) : Except PyError Int64 :=
  if -2 ^ 63 ≤ i ∧ i < 2 ^ 63 then return Int64.ofInt i else throw .badNumber

/-- A builder that writes no arrays, and of lists those of integers and of strings. -/
def listWriter : FlexWriter FcFloat Empty where
  key := keyOf
  int := int64
  float x := x
  blob b := if h : b.length < 2 ^ 32 then return ⟨b, h⟩ else throw .badNumber
  typedVectorFromArray a := a.elim
  typedVectorFromElements items := do
    let xs ← items.mapM fun
      | .int i => int64 i
      | _ => throw .badBuffer
    return .vectorInt xs
  typedVectorOfKeys items := items.mapM fun
    | .str s => keyOf s
    | _ => throw .badBuffer
  key_bytes h := by
    unfold keyOf at h
    split at h
    · cases h
    · cases h
      rfl
  array_storable {a} := a.elim
  elements_storable h := by
    obtain ⟨xs, _, hxs⟩ := bind_eq_ok h
    cases hxs
    rfl

/-- Two values that are set and read in the other order. -/
theorem runFrom_dicts_getKeys :
    let calls : List (Call FcFloat Empty) :=
      [.set ⟨[("b", .list [.int 2]), ("a", .str "x")], by decide⟩ none, .getKeys ["a", "b"] none]
    ∃ server' t' results, (machine listWriter).runFrom {} calls = some (server', results) ∧
      (Dicts.machine listWriter).runFrom {} calls = some (t', results) ∧
      server'.kvHandler.Represents t' ∧ server'.listHandler = ∅ := by
  intro calls
  exact runFrom_dicts listWriter KvHandler.Represents.init calls

end KV

end FCache
