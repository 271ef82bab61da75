import FCache.KvRefinement
import FCache.KvFailures
import FCache.KvValues

/-!
# Clearing and setting

Clearing a map and setting the values of a request comes to deleting all keys of the map and
setting the same values, where there is a map. For a group that does not exist `KVSet` creates
one; `KVClearSet` does not, sets nothing and fails.
-/

namespace FCache

/-- The value a request gives a key: its last one. -/
def KVWrite.value (req : KVWrite) (key : Bytes) : Option FlexReference :=
  (req.kv.reverse.find? fun entry => entry.1.1 = key).map Prod.snd

namespace PlainMap

theorem lookup_put (m : PlainMap) (key key' : Bytes) (v : TypedValue) :
    (m.put true key v).lookup key' = if key = key' then some v else m.lookup key' := by
  unfold put
  rw [Bool.true_or, if_pos rfl]
  by_cases hkey : key = key'
  · subst hkey
    rw [if_pos rfl, Finmap.lookup_insert]
  · rw [if_neg hkey, Finmap.lookup_insert_of_ne m (Ne.symm hkey)]

/-- The last of the values written under a key wins over the value before. -/
theorem write_lookup (m : PlainMap) {kv : List (Key × FlexReference)}
    (hkv : ∀ entry ∈ kv, entry.2.getType.storable = true) :
    (m.write true kv).2 = true ∧ ∀ key : Bytes, (m.write true kv).1.lookup key =
      ((kv.reverse.find? fun entry => entry.1.1 = key).bind fun entry =>
        TypedValue.ofFlex entry.2).or (m.lookup key) := by
  induction kv generalizing m with
  | nil => exact ⟨rfl, fun _ => rfl⟩
  | cons entry kv ih =>
    obtain ⟨key, value⟩ := entry
    have hstorable := (KvHandler.ofFlex_isSome value).trans (hkv (key, value) (by simp))
    obtain ⟨v, hv⟩ := Option.isSome_iff_exists.mp hstorable
    obtain ⟨hok, hlookup⟩ := ih (m.put true key.1 v) fun e he => hkv e (by simp [he])
    unfold write
    simp only [hv]
    refine ⟨hok, fun key' => ?_⟩
    rw [hlookup, lookup_put, List.reverse_cons, List.find?_append]
    cases hfind : kv.reverse.find? fun entry => entry.1.1 = key' with
    | none => by_cases hkey : key.1 = key' <;> simp [hkey, hv]
    | some last =>
      have hmem := List.mem_reverse.mp (List.mem_of_find?_eq_some hfind)
      have hlast := (KvHandler.ofFlex_isSome last.2).trans (hkv last (by simp [hmem]))
      obtain ⟨w, hw⟩ := Option.isSome_iff_exists.mp hlast
      simp [hw]

end PlainMap

namespace KVWrite

variable {req : KVWrite} {key : Bytes} {value : FlexReference}

theorem mem_of_value (h : req.value key = some value) :
    ∃ entry ∈ req.kv, entry.1.1 = key ∧ entry.2 = value := by
  obtain ⟨entry, hfind, rfl⟩ := Option.map_eq_some_iff.mp h
  refine ⟨entry, List.mem_reverse.mp (List.mem_of_find?_eq_some hfind), ?_, rfl⟩
  simpa using List.find?_some hfind

theorem value_isSome_iff : (req.value key).isSome = true ↔ ∃ entry ∈ req.kv, entry.1.1 = key := by
  unfold value
  rw [Option.isSome_map, List.find?_isSome]
  simp

section Supported

variable (hkv : ∀ entry ∈ req.kv, entry.2.getType.storable = true)
include hkv

theorem ofFlex_of_value (h : req.value key = some value) :
    ∃ v, TypedValue.ofFlex value = some v := by
  obtain ⟨entry, hmem, _, rfl⟩ := mem_of_value h
  exact Option.isSome_iff_exists.mp ((KvHandler.ofFlex_isSome entry.2).trans (hkv entry hmem))

/-- A map that was empty holds the values of the request. -/
theorem write_empty (key : Bytes) :
    (PlainMap.write true ∅ req.kv).1.lookup key = (req.value key).bind TypedValue.ofFlex := by
  rw [(PlainMap.write_lookup ∅ hkv).2, Finmap.lookup_empty, Option.or_none]
  unfold value
  rw [Option.bind_map]
  rfl

end Supported

end KVWrite

namespace KvHandler

open Cpp

variable {s s' : KvHandler}

/-- The handler with all keys of a target deleted, if there is one. -/
def deleteKeys (s : KvHandler) (g : Option Bytes) : KvHandler :=
  if (s.lookup g).isSome then s.assign g ∅ else s

/-- The target holds the keys of the request and no others, each with its value of the request. -/
def HoldsRequest (req : KVWrite) (m : CacheMap) : Prop :=
  (∀ key, (m.lookup key).isSome = true ↔ ∃ entry ∈ req.kv, entry.1.1 = key) ∧
    ∀ (key : Key) (value : FlexReference), req.value key.1 = some value →
      ∃ x, value.reply = some x ∧
        CacheMap.get [key.1] {} m = .ok (({} : FlexBuilder).map [(key.1, x)]) m

/-- What a reply and the state after it have to be when a request clears its target and sets its
values. -/
structure ClearsAndSets (s : KvHandler) (req : KVWrite) (s' : KvHandler) (rsp : Response) :
    Prop where
  status : rsp.status = .ok
  holds : ∃ m, s'.lookup (target req.group) = some m ∧ HoldsRequest req m
  asSet : ∃ fbb, machine.step (s.deleteKeys (target req.group)) (.set req) = some (s', fbb)
  frame : ∀ g, g ≠ target req.group → s'.lookup g = s.lookup g

/-- The values set into an empty map are the request's, but for the strings with a NUL. -/
theorem setOrAdd_holds {req : KVWrite}
    (hkv : ∀ entry ∈ req.kv, entry.2.getType.storable = true) :
    ∃ m, setOrAdd true req.kv ∅ = .ok true m ∧
      (HoldsRequest req m ↔
        ∀ key str, req.value key = some (.string str) → (0 : UInt8) ∉ str) := by
  obtain ⟨m, hset, hrep⟩ := setOrAdd_represents CacheMap.Represents.empty true req.kv
  have hkeys : ∀ key, (m.lookup key).isSome = true ↔ ∃ entry ∈ req.kv, entry.1.1 = key := by
    intro key
    rw [hrep.isSome_iff, KVWrite.write_empty hkv, ← KVWrite.value_isSome_iff]
    cases hv : req.value key with
    | none => simp
    | some value =>
      obtain ⟨v, hflex⟩ := KVWrite.ofFlex_of_value hkv hv
      simp [hflex]
  -- Each key is read back as the typed value its value was stored as.
  have hget : ∀ (key : Key) (value : FlexReference), req.value key.1 = some value →
      ∃ v, TypedValue.ofFlex value = some v ∧
        CacheMap.get [key.1] {} m = .ok (({} : FlexBuilder).map [(key.1, v.reply)]) m := by
    intro key value hv
    obtain ⟨v, hflex⟩ := KVWrite.ofFlex_of_value hkv hv
    refine ⟨v, hflex, ?_⟩
    rw [hrep.get_apply]
    simp [PlainMap.select, KVWrite.write_empty hkv, hv, hflex]
  rw [(PlainMap.write_lookup ∅ hkv).1] at hset
  refine ⟨m, hset, ?_⟩
  constructor
  · rintro ⟨_, hholds⟩ key str hv
    obtain ⟨entry, _, rfl, _⟩ := KVWrite.mem_of_value hv
    obtain ⟨x, hx, hgetx⟩ := hholds entry.1 _ hv
    obtain ⟨v, hflex, hgetv⟩ := hget entry.1 _ hv
    have hsame : x = v.reply := by
      rw [hgetv] at hgetx
      simpa [FlexBuilder.map, sortByKey] using hgetx.symm
    exact (TypedValue.reply_ofFlex hflex).mp (hsame ▸ hx) str rfl
  · intro hnul
    refine ⟨hkeys, fun key value hv => ?_⟩
    obtain ⟨v, hflex, hgetv⟩ := hget key value hv
    refine ⟨v.reply, ?_, hgetv⟩
    exact (TypedValue.reply_ofFlex hflex).mpr fun str hstr => hnul key.1 str (hstr ▸ hv)

/-- Setting after deleting all keys leaves what is set into an empty map. -/
theorem step_set_deleteKeys {req : KVWrite} {m : CacheMap}
    (hold : (s.lookup (target req.group)).isSome = true)
    (hset : setOrAdd true req.kv ∅ = .ok true m) :
    machine.step (s.deleteKeys (target req.group)) (.set req) =
      some (s.assign (target req.group) m, ⟨[⟨.ok, .kvSet, none⟩]⟩) := by
  have hcleared : s.deleteKeys (target req.group) = s.assign (target req.group) ∅ := if_pos hold
  have hset' : setOrAdd true req.kv
      (((s.assign (target req.group) ∅).lookup (target req.group)).getD ∅) = .ok true m := by
    rw [lookup_assign]
    exact hset
  have hstep : machine.step (s.assign (target req.group) ∅) (.set req) =
      some ((s.assign (target req.group) ∅).assign (target req.group) m,
        ⟨[⟨.ok, .kvSet, none⟩]⟩) :=
    Handling.answered_eq_some.mpr (@handleSetAdd_apply _ {} true .kvSet req _ _ hset')
  rw [hcleared, hstep, assign_assign]

/-- A request of supported values clears its target and sets its values exactly if there is a
target and none of the strings it sets has a NUL. -/
theorem step_clearSet_iff (s : KvHandler) {req : KVWrite}
    (hkv : ∀ entry ∈ req.kv, entry.2.getType.storable = true) :
    (∃ s' rsp, machine.step s (.clearSet req) = some (s', ⟨[rsp]⟩) ∧
        ClearsAndSets s req s' rsp) ↔
      s.lookup (target req.group) ≠ none ∧
        ∀ key str, req.value key = some (.string str) → (0 : UInt8) ∉ str := by
  obtain ⟨m, hset, hholds⟩ := setOrAdd_holds hkv
  cases hold : s.lookup (target req.group) with
  | none =>
    have hstep : machine.step s (.clearSet req) = some (s, ⟨[⟨.fail, .kvClearSet, none⟩]⟩) :=
      Handling.answered_eq_some.mpr (@handleClearSet_missing _ {} req hold)
    constructor
    · rintro ⟨s', rsp, h, hclears⟩
      rw [hstep] at h
      cases h
      cases hclears.status
    · exact fun h => absurd rfl h.1
  | some old =>
    have hstep : machine.step s (.clearSet req) =
        some (s.assign (target req.group) m, ⟨[⟨.ok, .kvClearSet, none⟩]⟩) :=
      Handling.answered_eq_some.mpr (@handleClearSet_found _ {} req _ _ _ hold hset)
    constructor
    · rintro ⟨s', rsp, h, hclears⟩
      rw [hstep] at h
      cases h
      obtain ⟨m', hm', hreq⟩ := hclears.holds
      rw [lookup_assign] at hm'
      cases hm'
      exact ⟨nofun, hholds.mp hreq⟩
    · rintro ⟨_, hnul⟩
      refine ⟨_, _, hstep, rfl, ⟨m, lookup_assign s _ m, hholds.mpr hnul⟩, ?_, ?_⟩
      · have hisSome : (s.lookup (target req.group)).isSome = true := by rw [hold]; rfl
        exact ⟨_, step_set_deleteKeys hisSome hset⟩
      · exact fun g hg => lookup_assign_ne hg s m

/-- An integer set into the default map. -/
theorem step_clearSet_int :
    let req : KVWrite := ⟨[(⟨[97], by decide⟩, .int 1)], none⟩
    (∃ s' rsp, machine.step {} (.clearSet req) = some (s', ⟨[rsp]⟩) ∧
        ClearsAndSets {} req s' rsp) ↔
      ({} : KvHandler).lookup (target req.group) ≠ none ∧
        ∀ key str, req.value key = some (.string str) → (0 : UInt8) ∉ str :=
  step_clearSet_iff {} (by decide)

/-- The same integer for a group that is not there. -/
theorem not_step_clearSet : ¬ ∀ (s : KvHandler) (req : KVWrite),
    (∀ entry ∈ req.kv, entry.2.getType.storable = true) →
      ∃ s' rsp, machine.step s (.clearSet req) = some (s', ⟨[rsp]⟩) ∧
        ClearsAndSets s req s' rsp := by
  intro h
  obtain ⟨s', rsp, hstep, hclears⟩ :=
    h {} ⟨[(⟨[97], by decide⟩, .int 1)], some [103]⟩ (by decide)
  have hfail : machine.step {} (.clearSet ⟨[(⟨[97], by decide⟩, .int 1)], some [103]⟩) =
      some ({}, ⟨[⟨.fail, .kvClearSet, none⟩]⟩) := by decide +kernel
  cases hstep.symm.trans hfail
  cases hclears.status

end KvHandler

end FCache
