import FCache.KvHandler
import FCache.CacheMapCodec

/-!
# The effect and the replies of the write commands

The three commands that write values pick a map, run the loop over the values on it and reply
whether the loop got to the end. The loop stops at the first value of an unsupported type; what
it has written until then stays.
-/

namespace FCache

namespace KvHandler

open Cpp

/-- The map of a target, if there is one. -/
def lookup (s : KvHandler) : Option Bytes → Option CacheMap
  | none => some s.map
  | some name => s.groups.lookup name

def assign (s : KvHandler) : Option Bytes → CacheMap → KvHandler
  | none, m => { s with map := m }
  | some name, m => { s with groups := s.groups.insert name m }

variable {s : KvHandler} {fbb : FlatBuilder}

theorem assign_of_lookup {g : Option Bytes} {m : CacheMap} (h : s.lookup g = some m) :
    s.assign g m = s := by
  cases g with
  | none =>
    cases h
    rfl
  | some name =>
    have hgroups : s.groups.insert name m = s.groups := FiniteMap.insert_of_lookup h
    simp only [assign, hgroups]

@[simp] theorem lookup_assign (s : KvHandler) (g : Option Bytes) (m : CacheMap) :
    (s.assign g m).lookup g = some m := by
  cases g with
  | none => rfl
  | some name => exact Finmap.lookup_insert _

theorem lookup_assign_ne {g g' : Option Bytes} (hg : g' ≠ g) (s : KvHandler) (m : CacheMap) :
    (s.assign g m).lookup g' = s.lookup g' := by
  cases g with
  | none =>
    cases g' with
    | none => exact absurd rfl hg
    | some name => rfl
  | some name =>
    cases g' with
    | none => rfl
    | some name' =>
      exact Finmap.lookup_insert_of_ne _ fun h => hg (congrArg some h)

theorem assign_assign (s : KvHandler) (g : Option Bytes) (m m' : CacheMap) :
    (s.assign g m).assign g m' = s.assign g m' := by
  cases g with
  | none => rfl
  | some name => simp only [assign, Finmap.insert_insert]

section Loop

variable (isSet : Bool) (key : Key) {value : FlexReference} (kv : List (Key × FlexReference))
  (m : CacheMap)

/-- The loop stops at a value of an unsupported type. -/
theorem setOrAdd_stop (h : TypedValue.ofFlex value = none) :
    setOrAdd isSet ((key, value) :: kv) m = .ok false m := by
  have hone := CacheMap.setOrAdd_apply isSet m key.1 value
  unfold setOrAdd
  cases hstore : CacheMap.setOrAdd {} isSet key.1 value with
  | none => simp
  | some store => simp [hstore, h] at hone

theorem setOrAdd_next {v : TypedValue} (h : TypedValue.ofFlex value = some v) :
    setOrAdd isSet ((key, value) :: kv) m = setOrAdd isSet kv
      (if isSet || (m.lookup key.1).isNone then m.insert key.1 v.stored else m) := by
  have hone := CacheMap.setOrAdd_apply isSet m key.1 value
  rw [setOrAdd]
  cases hstore : CacheMap.setOrAdd {} isSet key.1 value with
  | none => simp [hstore, h] at hone
  | some store =>
    simp only [hstore, h] at hone
    simp only [bind_apply, hone, ok_bind, if_true]

end Loop

theorem target_cases (group : Option Bytes) :
    (named group = false ∧ target group = none) ∨
      (named group = true ∧ target group = some (groupName group)) := by
  cases group with
  | none => exact .inl ⟨rfl, rfl⟩
  | some name =>
    by_cases h : name = []
    · left
      simp [named, target, h]
    · right
      simp [named, target, groupName, h]

theorem onMap_of_ok {α : Type} {x : Cpp CacheMap α} {a : α} {m : CacheMap}
    (h : x s.map = .ok a m) : onMap x ⟨s, fbb⟩ = .ok a ⟨{ s with map := m }, fbb⟩ := by
  unfold onMap
  simp [h]

theorem onGroup_of_ok {α : Type} {x : Cpp CacheMap α} {a : α} {name : Bytes} {m m' : CacheMap}
    (hm : s.groups.lookup name = some m) (h : x m = .ok a m') :
    onGroup name x ⟨s, fbb⟩ =
      .ok a ⟨{ s with groups := s.groups.insert name m' }, fbb⟩ := by
  unfold onGroup
  simp [hm, h]

theorem getGroup_apply (name : Bytes) (c : Handling KvHandler) :
    getGroup name c = .ok (c.handler.groups.lookup name).isSome c := rfl

/-- Either there is a group or an empty one is created. -/
theorem getOrCreateGroup_apply (name : Bytes) :
    getOrCreateGroup name ⟨s, fbb⟩ = .ok ()
      ⟨if (s.groups.lookup name).isSome then s
        else { s with groups := s.groups.insert name ∅ }, fbb⟩ := by
  unfold getOrCreateGroup createGroup
  cases h : s.groups.lookup name <;> simp [getGroup_apply, h]

/-- `KVSet` and `KVAdd` write to the map of the request, an empty one if the group is missing. -/
theorem handleSetAdd_apply {isSet : Bool} {bodyType : BodyType} {req : KVWrite} {valid : Bool}
    {m : CacheMap}
    (h : setOrAdd isSet req.kv ((s.lookup (target req.group)).getD ∅) = .ok valid m) :
    handleSetAdd isSet bodyType req ⟨s, fbb⟩ = .ok () ⟨s.assign (target req.group) m,
      fbb.finish ⟨if valid then .ok else .fail, bodyType, none⟩⟩ := by
  unfold handleSetAdd
  rcases target_cases req.group with ⟨hn, ht⟩ | ⟨hn, ht⟩ <;> rw [ht] at h ⊢
  · simp [hn, tryCatch_apply, @onMap_of_ok s fbb _ _ _ _ h, assign]
  · cases hgroup : s.groups.lookup (groupName req.group) with
    | none =>
      simp only [lookup, hgroup, Option.getD_none] at h
      have hlookup : (s.groups.insert (groupName req.group) ∅).lookup (groupName req.group) =
          some ∅ := Finmap.lookup_insert _
      have honGroup := @onGroup_of_ok { s with groups := s.groups.insert (groupName req.group) ∅ }
        fbb _ _ _ _ _ _ hlookup h
      rw [Finmap.insert_insert] at honGroup
      simp [hn, tryCatch_apply, getOrCreateGroup_apply, hgroup, honGroup, assign]
    | some old =>
      simp only [lookup, hgroup, Option.getD_some] at h
      simp [hn, tryCatch_apply, getOrCreateGroup_apply, hgroup, onGroup_of_ok hgroup h, assign]

theorem handleClearSet_missing {req : KVWrite} (h : s.lookup (target req.group) = none) :
    handleClearSet req ⟨s, fbb⟩ = .ok () ⟨s, fbb.finish ⟨.fail, .kvClearSet, none⟩⟩ := by
  unfold handleClearSet
  rcases target_cases req.group with ⟨hn, ht⟩ | ⟨hn, ht⟩ <;> rw [ht] at h
  · cases h
  · simp only [lookup] at h
    simp [hn, tryCatch_apply, getGroup_apply, h]

theorem handleClearSet_found {req : KVWrite} {old m : CacheMap} {valid : Bool}
    (hold : s.lookup (target req.group) = some old) (h : setOrAdd true req.kv ∅ = .ok valid m) :
    handleClearSet req ⟨s, fbb⟩ = .ok () ⟨s.assign (target req.group) m,
      fbb.finish ⟨if valid then .ok else .fail, .kvClearSet, none⟩⟩ := by
  have hclearSet : ∀ m₀ : CacheMap, (do
      let _ ← CacheMap.clear
      setOrAdd true req.kv : Cpp CacheMap Bool) m₀ = .ok valid m := by
    intro m₀
    simp [CacheMap.clear, h]
  unfold handleClearSet
  rcases target_cases req.group with ⟨hn, ht⟩ | ⟨hn, ht⟩ <;> rw [ht] at hold ⊢
  · simp [hn, tryCatch_apply, onMap_of_ok (hclearSet _), assign]
  · simp only [lookup] at hold
    simp [hn, tryCatch_apply, getGroup_apply, hold, onGroup_of_ok hold (hclearSet _), assign]

end KvHandler

end FCache
