import FCache.KvReplies
import FCache.CacheMapRefinement

/-!
# The key-value handler refines the plain store

One step lemma for each handler: from a handler that represents a plain store it finishes the
reply of the plain store and represents the plain store's successor. Whole runs follow by forward
simulation.
-/

namespace FCache

namespace KvHandler

open Cpp

structure Represents (s : KvHandler) (t : PlainStore) : Prop where
  map : CacheMap.Represents s.map t.map
  groups : FiniteMap.Related CacheMap.Represents s.groups t.groups

variable {s : KvHandler} {t : PlainStore} {fbb : FlatBuilder}

/-- The loop over the values writes what the plain map writes. -/
theorem setOrAdd_represents {h : CacheMap} {m : PlainMap} (hm : CacheMap.Represents h m)
    (isSet : Bool) (kv : List (Key × FlexReference)) :
    ∃ h', setOrAdd isSet kv h = .ok (m.write isSet kv).2 h' ∧
      CacheMap.Represents h' (m.write isSet kv).1 := by
  induction kv generalizing h m with
  | nil => exact ⟨h, rfl, hm⟩
  | cons entry kv ih =>
    obtain ⟨key, value⟩ := entry
    unfold PlainMap.write
    cases hflex : TypedValue.ofFlex value with
    | none => exact ⟨h, setOrAdd_stop isSet key kv h hflex, hm⟩
    | some v =>
      obtain ⟨h', heq, hrep⟩ := ih (hm.put isSet key v)
      exact ⟨h', (setOrAdd_next isSet key kv h hflex).trans heq, hrep⟩

namespace Represents

theorem init : Represents {} {} := ⟨CacheMap.Represents.empty, FiniteMap.Related.empty⟩

theorem lookup_cases (h : Represents s t) (g : Option Bytes) :
    (s.lookup g = none ∧ t.lookup g = none) ∨
      ∃ m p, s.lookup g = some m ∧ t.lookup g = some p ∧ CacheMap.Represents m p := by
  cases g with
  | none => exact .inr ⟨s.map, t.map, rfl, rfl, h.map⟩
  | some name => exact h.groups.lookup_cases name

/-- A missing map is as good as an empty one. -/
theorem lookup_getD (h : Represents s t) (g : Option Bytes) :
    CacheMap.Represents ((s.lookup g).getD ∅) ((t.lookup g).getD ∅) := by
  rcases h.lookup_cases g with ⟨h₁, h₂⟩ | ⟨m, p, h₁, h₂, hm⟩ <;> rw [h₁, h₂]
  · exact CacheMap.Represents.empty
  · exact hm

theorem assign (h : Represents s t) (g : Option Bytes) {m : CacheMap} {p : PlainMap}
    (hm : CacheMap.Represents m p) : Represents (s.assign g m) (t.assign g p) := by
  cases g with
  | none => exact ⟨hm, h.groups⟩
  | some name => exact ⟨h.map, h.groups.insert hm⟩

theorem update_missing (h : Represents s t) {g : Option Bytes} (hg : t.lookup g = none)
    (f : PlainMap → PlainMap) : Represents s (t.update g f) := by
  unfold PlainStore.update
  rw [hg]
  exact h

theorem update_found (h : Represents s t) {g : Option Bytes} {m : CacheMap} {p : PlainMap}
    (hg : t.lookup g = some p) {f : PlainMap → PlainMap} (hm : CacheMap.Represents m (f p)) :
    Represents (s.assign g m) (t.update g f) := by
  unfold PlainStore.update
  rw [hg]
  exact h.assign g hm

theorem handleSetAdd (h : Represents s t) (isSet : Bool) (bodyType : BodyType) (req : KVWrite) :
    ∃ s', handleSetAdd isSet bodyType req ⟨s, fbb⟩ =
        .ok () ⟨s', fbb.finish (t.write isSet bodyType req).2⟩ ∧
      Represents s' (t.write isSet bodyType req).1 := by
  obtain ⟨m, heq, hm⟩ := setOrAdd_represents (h.lookup_getD (target req.group)) isSet req.kv
  exact ⟨_, handleSetAdd_apply heq, h.assign _ hm⟩

theorem handleClearSet (h : Represents s t) (req : KVWrite) :
    ∃ s', handleClearSet req ⟨s, fbb⟩ = .ok () ⟨s', fbb.finish (t.clearWrite req).2⟩ ∧
      Represents s' (t.clearWrite req).1 := by
  obtain ⟨m, heq, hm⟩ := setOrAdd_represents CacheMap.Represents.empty true req.kv
  rcases h.lookup_cases (target req.group) with ⟨h₁, h₂⟩ | ⟨old, p, h₁, h₂, _⟩
  · refine ⟨s, ?_, h.update_missing h₂ _⟩
    simp [handleClearSet_missing h₁, PlainStore.clearWrite, h₂, PlainStore.writeReply]
  · refine ⟨_, ?_, h.update_found h₂ hm⟩
    simp [handleClearSet_found h₁ heq, PlainStore.clearWrite, h₂, PlainStore.writeReply]

/-- Reading a map leaves it as it was, so the handler still represents the store. -/
theorem readGroup (h : Represents s t) {name : Bytes} {m : CacheMap}
    (hm : s.groups.lookup name = some m) :
    Represents { s with groups := s.groups.insert name m } t := by
  have hs : s.assign (some name) m = s := assign_of_lookup hm
  have hrep : Represents (s.assign (some name) m) t := hs.symm ▸ h
  exact hrep

theorem get_apply {m : CacheMap} {p : PlainMap} (hm : CacheMap.Represents m p)
    (keys : Option (List Bytes)) :
    get keys m = .ok (FlexBuilder.map {} (p.select (keys.getD p.allKeys))) m := by
  cases keys with
  | some keys => exact hm.get_apply keys {}
  | none => exact hm.getAll_apply {}

theorem handleGet (h : Represents s t) (req : KVKeys) :
    ∃ s', handleGet req ⟨s, fbb⟩ = .ok () ⟨s', fbb.finish (t.get req)⟩ ∧ Represents s' t := by
  unfold KvHandler.handleGet PlainStore.get
  by_cases hnone : req.keys = none ∧ req.group = none
  · refine ⟨s, ?_, h⟩
    simp [hnone, tryCatch_apply]
  · have hcond : (req.keys.isNone && req.group.isNone) = false := by
      simpa [Bool.and_eq_false_iff, Option.isNone_eq_false_iff, ← Option.ne_none_iff_isSome,
        ← not_and_or] using hnone
    rw [if_neg hnone]
    rcases target_cases req.group with ⟨hn, ht⟩ | ⟨hn, ht⟩
    · refine ⟨s, ?_, h⟩
      simp [hn, ht, hcond, tryCatch_apply, onMap_of_ok (get_apply h.map _), PlainStore.lookup]
    · rcases h.groups.lookup_cases (groupName req.group) with ⟨h₁, h₂⟩ | ⟨m, p, h₁, h₂, hm⟩
      · refine ⟨s, ?_, h⟩
        have hempty : PlainMap.select ∅ (req.keys.getD (PlainMap.allKeys ∅)) = [] := by
          simp [PlainMap.select]
        simp [hn, ht, hcond, tryCatch_apply, getGroup_apply, h₁, h₂, PlainStore.lookup, hempty]
      · refine ⟨_, ?_, h.readGroup h₁⟩
        simp [hn, ht, hcond, tryCatch_apply, getGroup_apply, h₁, h₂,
          onGroup_of_ok h₁ (get_apply hm _), PlainStore.lookup]

theorem handleRmv (h : Represents s t) (req : KVKeys) :
    ∃ s', handleRmv req ⟨s, fbb⟩ = .ok () ⟨s', fbb.finish ⟨.ok, .kvRmv, none⟩⟩ ∧
      Represents s' (t.remove req) := by
  unfold KvHandler.handleRmv PlainStore.remove
  have hremove : ∀ keys m, CacheMap.remove keys m = .ok () (FiniteMap.eraseAll m keys) :=
    fun keys m => rfl
  cases hkeys : req.keys with
  | none =>
    refine ⟨s, by simp [tryCatch_apply], ?_⟩
    rcases h.lookup_cases (target req.group) with ⟨_, h₂⟩ | ⟨m, p, h₁, h₂, hm⟩
    · exact h.update_missing h₂ _
    · rw [← assign_of_lookup h₁]
      exact h.update_found h₂ hm
  | some keys =>
    rcases target_cases req.group with ⟨hn, ht⟩ | ⟨hn, ht⟩
    · refine ⟨{ s with map := FiniteMap.eraseAll s.map keys }, ?_, ?_⟩
      · simp [hn, tryCatch_apply, onMap_of_ok (hremove keys _)]
      · rw [ht]
        exact h.assign none (h.map.eraseAll keys)
    · rw [ht]
      rcases h.lookup_cases (some (groupName req.group)) with ⟨h₁, h₂⟩ | ⟨m, p, h₁, h₂, hm⟩ <;>
        replace h₁ : s.groups.lookup (groupName req.group) = _ := h₁
      · refine ⟨s, ?_, h.update_missing h₂ _⟩
        simp [hn, tryCatch_apply, getGroup_apply, h₁]
      · refine ⟨s.assign (some (groupName req.group)) (FiniteMap.eraseAll m keys), ?_, ?_⟩
        · simp [hn, tryCatch_apply, getGroup_apply, h₁, onGroup_of_ok h₁ (hremove keys m),
            KvHandler.assign]
        · exact h.update_found h₂ (hm.eraseAll keys)

theorem handleCount (h : Represents s t) (req : KVCount) :
    ∃ s', handleCount req ⟨s, fbb⟩ = .ok () ⟨s', fbb.finish (t.count req)⟩ ∧
      Represents s' t := by
  unfold KvHandler.handleCount PlainStore.count
  rcases target_cases req.group with ⟨hn, ht⟩ | ⟨hn, ht⟩
  · refine ⟨s, ?_, h⟩
    simp [hn, ht, onMap_of_ok h.map.count_apply, PlainStore.lookup]
  · rcases h.groups.lookup_cases (groupName req.group) with ⟨h₁, h₂⟩ | ⟨m, p, h₁, h₂, hm⟩
    · refine ⟨s, ?_, h⟩
      simp [hn, ht, getGroup_apply, h₁, h₂, PlainStore.lookup]
    · refine ⟨_, ?_, h.readGroup h₁⟩
      simp [hn, ht, getGroup_apply, h₁, h₂, onGroup_of_ok h₁ hm.count_apply, PlainStore.lookup]

theorem handleContains (h : Represents s t) (req : KVKeys) :
    ∃ s', handleContains req ⟨s, fbb⟩ = .ok () ⟨s', fbb.finish (t.contains req)⟩ ∧
      Represents s' t := by
  unfold KvHandler.handleContains PlainStore.contains
  cases hkeys : req.keys with
  | none => exact ⟨s, by simp, h⟩
  | some keys =>
    rcases target_cases req.group with ⟨hn, ht⟩ | ⟨hn, ht⟩
    · refine ⟨s, ?_, h⟩
      simp [hn, ht, onMap_of_ok (h.map.contains_apply keys {}), PlainStore.lookup]
    · rcases h.groups.lookup_cases (groupName req.group) with ⟨h₁, h₂⟩ | ⟨m, p, h₁, h₂, hm⟩
      · refine ⟨s, ?_, h⟩
        simp [hn, ht, getGroup_apply, h₁, h₂, PlainStore.lookup, sortByKey]
      · refine ⟨_, ?_, h.readGroup h₁⟩
        simp [hn, ht, getGroup_apply, h₁, h₂, onGroup_of_ok h₁ (hm.contains_apply keys {}),
          PlainStore.lookup]

theorem handleClear (h : Represents s t) (req : KVClear) :
    ∃ s', handleClear req ⟨s, fbb⟩ = .ok () ⟨s', fbb.finish ⟨.ok, .kvClear, none⟩⟩ ∧
      Represents s' (t.clear req) := by
  unfold KvHandler.handleClear PlainStore.clear
  cases hop : req.op with
  | all =>
    refine ⟨{}, ?_, init⟩
    simp [tryCatch_apply, clearGroups, onMap, CacheMap.clear]
  | groups =>
    refine ⟨{ s with groups := ∅ }, ?_, h.map, FiniteMap.Related.empty⟩
    simp [tryCatch_apply, clearGroups]
  | groupsKeysOnly =>
    refine ⟨{ s with groups := FiniteMap.mapValues (fun _ => ∅) s.groups }, ?_, h.map, ?_⟩
    · simp [tryCatch_apply, clearGroupsKeys]
    · exact h.groups.mapValues fun _ _ _ => CacheMap.Represents.empty
  | group =>
    rcases target_cases req.group with ⟨hn, ht⟩ | ⟨hn, ht⟩
    · refine ⟨s, ?_, ?_⟩
      · simp [hn, tryCatch_apply]
      · rw [ht]
        exact h
    · rcases h.groups.lookup_cases (groupName req.group) with ⟨h₁, h₂⟩ | ⟨m, p, h₁, h₂, hm⟩
      · refine ⟨s, ?_, ?_⟩
        · simp [hn, tryCatch_apply, getGroup_apply, h₁]
        · simp only [ht, FiniteMap.erase_of_lookup h₂]
          exact h
      · refine ⟨{ s with groups := s.groups.erase (groupName req.group) }, ?_, ?_⟩
        · simp [hn, tryCatch_apply, getGroup_apply, h₁, eraseGroup]
        · rw [ht]
          exact ⟨h.map, h.groups.erase _⟩
  | groupKeysOnly =>
    rcases target_cases req.group with ⟨hn, ht⟩ | ⟨hn, ht⟩
    · refine ⟨s, ?_, ?_⟩
      · simp [hn, tryCatch_apply]
      · rw [ht]
        exact h
    · rcases h.lookup_cases (some (groupName req.group)) with ⟨h₁, h₂⟩ | ⟨m, p, h₁, h₂, _⟩ <;>
        replace h₁ : s.groups.lookup (groupName req.group) = _ := h₁
      · refine ⟨s, ?_, ?_⟩
        · simp [hn, tryCatch_apply, getGroup_apply, h₁]
        · rw [ht]
          exact h.update_missing h₂ _
      · have hclear : CacheMap.clear m = .ok true ∅ := rfl
        refine ⟨s.assign (some (groupName req.group)) ∅, ?_, ?_⟩
        · simp [hn, tryCatch_apply, getGroup_apply, h₁, onGroup_of_ok h₁ hclear, KvHandler.assign]
        · rw [ht]
          exact h.update_found h₂ CacheMap.Represents.empty

theorem handle (h : Represents s t) (req : KVRequest) :
    ∃ s', handle req ⟨s, fbb⟩ = .ok () ⟨s', fbb.finish (t.step req).2⟩ ∧
      Represents s' (t.step req).1 := by
  cases req with
  | set req => exact h.handleSetAdd true .kvSet req
  | get req => exact h.handleGet req
  | rmv req => exact h.handleRmv req
  | add req => exact h.handleSetAdd false .kvAdd req
  | count req => exact h.handleCount req
  | contains req => exact h.handleContains req
  | clear req => exact h.handleClear req
  | clearSet req => exact h.handleClearSet req

theorem step (h : Represents s t) (req : KVRequest) :
    ∃ s' t' fbb, machine.step s req = some (s', fbb) ∧
      PlainStore.machine.step t req = some (t', fbb) ∧ Represents s' t' := by
  obtain ⟨s', heq, hrep⟩ := @Represents.handle s t {} h req
  refine ⟨s', (t.step req).1, ⟨[(t.step req).2]⟩, ?_, rfl, hrep⟩
  exact Handling.answered_eq_some.mpr heq

theorem run (reqs : List KVRequest) : ∃ s t replies, machine.run reqs = some (s, replies) ∧
    PlainStore.machine.run reqs = some (t, replies) ∧ s.Represents t :=
  Machine.runFrom_simulates (fun _ _ req h => h.step req) init reqs

end Represents

/-- On every sequence of requests the handler answers what the plain store answers, and of each
of its maps the reading operations give exactly what the plain map holds: none of them throws or
reads outside the data of a value. -/
theorem run_refines (reqs : List KVRequest) :
    ∃ s t replies, machine.run reqs = some (s, replies) ∧
      PlainStore.machine.run reqs = some (t, replies) ∧
      (∀ g, (s.lookup g).isSome = (t.lookup g).isSome) ∧
      ∀ g m p, s.lookup g = some m → t.lookup g = some p →
        (∀ keys fb, CacheMap.get keys fb m = .ok (fb.map (p.select keys)) m) ∧
        (∀ fb, CacheMap.getAll fb m = .ok (fb.map (p.select p.allKeys)) m) ∧
        CacheMap.count m = .ok p.keys.card m ∧
        ∀ keys fb, CacheMap.contains fb keys m =
          .ok (fb.typedVector ((p.present keys).map .string)) m := by
  obtain ⟨s, t, replies, hs, ht, hrep⟩ := Represents.run reqs
  refine ⟨s, t, replies, hs, ht, ?_, ?_⟩
  · intro g
    rcases hrep.lookup_cases g with ⟨h₁, h₂⟩ | ⟨_, _, h₁, h₂, _⟩ <;> rw [h₁, h₂] <;> rfl
  · intro g m p hm hp
    rcases hrep.lookup_cases g with ⟨h₁, _⟩ | ⟨m', p', h₁, h₂, hmap⟩
    · cases h₁.symm.trans hm
    · cases h₁.symm.trans hm
      cases h₂.symm.trans hp
      exact ⟨hmap.get_apply, hmap.getAll_apply, hmap.count_apply, hmap.contains_apply⟩

end KvHandler

end FCache
