import FCache.CacheMapCodec

/-!
# Cached values represent typed values

A map of cached values stands for the plain map of the typed values they were stored from. Reading
it gives what the plain map gives, without a throw and without leaving the data of a value.
-/

namespace FCache

namespace CacheMap

open Cpp

/-- The map holds the stored values of a plain map, under keys without NUL. -/
structure Represents (h : CacheMap) (m : PlainMap) : Prop where
  related : FiniteMap.Related (fun c v => c = TypedValue.stored v) h m
  keys : ∀ key c, h.lookup key = some c → (0 : UInt8) ∉ key

namespace Represents

variable {h : CacheMap} {m : PlainMap}

theorem empty : Represents ∅ ∅ := by
  refine ⟨FiniteMap.Related.empty, fun key c hc => ?_⟩
  rw [Finmap.lookup_empty] at hc
  cases hc

theorem insert (hm : Represents h m) (key : Key) (v : TypedValue) :
    Represents (h.insert key.1 v.stored) (m.insert key.1 v) := by
  refine ⟨hm.related.insert rfl, fun key' c hc => ?_⟩
  by_cases hkey : key' = key.1
  · exact hkey ▸ key.2
  · rw [Finmap.lookup_insert_of_ne h hkey] at hc
    exact hm.keys key' c hc

theorem eraseAll (hm : Represents h m) (keys : List Bytes) :
    Represents (FiniteMap.eraseAll h keys) (FiniteMap.eraseAll m keys) := by
  refine ⟨hm.related.eraseAll keys, fun key c hc => ?_⟩
  rw [FiniteMap.lookup_eraseAll] at hc
  split at hc
  · cases hc
  · exact hm.keys key c hc

theorem isSome_iff (hm : Represents h m) (key : Bytes) :
    (h.lookup key).isSome = (m.lookup key).isSome := by
  rcases hm.related.lookup_cases key with ⟨h₁, h₂⟩ | ⟨_, _, h₁, h₂, _⟩ <;> rw [h₁, h₂] <;> rfl

theorem put (hm : Represents h m) (isSet : Bool) (key : Key) (v : TypedValue) :
    Represents (if isSet || (h.lookup key.1).isNone then h.insert key.1 v.stored else h)
      (m.put isSet key.1 v) := by
  have hnone : (h.lookup key.1).isNone = (m.lookup key.1).isNone := by
    have := hm.isSome_iff key.1
    rw [← Option.not_isSome, ← Option.not_isSome, this]
  unfold PlainMap.put
  rw [hnone]
  split
  · exact hm.insert key v
  · exact hm

/-- Every requested key that is present is extracted, and nothing else. -/
theorem getEntries_apply (hm : Represents h m) (keys : List Bytes) :
    getEntries keys h = .ok (m.select keys) h := by
  induction keys with
  | nil => rfl
  | cons key keys ih =>
    unfold getEntries PlainMap.select
    rcases hm.related.lookup_cases key with ⟨h₁, h₂⟩ | ⟨c, v, h₁, h₂, rfl⟩
    · simp only [bind_apply, read_apply, ok_bind, h₁, List.filterMap_cons, h₂, Option.map_none]
      exact ih
    · simp only [bind_apply, read_apply, ok_bind, h₁, List.filterMap_cons, h₂, Option.map_some,
        extract_stored, ih, pure_apply, cString_eq_self (hm.keys key _ h₁)]
      rfl

theorem get_apply (hm : Represents h m) (keys : List Bytes) (fb : FlexBuilder) :
    get keys fb h = .ok (fb.map (m.select keys)) h := by
  unfold get
  simp [hm.getEntries_apply]

theorem getAll_apply (hm : Represents h m) (fb : FlexBuilder) :
    getAll fb h = .ok (fb.map (m.select m.allKeys)) h := by
  unfold getAll PlainMap.allKeys FiniteMap.sortedKeys
  simp [hm.getEntries_apply, hm.related.keys_eq]

theorem count_apply (hm : Represents h m) : count h = .ok m.keys.card h := by
  unfold count
  simp [hm.related.keys_eq]

theorem contains_apply (hm : Represents h m) (keys : List Bytes) (fb : FlexBuilder) :
    contains fb keys h = .ok (fb.typedVector ((m.present keys).map .string)) h := by
  have hkeys : ((keys.filter fun key => (h.lookup key).isSome).map fun key =>
      FlexScalar.string (cString key)) = (m.present keys).map .string := by
    unfold PlainMap.present
    simp only [← hm.isSome_iff]
    apply List.map_congr_left
    intro key hkey
    obtain ⟨c, hc⟩ := Option.isSome_iff_exists.mp (List.mem_filter.mp hkey).2
    rw [cString_eq_self (hm.keys key c hc)]
  unfold contains
  simp only [bind_apply, read_apply, ok_bind, pure_apply, hkeys]

end Represents

end CacheMap

end FCache
