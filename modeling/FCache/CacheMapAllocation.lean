import FCache.CacheMapCodec

/-!
# Allocations that fail

The overloads for vectors, strings and blobs emplace or reset the value of the key first and
allocate its data last. When that allocation fails they reply that nothing was stored, but the
key keeps the type and the extractor of the new value, over no data.
-/

namespace FCache

/-- The vector of a value just before its data is resized; a value of fixed width has none. -/
def FlexReference.emptyVector : FlexReference → Option VectorValue
  | .string _ => some ⟨[], some .extractString, .string⟩
  | .blob _ => some ⟨[], some .extractBlob, .blob⟩
  | .vectorInt _ => some ⟨[], some .extractIntV, .vectorInt⟩
  | .vectorUInt _ => some ⟨[], some .extractUIntV, .vectorUInt⟩
  | .vectorFloat _ => some ⟨[], some .extractFloatV, .vectorFloat⟩
  | .vectorBool _ => some ⟨[], some .extractBoolV, .vectorBool⟩
  | .vectorKey _ => some ⟨[], some .extractStringV, .vectorKey⟩
  | _ => none

namespace CacheMap

open Cpp

variable {m m' : CacheMap} {key : Bytes} {alloc : Allocation} {isSet : Bool}

/-- Every entry is extracted without a throw and without leaving its data. -/
def Readable (m : CacheMap) : Prop :=
  ∀ key c, m.lookup key = some c → ∃ entry, extract key c m = .ok entry m

theorem readable_empty : Readable ∅ := by
  intro key c hc
  rw [Finmap.lookup_empty] at hc
  cases hc

/-- The store function of a vector, a string or a blob fills the vector with its own type and
extractor. -/
theorem setOrAdd_eq_fillVector {value : FlexReference} {vec : VectorValue}
    (hvec : value.emptyVector = some vec) :
    ∃ type e size fill, vec = ⟨[], some e, type⟩ ∧ ∀ alloc isSet key,
      setOrAdd alloc isSet key value =
        some (setOrAddVector alloc isSet key (fillVector alloc key type e size fill)) := by
  cases value with
  | int | uint | bool | float | other => cases hvec
  | _ =>
    cases hvec
    exact ⟨_, _, _, _, rfl, fun _ _ _ => rfl⟩

/-- A fill that throws has set the type and the extractor. -/
theorem fillVector_throws {type : FlexType} {e : ExtractVectorF} {size : ℕ}
    {fill : List UInt8 → Option (List UInt8)}
    (h : fillVector alloc key type e size fill (m.insert key (.ofVector {})) = .throws m') :
    m' = m.insert key (.ofVector ⟨[], some e, type⟩) := by
  unfold fillVector getVector CachedValue.ofVector at h
  simp only [bind_apply, read_apply, ok_bind, Finmap.lookup_insert, pure_apply, set,
    update_apply, Finmap.insert_insert, if_apply] at h
  split at h
  · cases hfill : fill (Buffer.resize [] size) <;> simp [hfill] at h
  · cases h
    rfl

/-- A vector that is emplaced or reset is stored into next. -/
theorem setOrAddVector_write {store : Cpp CacheMap Unit} (hset : m.lookup key = none ∨ isSet = true)
    (hemplace : m.lookup key = none → alloc.tryEmplace = true) :
    setOrAddVector alloc isSet key store m =
      tryCatch (do store; return true) (return false) (m.insert key (.ofVector {})) := by
  unfold setOrAddVector
  cases hold : m.lookup key with
  | none => simp [tryCatch_apply, hold, tryEmplace, hemplace hold]
  | some old =>
    have hset : isSet = true := hset.resolve_left (by simp [hold])
    simp [tryCatch_apply, hold, hset, set]

theorem tryCatch_false {store : Cpp CacheMap Unit}
    (h : tryCatch (do store; return true) (return false) m = .ok false m') :
    store m = .throws m' := by
  cases hstore : store m with
  | ok u m₁ => simp [tryCatch_apply, hstore] at h
  | undefined => simp [tryCatch_apply, hstore] at h
  | throws m₁ =>
    simp only [tryCatch_apply, bind_apply, hstore, throws_bind, pure_apply] at h
    cases h
    rfl

/-- A call that fails has either not emplaced the key, or it leaves the emptied vector. -/
theorem setOrAddVector_false {type : FlexType} {e : ExtractVectorF} {size : ℕ}
    {fill : List UInt8 → Option (List UInt8)}
    (h : setOrAddVector alloc isSet key (fillVector alloc key type e size fill) m =
      .ok false m') :
    (m.lookup key = none ∧ alloc.tryEmplace = false ∧ m' = m) ∨
      ((m.lookup key = none → alloc.tryEmplace = true) ∧
        m' = m.insert key (.ofVector ⟨[], some e, type⟩)) := by
  by_cases hemplace : m.lookup key = none ∧ alloc.tryEmplace = false
  · left
    simp only [setOrAddVector, tryCatch_apply, bind_apply, read_apply, ok_bind, hemplace.1,
      tryEmplace, hemplace.2] at h
    cases h
    exact ⟨hemplace.1, hemplace.2, rfl⟩
  · right
    have hemplaced : m.lookup key = none → alloc.tryEmplace = true := by
      intro hnone
      exact Bool.not_eq_false _ ▸ fun hfalse => hemplace ⟨hnone, hfalse⟩
    have hset : m.lookup key = none ∨ isSet = true := by
      by_contra hkept
      obtain ⟨hold, hadd⟩ := not_or.mp hkept
      obtain ⟨old, hold⟩ := Option.ne_none_iff_exists'.mp hold
      simp [setOrAddVector, tryCatch_apply, hold, hadd] at h
    rw [setOrAddVector_write hset hemplaced] at h
    exact ⟨hemplaced, fillVector_throws (tryCatch_false h)⟩

/-- A call that fails leaves the map as it was exactly if it could not emplace the key, or the
key held such an emptied vector before. -/
theorem setOrAdd_false_iff {value : FlexReference} {vec : VectorValue}
    {store : Cpp CacheMap Bool} (hm : Readable m) (hvec : value.emptyVector = some vec)
    (hstore : setOrAdd alloc isSet key value = some store) (h : store m = .ok false m') :
    (m' = m ∧ Readable m') ↔
      (m.lookup key = none ∧ alloc.tryEmplace = false) ∨
        m.lookup key = some (.ofVector vec) := by
  obtain ⟨type, e, size, fill, rfl, heq⟩ := setOrAdd_eq_fillVector hvec
  rw [heq] at hstore
  cases hstore
  rcases setOrAddVector_false h with ⟨hnone, hemplace, rfl⟩ | ⟨hemplaced, rfl⟩
  · exact ⟨fun _ => .inl ⟨hnone, hemplace⟩, fun _ => ⟨rfl, hm⟩⟩
  · constructor
    · rintro ⟨hsame, _⟩
      right
      rw [← hsame]
      exact Finmap.lookup_insert _
    · rintro (⟨hnone, hfalse⟩ | hold)
      · rw [hemplaced hnone] at hfalse
        cases hfalse
      · have hsame := FiniteMap.insert_of_lookup hold
        exact ⟨hsame, hsame.symm ▸ hm⟩

/-- A string that is emplaced but not allocated. -/
theorem setOrAddVector_noResize :
    setOrAddVector { resize := false } true [97]
        (stringToMap { resize := false } [97] (cString [120])) ∅ =
      .ok false (Finmap.insert [97] (.ofVector ⟨[], some .extractString, .string⟩) ∅) := by
  decide +kernel

theorem setOrAdd_false_string :
    let m' : CacheMap := Finmap.insert [97] (.ofVector ⟨[], some .extractString, .string⟩) ∅
    (m' = ∅ ∧ Readable m') ↔
      ((∅ : CacheMap).lookup [97] = none ∧ true = false) ∨
        (∅ : CacheMap).lookup [97] = some (.ofVector ⟨[], some .extractString, .string⟩) :=
  @setOrAdd_false_iff ∅ _ [97] { resize := false } true (.string [120]) _ _ readable_empty rfl rfl
    setOrAddVector_noResize

/-- The key that could not be set is there afterwards. -/
theorem not_setOrAdd_false : ¬ ∀ (m m' : CacheMap) (key : Bytes) (isSet : Bool)
    (alloc : Allocation) (value : FlexReference) (store : Cpp CacheMap Bool), Readable m →
      value.emptyVector.isSome = true → setOrAdd alloc isSet key value = some store →
        store m = .ok false m' → m' = m ∧ Readable m' := by
  intro h
  have heq := (h ∅ _ [97] true { resize := false } (.string [120]) _ readable_empty rfl rfl
    setOrAddVector_noResize).1
  exact absurd heq (by decide +kernel)

/-- Under the emptied vector of a string or a blob the extractor leaves the data. -/
theorem extract_emptyVector {value : FlexReference} {vec : VectorValue}
    (hvec : value.emptyVector = some vec) (hstring : vec.type = .string ∨ vec.type = .blob)
    (key : Bytes) (m : CacheMap) : extract key (.ofVector vec) m = .undefined := by
  cases value with
  | int | uint | bool | float | other => cases hvec
  | _ =>
    cases hvec
    first
    | rfl
    | simp at hstring

end CacheMap

end FCache
