import FCache.KvReplies

/-!
# Values that come back as they were set

A reply shows a value as the request carried it, with one exception: a string is handed to the
map as a pointer to its first byte, so that it is stored up to its first NUL.
-/

namespace FCache

/-- The value of a request as a reply has to show it, all bytes of a string included. -/
def FlexReference.reply : FlexReference → Option FlexValue
  | .string s => some (.scalar (.string s))
  | value => (TypedValue.ofFlex value).map TypedValue.reply

theorem cString_eq_self_iff {s : Bytes} : cString s = s ↔ (0 : UInt8) ∉ s :=
  ⟨fun h => h ▸ (Key.ofBytes s).2, cString_eq_self⟩

/-- Only a string with a NUL is kept as another value. -/
theorem TypedValue.reply_ofFlex {value : FlexReference} {v : TypedValue}
    (hv : TypedValue.ofFlex value = some v) :
    value.reply = some v.reply ↔ ∀ s, value = .string s → (0 : UInt8) ∉ s := by
  cases value with
  | string s =>
    cases hv
    have hreply : (FlexReference.string s).reply = some (TypedValue.string (Key.ofBytes s)).reply ↔
        cString s = s := by
      simp [FlexReference.reply, TypedValue.reply, Key.ofBytes, eq_comm]
    rw [hreply, cString_eq_self_iff]
    exact ⟨fun h t ht => FlexReference.string.inj ht ▸ h, fun h => h s rfl⟩
  | other => cases hv
  | _ =>
    cases hv
    exact ⟨nofun, fun _ => rfl⟩

namespace KvHandler

open Cpp

/-- Getting a key whose value was stored. -/
theorem get_stored {m : CacheMap} {key : Key} {v : TypedValue}
    (h : m.lookup key.1 = some v.stored) (fb : FlexBuilder) :
    CacheMap.get [key.1] fb m = .ok (fb.map [(key.1, v.reply)]) m := by
  unfold CacheMap.get CacheMap.getEntries CacheMap.getEntries
  simp [h, CacheMap.extract_stored, cString_eq_self key.2]

/-- A string that is set comes back with the same bytes exactly if none of them is a NUL. -/
theorem get_setOrAdd_string_iff (m : CacheMap) (key : Key) (value : Bytes) (fb : FlexBuilder) :
    (∃ m', setOrAdd true [(key, .string value)] m = .ok true m' ∧
        CacheMap.get [key.1] fb m' = .ok (fb.map [(key.1, .scalar (.string value))]) m') ↔
      (0 : UInt8) ∉ value := by
  have hset : setOrAdd true [(key, .string value)] m =
      .ok true (m.insert key.1 (TypedValue.string (Key.ofBytes value)).stored) :=
    setOrAdd_next true key [] m rfl
  have hget := @get_stored _ key _ (Finmap.lookup_insert (a := key.1)
    (b := (TypedValue.string (Key.ofBytes value)).stored) m) fb
  rw [hset, ← cString_eq_self_iff]
  constructor
  · rintro ⟨m', hm', hsame⟩
    cases hm'
    rw [hget] at hsame
    simpa [FlexBuilder.map, sortByKey, TypedValue.reply, Key.ofBytes] using hsame
  · intro hvalue
    refine ⟨_, rfl, ?_⟩
    rw [hget]
    simp [TypedValue.reply, Key.ofBytes, hvalue]

/-- Of `a`, a NUL and `b` only the `a` comes back. -/
theorem not_get_setOrAdd_string : ¬ ∀ (m : CacheMap) (key : Key) (value : Bytes)
    (fb : FlexBuilder), ∃ m', setOrAdd true [(key, .string value)] m = .ok true m' ∧
      CacheMap.get [key.1] fb m' = .ok (fb.map [(key.1, .scalar (.string value))]) m' := by
  intro h
  obtain ⟨m', hset, hget⟩ := h ∅ ⟨[107], by decide⟩ [97, 0, 98] {}
  have hset' : setOrAdd true [(⟨[107], by decide⟩, .string [97, 0, 98])] ∅ = .ok true
      (Finmap.insert [107] (.ofVector ⟨[97, 0], some .extractString, .string⟩) ∅) := by
    decide +kernel
  cases hset.symm.trans hset'
  exact absurd hget (by decide +kernel)

end KvHandler

end FCache
