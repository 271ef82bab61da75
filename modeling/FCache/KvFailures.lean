import FCache.KvReplies

/-!
# What a failed write leaves behind

A write fails at the first value of an unsupported type, after the values in front of it have
been written. What it leaves is what a request with these values alone would leave.
-/

namespace FCache

namespace KvHandler

open Cpp

variable {s s' : KvHandler}

theorem ofFlex_isSome (v : FlexReference) :
    (TypedValue.ofFlex v).isSome = v.getType.storable := by
  cases v with
  | other t => simp [TypedValue.ofFlex, FlexReference.getType, t.2]
  | _ => rfl

/-- The loop gets to the end, or it stops at an unsupported value in the state it has reached. -/
theorem setOrAdd_cases (isSet : Bool) (kv : List (Key × FlexReference)) (m : CacheMap) :
    (∃ m', setOrAdd isSet kv m = .ok true m') ∨
      ∃ pre key v post m', kv = pre ++ (key, v) :: post ∧
        (∀ entry ∈ pre, entry.2.getType.storable = true) ∧ v.getType.storable = false ∧
        setOrAdd isSet pre m = .ok true m' ∧ setOrAdd isSet kv m = .ok false m' := by
  induction kv generalizing m with
  | nil => exact .inl ⟨m, rfl⟩
  | cons entry kv ih =>
    obtain ⟨key, value⟩ := entry
    have hstorable := ofFlex_isSome value
    cases hflex : TypedValue.ofFlex value with
    | none =>
      right
      refine ⟨[], key, value, kv, m, rfl, by simp, ?_, rfl, setOrAdd_stop isSet key kv m hflex⟩
      simpa [hflex] using hstorable.symm
    | some v =>
      have hcons := fun rest => setOrAdd_next isSet key rest m hflex
      rcases ih (if isSet || (m.lookup key.1).isNone then m.insert key.1 v.stored else m) with
        ⟨m', h⟩ | ⟨pre, key', v', post, m', rfl, hpre, hv', hok, hfail⟩
      · left
        exact ⟨m', by rw [hcons, h]⟩
      · right
        refine ⟨(key, value) :: pre, key', v', post, m', rfl, ?_, hv', ?_, ?_⟩
        · intro entry hentry
          rcases List.mem_cons.mp hentry with rfl | hentry
          · simpa [hflex] using hstorable.symm
          · exact hpre entry hentry
        · rw [hcons, hok]
        · rw [hcons, hfail]

/-- The three commands that write values. -/
def writes : List (KVWrite → KVRequest) := [.set, .add, .clearSet]

/-- Each write runs the loop on a map that its values have no say in, unless it clears a group
that does not exist. -/
theorem step_write {cmd : KVWrite → KVRequest} (hcmd : cmd ∈ writes) (s : KvHandler)
    (group : Option Bytes) :
    (cmd = .clearSet ∧ s.lookup (target group) = none ∧
      ∀ kv, machine.step s (cmd ⟨kv, group⟩) = some (s, ⟨[⟨.fail, .kvClearSet, none⟩]⟩)) ∨
      ∃ isSet m₀ bodyType, ∀ kv valid m, setOrAdd isSet kv m₀ = .ok valid m →
        machine.step s (cmd ⟨kv, group⟩) = some (s.assign (target group) m,
          ⟨[⟨if valid then .ok else .fail, bodyType, none⟩]⟩) := by
  have hcases : cmd = .set ∨ cmd = .add ∨ cmd = .clearSet := by simpa [writes] using hcmd
  rcases hcases with rfl | rfl | rfl
  · right
    refine ⟨true, (s.lookup (target group)).getD ∅, .kvSet, fun kv valid m h => ?_⟩
    exact Handling.answered_eq_some.mpr (@handleSetAdd_apply _ {} _ _ ⟨kv, group⟩ _ _ h)
  · right
    refine ⟨false, (s.lookup (target group)).getD ∅, .kvAdd, fun kv valid m h => ?_⟩
    exact Handling.answered_eq_some.mpr (@handleSetAdd_apply _ {} _ _ ⟨kv, group⟩ _ _ h)
  · cases hold : s.lookup (target group) with
    | none =>
      left
      refine ⟨rfl, rfl, fun kv => ?_⟩
      exact Handling.answered_eq_some.mpr (@handleClearSet_missing _ {} ⟨kv, group⟩ hold)
    | some old =>
      right
      refine ⟨true, ∅, .kvClearSet, fun kv valid m h => ?_⟩
      exact Handling.answered_eq_some.mpr (@handleClearSet_found _ {} ⟨kv, group⟩ _ _ _ hold h)

/-- A failed write has either found no group to clear, and changed nothing, or it has stopped at
the first value of an unsupported type: then the state is the one that the same request with only
the values in front of it leaves when it succeeds. -/
theorem step_fail {cmd : KVWrite → KVRequest} (hcmd : cmd ∈ writes) {req : KVWrite}
    {fbb : FlatBuilder} (hstep : machine.step s (cmd req) = some (s', fbb)) {rsp : Response}
    (hrsp : fbb.decoded = some rsp) (hfail : rsp.status = .fail) :
    (cmd = .clearSet ∧ s.lookup (target req.group) = none ∧ s' = s) ∨
      ∃ pre key v post, req.kv = pre ++ (key, v) :: post ∧
        (∀ entry ∈ pre, entry.2.getType.storable = true) ∧ v.getType.storable = false ∧
        ∃ fbb' rsp', machine.step s (cmd { req with kv := pre }) = some (s', fbb') ∧
          fbb'.decoded = some rsp' ∧ rsp'.status = .ok := by
  obtain ⟨kv, group⟩ := req
  rcases step_write hcmd s group with ⟨hclear, hmissing, heq⟩ | ⟨isSet, m₀, bodyType, heq⟩
  · left
    rw [heq kv] at hstep
    cases hstep
    exact ⟨hclear, hmissing, rfl⟩
  · right
    rcases setOrAdd_cases isSet kv m₀ with
      ⟨m, hok⟩ | ⟨pre, key, v, post, m, hkv, hpre, hv, hok, hstop⟩
    · rw [heq kv true m hok] at hstep
      cases hstep
      cases hrsp
      cases hfail
    · rw [heq kv false m hstop] at hstep
      cases hstep
      exact ⟨pre, key, v, post, hkv, hpre, hv, _, _, heq pre true m hok, rfl, rfl⟩

/-- An integer and a null value: the integer stays. -/
theorem step_fail_null :
    let kv : List (Key × FlexReference) :=
      [(⟨[97], by decide⟩, .int 1), (⟨[98], by decide⟩, .other ⟨.null, rfl⟩)]
    ∃ pre key v post, kv = pre ++ (key, v) :: post ∧
      (∀ entry ∈ pre, entry.2.getType.storable = true) ∧ v.getType.storable = false ∧
      ∃ fbb rsp, machine.step {} (.set ⟨pre, none⟩) =
          some ({ map := Finmap.insert [97] (.ofFixed ⟨.int 1, .extractInt⟩) ∅ }, fbb) ∧
        fbb.decoded = some rsp ∧ rsp.status = .ok := by
  intro kv
  have hstep : machine.step {} (.set ⟨kv, none⟩) =
      some ({ map := Finmap.insert [97] (.ofFixed ⟨.int 1, .extractInt⟩) ∅ },
        ⟨[⟨.fail, .kvSet, none⟩]⟩) := by decide +kernel
  rcases step_fail (by simp [writes]) hstep rfl rfl with ⟨hclear, _⟩ | h
  · cases congrFun hclear ⟨kv, none⟩
  · exact h

/-- A failed write is not undone: the first key of the request stays. -/
theorem not_step_fail_unchanged : ¬ ∀ (s s' : KvHandler) (req : KVWrite) (rsp : Response),
    machine.Reachable s → machine.step s (.set req) = some (s', ⟨[rsp]⟩) →
      rsp.status = .fail → s' = s := by
  intro h
  let req : KVWrite :=
    ⟨[(⟨[97], by decide⟩, .int 1), (⟨[98], by decide⟩, .other ⟨.null, rfl⟩)], none⟩
  let s' : KvHandler :=
    { map := Finmap.insert [97] (.ofFixed ⟨.int 1, .extractInt⟩) ∅ }
  have hstep : machine.step {} (.set req) = some (s', ⟨[⟨.fail, .kvSet, none⟩]⟩) := by
    decide +kernel
  have heq := h {} s' req _ .init hstep rfl
  exact absurd heq (by decide +kernel)

end KvHandler

end FCache
