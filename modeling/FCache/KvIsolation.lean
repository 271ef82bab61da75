import FCache.KvRefinement

/-!
# Groups are isolated

What a request answers about one map depends on the requests to that map and on the store-wide
clearing commands only. The argument is about two runs of the plain store; the handler answers
what the plain store answers.
-/

namespace FCache

/-- The map a request addresses: `some none` is the default map. Clearing more than one map, or
a group without naming it, addresses none. -/
def KVRequest.address : KVRequest → Option (Option Bytes)
  | .set req | .add req | .clearSet req => some (target req.group)
  | .get req | .rmv req | .contains req => some (target req.group)
  | .count req => some (target req.group)
  | .clear req =>
    match req.op, target req.group with
    | .group, some name | .groupKeysOnly, some name => some (some name)
    | _, _ => none

/-- The clearing commands that reach a map without addressing it. -/
def KVRequest.clears (g : Option Bytes) : KVRequest → Bool
  | .clear req =>
    match req.op, g with
    | .all, _ => true
    | .groups, some _ | .groupsKeysOnly, some _ => true
    | _, _ => false
  | _ => false

def KVRequest.addresses (g : Option Bytes) (req : KVRequest) : Bool := req.address = some g

/-- The requests that may change a map or show it. -/
def KVRequest.concerns (g : Option Bytes) (req : KVRequest) : Bool :=
  req.addresses g || req.clears g

namespace PlainStore

variable {s t : PlainStore} {g : Option Bytes}

theorem lookup_update (s : PlainStore) (g' g : Option Bytes) (f : PlainMap → PlainMap) :
    (s.update g' f).lookup g = if g' = g then (s.lookup g).map f else s.lookup g := by
  unfold update
  by_cases hg : g' = g
  · subst hg
    cases h : s.lookup g' with
    | none => simp [h]
    | some m => simp
  · rw [if_neg hg]
    cases s.lookup g' with
    | none => rfl
    | some m => exact lookup_assign_ne hg s _

/-- What a clearing command leaves of a map. -/
def clearedMap (req : KVClear) (g : Option Bytes) (m : Option PlainMap) : Option PlainMap :=
  match req.op, g with
  | .all, none => some ∅
  | .all, some _ | .groups, some _ => none
  | .groupsKeysOnly, some _ => m.map fun _ => ∅
  | .group, some name => if target req.group = some name then none else m
  | .groupKeysOnly, some name => if target req.group = some name then m.map fun _ => ∅ else m
  | _, none => m

theorem lookup_clear (s : PlainStore) (req : KVClear) (g : Option Bytes) :
    (s.clear req).lookup g = clearedMap req g (s.lookup g) := by
  unfold clear clearedMap
  cases hop : req.op with
  | all => cases g <;> simp [lookup]
  | groups => cases g <;> simp [lookup]
  | groupsKeysOnly =>
    cases g with
    | none => rfl
    | some name => exact FiniteMap.lookup_mapValues _ _ _
  | group =>
    cases ht : target req.group with
    | none => cases g <;> simp
    | some name =>
      cases g with
      | none => rfl
      | some name' =>
        by_cases hname : name = name'
        · subst hname
          simp [lookup]
        · simp [lookup, hname, Finmap.lookup_erase_ne (Ne.symm hname)]
  | groupKeysOnly =>
    cases ht : target req.group with
    | none => cases g <;> simp
    | some name => cases g <;> simp [lookup_update]

/-- What a request makes of a map that it may have addressed. -/
def changedMap (req : KVRequest) (g : Option Bytes) (m : Option PlainMap) : Option PlainMap :=
  match req with
  | .set req => if target req.group = g then some ((m.getD ∅).write true req.kv).1 else m
  | .add req => if target req.group = g then some ((m.getD ∅).write false req.kv).1 else m
  | .clearSet req =>
    if target req.group = g then m.map fun _ => (PlainMap.write true ∅ req.kv).1 else m
  | .rmv req =>
    if target req.group = g then m.map fun m => FiniteMap.eraseAll m (req.keys.getD []) else m
  | .clear req => clearedMap req g m
  | _ => m

theorem lookup_write (s : PlainStore) (overwrite : Bool) (bodyType : BodyType) (req : KVWrite)
    (g : Option Bytes) : (s.write overwrite bodyType req).1.lookup g =
      if target req.group = g then some (((s.lookup g).getD ∅).write overwrite req.kv).1
      else s.lookup g := by
  unfold write
  by_cases hg : target req.group = g
  · subst hg
    simp
  · rw [if_neg hg]
    exact lookup_assign_ne hg s _

/-- After a request a map is determined by what it was before. -/
theorem lookup_step (s : PlainStore) (req : KVRequest) (g : Option Bytes) :
    (s.step req).1.lookup g = changedMap req g (s.lookup g) := by
  cases req with
  | set req => exact lookup_write s true .kvSet req g
  | add req => exact lookup_write s false .kvAdd req g
  | clearSet req => exact lookup_update s _ g _
  | rmv req => exact lookup_update s _ g _
  | clear req => exact lookup_clear s req g
  | get req => rfl
  | count req => rfl
  | contains req => rfl

/-- A request that does not concern a map leaves it. -/
theorem changedMap_of_not_concerns {req : KVRequest} (h : req.concerns g = false)
    (m : Option PlainMap) : changedMap req g m = m := by
  obtain ⟨haddr, hclears⟩ : req.address ≠ some g ∧ req.clears g = false := by
    simpa [KVRequest.concerns, KVRequest.addresses] using h
  cases req with
  | clear req =>
    unfold changedMap clearedMap
    cases hop : req.op <;> cases g <;>
      simp only [KVRequest.clears, KVRequest.address, hop] at haddr hclears ⊢ <;>
      first | rfl | cases hclears
    all_goals
      refine if_neg fun ht => haddr ?_
      rw [ht]
  | _ =>
    unfold changedMap
    first
      | rfl
      | exact if_neg fun ht => haddr (by simp [KVRequest.address, ht])

/-- A request that addresses a map answers by what it was before. -/
theorem reply_step_congr {req : KVRequest} (h : req.addresses g = true)
    (hst : s.lookup g = t.lookup g) : (s.step req).2 = (t.step req).2 := by
  have haddr : req.address = some g := by simpa [KVRequest.addresses] using h
  cases req with
  | clear req => rfl
  | rmv req => rfl
  | _ =>
    obtain rfl := Option.some.inj haddr
    simp only [step, write, clearWrite, get, count, contains, hst]

end PlainStore

namespace KvHandler

/-- Two runs with the same requests concerning a map give the same replies to the requests that
address it. -/
theorem run_isolated (g : Option Bytes) (reqs reqs' : List KVRequest)
    (h : reqs.filter (KVRequest.concerns g) = reqs'.filter (KVRequest.concerns g)) :
    ∃ s replies s' replies', machine.run reqs = some (s, replies) ∧
      machine.run reqs' = some (s', replies') ∧
      Machine.observe (KVRequest.addresses g) reqs replies =
        Machine.observe (KVRequest.addresses g) reqs' replies' := by
  obtain ⟨s, t, replies, hs, ht, _⟩ := Represents.run reqs
  obtain ⟨s', t', replies', hs', ht', _⟩ := Represents.run reqs'
  refine ⟨s, replies, s', replies', hs, hs', ?_⟩
  apply Machine.runFrom_observe_eq (R := fun s t : PlainStore => s.lookup g = t.lookup g)
    (fun s t h => h.symm) ?_ ?_ ?_ h rfl ht ht'
  · intro req hreq
    simp [KVRequest.concerns, hreq]
  · intro s t req s' reply hst hreq hstep
    cases hstep
    rw [hst, PlainStore.lookup_step, PlainStore.changedMap_of_not_concerns hreq]
  · intro s t req s' t' reply reply' hst hreq hs ht
    cases hs
    cases ht
    refine ⟨by rw [PlainStore.lookup_step, PlainStore.lookup_step, hst], fun hv => ?_⟩
    rw [PlainStore.reply_step_congr hv hst]

/-- What is done to the default map does not show in group `a`. -/
theorem run_isolated_default :
    let write : KVWrite := ⟨[(⟨[107], by decide⟩, .int 1)], some [97]⟩
    let read : KVRequest := .get ⟨some [[107]], some [97]⟩
    let other : KVRequest := .set ⟨[(⟨[107], by decide⟩, .int 2)], none⟩
    ∃ s replies s' replies', machine.run [.set write, other, read] = some (s, replies) ∧
      machine.run [other, .set write, read] = some (s', replies') ∧
      Machine.observe (KVRequest.addresses (some [97])) [.set write, other, read] replies =
        Machine.observe (KVRequest.addresses (some [97])) [other, .set write, read] replies' := by
  intro write read other
  exact run_isolated (some [97]) _ _ (by decide)

end KvHandler

end FCache
