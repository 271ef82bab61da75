import FCache.KvApiRefinement

/-!
# Every key of a group is a cell of its own

A cell tells whether a group is there and what value the key has in it. Each call changes a cell by
what the cell was and by the arguments of the call alone, and most calls do not reach it, so a key
read after any sequence of calls has the value that the changes of those that do, one after another,
give its cell.
-/

namespace FCache.KV

variable {F A : Type} (w : FlexWriter F A)

abbrev Cell := Option (Option TypedValue)

def cellOf (s : PlainStore) (group : Option String) (key : String) : Cell :=
  (s.lookup (groupField group)).map fun m => m.lookup (encode key)

namespace Cell

/-- The value of the key, if it has one. -/
def value (c : Cell) : Option TypedValue := c.getD none

/-- What a call that asks for the key returns. -/
def shown (c : Cell) : PyResult := .ofValue c.value

def emptied (c : Cell) : Cell := c.map fun _ => none

/-- A dict writes the cell unless it is empty or one of its values cannot be written. -/
def written (kv : PyDict (PyValue F A)) (key : String) (f : Option TypedValue → Cell) (c : Cell) :
    Cell :=
  if kv.items ≠ [] ∧ (createKvMap w kv).toOption.isSome then f (valueOf w kv (encode key)) else c

end Cell

/-- What a call makes of the cell of a key in a group. -/
def Call.effect (group : Option String) (key : String) (c : Cell) : Call F A → Cell
  | .set kv g =>
    if groupField g = groupField group then c.written w kv key fun v => some (v.or c.value) else c
  | .setKey k x g =>
    if groupField g = groupField group then
      c.written w ⟨[(k, x)], List.nodup_singleton k⟩ key fun v => some (v.or c.value)
    else c
  | .add kv g =>
    if groupField g = groupField group then c.written w kv key fun v => some (c.value.or v) else c
  | .clearSet kv g =>
    if groupField g = groupField group then c.written w kv key fun v => c.map fun _ => v else c
  | .remove k ks g =>
    if groupField g = groupField group ∧ k ≠ some "" ∧ key ∈ (k.map fun k => [k]).getD ks then
      c.emptied
    else c
  | .clear | .clearAll => if groupField group = none then some none else none
  | .clearGroup name deleteGroup =>
    if groupField (some name) = groupField group ∧ name ≠ "" then
      if deleteGroup then none else c.emptied
    else c
  | .clearGroups deleteGroups =>
    if groupField group = none then c else if deleteGroups then none else c.emptied
  | .get .. | .getAll .. | .getKey .. | .getKeys .. | .count .. | .contains .. => c

/-- The calls that may change the cell of a key: the writes and clears of its group, the removals of
the key, and the clears of the store. -/
def Call.reaches (group : Option String) (key : String) : Call F A → Bool
  | .set _ g | .setKey _ _ g | .add _ g | .clearSet _ g => groupField g = groupField group
  | .remove k ks g => groupField g = groupField group ∧ key ∈ (k.map fun k => [k]).getD ks
  | .clear | .clearAll => true
  | .clearGroup name _ => groupField (some name) = groupField group ∧ name ≠ ""
  | .clearGroups _ => groupField group ≠ none
  | .get .. | .getAll .. | .getKey .. | .getKeys .. | .count .. | .contains .. => false

/-- Setting or adding other keys of the group may bring the group about, but does not touch the
value of this one. -/
def Call.touches (group : Option String) (key : String) (c : Call F A) : Bool :=
  c.reaches group key && match c with
    | .set kv _ | .add kv _ => key ∈ kv.items.map Prod.fst
    | .setKey k _ _ => key = k
    | _ => true

variable {w}

theorem effect_of_not_reaches {group : Option String} {key : String} {c : Call F A}
    (h : c.reaches group key = false) (cell : Cell) : c.effect w group key cell = cell := by
  cases c with
  | set kv g | setKey k x g | add kv g | clearSet kv g => exact if_neg (of_decide_eq_false h)
  | remove k ks g =>
    have hother := of_decide_eq_false h
    exact if_neg fun hk => hother ⟨hk.1, hk.2.2⟩
  | clear | clearAll => cases h
  | clearGroup name deleteGroup => exact if_neg (of_decide_eq_false h)
  | clearGroups deleteGroups => exact if_pos (not_not.mp (of_decide_eq_false h))
  | get | getAll | getKey | getKeys | count | contains => rfl

theorem valueOf_eq_none {kv : PyDict (PyValue F A)} {key : String}
    (h : key ∉ kv.items.map Prod.fst) : valueOf w kv (encode key) = none := by
  have hfind : (kv.items.find? fun item => encode item.1 = encode key) = none := by
    rw [List.find?_eq_none]
    intro item hitem heq
    exact h (List.mem_map.mpr ⟨item, hitem, encode_injective (of_decide_eq_true heq)⟩)
  rw [valueOf, hfind]
  rfl

theorem Cell.value_written {kv : PyDict (PyValue F A)} {key : String}
    {f : Option TypedValue → Cell} {c : Cell} (hf : (f none).value = c.value)
    (hkey : key ∉ kv.items.map Prod.fst) : (c.written w kv key f).value = c.value := by
  unfold Cell.written
  split
  · rw [valueOf_eq_none hkey, hf]
  · rfl

theorem value_effect_of_not_touches {group : Option String} {key : String} {c : Call F A}
    (h : c.touches group key = false) (cell : Cell) :
    (c.effect w group key cell).value = cell.value := by
  by_cases hreach : c.reaches group key = true
  · unfold Call.touches at h
    rw [hreach, Bool.true_and] at h
    cases c with
    | set kv g =>
      simp only [Call.effect, if_pos (of_decide_eq_true hreach)]
      exact Cell.value_written rfl (of_decide_eq_false h)
    | setKey k x g =>
      simp only [Call.effect, if_pos (of_decide_eq_true hreach)]
      exact Cell.value_written rfl fun hk => of_decide_eq_false h (List.mem_singleton.mp hk)
    | add kv g =>
      simp only [Call.effect, if_pos (of_decide_eq_true hreach)]
      exact Cell.value_written (Option.or_none ..) (of_decide_eq_false h)
    | _ => cases h
  · rw [effect_of_not_reaches (Bool.eq_false_iff.mpr hreach)]

theorem foldl_effect_filter (calls : List (Call F A)) (group : Option String) (key : String)
    (cell : Cell) : calls.foldl (fun c call => call.effect w group key c) cell =
      (calls.filter fun call => call.reaches group key).foldl
        (fun c call => call.effect w group key c) cell := by
  induction calls generalizing cell with
  | nil => rfl
  | cons call calls ih =>
    rw [List.foldl_cons, ih]
    cases h : call.reaches group key with
    | true => rw [List.filter_cons_of_pos h, List.foldl_cons]
    | false =>
      rw [List.filter_cons_of_neg (Bool.eq_false_iff.mp h), effect_of_not_reaches h]

theorem value_foldl_effect {calls : List (Call F A)} {group : Option String} {key : String}
    (h : ∀ call ∈ calls, call.touches group key = false) (cell : Cell) :
    (calls.foldl (fun c call => call.effect w group key c) cell).value = cell.value := by
  induction calls generalizing cell with
  | nil => rfl
  | cons call calls ih =>
    obtain ⟨hcall, hcalls⟩ := List.forall_mem_cons.mp h
    rw [List.foldl_cons, ih hcalls, value_effect_of_not_touches hcall]

theorem cellOf_assign (s : PlainStore) (g group : Option String) (m : PlainMap) (key : String) :
    cellOf (s.assign (groupField g) m) group key =
      if groupField g = groupField group then some (m.lookup (encode key))
      else cellOf s group key := by
  unfold cellOf
  by_cases hg : groupField g = groupField group
  · rw [if_pos hg, hg, PlainStore.lookup_assign, Option.map_some]
  · rw [if_neg hg, PlainStore.lookup_assign_ne hg]

theorem cellOf_update (s : PlainStore) (g : Option Bytes) (group : Option String)
    (f : PlainMap → PlainMap) (key : String) :
    cellOf (s.update g f) group key =
      if g = groupField group then (s.lookup g).map fun m => (f m).lookup (encode key)
      else cellOf s group key := by
  unfold cellOf
  rw [PlainStore.lookup_update]
  by_cases hg : g = groupField group
  · rw [if_pos hg, if_pos hg, Option.map_map, hg]
    rfl
  · rw [if_neg hg, if_neg hg]

theorem value_cellOf (s : PlainStore) (group : Option String) (key : String) :
    (cellOf s group key).value = (Dicts.dictOf s group).lookup (encode key) := by
  unfold cellOf Cell.value Dicts.dictOf
  cases s.lookup (groupField group) with
  | none => rfl
  | some m => rfl

/-- A write whose values are all written changes the cells of its group. -/
theorem cellOf_write {s : PlainStore} {kv : PyDict (PyValue F A)} {g group : Option String}
    {key : String} {f : PlainMap → PlainStore × Except PyError PyResult}
    {h : Option TypedValue → Cell}
    (hf : groupField g = groupField group →
      cellOf (f (plainMap w kv)).1 group key = h (valueOf w kv (encode key)))
    (hframe : groupField g ≠ groupField group →
      cellOf (f (plainMap w kv)).1 group key = cellOf s group key) :
    cellOf (Dicts.write w s kv f).1 group key =
      if groupField g = groupField group then (cellOf s group key).written w kv key h
      else cellOf s group key := by
  unfold Dicts.write Cell.written
  by_cases hitems : kv.items = []
  · simp [hitems, Dicts.raises]
  · rw [if_neg hitems]
    cases hmap : createKvMap w kv with
    | error e => simp [Except.toOption]
    | ok entries =>
      by_cases hg : groupField g = groupField group
      · simp [hg, hitems, Except.toOption, hf hg]
      · simp [hg, hframe hg]

theorem dictOf_congr (s : PlainStore) {g group : Option String}
    (hg : groupField g = groupField group) : Dicts.dictOf s g = Dicts.dictOf s group := by
  unfold Dicts.dictOf
  rw [hg]

theorem cellOf_set (s : PlainStore) (kv : PyDict (PyValue F A)) (g group : Option String)
    (key : String) :
    cellOf (Dicts.set w s kv g).1 group key =
      (Call.set kv g).effect w group key (cellOf s group key) := by
  apply cellOf_write
  · intro hg
    rw [cellOf_assign, if_pos hg, FiniteMap.lookup_union, lookup_plainMap, value_cellOf,
      dictOf_congr s hg]
  · intro hg
    rw [cellOf_assign, if_neg hg]

theorem cellOf_add (s : PlainStore) (kv : PyDict (PyValue F A)) (g group : Option String)
    (key : String) :
    cellOf (Dicts.add w s kv g).1 group key =
      (Call.add kv g).effect w group key (cellOf s group key) := by
  apply cellOf_write
  · intro hg
    rw [cellOf_assign, if_pos hg, FiniteMap.lookup_union, lookup_plainMap, value_cellOf,
      dictOf_congr s hg]
  · intro hg
    rw [cellOf_assign, if_neg hg]

theorem cellOf_clearSet (s : PlainStore) (kv : PyDict (PyValue F A)) (g group : Option String)
    (key : String) :
    cellOf (Dicts.clearSet w s kv g).1 group key =
      (Call.clearSet kv g).effect w group key (cellOf s group key) := by
  apply cellOf_write
  · intro hg
    unfold cellOf
    cases hm : s.lookup (groupField g) with
    | none => simp [← hg, hm]
    | some m => simp [← hg, hm, lookup_plainMap]
  · intro hg
    cases hm : s.lookup (groupField g) with
    | none => simp
    | some m => simpa [hg] using cellOf_assign s g group (plainMap w kv) key

theorem cellOf_remove (s : PlainStore) (k : Option String) (ks : List String)
    (g group : Option String) (key : String) :
    cellOf (Dicts.remove s k ks g).1 group key =
      (Call.remove k ks g).effect w group key (cellOf s group key) := by
  unfold Dicts.remove
  simp only [Call.effect]
  have hmem : encode key ∈ ((k.map fun k => [k]).getD ks).map encode ↔
      key ∈ (k.map fun k => [k]).getD ks :=
    List.mem_map_of_injective encode_injective
  by_cases hraise : k = some "" ∨ k = none ∧ ks = []
  · rw [if_pos hraise, if_neg]
    · rfl
    · rcases hraise with rfl | ⟨rfl, rfl⟩ <;> simp
  · rw [if_neg hraise, cellOf_update]
    have hk : k ≠ some "" := fun h => hraise (.inl h)
    by_cases hg : groupField g = groupField group
    · rw [if_pos hg, hg]
      simp only [FiniteMap.lookup_eraseAll]
      by_cases hkey : key ∈ (k.map fun k => [k]).getD ks
      · rw [if_pos ⟨trivial, hk, hkey⟩]
        simp only [hmem, hkey, if_true]
        unfold cellOf Cell.emptied
        rw [Option.map_map]
        rfl
      · rw [if_neg fun h => hkey h.2.2]
        simp only [hmem, hkey, if_false]
        rfl
    · rw [if_neg hg, if_neg fun h => hg h.1]

theorem cellOf_clearAll (group : Option String) (key : String) :
    cellOf {} group key = if groupField group = none then some none else none := by
  unfold cellOf
  cases groupField group with
  | none => rfl
  | some name => rfl

theorem cellOf_clearGroup (s : PlainStore) (name : String) (deleteGroup : Bool)
    (group : Option String) (key : String) :
    cellOf (Dicts.clearGroup s name deleteGroup).1 group key =
      (Call.clearGroup name deleteGroup).effect w group key (cellOf s group key) := by
  unfold Dicts.clearGroup
  simp only [Call.effect]
  by_cases hname : name = ""
  · rw [if_pos hname, if_neg fun h => h.2 hname]
    rfl
  · have hfield : groupField (some name) = some (encode name) := by simp [groupField, hname]
    rw [if_neg hname, hfield]
    cases deleteGroup with
    | false =>
      rw [if_neg Bool.false_ne_true, cellOf_update]
      by_cases hg : some (encode name) = groupField group
      · rw [if_pos hg, if_pos ⟨hg, hname⟩, if_neg Bool.false_ne_true, hg]
        unfold cellOf Cell.emptied
        rw [Option.map_map]
        rfl
      · rw [if_neg hg, if_neg fun h => hg h.1]
    | true =>
      rw [if_pos rfl]
      unfold cellOf
      by_cases hg : some (encode name) = groupField group
      · rw [if_pos ⟨hg, hname⟩, ← hg]
        simp [PlainStore.lookup]
      · have hskip : ¬ (some (encode name) = groupField group ∧ name ≠ "") := fun h => hg h.1
        rw [if_neg hskip]
        cases hgroup : groupField group with
        | none => rfl
        | some name' =>
          have hne : name' ≠ encode name := fun h => hg (by rw [hgroup, h])
          simp [PlainStore.lookup, Finmap.lookup_erase_ne hne]

theorem cellOf_clearGroups (s : PlainStore) (deleteGroups : Bool) (group : Option String)
    (key : String) :
    cellOf (Dicts.clearGroups s deleteGroups).1 group key =
      (Call.clearGroups deleteGroups).effect w group key (cellOf s group key) := by
  unfold Dicts.clearGroups cellOf
  simp only [Call.effect, Cell.emptied]
  cases groupField group with
  | none => cases deleteGroups <;> rfl
  | some name =>
    cases deleteGroups with
    | true => simp [PlainStore.lookup]
    | false =>
      rw [if_neg Bool.false_ne_true, if_neg (Option.some_ne_none name), if_neg Bool.false_ne_true]
      have hlookup := FiniteMap.lookup_mapValues (fun _ => (∅ : PlainMap)) s.groups name
      simp only [PlainStore.lookup, hlookup, Option.map_map]
      rfl

/-- What a call makes of a cell depends on no other cell. -/
theorem cellOf_step (s : PlainStore) (c : Call F A) (group : Option String) (key : String) :
    cellOf (Dicts.step w s c).1 group key = c.effect w group key (cellOf s group key) := by
  cases c with
  | set kv g => exact cellOf_set s kv g group key
  | setKey k x g => exact cellOf_set s _ g group key
  | add kv g => exact cellOf_add s kv g group key
  | clearSet kv g => exact cellOf_clearSet s kv g group key
  | remove k ks g => exact cellOf_remove s k ks g group key
  | clear | clearAll => exact cellOf_clearAll group key
  | clearGroup name deleteGroup => exact cellOf_clearGroup s name deleteGroup group key
  | clearGroups deleteGroups => exact cellOf_clearGroups s deleteGroups group key
  | get k ks g =>
    simp only [Dicts.step, Dicts.get, Call.effect]
    repeat' split
    all_goals rfl
  | getAll g =>
    simp only [Dicts.step, Dicts.getAll, Call.effect]
    split <;> rfl
  | getKey k g =>
    simp only [Dicts.step, Dicts.getKey, Call.effect]
    split <;> rfl
  | getKeys ks g =>
    simp only [Dicts.step, Dicts.getKeys, Call.effect]
    split <;> rfl
  | count g => rfl
  | contains ks g =>
    simp only [Dicts.step, Dicts.contains, Call.effect]
    split <;> rfl

theorem cellOf_runFrom {s s' : PlainStore} {calls : List (Call F A)}
    {results : List (Except PyError PyResult)}
    (h : (Dicts.machine w).runFrom s calls = some (s', results)) (group : Option String)
    (key : String) : cellOf s' group key =
      calls.foldl (fun cell c => c.effect w group key cell) (cellOf s group key) := by
  induction calls generalizing s results with
  | nil =>
    obtain ⟨rfl, rfl⟩ := Prod.mk.inj (Option.some.inj h)
    rfl
  | cons c calls ih =>
    obtain ⟨s₁, _, results', hstep, hrun, rfl⟩ := (Dicts.machine w).runFrom_cons_eq_some.mp h
    obtain ⟨rfl, rfl⟩ := Prod.mk.inj (Option.some.inj hstep)
    rw [List.foldl_cons, ← cellOf_step]
    exact ih hrun

variable (w)

/-- After any sequence of calls on a server, a key that is asked for has the value that the effects
of the calls that reach its cell give, and the value it had if no call touches it. -/
theorem runFrom_getKey {server : Server} {t : PlainStore} (h : server.kvHandler.Represents t)
    (calls : List (Call F A)) {key : String} (hkey : key ≠ "") (group : Option String) :
    let cell := (calls.filter fun call => call.reaches group key).foldl
      (fun c call => call.effect w group key c) (cellOf t group key)
    (∃ server' results, (machine w).runFrom server (calls ++ [.getKey key group]) =
      some (server', results ++ [.ok cell.shown])) ∧
    ((∀ call ∈ calls, call.touches group key = false) →
      cell.shown = (cellOf t group key).shown) := by
  intro cell
  obtain ⟨server₁, t₁, results, hrun, ht, h₁⟩ := Machine.runFrom_simulates
    (step_dicts w server.listHandler) ⟨h, rfl⟩ calls
  obtain ⟨server₂, hcall, _⟩ := getKey_yields key group t₁ server₁ h₁
  have hresult : (Dicts.getKey t₁ key group).2 = .ok (cellOf t₁ group key).shown := by
    unfold Dicts.getKey Cell.shown
    simp only [if_neg hkey, value_cellOf, Dicts.item]
  have hstep : (machine w).step server₁ (.getKey key group) =
      some (server₂, .ok (cellOf t₁ group key).shown) := by
    change (Client.call (getKey key group) server₁).map Prod.swap = _
    rw [hcall, hresult]
    rfl
  have hcell : calls.foldl (fun c call => call.effect w group key c) (cellOf t group key) = cell :=
    foldl_effect_filter calls group key _
  rw [cellOf_runFrom ht, hcell] at hstep
  refine ⟨⟨server₂, results, Machine.runFrom_append hrun (Machine.runFrom_single _ hstep)⟩, ?_⟩
  intro huntouched
  rw [Cell.shown, ← hcell, value_foldl_effect huntouched]
  rfl

/-- A value set in a group is not replaced by one that is added. A key is not brought about by a
write of another key of its group, nor by one of the same key in another group. -/
theorem runFrom_getKey_added :
    (∃ server' results, (machine listWriter).runFrom {} [.setKey "a" (.int 1) (some "g"),
      .add ⟨[("b", .int 2), ("a", .int 3)], by decide⟩ (some "g"), .getKey "a" (some "g")] =
        some (server', results ++ [.ok (.value (.scalar (.int 1)))])) ∧
    ∃ server' results, (machine listWriter).runFrom {} [.setKey "b" (.int 2) (some "g"),
      .setKey "a" (.int 3) (some "h"), .getKey "a" (some "g")] =
        some (server', results ++ [.ok .none]) := by
  have h : ({} : Server).kvHandler.Represents {} := KvHandler.Represents.init
  have hkey : "a" ≠ "" := by decide
  refine ⟨?_, ?_⟩
  · exact (runFrom_getKey listWriter h [.setKey "a" (.int 1) (some "g"),
      .add ⟨[("b", .int 2), ("a", .int 3)], by decide⟩ (some "g")] hkey (some "g")).1
  · obtain ⟨hrun, huntouched⟩ := runFrom_getKey listWriter h
      [.setKey "b" (.int 2) (some "g"), .setKey "a" (.int 3) (some "h")] hkey (some "g")
    rw [huntouched (by decide)] at hrun
    exact hrun

end FCache.KV
