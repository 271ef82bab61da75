import Mathlib.Data.Finmap
import Mathlib.Data.Finset.Sort

/-!
# Related finite maps

Two finite maps over the same keys are related when they have the same keys and related values.
The operations of a keyed store keep such a relation, so a refinement between two kinds of values
lifts to stores of them, and again to stores of stores.
-/

namespace FiniteMap

variable {κ : Type*} {β γ : Type*} [DecidableEq κ] {R : β → γ → Prop}
  {m : Finmap fun _ : κ => β} {n : Finmap fun _ : κ => γ}

def Related (R : β → γ → Prop) (m : Finmap fun _ : κ => β) (n : Finmap fun _ : κ => γ) : Prop :=
  ∀ k, Option.Rel R (m.lookup k) (n.lookup k)

def eraseAll (m : Finmap fun _ : κ => β) (keys : List κ) : Finmap fun _ : κ => β :=
  keys.foldl (fun m k => m.erase k) m

def sortedKeys [LinearOrder κ] (m : Finmap fun _ : κ => β) : List κ := m.keys.sort (· ≤ ·)

/-- Replace the value of every key, visiting the keys in order. -/
def mapValues [LinearOrder κ] (f : β → β) (m : Finmap fun _ : κ => β) : Finmap fun _ : κ => β :=
  (sortedKeys m).foldl (fun m k =>
    match m.lookup k with
    | none => m
    | some v => m.insert k (f v)) m

/-- The values `f` gives to a list of keys. -/
def ofKeys (keys : List κ) (f : κ → Option β) : Finmap fun _ : κ => β :=
  keys.foldl (fun m k =>
    match f k with
    | none => m
    | some v => m.insert k v) ∅

theorem lookup_eraseAll (m : Finmap fun _ : κ => β) (keys : List κ) (k : κ) :
    (eraseAll m keys).lookup k = if k ∈ keys then none else m.lookup k := by
  induction keys generalizing m with
  | nil => rfl
  | cons key keys ih =>
    have hstep : eraseAll m (key :: keys) = eraseAll (m.erase key) keys := rfl
    rw [hstep, ih]
    by_cases hk : k = key
    · subst hk
      simp
    · rw [Finmap.lookup_erase_ne hk]
      simp [hk]

theorem eraseAll_congr {keys keys' : List κ} (h : ∀ k, k ∈ keys ↔ k ∈ keys')
    (m : Finmap fun _ : κ => β) : eraseAll m keys = eraseAll m keys' := by
  apply Finmap.ext_lookup
  intro k
  rw [lookup_eraseAll, lookup_eraseAll]
  exact if_congr (h k) rfl rfl

theorem lookup_mapValues [LinearOrder κ] (f : β → β) (m : Finmap fun _ : κ => β) (k : κ) :
    (mapValues f m).lookup k = (m.lookup k).map f := by
  have hfold : ∀ (keys : List κ) (m : Finmap fun _ : κ => β), keys.Nodup →
      (keys.foldl (fun m k => match m.lookup k with
        | none => m
        | some v => m.insert k (f v)) m).lookup k =
        if k ∈ keys then (m.lookup k).map f else m.lookup k := by
    intro keys
    induction keys with
    | nil => intro m _; rfl
    | cons key keys ih =>
      intro m hnodup
      rw [List.nodup_cons] at hnodup
      rw [List.foldl_cons, ih _ hnodup.2]
      by_cases hk : k = key
      · subst hk
        cases h : m.lookup k <;> simp [hnodup.1, h]
      · cases h : m.lookup key <;> simp [hk, Finmap.lookup_insert_of_ne]
  unfold mapValues sortedKeys
  rw [hfold _ m (Finset.sort_nodup _ _)]
  by_cases hk : k ∈ m.keys.sort (· ≤ ·)
  · rw [if_pos hk]
  · rw [if_neg hk]
    rw [Finset.mem_sort, Finmap.mem_keys] at hk
    rw [Finmap.lookup_eq_none.mpr hk]
    rfl

theorem lookup_ofKeys (keys : List κ) (f : κ → Option β) (k : κ) :
    (ofKeys keys f).lookup k = if k ∈ keys then f k else none := by
  have hfold : ∀ m : Finmap fun _ : κ => β, (keys.foldl (fun m k => match f k with
      | none => m
      | some v => m.insert k v) m).lookup k =
      if k ∈ keys then (f k).or (m.lookup k) else m.lookup k := by
    induction keys with
    | nil => intro m; rfl
    | cons key keys ih =>
      intro m
      rw [List.foldl_cons, ih]
      by_cases hk : k = key
      · subst hk
        cases f k <;> simp
      · cases f key <;> simp [hk, Finmap.lookup_insert_of_ne]
  unfold ofKeys
  rw [hfold, Finmap.lookup_empty, Option.or_none]

theorem ofKeys_congr {keys keys' : List κ} (h : ∀ k, k ∈ keys ↔ k ∈ keys') (f : κ → Option β) :
    ofKeys keys f = ofKeys keys' f := by
  apply Finmap.ext_lookup
  intro k
  rw [lookup_ofKeys, lookup_ofKeys]
  exact if_congr (h k) rfl rfl

/-- Entries that agree with `f`, inserted one after another. -/
theorem lookup_foldl_insert {entries : List (κ × β)} {f : κ → Option β}
    (h : ∀ e ∈ entries, f e.1 = some e.2) (m : Finmap fun _ : κ => β) (k : κ) :
    (entries.foldl (fun m e => m.insert e.1 e.2) m).lookup k =
      if k ∈ entries.map Prod.fst then f k else m.lookup k := by
  induction entries generalizing m with
  | nil => rfl
  | cons e entries ih =>
    rw [List.foldl_cons, ih fun e he => h e (List.mem_cons_of_mem _ he), List.map_cons]
    by_cases hk : k = e.1
    · subst hk
      simp [h e List.mem_cons_self]
    · simp only [List.mem_cons, hk, false_or]
      rw [Finmap.lookup_insert_of_ne m hk]

theorem lookup_union (m n : Finmap fun _ : κ => β) (k : κ) :
    (m ∪ n).lookup k = (m.lookup k).or (n.lookup k) := by
  cases h : m.lookup k with
  | none => rw [Finmap.lookup_union_right (Finmap.lookup_eq_none.mp h), Option.none_or]
  | some v =>
    rw [Finmap.lookup_union_left (Finmap.mem_of_lookup_eq_some h), h, Option.some_or]

theorem insert_of_lookup {k : κ} {v : β} (h : m.lookup k = some v) : m.insert k v = m := by
  apply Finmap.ext_lookup
  intro k'
  by_cases hk : k' = k
  · subst hk
    rw [Finmap.lookup_insert, h]
  · rw [Finmap.lookup_insert_of_ne m hk]

theorem erase_of_lookup {k : κ} (h : m.lookup k = none) : m.erase k = m := by
  apply Finmap.ext_lookup
  intro k'
  by_cases hk : k' = k
  · subst hk
    rw [Finmap.lookup_erase, h]
  · rw [Finmap.lookup_erase_ne hk]

namespace Related

theorem empty : Related R (∅ : Finmap fun _ : κ => β) (∅ : Finmap fun _ : κ => γ) := by
  intro k
  rw [Finmap.lookup_empty, Finmap.lookup_empty]
  exact .none

theorem insert (h : Related R m n) {k : κ} {v : β} {w : γ} (hvw : R v w) :
    Related R (m.insert k v) (n.insert k w) := by
  intro k'
  by_cases hk : k' = k
  · subst hk
    rw [Finmap.lookup_insert, Finmap.lookup_insert]
    exact .some hvw
  · rw [Finmap.lookup_insert_of_ne m hk, Finmap.lookup_insert_of_ne n hk]
    exact h k'

theorem erase (h : Related R m n) (k : κ) : Related R (m.erase k) (n.erase k) := by
  intro k'
  by_cases hk : k' = k
  · subst hk
    rw [Finmap.lookup_erase, Finmap.lookup_erase]
    exact .none
  · rw [Finmap.lookup_erase_ne hk, Finmap.lookup_erase_ne hk]
    exact h k'

theorem eraseAll (h : Related R m n) (keys : List κ) :
    Related R (eraseAll m keys) (FiniteMap.eraseAll n keys) := by
  intro k
  rw [lookup_eraseAll, lookup_eraseAll]
  split
  · exact .none
  · exact h k

theorem lookup_cases (h : Related R m n) (k : κ) :
    (m.lookup k = none ∧ n.lookup k = none) ∨
      ∃ v w, m.lookup k = some v ∧ n.lookup k = some w ∧ R v w := by
  have hk := h k
  generalize m.lookup k = a at hk ⊢
  generalize n.lookup k = b at hk ⊢
  cases hk with
  | none => exact .inl ⟨rfl, rfl⟩
  | some hvw => exact .inr ⟨_, _, rfl, rfl, hvw⟩

theorem mapValues [LinearOrder κ] (h : Related R m n) {f : β → β} {g : γ → γ}
    (hfg : ∀ v w, R v w → R (f v) (g w)) : Related R (mapValues f m) (mapValues g n) := by
  intro k
  rw [lookup_mapValues, lookup_mapValues]
  rcases h.lookup_cases k with ⟨hm, hn⟩ | ⟨v, w, hm, hn, hvw⟩
  · rw [hm, hn]
    exact .none
  · rw [hm, hn]
    exact .some (hfg v w hvw)

theorem keys_eq (h : Related R m n) : m.keys = n.keys := by
  ext k
  rw [Finmap.mem_keys, Finmap.mem_keys, ← Finmap.lookup_isSome, ← Finmap.lookup_isSome]
  rcases h.lookup_cases k with ⟨hm, hn⟩ | ⟨v, w, hm, hn, _⟩
  · simp [hm, hn]
  · simp [hm, hn]

end Related

end FiniteMap
