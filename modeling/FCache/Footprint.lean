import FCache.Cpp
import FCache.FiniteMap
import FCache.Machine
import Mathlib.Data.Set.Disjoint
import Mathlib.Order.CompletePartialOrder

/-!
# Footprints

A computation over a finite map is confined to a set of keys if it neither sees nor changes what
is stored under the others: in other surroundings it has the same outcome, in those surroundings.
This is one equation between the computation and the replacement of the surroundings, and it is
kept by the ways in which computations are put together. Computations confined to disjoint sets of
keys can be swapped.
-/

/-! ### Computations that commute with a change of the state -/

namespace Cpp

variable {σ α β : Type} {g : σ → σ}

/-- Running after the change `g` of the state gives what running before it gives, changed by `g`. -/
def Commutes (g : σ → σ) (x : Cpp σ α) : Prop := ∀ s, x (g s) = (x s).mapState g

theorem commutes_pure (a : α) : Commutes g (pure a) := fun _ => rfl

theorem commutes_throw : Commutes g (throw : Cpp σ α) := fun _ => rfl

theorem commutes_update {f : σ → σ} (h : ∀ s, f (g s) = g (f s)) : Commutes g (update f) := by
  intro s
  rw [update_apply, update_apply, h]
  rfl

theorem commutes_ofOption (r : Option α) : Commutes g (ofOption r) := by
  intro s
  cases r <;> rfl

theorem commutes_ite {c : Prop} [Decidable c] {x y : Cpp σ α} (hx : Commutes g x)
    (hy : Commutes g y) : Commutes g (if c then x else y) := by
  split
  · exact hx
  · exact hy

theorem commutes_bind {x : Cpp σ α} {f : α → Cpp σ β} (hx : Commutes g x)
    (hf : ∀ a, Commutes g (f a)) : Commutes g (x >>= f) := by
  intro s
  rw [bind_apply, bind_apply, hx s]
  cases x s with
  | ok a t => exact hf a t
  | throws t => rfl
  | undefined => rfl

theorem commutes_tryCatch {x h : Cpp σ α} (hx : Commutes g x) (hh : Commutes g h) :
    Commutes g (tryCatch x h) := by
  intro s
  rw [tryCatch_apply, tryCatch_apply, hx s]
  cases x s with
  | ok a t => rfl
  | throws t => exact hh t
  | undefined => rfl

end Cpp

/-! ### Surroundings in a finite map -/

namespace FiniteMap

/-- The keys a computation is confined to. -/
abbrev Footprint (κ : Type*) := Set κ

variable {κ β ο : Type*} [DecidableEq κ] {N K : Footprint κ} {m n p : Finmap fun _ : κ => β} {k : κ}

open Classical in
/-- What `m` stores under the keys in `N`. -/
noncomputable def restrict (N : Footprint κ) (m : Finmap fun _ : κ => β) : Finmap fun _ : κ => β :=
  eraseAll m (m.keys.filter fun k => k ∉ N).toList

/-- What `m` stores under the keys in `N`, and what `p` stores under the others. -/
noncomputable def overlay (N : Footprint κ) (m p : Finmap fun _ : κ => β) : Finmap fun _ : κ => β :=
  restrict N m ∪ restrict Nᶜ p

theorem lookup_restrict_inside (hk : k ∈ N) : (restrict N m).lookup k = m.lookup k := by
  unfold restrict
  rw [lookup_eraseAll, if_neg]
  simp [hk]

theorem lookup_restrict_outside (hk : k ∉ N) : (restrict N m).lookup k = none := by
  unfold restrict
  rw [lookup_eraseAll]
  split
  · rfl
  · next hnot =>
    apply Finmap.lookup_eq_none.mpr
    simpa [hk, Finmap.mem_keys] using hnot

theorem lookup_overlay_inside (hk : k ∈ N) : (overlay N m p).lookup k = m.lookup k := by
  have hp : k ∉ restrict Nᶜ p := Finmap.lookup_eq_none.mp (lookup_restrict_outside (by simp [hk]))
  unfold overlay
  rw [Finmap.lookup_union_left_of_not_in hp, lookup_restrict_inside hk]

theorem lookup_overlay_outside (hk : k ∉ N) : (overlay N m p).lookup k = p.lookup k := by
  have hm : k ∉ restrict N m := Finmap.lookup_eq_none.mp (lookup_restrict_outside hk)
  unfold overlay
  rw [Finmap.lookup_union_right hm, lookup_restrict_inside (by simpa using hk)]

/-- A map is `m` in the surroundings `p` if it is so under every key. -/
theorem eq_overlay (hin : ∀ k ∈ N, n.lookup k = m.lookup k)
    (hout : ∀ k ∉ N, n.lookup k = p.lookup k) : n = overlay N m p := by
  apply Finmap.ext_lookup
  intro k
  by_cases hk : k ∈ N
  · rw [lookup_overlay_inside hk, hin k hk]
  · rw [lookup_overlay_outside hk, hout k hk]

theorem overlay_insert (hk : k ∈ N) (v : β) :
    (overlay N m p).insert k v = overlay N (m.insert k v) p := by
  apply eq_overlay
  · intro k' hk'
    by_cases h : k' = k
    · subst h
      rw [Finmap.lookup_insert, Finmap.lookup_insert]
    · rw [Finmap.lookup_insert_of_ne _ h, Finmap.lookup_insert_of_ne _ h,
        lookup_overlay_inside hk']
  · intro k' hk'
    have h : k' ≠ k := fun h => hk' (h ▸ hk)
    rw [Finmap.lookup_insert_of_ne _ h, lookup_overlay_outside hk']

theorem overlay_eraseAll {keys : List κ} (hkeys : ∀ k ∈ keys, k ∈ N) :
    eraseAll (overlay N m p) keys = overlay N (eraseAll m keys) p := by
  apply eq_overlay
  · intro k hk
    rw [lookup_eraseAll, lookup_eraseAll, lookup_overlay_inside hk]
  · intro k hk
    have hnot : k ∉ keys := fun h => hk (hkeys k h)
    rw [lookup_eraseAll, if_neg hnot, lookup_overlay_outside hk]

theorem overlay_univ : overlay Set.univ m p = m :=
  (eq_overlay (fun _ _ => rfl) fun k hk => absurd (Set.mem_univ k) hk).symm

/-! ### Confined steps -/

/-- The step neither sees nor changes what is stored under keys that are not in `N`. -/
def ConfinedTo (N : Footprint κ)
    (f : (Finmap fun _ : κ => β) → Option ((Finmap fun _ : κ => β) × ο)) : Prop :=
  ∀ m p, f (overlay N m p) = (f m).map fun r => (overlay N r.1 p, r.2)

variable {f g : (Finmap fun _ : κ => β) → Option ((Finmap fun _ : κ => β) × ο)}
  {m₁ m₂ : Finmap fun _ : κ => β} {o o₁ o₂ : ο}

/-- The same step in the surroundings `n`. -/
theorem ConfinedTo.in_surroundings (hf : ConfinedTo N f) (h : f m = some (m₁, o))
    (hn : ∀ k ∈ N, n.lookup k = m.lookup k) : f n = some (overlay N m₁ n, o) := by
  have hstep := hf m n
  rw [← eq_overlay hn fun _ _ => rfl, h] at hstep
  exact hstep

theorem ConfinedTo.frame (hf : ConfinedTo N f) (h : f m = some (m₁, o)) (hk : k ∉ N) :
    m₁.lookup k = m.lookup k := by
  have hself := hf.in_surroundings h fun _ _ => rfl
  rw [h, Option.some.injEq, Prod.mk.injEq] at hself
  rw [hself.1, lookup_overlay_outside hk]

theorem ConfinedTo.swap (hf : ConfinedTo N f) (hg : ConfinedTo K g) (hNK : Disjoint N K)
    (h₁ : f m = some (m₁, o₁)) (h₂ : g m₁ = some (m₂, o₂)) :
    ∃ m', g m = some (m', o₂) ∧ f m' = some (m₂, o₁) := by
  have hN : ∀ k ∈ N, k ∉ K := fun k hk => Set.disjoint_left.mp hNK hk
  have hK : ∀ k ∈ K, k ∉ N := fun k hk => Set.disjoint_right.mp hNK hk
  have hgm := hg.in_surroundings h₂ fun k hk => (hf.frame h₁ (hK k hk)).symm
  have hfm := hf.in_surroundings (n := overlay K m₂ m) h₁ fun k hk =>
    lookup_overlay_outside (hN k hk)
  refine ⟨_, hgm, ?_⟩
  rw [hfm, ← eq_overlay]
  · intro k hk
    rw [hg.frame h₂ (hN k hk)]
  · intro k hk
    by_cases hkK : k ∈ K
    · rw [lookup_overlay_inside hkK]
    · rw [lookup_overlay_outside hkK, hg.frame h₂ hkK, hf.frame h₁ hk]

/-- Two inputs whose steps are confined to disjoint sets of keys can be read in either order. -/
theorem runFrom_swap {ι : Type*} {M : Machine (Finmap fun _ : κ => β) ι ο} {i j : ι}
    (hi : ConfinedTo N fun m => M.step m i) (hj : ConfinedTo K fun m => M.step m j)
    (hNK : Disjoint N K) (m : Finmap fun _ : κ => β) :
    M.runFrom m [j, i] = (M.runFrom m [i, j]).map fun r => (r.1, r.2.reverse) := by
  apply Option.ext
  rintro ⟨m₂, os⟩
  rw [M.runFrom_pair_eq_some, Option.map_eq_some_iff]
  constructor
  · rintro ⟨m₁, o₁, o₂, h₁, h₂, rfl⟩
    obtain ⟨m', hm', hm₂⟩ := hj.swap hi hNK.symm h₁ h₂
    exact ⟨(m₂, [o₂, o₁]), M.runFrom_pair_eq_some.mpr ⟨m', o₂, o₁, hm', hm₂, rfl⟩, rfl⟩
  · rintro ⟨⟨m₂', os'⟩, hr, heq⟩
    obtain ⟨m₁, o₁, o₂, h₁, h₂, rfl⟩ := M.runFrom_pair_eq_some.mp hr
    obtain ⟨rfl, rfl⟩ := Prod.mk.inj heq
    obtain ⟨m', hm', hm₂⟩ := hi.swap hj hNK h₁ h₂
    exact ⟨m', o₂, o₁, hm', hm₂, rfl⟩

end FiniteMap
