import Mathlib.Data.List.Nodup

/-!
# One-way key evolution

A forest of keys: each key has at most one parent it was computed from, and
computing goes downwards only. A holder keeps keys in slots. As long as the
kept keys lie on different branches and no spent key lies below a kept one,
nothing kept leads to a spent key, and no key is spent twice.
-/

set_option autoImplicit false

namespace Vaultex.KeyTree
variable {α ι : Type*} (parent : α → Option α)

/-- `Above x y`: `x` is `y` or one of the keys `y` was computed through. -/
inductive Above (x : α) : α → Prop
  | refl : Above x x
  | step {y z : α} (h : Above x y) (hp : parent z = some y) : Above x z

variable {parent}

theorem above_trans {x y z : α} (h : Above parent x y) (h' : Above parent y z) :
    Above parent x z := by
  induction h' with
  | refl => exact h
  | step _ hp ih => exact .step ih hp

theorem above_child {x y c : α} (hc : parent c = some y) :
    Above parent x c ↔ x = c ∨ Above parent x y := by
  constructor
  · intro h
    cases h with
    | refl => exact Or.inl rfl
    | step h hp =>
      obtain rfl : _ = y := Option.some.inj (hp.symm.trans hc)
      exact Or.inr h
  · rintro (rfl | h)
    · exact .refl
    · exact .step h hc

theorem above_root {x r : α} (hr : parent r = none) (h : Above parent x r) : x = r := by
  cases h with
  | refl => rfl
  | step _ hp => rw [hr] at hp; contradiction

/-- Two keys above the same key are on one branch. -/
theorem above_linear {x y z : α} (hx : Above parent x z) (hy : Above parent y z) :
    Above parent x y ∨ Above parent y x := by
  induction hx with
  | refl => exact Or.inr hy
  | step h hp ih =>
    rcases (above_child hp).mp hy with rfl | hy
    · exact Or.inl (.step h hp)
    · exact ih hy

section Ranked
variable {rank : α → ℕ} (hrank : ∀ {x y : α}, parent y = some x → rank x < rank y)
include hrank

theorem above_rank {x y : α} (h : Above parent x y) : x = y ∨ rank x < rank y := by
  induction h with
  | refl => exact Or.inl rfl
  | step _ hp ih =>
    have hlt := hrank hp
    rcases ih with rfl | h
    · exact Or.inr hlt
    · exact Or.inr (Nat.lt_trans h hlt)

theorem not_above_parent {x c : α} (hc : parent c = some x) : ¬Above parent c x := by
  intro h
  have hlt := hrank hc
  rcases above_rank hrank h with rfl | h <;> omega

end Ranked

/-- The keys a holder keeps in its slots, and the keys it has spent. All stem
from seeds. -/
structure Frontier (parent : α → Option α) (seed : α → Prop) (live : ι → Option α)
    (used : List α) : Prop where
  apart : ∀ {i j x y}, live i = some x → live j = some y → i ≠ j → ¬Above parent x y
  spent : ∀ {i x u}, live i = some x → u ∈ used → ¬Above parent x u
  once : used.Nodup
  seeded : ∀ {i x}, live i = some x → ∃ r, seed r ∧ Above parent r x
  seeded_used : ∀ {u}, u ∈ used → ∃ r, seed r ∧ Above parent r u

variable {seed : α → Prop} {live live' : ι → Option α} {used : List α}

theorem Frontier.perm {used' : List α} (h : Frontier parent seed live used)
    (hp : used.Perm used') : Frontier parent seed live used' where
  apart := h.apart
  spent hi hu := h.spent hi (hp.mem_iff.mpr hu)
  once := hp.nodup_iff.mp h.once
  seeded := h.seeded
  seeded_used hu := h.seeded_used (hp.mem_iff.mpr hu)

/-- Slots may be renamed. -/
theorem Frontier.rename {ι' : Type*} {f : ι' → ι} (hf : Function.Injective f)
    (h : Frontier parent seed live used) : Frontier parent seed (fun i => live (f i)) used where
  apart hj hk hne := h.apart hj hk (hf.ne hne)
  spent hi hu := h.spent hi hu
  once := h.once
  seeded hi := h.seeded hi
  seeded_used hu := h.seeded_used hu

/-- A kept key may be spent when its slot is given up. -/
theorem Frontier.spend {i : ι} {u : α} (h : Frontier parent seed live used)
    (hi : live i = some u) (hl : ∀ {k y}, live' k = some y → k ≠ i ∧ live k = some y) :
    Frontier parent seed live' (u::used) where
  apart hj hk := h.apart (hl hj).2 (hl hk).2
  spent {k x v} hk hv := by
    rcases List.mem_cons.mp hv with rfl | hv
    · exact h.apart (hl hk).2 hi (hl hk).1
    · exact h.spent (hl hk).2 hv
  once := List.nodup_cons.mpr ⟨fun hu => h.spent hi hu .refl,h.once⟩
  seeded hk := h.seeded (hl hk).2
  seeded_used {v} hv := by
    rcases List.mem_cons.mp hv with rfl | hv
    · exact h.seeded hi
    · exact h.seeded_used hv

section Ranked
variable {rank : α → ℕ} (hrank : ∀ {x y : α}, parent y = some x → rank x < rank y)
include hrank

/-- A key may be replaced by distinct children of its own, in any slots. -/
theorem Frontier.expand {i : ι} {x : α} (h : Frontier parent seed live used)
    (hi : live i = some x) (placed : List (ι × α))
    (hchild : ∀ p ∈ placed, parent p.2 = some x) (hdistinct : (placed.map Prod.snd).Nodup)
    (hl : ∀ {k y}, live' k = some y → (k ≠ i ∧ live k = some y) ∨ (k,y) ∈ placed) :
    Frontier parent seed live' used where
  apart {k l y z} hk hk' hkl hyz := by
    rcases hl hk with ⟨hki,hk1⟩ | hy <;> rcases hl hk' with ⟨hli,hl1⟩ | hz
    · exact h.apart hk1 hl1 hkl hyz
    · rcases (above_child (hchild _ hz)).mp hyz with rfl | hyx
      · exact h.apart hi hk1 (Ne.symm hki) (.step .refl (hchild _ hz))
      · exact h.apart hk1 hi hki hyx
    · exact h.apart hi hl1 (Ne.symm hli) (above_trans (.step .refl (hchild _ hy)) hyz)
    · rcases (above_child (hchild _ hz)).mp hyz with heq | hyx
      · have hpair := List.inj_on_of_nodup_map hdistinct hy hz heq
        exact hkl (Prod.mk.inj hpair).1
      · exact not_above_parent hrank (hchild _ hy) hyx
  spent {k y u} hk hu hyu := by
    rcases hl hk with ⟨-,hk1⟩ | hy
    · exact h.spent hk1 hu hyu
    · exact h.spent hi hu (above_trans (.step .refl (hchild _ hy)) hyu)
  once := h.once
  seeded {k y} hk := by
    rcases hl hk with ⟨-,hk1⟩ | hy
    · exact h.seeded hk1
    · obtain ⟨r,hr,hrx⟩ := h.seeded hi
      exact ⟨r,hr,.step hrx (hchild _ hy)⟩
  seeded_used := h.seeded_used

/-- A further child may be spent at once. -/
theorem Frontier.derive {i : ι} {x u : α} (h : Frontier parent seed live used)
    (hi : live i = some x) (placed : List (ι × α))
    (hchild : ∀ p ∈ placed, parent p.2 = some x) (hu : parent u = some x)
    (hdistinct : (u::placed.map Prod.snd).Nodup)
    (hl : ∀ {k y}, live' k = some y → (k ≠ i ∧ live k = some y) ∨ (k,y) ∈ placed) :
    Frontier parent seed live' (u::used) := by
  obtain ⟨hnot,hdistinct⟩ := List.nodup_cons.mp hdistinct
  have he := h.expand hrank hi placed hchild hdistinct hl
  refine ⟨he.apart,?_,?_,he.seeded,?_⟩
  · intro k y v hk hv
    rcases List.mem_cons.mp hv with rfl | hv
    · intro hyu
      rcases hl hk with ⟨hki,hk1⟩ | hy
      · rcases (above_child hu).mp hyu with rfl | hyx
        · exact h.apart hi hk1 (Ne.symm hki) (.step .refl hu)
        · exact h.apart hk1 hi hki hyx
      · rcases (above_child hu).mp hyu with rfl | hyx
        · exact hnot (List.mem_map.mpr ⟨_,hy,rfl⟩)
        · exact not_above_parent hrank (hchild _ hy) hyx
    · exact he.spent hk hv
  · exact List.nodup_cons.mpr ⟨fun hmem => h.spent hi hmem (.step .refl hu),h.once⟩
  · intro v hv
    rcases List.mem_cons.mp hv with rfl | hv
    · obtain ⟨r,hr,hrx⟩ := h.seeded hi
      exact ⟨r,hr,.step hrx hu⟩
    · exact he.seeded_used hv

end Ranked
end Vaultex.KeyTree
