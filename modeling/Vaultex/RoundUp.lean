import Mathlib.Order.Bounds.Defs
import Mathlib.Order.Monotone.Defs

/-!
# Rounding up to a set of sizes

What is rounded to the least admissible size tells no more about a demand than
the sizes that cover it: rounding is monotone, and two demands share a size
exactly when no size lies between them.
-/

set_option autoImplicit false

namespace Vaultex.RoundUp
variable {α β : Type*} [PartialOrder α]

/-- `round x` is the least size that covers the demand of `x`. -/
def RoundsUp (sizes : Set α) (demand round : β → α) : Prop :=
  ∀ x, IsLeast {b | b ∈ sizes ∧ demand x ≤ b} (round x)

variable {sizes : Set α} {demand round : β → α}

/-- The sizes that cover a demand are those from its rounding on. -/
theorem RoundsUp.le_iff (h : RoundsUp sizes demand round) {x : β} {b : α} (hb : b ∈ sizes) :
    round x ≤ b ↔ demand x ≤ b := by
  obtain ⟨⟨-,hcovers⟩,hleast⟩ := h x
  constructor
  · exact hcovers.trans
  · exact fun hdemand => hleast ⟨hb,hdemand⟩

theorem RoundsUp.monotone [Preorder β] (h : RoundsUp sizes demand round)
    (hdemand : Monotone demand) : Monotone round := by
  intro x y hxy
  obtain ⟨⟨hsize,hcovers⟩,-⟩ := h y
  exact (h.le_iff hsize).mpr ((hdemand hxy).trans hcovers)

theorem RoundsUp.eq_iff (h : RoundsUp sizes demand round) {x y : β} :
    round x = round y ↔ ∀ b ∈ sizes, demand x ≤ b ↔ demand y ≤ b := by
  constructor
  · intro heq b hb
    rw [← h.le_iff hb, heq, h.le_iff hb]
  · intro hsame
    obtain ⟨⟨hx,hcoversx⟩,hleastx⟩ := h x
    obtain ⟨⟨hy,hcoversy⟩,hleasty⟩ := h y
    apply le_antisymm
    · exact hleastx ⟨hy,(hsame _ hy).mpr hcoversy⟩
    · exact hleasty ⟨hx,(hsame _ hx).mp hcoversx⟩

end Vaultex.RoundUp
