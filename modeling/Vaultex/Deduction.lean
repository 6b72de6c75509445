import Mathlib.Data.Set.Basic

/-!
# Deduction from known terms

What can be computed from a set of known terms with a set of rules, and how
to show that something cannot: a set that holds nothing known, and that no
rule enters except from inside, is never reached.
-/

set_option autoImplicit false

namespace Vaultex.Deduction
variable {α : Type*}

inductive Derivable (rule : List α → α → Prop) (known : Set α) : α → Prop
  | known {t : α} (h : t ∈ known) : Derivable rule known t
  | rule {premises : List α} {t : α} (hr : rule premises t)
      (h : ∀ p ∈ premises, Derivable rule known p) : Derivable rule known t

variable {rule : List α → α → Prop}

/-- What is derivable is known, or comes by one rule from what is. -/
theorem derivable_iff {known : Set α} {t : α} :
    Derivable rule known t ↔
      t ∈ known ∨ ∃ premises, rule premises t ∧ ∀ p ∈ premises, Derivable rule known p := by
  constructor
  · intro h
    cases h with
    | known h => exact Or.inl h
    | rule hr h => exact Or.inr ⟨_,hr,h⟩
  · rintro (h | ⟨premises,hr,h⟩)
    · exact .known h
    · exact .rule hr h

theorem not_derivable_of_blocked {known : Set α} (blocked : Set α)
    (hknown : ∀ t ∈ known, t ∉ blocked)
    (hrule : ∀ premises t, rule premises t → t ∈ blocked → ∃ p ∈ premises, p ∈ blocked)
    {t : α} (ht : t ∈ blocked) : ¬Derivable rule known t := by
  intro h
  induction h with
  | known h => exact hknown _ h ht
  | rule hr _ ih =>
    obtain ⟨p,hp,hb⟩ := hrule _ _ hr ht
    exact ih p hp hb

end Vaultex.Deduction
