import Mathlib.Data.Nat.Notation

/-!
# Arithmetic in a checked build

An unsigned machine type holds the numbers below a bound. In a checked build
an operation whose exact result is not among them panics; `none` is the panic.
-/

set_option autoImplicit false

namespace Vaultex.Checked

class Word (α : Type*) where
  bound : ℕ
  toNat : α → ℕ
  ofNat : ℕ → α
  toNat_lt : ∀ a, toNat a < bound
  toNat_ofNat : ∀ {n}, n < bound → toNat (ofNat n) = n
  toNat_inj : ∀ {a b}, toNat a = toNat b → a = b

instance : Word UInt32 where
  bound := 2^32
  toNat := UInt32.toNat
  ofNat := UInt32.ofNat
  toNat_lt := UInt32.toNat_lt
  toNat_ofNat := UInt32.toNat_ofNat_of_lt'
  toNat_inj := UInt32.toNat_inj.mp

instance : Word UInt64 where
  bound := 2^64
  toNat := UInt64.toNat
  ofNat := UInt64.ofNat
  toNat_lt := UInt64.toNat_lt
  toNat_ofNat := UInt64.toNat_ofNat_of_lt'
  toNat_inj := UInt64.toNat_inj.mp

open Word
variable {α : Type*} [Word α]

/-- The value an exact result is stored as. -/
def fit (n : ℕ) : Option α := if n < bound α then some (ofNat n) else none

def add (a b : α) : Option α := fit (toNat a+toNat b)

def mul (a b : α) : Option α := fit (toNat a*toNat b)

def sub (a b : α) : Option α := if toNat b ≤ toNat a then fit (toNat a-toNat b) else none

theorem fit_eq_some {n : ℕ} {a : α} : fit n = some a ↔ toNat a = n := by
  constructor
  · intro h
    unfold fit at h
    split at h
    · rename_i hn
      rw [← Option.some.inj h, toNat_ofNat hn]
    · contradiction
  · rintro rfl
    have ha := toNat_lt a
    rw [fit, if_pos ha, toNat_inj (toNat_ofNat ha)]

theorem exists_fit {n : ℕ} (h : n < bound α) : ∃ a : α, fit n = some a ∧ toNat a = n :=
  ⟨ofNat n,if_pos h,toNat_ofNat h⟩

theorem fit_eq_none {n : ℕ} : (fit n : Option α) = none ↔ bound α ≤ n := by
  unfold fit
  split
  · simp
    omega
  · exact iff_of_true rfl (Nat.le_of_not_lt ‹_›)

theorem add_eq_some {a b c : α} : add a b = some c ↔ toNat c = toNat a+toNat b := fit_eq_some

theorem add_eq_none {a b : α} : add a b = none ↔ bound α ≤ toNat a+toNat b := fit_eq_none

theorem sub_eq_some {a b c : α} : sub a b = some c ↔ toNat c+toNat b = toNat a := by
  unfold sub
  split
  · rw [fit_eq_some]
    omega
  · simp
    omega

/-- A difference of two machine numbers fits; only its sign can be wrong. -/
theorem sub_eq_none {a b : α} : sub a b = none ↔ toNat a < toNat b := by
  have ha := toNat_lt a
  unfold sub
  split
  · rw [fit_eq_none]
    omega
  · simp
    omega

end Vaultex.Checked
