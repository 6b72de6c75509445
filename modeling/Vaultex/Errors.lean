import Mathlib.Data.Finmap

/-!
# Errors and fallible methods

A method taking `&mut self` keeps the writes it made before it failed, so
it returns the state beside its result, also when that result is an error.
-/

set_option autoImplicit false

namespace Vaultex

inductive CryptoError where
  | initFailed
  | signatureVerificationFailed
  | invalidKeyLength (expected actual : ℕ)
  | hkdfExpandFailed
  | encryptionFailed
  | decryptionFailed
  | missingOneTimePreKey (id : UInt32)
  | invalidPreKeySignature
  | sealedSenderError (msg : String)
  | ratchetError (msg : String)
  | paddingError (msg : String)
  | serializationError (msg : String)
  deriving DecidableEq, Repr

abbrev Result (α : Type) := Except CryptoError α

theorem bind_eq_ok {ε α β : Type} {x : Except ε α} {f : α → Except ε β} {b : β} :
    x >>= f = .ok b ↔ ∃ a, x = .ok a ∧ f a = .ok b := by
  cases x with
  | error e => simp [bind, Except.bind]
  | ok a => simp [bind, Except.bind]

theorem bind_eq_error {ε α β : Type} {x : Except ε α} {f : α → Except ε β} {e : ε} :
    x >>= f = .error e ↔ x = .error e ∨ ∃ a, x = .ok a ∧ f a = .error e := by
  cases x with
  | error e => simp [bind, Except.bind]
  | ok a => simp [bind, Except.bind]

@[simp] theorem throw_eq_error {ε α : Type} (e : ε) : (throw e : Except ε α) = .error e := rfl

@[simp] theorem error_bind {ε α β : Type} (e : ε) (f : α → Except ε β) :
    (.error e >>= f : Except ε β) = .error e := rfl

/-- The `?` operator between two `&mut self` calls. -/
def andThen {σ α β : Type} (r : σ × Result α) (f : σ → α → σ × Result β) : σ × Result β :=
  match r with
  | (s, .ok a) => f s a
  | (s, .error e) => (s, .error e)

@[simp] theorem andThen_ok {σ α β : Type} (s : σ) (a : α) (f : σ → α → σ × Result β) :
    andThen (s, .ok a) f = f s a := rfl

theorem andThen_assoc {σ α β γ : Type} (r : σ × Result α) (f : σ → α → σ × Result β)
    (g : σ → β → σ × Result γ) :
    andThen (andThen r f) g = andThen r (fun s a => andThen (f s a) g) := by
  obtain ⟨s,a⟩ := r
  cases a <;> rfl

end Vaultex
