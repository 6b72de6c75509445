import Vaultex.AesGcm

/-!
# Identity keys

`identity.rs` and the calls of libsodium that identity and prekey pairs go
through. Keys are abstract; a shared secret of X25519 is 32 bytes, and the
conversions between the curves fail where libsodium returns nonzero.
-/

set_option autoImplicit false

namespace Vaultex

abbrev Bytes32 := Vector UInt8 32

structure Sodium (SignPublicKey SignSecretKey Signature PublicKey SecretKey : Type) where
  init : Bool
  signPublicOf : SignSecretKey → SignPublicKey
  signDetached : List UInt8 → SignSecretKey → Signature
  verifyDetached : Signature → List UInt8 → SignPublicKey → Bool
  signPublicKeyBytes : SignPublicKey → List UInt8
  signatureBytes : Signature → List UInt8
  publicOf : SecretKey → PublicKey
  publicKeyBytes : PublicKey → List UInt8
  ed25519PkToCurve25519 : SignPublicKey → Option PublicKey
  ed25519SkToCurve25519 : SignSecretKey → Option SecretKey
  scalarmult : SecretKey → PublicKey → Option Bytes32

structure IdentityKeyPair (SignPublicKey SignSecretKey : Type) where
  publicKey : SignPublicKey
  secretKey : SignSecretKey

variable {SignPublicKey SignSecretKey Signature PublicKey SecretKey : Type}

namespace IdentityKeyPair
variable (L : Sodium SignPublicKey SignSecretKey Signature PublicKey SecretKey)

def sign (identity : IdentityKeyPair SignPublicKey SignSecretKey) (message : List UInt8) :
    Signature := L.signDetached message identity.secretKey

def verify (publicKey : SignPublicKey) (message : List UInt8) (signature : Signature) : Bool :=
  L.verifyDetached signature message publicKey

/-- The two halves belong together, as those of `gen_keypair` do. -/
def Matched (identity : IdentityKeyPair SignPublicKey SignSecretKey) : Prop :=
  identity.publicKey = L.signPublicOf identity.secretKey

end IdentityKeyPair

namespace Sodium

/-- What the two curves promise: X25519 commutes, both sides of one exchange
failing together, and both conversions of one identity pair agree. -/
structure Lawful (L : Sodium SignPublicKey SignSecretKey Signature PublicKey SecretKey) :
    Prop where
  scalarmult_comm (a b : SecretKey) :
    L.scalarmult a (L.publicOf b) = L.scalarmult b (L.publicOf a)
  conversions_agree (sk : SignSecretKey) :
    L.ed25519PkToCurve25519 (L.signPublicOf sk) = (L.ed25519SkToCurve25519 sk).map L.publicOf

/-- Shared secrets of two different pairs of keys differ. -/
def SharedInjective (L : Sodium SignPublicKey SignSecretKey Signature PublicKey SecretKey) :
    Prop :=
  ∀ {a b : SecretKey} {p q : PublicKey} {k : Bytes32},
    L.scalarmult a p = some k → L.scalarmult b q = some k →
    L.publicOf a = L.publicOf b ∧ p = q ∨ L.publicOf a = q ∧ p = L.publicOf b

theorem Lawful.converted {L : Sodium SignPublicKey SignSecretKey Signature PublicKey SecretKey}
    (hL : L.Lawful) {identity : IdentityKeyPair SignPublicKey SignSecretKey}
    (h : identity.Matched L) :
    L.ed25519PkToCurve25519 identity.publicKey =
      (L.ed25519SkToCurve25519 identity.secretKey).map L.publicOf := by
  rw [h, hL.conversions_agree]

/-- Keys are bytes, a secret key is its own public key, and 0 is a key of low order. -/
def sample : Sodium UInt8 UInt8 (List UInt8 × UInt8) UInt8 UInt8 where
  init := true
  signPublicOf := id
  signDetached message sk := (message,sk)
  verifyDetached signature message pk := signature = (message,pk)
  signPublicKeyBytes pk := List.replicate 32 pk
  signatureBytes signature := signature.2::signature.1
  publicOf := id
  publicKeyBytes pk := List.replicate 32 pk
  ed25519PkToCurve25519 := some
  ed25519SkToCurve25519 := some
  scalarmult a p :=
    if a = 0 ∨ p = 0 then none
    else if a ≤ p then some (Vector.ofFn fun i => if i = 0 then a else p)
    else some (Vector.ofFn fun i => if i = 0 then p else a)

theorem sample_lawful : sample.Lawful where
  scalarmult_comm a b := by
    simp only [sample, id, or_comm (a := a = 0)]
    split_ifs with hzero hab hba hba
    · rfl
    · rw [UInt8.le_antisymm hab hba]
    · rfl
    · rfl
    · exact absurd (UInt8.le_total a b) (by simp [hab,hba])
  conversions_agree sk := rfl

theorem sample_shared {a p : UInt8} {k : Bytes32} (h : sample.scalarmult a p = some k) :
    a = k[0] ∧ p = k[1] ∨ a = k[1] ∧ p = k[0] := by
  simp only [sample] at h
  split_ifs at h
  · obtain rfl := Option.some.inj h
    simp
  · obtain rfl := Option.some.inj h
    simp

theorem sample_sharedInjective : sample.SharedInjective := by
  intro a b p q k ha hb
  have hpair := sample_shared ha
  have hpair' := sample_shared hb
  simp only [sample, id]
  grind

end Sodium
end Vaultex
