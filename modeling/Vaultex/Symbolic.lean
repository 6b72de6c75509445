import Mathlib.Tactic.DeriveEncodable
import Mathlib.Logic.Encodable.Basic
import Mathlib.Logic.Equiv.List
import Vaultex.Deduction
import Vaultex.KeyTree
import Vaultex.RatchetRun

/-!
# Symbolic keys

Keys as free terms. A secret key is a name and its public key is the same
name; a Diffie-Hellman output is the unordered pair of two names, stored in
order, so both sides compute one term. Which exponentiations fail is a
parameter: an attacker's public key may be of low order.
-/

set_option autoImplicit false

namespace Vaultex

instance encodableUInt8 : Encodable UInt8 :=
  Encodable.ofLeftInverse UInt8.toNat UInt8.ofNat (fun x => by simp)

inductive Term where
  | secret (n : ℕ)
  | scalar (n : ℕ)
  | dh (a b : ℕ)
  | root (salt ikm : Term) (info : List UInt8)
  | chain (salt ikm : Term) (info : List UInt8)
  | mac (key : Term) (data : List UInt8)
  deriving DecidableEq, Encodable

namespace Symbolic
open KeyTree Deduction

/-- `scalar a` times the public key of `b`. -/
def shared (a b : ℕ) : Term := .dh (min a b) (max a b)

theorem shared_comm (a b : ℕ) : shared a b = shared b a := by
  rw [shared, shared, min_comm, max_comm]

theorem shared_inj {a b c d : ℕ} (h : shared a b = shared c d) :
    (a = c ∧ b = d) ∨ (a = d ∧ b = c) := by
  simp only [shared, Term.dh.injEq] at h
  omega

def suite (fails : ℕ → ℕ → Bool) (A : Aead Term) : Suite ℕ ℕ Term where
  toAead := A
  scalarmult a b := if fails a b then none else some (shared a b)
  hkdf salt ikm info := (.root salt ikm info, .chain salt ikm info)
  hmac key data := .mac key data

variable {fails : ℕ → ℕ → Bool} {A : Aead Term}

theorem scalarmult_some {a b : ℕ} {d : Term}
    (h : (suite fails A).scalarmult a b = some d) : d = shared a b := by
  simp only [suite] at h
  split at h
  · contradiction
  · exact (Option.some.inj h).symm

/-- The key a key was computed from; in a KDF, the secret salt. -/
def parent : Term → Option Term
  | .root salt _ _ => some salt
  | .chain salt _ _ => some salt
  | .mac key _ => some key
  | _ => none

def rank : Term → ℕ
  | .root salt _ _ => rank salt+1
  | .chain salt _ _ => rank salt+1
  | .mac key _ => rank key+1
  | _ => 0

theorem rank_parent {x y : Term} (h : parent y = some x) : rank x < rank y := by
  cases y <;> simp_all [parent, rank]

/-- What anyone can compute: both KDFs, any HMAC, and the exponentiation of a
known secret with any public key. -/
inductive Rule : List Term → Term → Prop
  | root (salt ikm : Term) (info : List UInt8) : Rule [salt, ikm] (.root salt ikm info)
  | chain (salt ikm : Term) (info : List UInt8) : Rule [salt, ikm] (.chain salt ikm info)
  | mac (key : Term) (data : List UInt8) : Rule [key] (.mac key data)
  | dh (a b : ℕ) : Rule [.scalar a] (shared a b)

/-- No rule builds a key from below: every key above a term the derivation
reaches was reached before. -/
theorem above_blocked (u : Term) (hseed : ∃ n, Above parent (.secret n) u)
    (premises : List Term) (t : Term) (hr : Rule premises t)
    (ht : Above parent t u) : ∃ p ∈ premises, Above parent p u := by
  cases hr with
  | root salt ikm info =>
    exact ⟨salt,by simp,above_trans (.step .refl rfl) ht⟩
  | chain salt ikm info =>
    exact ⟨salt,by simp,above_trans (.step .refl rfl) ht⟩
  | mac key data =>
    exact ⟨key,by simp,above_trans (.step .refl rfl) ht⟩
  | dh a b =>
    obtain ⟨n,hn⟩ := hseed
    rcases above_linear hn ht with h | h
    · have := above_root rfl h
      simp [shared] at this
    · have := above_root rfl h
      simp [shared] at this

/-- What anyone knows at most who has none of the keys that stem from a secret. -/
def outside (n : ℕ) : Set Term := {t | ¬Above parent (.secret n) t}

/-- No rule computes a key of the secret's tree from outside it. -/
theorem underivable_outside {n : ℕ} {t : Term} (ht : Above parent (.secret n) t) :
    ¬Derivable Rule (outside n) t := by
  have inside {x y : Term} (hp : parent y = some x) (h : Above parent (.secret n) y) :
      Above parent (.secret n) x := by
    rcases (above_child hp).mp h with rfl | h
    · contradiction
    · exact h
  apply not_derivable_of_blocked {t | Above parent (.secret n) t} _ _ ht
  · intro t hmem hblocked
    exact hmem hblocked
  · intro premises t hr hblocked
    cases hr with
    | root salt ikm info => exact ⟨salt,by simp,inside (by rfl) hblocked⟩
    | chain salt ikm info => exact ⟨salt,by simp,inside (by rfl) hblocked⟩
    | mac key data => exact ⟨key,by simp,inside (by rfl) hblocked⟩
    | dh a b =>
      have := above_root rfl hblocked
      simp [shared] at this

/-- The term was computed with `g` as input keying material, at some point. -/
def Uses (g : Term) : Term → Prop
  | .root salt ikm _ => ikm = g ∨ Uses g salt
  | .chain salt ikm _ => ikm = g ∨ Uses g salt
  | .mac key _ => Uses g key
  | _ => False

/-- What was computed with an exchange stays out of reach of those who know
neither secret and nothing else computed with it. -/
theorem underivable_of_uses {known : Set Term} {a b : ℕ} (ha : .scalar a ∉ known)
    (hb : .scalar b ∉ known) (hab : shared a b ∉ known)
    (hknown : ∀ t ∈ known, ¬Uses (shared a b) t) {t : Term} (ht : Uses (shared a b) t) :
    ¬Derivable Rule known t := by
  apply not_derivable_of_blocked
    {t | Uses (shared a b) t ∨ t = shared a b ∨ t = .scalar a ∨ t = .scalar b} _ _ (Or.inl ht)
  · rintro t hmem (huse | rfl | rfl | rfl)
    · exact hknown t hmem huse
    · exact hab hmem
    · exact ha hmem
    · exact hb hmem
  · intro premises t hr hblocked
    cases hr with
    | root salt ikm info =>
      rcases hblocked with (rfl | h) | h | h | h
      · exact ⟨_,by simp,Or.inr (Or.inl rfl)⟩
      · exact ⟨salt,by simp,Or.inl h⟩
      all_goals simp [shared] at h
    | chain salt ikm info =>
      rcases hblocked with (rfl | h) | h | h | h
      · exact ⟨_,by simp,Or.inr (Or.inl rfl)⟩
      · exact ⟨salt,by simp,Or.inl h⟩
      all_goals simp [shared] at h
    | mac key data =>
      rcases hblocked with h | h | h | h
      · exact ⟨key,by simp,Or.inl h⟩
      all_goals simp [shared] at h
    | dh c d =>
      rcases hblocked with h | h | h | h
      · exact absurd h id
      · rcases shared_inj h with ⟨rfl,-⟩ | ⟨rfl,-⟩
        · exact ⟨_,by simp,Or.inr (Or.inr (Or.inl rfl))⟩
        · exact ⟨_,by simp,Or.inr (Or.inr (Or.inr rfl))⟩
      all_goals simp [shared] at h

/-- Chains that begin with different keys never meet. -/
theorem chainKey_inj {root root' d d' : Term} {info info' : List UInt8} {j j' : ℕ}
    (h : DoubleRatchet.chainKey (suite fails A) (.chain root d info) j =
      DoubleRatchet.chainKey (suite fails A) (.chain root' d' info') j') :
    Term.chain root d info = .chain root' d' info' ∧ j = j' := by
  induction j generalizing j' with
  | zero =>
    cases j' with
    | zero => exact ⟨h,rfl⟩
    | succ j' => cases h
  | succ j ih =>
    cases j' with
    | zero => cases h
    | succ j' =>
      obtain ⟨heq,rfl⟩ := ih (Term.mac.inj h).1
      exact ⟨heq,rfl⟩

theorem rank_chainKey (ck : Term) (n : ℕ) :
    rank (DoubleRatchet.chainKey (suite fails A) ck n) = rank ck+n := by
  induction n with
  | zero => rfl
  | succ n ih => exact congrArg (·+1) ih

/-- No chain comes back to a key it has left. -/
theorem chainKey_ne_self (ck : Term) {n : ℕ} (hn : n ≠ 0) :
    DoubleRatchet.chainKey (suite fails A) ck n ≠ ck := by
  intro h
  have hrank := congrArg rank h
  rw [rank_chainKey] at hrank
  omega

/-- A symmetric key, neither a secret scalar nor an exchange. -/
def isKey : Term → Bool
  | .scalar _ => false
  | .dh _ _ => false
  | _ => true

theorem isKey_chainKey {ck : Term} (h : isKey ck = true) (n : ℕ) :
    isKey (DoubleRatchet.chainKey (suite fails A) ck n) = true := by
  cases n with
  | zero => exact h
  | succ n => rfl

variable {g : Term}

theorem uses_chainKey (ck : Term) (n : ℕ) :
    Uses g (DoubleRatchet.chainKey (suite fails A) ck n) ↔ Uses g ck := by
  induction n with
  | zero => rfl
  | succ n ih => exact ih

theorem uses_messageKey (ck : Term) (n : ℕ) :
    Uses g (DoubleRatchet.messageKey (suite fails A) ck n) ↔ Uses g ck := uses_chainKey ck n

end Symbolic

/-- Ideal authenticated encryption: a ciphertext opens under one key and one
associated data, those it was sealed with. -/
structure IdealAead {Key : Type} (A : Aead Key) : Prop where
  open_seal (p : List UInt8) (ad : Option (List UInt8)) (n : Nonce) (k : Key) :
    A.aeadOpen (A.aeadSeal p ad n k) ad n k = some p
  seal_of_open {c : List UInt8} {ad : Option (List UInt8)} {n : Nonce} {k : Key}
    {p : List UInt8} : A.aeadOpen c ad n k = some p → c = A.aeadSeal p ad n k
  seal_inj {p p' : List UInt8} {ad ad' : Option (List UInt8)} {n : Nonce} {k k' : Key} :
    A.aeadSeal p ad n k = A.aeadSeal p' ad' n k' → p = p' ∧ ad = ad' ∧ k = k'

/-- What opens at all opens under the key it was sealed under. -/
theorem opened_key {PublicKey SecretKey Key : Type} {S : Suite PublicKey SecretKey Key}
    (hA : IdealAead S.toAead) {p p' ad ad' : List UInt8} {n : Nonce} {k k' : Key}
    (h : DoubleRatchet.decryptWithKey S k' (n.bytes++S.aeadSeal p (some ad) n k) ad' = .ok p') :
    k' = k := by
  obtain ⟨n',body,hct,hopen⟩ := (DoubleRatchet.decryptWithKey_ok S).mp h
  obtain ⟨rfl,rfl⟩ := nonce_append_inj hct
  exact (hA.seal_inj (hA.seal_of_open hopen)).2.2.symm

namespace Symbolic

/-- An ideal AEAD on symbolic keys: a ciphertext is the number of its parts, in unary. -/
def aead : Aead Term where
  init := true
  aeadSeal p ad n k := List.replicate (Encodable.encode (p,ad,n.bytes,k)) 0
  aeadOpen c ad n k :=
    match Encodable.decode (α := List UInt8 × Option (List UInt8) × List UInt8 × Term)
      c.length with
    | none => none
    | some (p, ad', n', k') =>
      if ad' = ad ∧ n' = n.bytes ∧ k' = k ∧
        c = List.replicate (Encodable.encode (p,ad,n.bytes,k)) 0 then some p else none

theorem aead_ideal : IdealAead aead where
  open_seal p ad n k := by simp [aead]
  seal_of_open {c ad n k p} h := by
    simp only [aead] at h
    split at h
    · contradiction
    · split at h
      next hc =>
        obtain rfl := Option.some.inj h
        exact hc.2.2.2
      · contradiction
  seal_inj {p p' ad ad' n k k'} h := by
    have hlen := congrArg List.length h
    simp only [aead, List.length_replicate] at hlen
    have heq := Encodable.encode_injective hlen
    simp only [Prod.mk.injEq] at heq
    exact ⟨heq.1,heq.2.1,heq.2.2.2⟩

/-- The suite of the concrete runs: the public key 0 is of low order. -/
def sample : Suite ℕ ℕ Term := suite (fun _ b => b == 0) aead

/-- Alice as she starts on secret 0, her keypair being 2 and Bob's 1. -/
def sampleAlice : RatchetState ℕ ℕ Term where
  rootKey := .root (.secret 0) (shared 1 2) RATCHET_INFO
  sendingChainKey := some (.chain (.secret 0) (shared 1 2) RATCHET_INFO)
  receivingChainKey := none
  sendingKeypair := some (2,2)
  remoteRatchetKey := some 1
  sendMessageNumber := 0
  recvMessageNumber := 0
  previousChainLength := 0
  skippedKeys := ∅

theorem sample_starts :
    DoubleRatchet.initSender sample (.secret 0) 1 (2,2) = .ok sampleAlice := rfl

def zeroNonce : Nonce := ⟨List.replicate NONCEBYTES 0,rfl⟩

end Symbolic
end Vaultex
