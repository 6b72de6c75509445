import Vaultex.Errors

/-!
# Authenticated encryption

`aes_gcm.rs` is XChaCha20-Poly1305 under another name. The library calls are
a parameter. `Key::from_slice` cannot fail on an array of 32 bytes, so keys
are an abstract type here; a nonce arrives as a slice and its length is checked.
-/

set_option autoImplicit false

namespace Vaultex

def NONCEBYTES : ℕ := 24

structure Nonce where
  bytes : List UInt8
  length_eq : bytes.length = NONCEBYTES
  deriving DecidableEq

theorem nonce_append_inj {n n' : Nonce} {body body' : List UInt8}
    (h : n.bytes++body = n'.bytes++body') : n = n' ∧ body = body' := by
  obtain ⟨bytes,len⟩ := n
  obtain ⟨bytes',len'⟩ := n'
  obtain ⟨rfl,rfl⟩ := List.append_inj h (len.trans len'.symm)
  exact ⟨rfl,rfl⟩

/-- `sodiumoxide::init`, `aead::seal` and `aead::open`. -/
structure Aead (Key : Type) where
  init : Bool
  aeadSeal (plaintext : List UInt8) (associatedData : Option (List UInt8)) (nonce : Nonce)
    (key : Key) : List UInt8
  aeadOpen (ciphertext : List UInt8) (associatedData : Option (List UInt8)) (nonce : Nonce)
    (key : Key) : Option (List UInt8)

namespace AesGcm
variable {Key : Type}

/-- The nonce is the one `gen_nonce` draws. -/
def encrypt (A : Aead Key) (key : Key) (plaintext : List UInt8)
    (associatedData : Option (List UInt8)) (nonce : Nonce) :
    Result (List UInt8 × List UInt8) :=
  if A.init then .ok (nonce.bytes, A.aeadSeal plaintext associatedData nonce key)
  else .error .initFailed

def decrypt (A : Aead Key) (key : Key) (nonce ciphertext : List UInt8)
    (associatedData : Option (List UInt8)) : Result (List UInt8) :=
  if h : nonce.length = NONCEBYTES then
    match A.aeadOpen ciphertext associatedData ⟨nonce,h⟩ key with
    | some plaintext => .ok plaintext
    | none => .error .decryptionFailed
  else .error (.invalidKeyLength NONCEBYTES nonce.length)

end AesGcm
end Vaultex
