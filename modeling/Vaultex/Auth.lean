import Vaultex.Hex
import Vaultex.Identity

/-!
# Signed requests, client side

`auth.rs` of the crypto crate. The clock that `sign_request` reads is an
argument.
-/

set_option autoImplicit false

namespace Vaultex
open Text

/-- `Sha256::digest`. -/
abbrev Sha256 := List UInt8 → Bytes32

namespace Auth
variable {SignPublicKey SignSecretKey Signature PublicKey SecretKey : Type}

structure AuthHeader where
  accountId : String
  timestamp : UInt64
  signatureHex : String

def buildSignedMessage (sha256 : Sha256) (method path : String) (timestamp : UInt64)
    (body : List UInt8) : List UInt8 :=
  let bodyHash := Hex.encode (sha256 body).toList
  utf8 (method++":"++path++":"++u64Text timestamp++":"++bodyHash)

section
variable (L : Sodium SignPublicKey SignSecretKey Signature PublicKey SecretKey) (sha256 : Sha256)

def signRequestWithTimestamp (identity : IdentityKeyPair SignPublicKey SignSecretKey)
    (accountId method path : String) (body : List UInt8) (timestamp : UInt64) : AuthHeader :=
  let message := buildSignedMessage sha256 method path timestamp body
  let signature := identity.sign L message
  { accountId, timestamp, signatureHex := Hex.encode (L.signatureBytes signature) }

def signRequest (identity : IdentityKeyPair SignPublicKey SignSecretKey)
    (accountId method path : String) (body : List UInt8) (now : UInt64) : AuthHeader :=
  signRequestWithTimestamp L sha256 identity accountId method path body now

end

theorem colon_notMem_u64Text (n : UInt64) : ':' ∉ (u64Text n).toList :=
  fun h => absurd (u64Text_digits h) (by decide)

theorem colon_notMem_hex (bytes : List UInt8) : ':' ∉ (Hex.encode bytes).toList :=
  fun h => absurd (List.all_eq_true.mp (Hex.encode_hexdigits bytes) _ h) (by decide)

/-- The canonical message is read back into its parts, whatever colons the path has. -/
theorem buildSignedMessage_inj {sha256 : Sha256} {method method' path path' : String}
    {timestamp timestamp' : UInt64} {body body' : List UInt8} (hm : ':' ∉ method.toList)
    (hm' : ':' ∉ method'.toList)
    (h : buildSignedMessage sha256 method path timestamp body =
      buildSignedMessage sha256 method' path' timestamp' body') :
    method = method' ∧ path = path' ∧ timestamp = timestamp' ∧ sha256 body = sha256 body' := by
  have hchars := congrArg String.toList (utf8_inj h)
  simp only [String.toList_append, show ":".toList = [':'] from rfl, List.append_assoc,
    List.cons_append, List.nil_append] at hchars
  obtain ⟨hmethod,hpath,htime,hhash⟩ := fields_inj hm hm' (colon_notMem_u64Text _)
    (colon_notMem_u64Text _) (colon_notMem_hex _) (colon_notMem_hex _) hchars
  exact ⟨String.toList_inj.mp hmethod,String.toList_inj.mp hpath,
    u64Text_inj (String.toList_inj.mp htime),
    Vector.toList_inj.mp (Hex.encode_inj (String.toList_inj.mp hhash))⟩

end Auth
end Vaultex
