import Vaultex.AesGcm
import Vaultex.AuthMiddleware

/-!
# Encrypted attachments

`media.rs`, with `secretbox` as a parameter; the key and the nonce it draws are
arguments, and a key is the array it wraps, so `Key::from_slice` cannot fail.
The client bounds the plaintext, the server the body it is uploaded in, by a
limit that it picks by the path.
-/

set_option autoImplicit false

namespace Vaultex
open Text AuthMiddleware

def MACBYTES : ℕ := 16

/-- `sodiumoxide::init`, `secretbox::seal` and `secretbox::open`. -/
structure SecretBox where
  init : Bool
  boxSeal (plaintext : List UInt8) (nonce : Nonce) (key : Bytes32) : List UInt8
  boxOpen (ciphertext : List UInt8) (nonce : Nonce) (key : Bytes32) : Option (List UInt8)

namespace SecretBox

/-- A sealed box is longer than what it seals by the MAC. -/
def AddsMac (B : SecretBox) : Prop :=
  ∀ plaintext nonce key, (B.boxSeal plaintext nonce key).length = plaintext.length+MACBYTES

def OpensSealed (B : SecretBox) : Prop :=
  ∀ plaintext nonce key, B.boxOpen (B.boxSeal plaintext nonce key) nonce key = some plaintext

end SecretBox

namespace Media

def MAX_FILE_SIZE : ℕ := 100*1024*1024

def encryptFile (B : SecretBox) (plaintext : List UInt8) (key : Bytes32) (nonce : Nonce) :
    Result (List UInt8 × Bytes32) :=
  if plaintext.length > MAX_FILE_SIZE then .error .encryptionFailed
  else if B.init then .ok (nonce.bytes++B.boxSeal plaintext nonce key,key)
  else .error .initFailed

def decryptFile (B : SecretBox) (ciphertext : List UInt8) (key : Bytes32) : Result (List UInt8) :=
  if h : ciphertext.length < NONCEBYTES+MACBYTES then .error .decryptionFailed
  else
    let nonce : Nonce := ⟨ciphertext.take NONCEBYTES,
      List.length_take_of_le ((Nat.le_add_right _ _).trans (Nat.le_of_not_lt h))⟩
    match B.boxOpen (ciphertext.drop NONCEBYTES) nonce key with
    | some plaintext => .ok plaintext
    | none => .error .decryptionFailed

section
variable {B : SecretBox} {plaintext ciphertext : List UInt8} {key fileKey : Bytes32} {nonce : Nonce}

theorem encryptFile_ok : encryptFile B plaintext key nonce = .ok (ciphertext,fileKey) ↔
    plaintext.length ≤ MAX_FILE_SIZE ∧ B.init = true ∧
      ciphertext = nonce.bytes++B.boxSeal plaintext nonce key ∧ fileKey = key := by
  unfold encryptFile
  split_ifs with hlarge hinit
  · simp
    omega
  · simp [hinit, eq_comm]
    omega
  · simp [hinit]

theorem encryptFile_length (hB : B.AddsMac)
    (h : encryptFile B plaintext key nonce = .ok (ciphertext,fileKey)) :
    ciphertext.length = plaintext.length+40 := by
  obtain ⟨-,-,rfl,-⟩ := encryptFile_ok.mp h
  rw [List.length_append, hB, nonce.length_eq, NONCEBYTES, MACBYTES]
  omega

theorem decryptFile_encryptFile (hB : B.AddsMac) (hopen : B.OpensSealed)
    (h : encryptFile B plaintext key nonce = .ok (ciphertext,fileKey)) :
    decryptFile B ciphertext fileKey = .ok plaintext := by
  have hlen := encryptFile_length hB h
  obtain ⟨-,-,rfl,rfl⟩ := encryptFile_ok.mp h
  have hsealed := hopen plaintext nonce fileKey
  have htake : (nonce.bytes++B.boxSeal plaintext nonce fileKey).take NONCEBYTES = nonce.bytes :=
    List.take_left' nonce.length_eq
  have hdrop : (nonce.bytes++B.boxSeal plaintext nonce fileKey).drop NONCEBYTES =
      B.boxSeal plaintext nonce fileKey := List.drop_left' nonce.length_eq
  unfold decryptFile
  rw [dif_neg (by rw [hlen, NONCEBYTES, MACBYTES]; omega)]
  simp only [htake, hdrop]
  rw [show B.boxOpen _ ⟨nonce.bytes,_⟩ fileKey = some plaintext from hsealed]

end

/-- `POST /api/v1/media`, and every path under it. -/
def UploadPath (path : String) : Prop := path = "/api/v1/media" ∨ startsWith path "/api/v1/media/"

/-- The largest file whose upload to the path is within the limit. -/
def largestUpload (path : String) : ℕ :=
  if path = "/api/v1/media" then 1024*1024-40 else 100*1024*1024-40

theorem bodyLimit_upload {path : String} (h : UploadPath path) :
    bodyLimit path = largestUpload path+40 := by
  unfold bodyLimit largestUpload
  rcases h with rfl | hunder
  · rfl
  · have hne : path ≠ "/api/v1/media" := by
      rintro rfl
      exact absurd hunder (by decide)
    rw [if_pos hunder, if_neg hne]

theorem upload_authenticated {path : String} (h : UploadPath path) :
    isUnauthenticatedRoute "POST" path = false := by
  have hmedia : startsWith path "/api/v1/media" = true := by
    rcases h with rfl | hunder
    · decide
    · obtain ⟨rest,rfl⟩ := startsWith_iff.mp hunder
      exact startsWith_iff.mpr ⟨"/"++rest,by rw [← String.append_assoc]; rfl⟩
  have hne {other : String} (hother : startsWith other "/api/v1/media" = false) : path ≠ other := by
    rintro rfl
    rw [hmedia] at hother
    contradiction
  simp [isUnauthenticatedRoute, hne (by decide : startsWith "/ws" "/api/v1/media" = false),
    hne (by decide : startsWith "/api/v1/accounts/register" "/api/v1/media" = false),
    hne (by decide : startsWith "/api/v1/messages/send" "/api/v1/media" = false),
    hne (by decide : startsWith "/api/v1/messages/sealed" "/api/v1/media" = false),
    hne (by decide : startsWith "/api/v1/stats/visits" "/api/v1/media" = false)]

/-- The server takes an encrypted file in exactly when it is at most as large
as the limit of the path leaves it; a larger one is refused whoever sends it. -/
theorem upload_fits_iff {B : SecretBox} {plaintext ciphertext : List UInt8} {key fileKey : Bytes32}
    {nonce : Nonce} (hB : B.AddsMac)
    (h : encryptFile B plaintext key nonce = .ok (ciphertext,fileKey)) {path : String}
    (hpath : UploadPath path) :
    (toBytes (some ciphertext) (bodyLimit path) = some ciphertext ↔
      plaintext.length ≤ largestUpload path) ∧
    (largestUpload path < plaintext.length → ∀ (Uuid : Type) (S : Server Uuid) (now : UInt64)
      (request : Request), toUppercase request.method.name = "POST" → request.uri.path = path →
      request.body = some ciphertext → ∀ r user, authMiddleware S now request ≠ .ok (r,user)) := by
  have hlen := encryptFile_length hB h
  have hlimit := bodyLimit_upload hpath
  constructor
  · rw [toBytes_some, hlen, hlimit]
    simp
  · rintro hlarge Uuid S now request hmethod rfl hbody r user hok
    have hclosed : isUnauthenticatedRoute (toUppercase request.method.name) request.uri.path =
        false := by
      rw [hmethod]
      exact upload_authenticated hpath
    obtain ⟨c,hc,-,-⟩ := (authMiddleware_ok hclosed).mp hok
    have hwithin := hc.body_within
    rw [Option.some.inj (hc.body.symm.trans hbody), hlen, hlimit] at hwithin
    omega

/-- No file is too large for its upload. -/
def UploadsFit : Prop :=
  ∀ (B : SecretBox) plaintext key nonce ciphertext fileKey path, B.AddsMac →
    encryptFile B plaintext key nonce = .ok (ciphertext,fileKey) → UploadPath path →
    toBytes (some ciphertext) (bodyLimit path) = some ciphertext

/-- A box that is nothing but a MAC of zeros behind the plaintext. -/
def plainBox : SecretBox where
  init := true
  boxSeal plaintext _ _ := plaintext++List.replicate MACBYTES 0
  boxOpen ciphertext _ _ := some (ciphertext.take (ciphertext.length-MACBYTES))

theorem plainBox_addsMac : plainBox.AddsMac := fun plaintext _ _ => by
  rw [plainBox, List.length_append, List.length_replicate]

theorem plainBox_encryptFile {plaintext : List UInt8} (h : plaintext.length ≤ MAX_FILE_SIZE)
    (key : Bytes32) (nonce : Nonce) : ∃ ciphertext,
    encryptFile plainBox plaintext key nonce = .ok (ciphertext,key) :=
  ⟨_,encryptFile_ok.mpr ⟨h,rfl,rfl,rfl⟩⟩

def zeroKey : Bytes32 := Vector.replicate 32 0

theorem noNonce_length : (List.replicate NONCEBYTES (0 : UInt8)).length = NONCEBYTES :=
  List.length_replicate

def noNonce : Nonce := ⟨List.replicate NONCEBYTES 0,noNonce_length⟩

theorem upload_fits_small : ∃ ciphertext,
    encryptFile plainBox [1,2,3] zeroKey noNonce = .ok (ciphertext,zeroKey) ∧
    toBytes (some ciphertext) (bodyLimit "/api/v1/media") = some ciphertext := by
  obtain ⟨ciphertext,h⟩ := @plainBox_encryptFile [1,2,3] (by decide) zeroKey noNonce
  exact ⟨ciphertext,h,(upload_fits_iff plainBox_addsMac h (.inl rfl)).1.mpr (by decide)⟩

/-- A file of 1 MiB does not go through the documented upload path. -/
theorem uploads_not_fit : ¬UploadsFit := by
  intro h
  have hlen : (List.replicate (1024*1024) (0 : UInt8)).length = 1024*1024 := List.length_replicate
  obtain ⟨ciphertext,henc⟩ := @plainBox_encryptFile (List.replicate (1024*1024) 0)
    (by rw [hlen]; decide) zeroKey noNonce
  have hfits := h plainBox _ _ _ _ _ "/api/v1/media" plainBox_addsMac henc (.inl rfl)
  rw [toBytes_some, encryptFile_length plainBox_addsMac henc, hlen] at hfits
  exact absurd hfits.2 (by decide)

end Media
end Vaultex
