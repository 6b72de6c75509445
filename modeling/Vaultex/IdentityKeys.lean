import Vaultex.Fingerprint
import Vaultex.Hex
import Vaultex.Identity

/-!
# Identity keys drawn, stored and shown

The rest of `identity.rs`: a pair comes of `gen_keypair` or of the bytes it was
stored in, and its owner's contacts are shown a part of the public key.
-/

set_option autoImplicit false

namespace Vaultex

namespace Sodium

theorem size_of_length {n : ℕ} {bytes : List UInt8} (h : bytes.length = n) :
    bytes.toArray.size = n := List.size_toArray.trans h

/-- `from_slice` of a key of `n` bytes, with the error its callers turn `None` into. -/
def fromSlice (n : ℕ) (bytes : List UInt8) : Result (Vector UInt8 n) :=
  if h : bytes.length = n then .ok ⟨bytes.toArray,size_of_length h⟩
  else .error (.invalidKeyLength n bytes.length)

theorem fromSlice_ok {n : ℕ} {bytes : List UInt8} {v : Vector UInt8 n} :
    fromSlice n bytes = .ok v ↔ v.toList = bytes := by
  unfold fromSlice
  constructor
  · intro h
    split at h
    · obtain rfl := Except.ok.inj h
      rfl
    · contradiction
  · rintro rfl
    rw [dif_pos v.length_toList]
    rfl

theorem fromSlice_exists {n : ℕ} {bytes : List UInt8} :
    (∃ v, fromSlice n bytes = .ok v) ↔ bytes.length = n := by
  constructor
  · rintro ⟨v,h⟩
    rw [← fromSlice_ok.mp h, v.length_toList]
  · intro h
    exact ⟨_,dif_pos h⟩

theorem fromSlice_error {n : ℕ} {bytes : List UInt8} {e : CryptoError} :
    fromSlice n bytes = .error e ↔
      bytes.length ≠ n ∧ e = .invalidKeyLength n bytes.length := by
  unfold fromSlice
  split
  next h => simp [h]
  next h => simp [h, eq_comm]

end Sodium

namespace Hex

def upperDigit (n : ℕ) : Char := if n < 10 then Char.ofNat (48+n) else Char.ofNat (55+n)

/-- `{:02X}` -/
def upperDigits (b : UInt8) : List Char := [upperDigit (b.toNat/16), upperDigit (b.toNat%16)]

theorem toLower_upperDigit : ∀ n < 16, (upperDigit n).toLower = digit n := by decide

theorem upperDigit_ne : ∀ n < 16, upperDigit n ≠ '·' := by decide

theorem decodeDigits_upperDigits (bytes : List UInt8) :
    decodeDigits (bytes.flatMap upperDigits) = some bytes := by
  have hlower : ∀ b : UInt8, (upperDigits b).map Char.toLower = digits b := by
    intro b
    have hb := b.toNat_lt
    rw [upperDigits, List.map_cons, List.map_cons, toLower_upperDigit _ (by omega),
      toLower_upperDigit _ (by omega)]
    rfl
  rw [← decodeDigits_toLower, List.map_flatMap]
  simp only [hlower]
  exact decodeDigits_digits bytes

end Hex

namespace IdentityKeyPair
variable {SignPublicKey SignSecretKey Signature PublicKey SecretKey : Type}

/-- `gen_keypair` draws `fresh`. -/
def generate (L : Sodium SignPublicKey SignSecretKey Signature PublicKey SecretKey)
    (fresh : SignPublicKey × SignSecretKey) :
    Result (IdentityKeyPair SignPublicKey SignSecretKey) :=
  if L.init then .ok ⟨fresh.1,fresh.2⟩ else .error .initFailed

/-- Keys as the bytes they are stored in: `sign::PublicKey` and `sign::SecretKey`. -/
def fromBytes (publicKey secretKey : List UInt8) :
    Result (IdentityKeyPair Bytes32 (Vector UInt8 64)) := do
  let pk ← Sodium.fromSlice 32 publicKey
  let sk ← Sodium.fromSlice 64 secretKey
  pure ⟨pk,sk⟩

/-- Nothing relates the two halves that are read. -/
theorem fromBytes_ok {publicKey secretKey : List UInt8}
    {identity : IdentityKeyPair Bytes32 (Vector UInt8 64)} :
    fromBytes publicKey secretKey = .ok identity ↔
      identity.publicKey.toList = publicKey ∧ identity.secretKey.toList = secretKey := by
  rw [fromBytes, bind_eq_ok]
  simp only [bind_eq_ok, Sodium.fromSlice_ok, pure, Except.pure, Except.ok.injEq]
  constructor
  · rintro ⟨pk,hpk,sk,hsk,rfl⟩
    exact ⟨hpk,hsk⟩
  · rintro ⟨hpk,hsk⟩
    exact ⟨_,hpk,_,hsk,rfl⟩

def fingerprintGroup (publicKey : Bytes32) (i : Fin 4) : String :=
  String.ofList ([publicKey[2*i.val], publicKey[2*i.val+1]].flatMap Hex.upperDigits)

def publicKeyFingerprint (publicKey : Bytes32) : String :=
  (String.singleton '·').intercalate ((List.finRange 4).map (fingerprintGroup publicKey))

theorem fingerprintGroup_eq_iff {k k' : Bytes32} {i : Fin 4} :
    fingerprintGroup k i = fingerprintGroup k' i ↔
      k[2*i.val] = k'[2*i.val] ∧ k[2*i.val+1] = k'[2*i.val+1] := by
  constructor
  · intro h
    have hdigits := String.ofList_injective h
    have hbytes := congrArg Hex.decodeDigits hdigits
    rw [Hex.decodeDigits_upperDigits, Hex.decodeDigits_upperDigits, Option.some_inj] at hbytes
    obtain ⟨hfirst,hrest⟩ := List.cons.inj hbytes
    exact ⟨hfirst,(List.cons.inj hrest).1⟩
  · rintro ⟨hfirst,hsecond⟩
    rw [fingerprintGroup, hfirst, hsecond]
    rfl

theorem dot_not_mem_group (k : Bytes32) (i : Fin 4) : '·' ∉ (fingerprintGroup k i).toList := by
  rw [fingerprintGroup, String.toList_ofList]
  intro hmem
  obtain ⟨b,-,hb⟩ := List.mem_flatMap.mp hmem
  have hlt := b.toNat_lt
  rcases List.mem_pair.mp hb with heq | heq
  · exact Hex.upperDigit_ne _ (by omega) heq.symm
  · exact Hex.upperDigit_ne _ (by omega) heq.symm

/-- The fingerprint shows the first eight bytes of a key, and no others. -/
theorem publicKeyFingerprint_eq_iff {k k' : Bytes32} :
    publicKeyFingerprint k = publicKeyFingerprint k' ↔ ∀ i (h : i < 8), k[i] = k'[i] := by
  constructor
  · intro h i hi
    have hgroups : ∀ k : Bytes32, ∀ s ∈ (List.finRange 4).map (fingerprintGroup k),
        '·' ∉ s.toList := by
      intro k s hs
      obtain ⟨j,-,rfl⟩ := List.mem_map.mp hs
      exact dot_not_mem_group k j
    have hne : ∀ k : Bytes32, (List.finRange 4).map (fingerprintGroup k) ≠ [] := fun k => by simp
    have hall := List.map_inj_left.mp
      (Fingerprint.joined_inj (hgroups k) (hgroups k') (hne k) (hne k') h)
    obtain ⟨hfirst,hsecond⟩ :=
      fingerprintGroup_eq_iff.mp (hall ⟨i/2,by omega⟩ (List.mem_finRange _))
    rcases Nat.mod_two_eq_zero_or_one i with heven | hodd
    · have hi' : i = 2*(i/2) := by omega
      simpa only [← hi'] using hfirst
    · have hi' : i = 2*(i/2)+1 := by omega
      simpa only [← hi'] using hsecond
  · intro h
    rw [publicKeyFingerprint, publicKeyFingerprint]
    congr 1
    apply List.map_congr_left
    intro i _
    exact fingerprintGroup_eq_iff.mpr ⟨h _ (by omega),h _ (by omega)⟩

end IdentityKeyPair
end Vaultex
