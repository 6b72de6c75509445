import Mathlib.Data.List.OfFn
import Mathlib.Data.Set.Insert
import Vaultex.Auth
import Vaultex.Errors
import Vaultex.Fingerprint

/-!
# Safety numbers

`safety_number.rs` of the crypto crate. The number two users compare shows
the first 24 bytes of a digest of their identity keys, and all of them.
-/

set_option autoImplicit false

namespace Vaultex.SafetyNumber
open Fingerprint Text

def NUM_GROUPS : ℕ := 12

def BYTES_PER_GROUP : ℕ := 2

def u16FromBeBytes (hi lo : UInt8) : UInt16 := UInt16.ofNat (256*hi.toNat+lo.toNat)

theorem offset_lt (i : Fin NUM_GROUPS) : i.val*BYTES_PER_GROUP+1 < 32 := by
  have hi : i.val < 12 := i.isLt
  rw [BYTES_PER_GROUP]
  omega

def groupValue (hash : Bytes32) (i : Fin NUM_GROUPS) : UInt32 :=
  let offset := i.val*BYTES_PER_GROUP
  have hoffset : offset+1 < 32 := offset_lt i
  let value := (u16FromBeBytes hash[offset] hash[offset+1]).toUInt32
  value%100000

/-- What is fed to the hasher: the smaller key, then the other. -/
def sortedConcat (ourIdentityKey theirIdentityKey : List UInt8) : List UInt8 :=
  let (first, second) := sortPair (· ≤ ·) ourIdentityKey theirIdentityKey
  first++second

def generateSafetyNumber (sha256 : Sha256) (ourIdentityKey theirIdentityKey : List UInt8) :
    String :=
  let hash := sha256 (sortedConcat ourIdentityKey theirIdentityKey)
  let groups := List.ofFn fun i => zeroPadded 5 (groupValue hash i).toNat
  " ".intercalate groups

def decodeKey (keyHex : String) : Result (List UInt8) :=
  match Hex.decode keyHex with
  | some key => .ok key
  | none => .error (.invalidKeyLength 32 0)

def checkLength (key : List UInt8) : Result Unit :=
  if key.length ≠ 32 then .error (.invalidKeyLength 32 key.length) else .ok ()

def generateSafetyNumberFromHex (sha256 : Sha256)
    (ourIdentityKeyHex theirIdentityKeyHex : String) : Result String := do
  let ourKey ← decodeKey ourIdentityKeyHex
  let theirKey ← decodeKey theirIdentityKeyHex
  checkLength ourKey
  checkLength theirKey
  return generateSafetyNumber sha256 ourKey theirKey

theorem sortedConcat_comm (a b : List UInt8) : sortedConcat a b = sortedConcat b a := by
  rw [sortedConcat, sortedConcat, sortPair_comm]

/-- Keys of one length are read back from what is hashed, though not their order. -/
theorem sortedConcat_eq_iff {a b c d : Bytes32} :
    sortedConcat a.toList b.toList = sortedConcat c.toList d.toList ↔ s(a,b) = s(c,d) := by
  constructor
  · intro h
    have hlength : ∀ x y : Bytes32, (sortPair (· ≤ ·) x.toList y.toList).1.length = 32 := by
      intro x y
      by_cases hle : x.toList ≤ y.toList
      · rw [sortPair, if_pos hle, Vector.length_toList]
      · rw [sortPair, if_neg hle, Vector.length_toList]
    obtain ⟨hfirst,hsecond⟩ := List.append_inj h ((hlength a b).trans (hlength c d).symm)
    have hkeys := (sortPair_eq_iff (· ≤ ·)).mp (Prod.ext hfirst hsecond)
    exact Sym2.map.injective (fun x y hxy => Vector.toList_inj.mp hxy) hkeys
  · intro h
    have hkeys : s(a.toList,b.toList) = s(c.toList,d.toList) :=
      congrArg (Sym2.map Vector.toList) h
    rw [sortedConcat, sortedConcat, (sortPair_eq_iff _).mpr hkeys]

theorem u16FromBeBytes_toNat (hi lo : UInt8) :
    (u16FromBeBytes hi lo).toNat = 256*hi.toNat+lo.toNat := by
  have hhi := hi.toNat_lt
  have hlo := lo.toNat_lt
  exact UInt16.toNat_ofNat_of_lt' (by simp only [UInt16.size]; omega)

theorem toList_getElem? (hash : Bytes32) {m : ℕ} (hm : m < 32) :
    hash.toList[m]? = some hash[m] := by
  rw [Vector.getElem?_toList, Vector.getElem?_eq_getElem hm]

/-- Two bytes make a number below 100000, which is its own remainder. -/
theorem groupValue_toNat (hash : Bytes32) (i : Fin NUM_GROUPS)
    (hoffset : i.val*BYTES_PER_GROUP+1 < 32) :
    (groupValue hash i).toNat =
      256*hash[i.val*BYTES_PER_GROUP].toNat+hash[i.val*BYTES_PER_GROUP+1].toNat := by
  have hhi := hash[i.val*BYTES_PER_GROUP].toNat_lt
  have hlo := hash[i.val*BYTES_PER_GROUP+1].toNat_lt
  rw [groupValue, UInt32.toNat_mod, UInt16.toNat_toUInt32, u16FromBeBytes_toNat]
  exact Nat.mod_eq_of_lt (Nat.lt_of_lt_of_le (by omega : _ < 65536) (by decide))

theorem groupValue_lt (hash : Bytes32) (i : Fin NUM_GROUPS) :
    (groupValue hash i).toNat < 10^5 := by
  rw [groupValue, UInt32.toNat_mod]
  exact Nat.mod_lt _ (by decide)

theorem groupValue_eq_iff {hash hash' : Bytes32} {i : Fin NUM_GROUPS} :
    groupValue hash i = groupValue hash' i ↔ ∀ j < BYTES_PER_GROUP,
      hash.toList[i.val*BYTES_PER_GROUP+j]? = hash'.toList[i.val*BYTES_PER_GROUP+j]? := by
  have hoffset := offset_lt i
  rw [← UInt32.toNat_inj, groupValue_toNat hash i hoffset, groupValue_toNat hash' i hoffset]
  constructor
  · intro h j hj
    have hbound := hash[i.val*BYTES_PER_GROUP+1].toNat_lt
    have hbound' := hash'[i.val*BYTES_PER_GROUP+1].toNat_lt
    have hhi : hash[i.val*BYTES_PER_GROUP] = hash'[i.val*BYTES_PER_GROUP] :=
      UInt8.toNat_inj.mp (by omega)
    have hlo : hash[i.val*BYTES_PER_GROUP+1] = hash'[i.val*BYTES_PER_GROUP+1] :=
      UInt8.toNat_inj.mp (by omega)
    rw [BYTES_PER_GROUP] at hj
    rcases (by omega : j = 0 ∨ j = 1) with rfl | rfl
    · rw [Nat.add_zero, toList_getElem? hash (by omega), toList_getElem? hash' (by omega), hhi]
    · rw [toList_getElem? hash hoffset, toList_getElem? hash' hoffset, hlo]
  · intro h
    have hhi := h 0 (by decide)
    have hlo := h 1 (by decide)
    rw [Nat.add_zero, toList_getElem? hash (by omega), toList_getElem? hash' (by omega),
      Option.some_inj] at hhi
    rw [toList_getElem? hash hoffset, toList_getElem? hash' hoffset, Option.some_inj] at hlo
    rw [hhi, hlo]

theorem groupValues_eq_iff {hash hash' : Bytes32} :
    groupValue hash = groupValue hash' ↔ hash.toList.take 24 = hash'.toList.take 24 := by
  rw [show 24 = NUM_GROUPS*BYTES_PER_GROUP from rfl, take_eq_take_iff_blocks]
  constructor
  · intro h i hi
    exact groupValue_eq_iff.mp (congrFun h ⟨i,hi⟩)
  · intro h
    ext1 i
    exact groupValue_eq_iff.mpr (h i.val i.isLt)

section
variable {sha256 : Sha256}

theorem generateSafetyNumber_eq_writeGroups (a b : List UInt8) :
    generateSafetyNumber sha256 a b = writeGroups ' ' 5
      (List.ofFn fun i => (groupValue (sha256 (sortedConcat a b)) i).toNat) := by
  rw [writeGroups, List.map_ofFn]
  rfl

theorem groups_ne_nil (hash : Bytes32) :
    (List.ofFn fun i => (groupValue hash i).toNat) ≠ [] := by
  intro h
  exact absurd (List.ofFn_eq_nil_iff.mp h) (by decide)

theorem generateSafetyNumber_comm (a b : List UInt8) :
    generateSafetyNumber sha256 a b = generateSafetyNumber sha256 b a := by
  rw [generateSafetyNumber, generateSafetyNumber, sortedConcat_comm]

/-- Keys of any length: the number shows the first 24 bytes of their digest. -/
theorem generateSafetyNumber_eq_iff {a b c d : List UInt8} :
    generateSafetyNumber sha256 a b = generateSafetyNumber sha256 c d ↔
      (sha256 (sortedConcat a b)).toList.take 24 = (sha256 (sortedConcat c d)).toList.take 24 := by
  rw [← groupValues_eq_iff, generateSafetyNumber_eq_writeGroups,
    generateSafetyNumber_eq_writeGroups]
  constructor
  · intro h
    have hgroups := List.ofFn_injective
      (writeGroups_inj (by decide) (groups_ne_nil _) (groups_ne_nil _) h)
    ext1 i
    exact UInt32.toNat_inj.mp (congrFun hgroups i)
  · intro h
    rw [h]

/-- Twelve groups of five digits. -/
theorem generateSafetyNumber_format (a b : List UInt8) :
    ((generateSafetyNumber sha256 a b).toList.splitOn ' ').length = NUM_GROUPS ∧
      ∀ group ∈ (generateSafetyNumber sha256 a b).toList.splitOn ' ',
        group.length = 5 ∧ group.all Char.isDigit := by
  rw [generateSafetyNumber_eq_writeGroups, splitOn_writeGroups (by decide) 5 (groups_ne_nil _)]
  constructor
  · rw [List.length_map, List.length_ofFn]
  · intro group hgroup
    obtain ⟨n,hn,rfl⟩ := List.mem_map.mp hgroup
    obtain ⟨i,rfl⟩ := List.mem_ofFn.mp hn
    constructor
    · rw [String.length_toList, zeroPadded_length (by decide) (groupValue_lt _ i)]
    · exact List.all_eq_true.mpr fun c hc => zeroPadded_digits hc

/-- Equal numbers, read to each other by two users with different keys: each has
the other's key, or the two digests collide where they are shown. -/
theorem compared_or_collision {alice bob aliceSees bobSees : Bytes32} (hne : alice ≠ bob)
    (h : generateSafetyNumber sha256 alice.toList aliceSees.toList =
      generateSafetyNumber sha256 bob.toList bobSees.toList) :
    (aliceSees = bob ∧ bobSees = alice) ∨
      (sortedConcat alice.toList aliceSees.toList ≠ sortedConcat bob.toList bobSees.toList ∧
        (sha256 (sortedConcat alice.toList aliceSees.toList)).toList.take 24 =
          (sha256 (sortedConcat bob.toList bobSees.toList)).toList.take 24) := by
  have hshown := generateSafetyNumber_eq_iff.mp h
  by_cases hconcat : sortedConcat alice.toList aliceSees.toList =
      sortedConcat bob.toList bobSees.toList
  · left
    rcases Sym2.eq_iff.mp (sortedConcat_eq_iff.mp hconcat) with ⟨hsame,-⟩ | ⟨hbob,halice⟩
    · exact absurd hsame hne
    · exact ⟨halice,hbob.symm⟩
  · right
    exact ⟨hconcat,hshown⟩

theorem decodeKey_eq_ok {text : String} {key : List UInt8} :
    decodeKey text = .ok key ↔ toAsciiLowercase text = Hex.encode key := by
  rw [← Hex.decode_eq_some_iff, decodeKey]
  cases Hex.decode text <;> simp

theorem decodeKey_eq_error {text : String} {e : CryptoError} (h : decodeKey text = .error e) :
    ∃ n, n ≠ 32 ∧ e = .invalidKeyLength 32 n := by
  rw [decodeKey] at h
  split at h
  · cases h
  · exact ⟨0,by decide,(Except.error.inj h).symm⟩

theorem checkLength_eq_ok {key : List UInt8} {u : Unit} :
    checkLength key = .ok u ↔ key.length = 32 := by
  by_cases h : key.length = 32 <;> simp [checkLength, h]

theorem checkLength_eq_error {key : List UInt8} {e : CryptoError}
    (h : checkLength key = .error e) : ∃ n, n ≠ 32 ∧ e = .invalidKeyLength 32 n := by
  rw [checkLength] at h
  split at h
  · rename_i hlen
    exact ⟨key.length,hlen,(Except.error.inj h).symm⟩
  · cases h

/-- The texts a number is made for are those that write 32 bytes in hex, in either case. -/
theorem generateSafetyNumberFromHex_eq_ok {ourHex theirHex number : String} :
    generateSafetyNumberFromHex sha256 ourHex theirHex = .ok number ↔
      ∃ a b : Bytes32, toAsciiLowercase ourHex = Hex.encode a.toList ∧
        toAsciiLowercase theirHex = Hex.encode b.toList ∧
        generateSafetyNumber sha256 a.toList b.toList = number := by
  simp only [generateSafetyNumberFromHex, bind_eq_ok, decodeKey_eq_ok, checkLength_eq_ok]
  constructor
  · intro h
    obtain ⟨ourKey,hour,theirKey,htheir,-,hlen,-,hlen',hnumber⟩ := h
    exact ⟨⟨ourKey.toArray,hlen⟩,⟨theirKey.toArray,hlen'⟩,hour,htheir,Except.ok.inj hnumber⟩
  · intro h
    obtain ⟨a,b,ha,hb,hnumber⟩ := h
    exact ⟨a.toList,ha,b.toList,hb,(),Vector.length_toList,(),Vector.length_toList,
      congrArg Except.ok hnumber⟩

/-- Other texts fail, and the error names a length that no key has. -/
theorem generateSafetyNumberFromHex_eq_error {ourHex theirHex : String} {e : CryptoError}
    (h : generateSafetyNumberFromHex sha256 ourHex theirHex = .error e) :
    ∃ n, n ≠ 32 ∧ e = .invalidKeyLength 32 n := by
  simp only [generateSafetyNumberFromHex, bind_eq_error] at h
  rcases h with hour | ⟨ourKey,-,htheir | ⟨theirKey,-,hlen | ⟨-,-,hlen' | ⟨-,-,hnumber⟩⟩⟩⟩
  · exact decodeKey_eq_error hour
  · exact decodeKey_eq_error htheir
  · exact checkLength_eq_error hlen
  · exact checkLength_eq_error hlen'
  · cases hnumber

end

/-- A safety number names an unordered pair of keys by 24 bytes of its digest:
it shows all of them, the digest is of the pair, and the hex form of the call agrees. -/
theorem safetyNumber_identifies (sha256 : Sha256) (a b c d : Bytes32) :
    generateSafetyNumber sha256 a.toList b.toList =
        generateSafetyNumber sha256 b.toList a.toList ∧
      (generateSafetyNumber sha256 a.toList b.toList =
          generateSafetyNumber sha256 c.toList d.toList ↔
        (sha256 (sortedConcat a.toList b.toList)).toList.take 24 =
          (sha256 (sortedConcat c.toList d.toList)).toList.take 24) ∧
      (sortedConcat a.toList b.toList = sortedConcat c.toList d.toList ↔
        ({a,b} : Set Bytes32) = {c,d}) ∧
      ∀ ourHex theirHex, toAsciiLowercase ourHex = Hex.encode a.toList →
        toAsciiLowercase theirHex = Hex.encode b.toList →
        generateSafetyNumberFromHex sha256 ourHex theirHex =
          .ok (generateSafetyNumber sha256 a.toList b.toList) := by
  refine ⟨generateSafetyNumber_comm _ _,generateSafetyNumber_eq_iff,?_,?_⟩
  · rw [sortedConcat_eq_iff, Sym2.eq_iff, Set.pair_eq_pair_iff]
  · intro ourHex theirHex hour htheir
    exact generateSafetyNumberFromHex_eq_ok.mpr ⟨a,b,hour,htheir,rfl⟩

/-- The digest of 32 bytes 0x00 followed by 32 bytes 0xFF. -/
def sampleDigest : Bytes32 := ⟨#[187,169,28,168,93,201,20,178,236,62,251,158,22,231,38,123,
  249,25,59,20,53,13,32,251,168,168,180,6,115,10,227,10],rfl⟩

def keyA : Bytes32 := Vector.replicate 32 0x00

def keyB : Bytes32 := Vector.replicate 32 0xFF

theorem sample_number : generateSafetyNumber (fun _ => sampleDigest) keyA.toList keyB.toList =
    "48041 07336 24009 05298 60478 64414 05863 09851 63769 15124 13581 08443" := by
  decide +kernel

theorem safetyNumber_identifies_sample :
    generateSafetyNumberFromHex (fun _ => sampleDigest)
      "FFFFFFFFFFFFFFFFFFFFFFFFFFFFFFFFffffffffffffffffffffffffffffffff"
      "0000000000000000000000000000000000000000000000000000000000000000" =
      .ok "48041 07336 24009 05298 60478 64414 05863 09851 63769 15124 13581 08443" := by
  obtain ⟨hsymm,-,-,hhex⟩ := safetyNumber_identifies (fun _ => sampleDigest) keyB keyA keyA keyB
  rw [hhex _ _ (by decide +kernel) (by decide +kernel), hsymm, sample_number]

end Vaultex.SafetyNumber
