import Vaultex.Errors
import Mathlib.Data.Nat.Log

/-!
# Message padding

`padding.rs`. A slice has at most `isize::MAX` bytes, so no `usize` sum
below wraps and lengths are natural numbers; the cast of the padding length
to `u32` is kept.
-/

set_option autoImplicit false

namespace Vaultex.Padding

def MIN_BUCKET : ℕ := 256

def MAX_BUCKET : ℕ := 65536

def PAD_LEN_BYTES : ℕ := 4

/-- `next_power_of_two`: the least power of two that is not below `n`. -/
def nextPowerOfTwo (n : ℕ) : ℕ := 2^Nat.clog 2 n

def divCeil (n m : ℕ) : ℕ := (n+m-1)/m

def bucketSize (len : ℕ) : ℕ :=
  let needed := len+PAD_LEN_BYTES
  if needed ≤ MIN_BUCKET then MIN_BUCKET
  else if needed ≤ MAX_BUCKET then nextPowerOfTwo needed
  else divCeil needed MAX_BUCKET*MAX_BUCKET

def u32ToLeBytes (n : UInt32) : List UInt8 :=
  (List.range 4).map fun i => UInt8.ofNat (n.toNat/256^i)

def u32FromLeBytes (bytes : List UInt8) : UInt32 :=
  UInt32.ofNat (bytes.foldr (fun b n => b.toNat+256*n) 0)

/-- What `randombytes_into` writes into a buffer of each size. -/
abbrev Fill := (n : ℕ) → Vector UInt8 n

def padMessage (fill : Fill) (plaintext : List UInt8) : Result (List UInt8) :=
  let target := bucketSize plaintext.length
  let padLen := target-plaintext.length
  if padLen < PAD_LEN_BYTES then
    .error (.paddingError "computed padding too small for length encoding")
  else
    .ok (plaintext++(fill (padLen-PAD_LEN_BYTES)).toList++u32ToLeBytes (UInt32.ofNat padLen))

def unpadMessage (padded : List UInt8) : Result (List UInt8) :=
  if padded.length < PAD_LEN_BYTES then .error (.paddingError "padded message too short")
  else
    let offset := padded.length-PAD_LEN_BYTES
    let padLen := (u32FromLeBytes (padded.drop offset)).toNat
    if padLen < PAD_LEN_BYTES ∨ padLen > padded.length then
      .error (.paddingError "invalid padding length")
    else .ok (padded.take (padded.length-padLen))

theorem u32ToLeBytes_length (n : UInt32) : (u32ToLeBytes n).length = PAD_LEN_BYTES := by
  simp [u32ToLeBytes, PAD_LEN_BYTES]

theorem u32FromLeBytes_toLeBytes (n : UInt32) : u32FromLeBytes (u32ToLeBytes n) = n := by
  have h : n.toNat < 2^32 := n.toNat_lt
  apply UInt32.toNat_inj.mp
  simp [u32FromLeBytes, u32ToLeBytes, List.range, List.range.loop]
  omega

theorem bucketSize_ge (len : ℕ) : len+PAD_LEN_BYTES ≤ bucketSize len := by
  simp only [bucketSize]
  split_ifs with hmin hmax
  · exact hmin
  · exact Nat.le_pow_clog (by decide) _
  · have hmod := Nat.div_add_mod (len+PAD_LEN_BYTES+MAX_BUCKET-1) MAX_BUCKET
    have hlt := Nat.mod_lt (len+PAD_LEN_BYTES+MAX_BUCKET-1) (y := MAX_BUCKET) (by decide)
    rw [divCeil, mul_comm]
    omega

/-- A bucket is less than one maximal bucket above what is needed, or it is
no larger than a maximal bucket itself. -/
theorem bucketSize_le (len : ℕ) : bucketSize len ≤ len+PAD_LEN_BYTES+MAX_BUCKET := by
  simp only [bucketSize]
  split_ifs with hmin hmax
  · simp only [MIN_BUCKET, MAX_BUCKET]
    omega
  · have hlog : Nat.clog 2 (len+PAD_LEN_BYTES) ≤ 16 := Nat.clog_le_of_le_pow hmax
    have hpow : 2^Nat.clog 2 (len+PAD_LEN_BYTES) ≤ 2^16 := Nat.pow_le_pow_right (by decide) hlog
    simp only [nextPowerOfTwo, MAX_BUCKET]
    omega
  · have hmul := Nat.div_mul_le_self (len+PAD_LEN_BYTES+MAX_BUCKET-1) MAX_BUCKET
    rw [divCeil]
    omega

/-- The padding length survives its cast to `u32`. -/
theorem padLen_toNat (len : ℕ) :
    (UInt32.ofNat (bucketSize len-len)).toNat = bucketSize len-len := by
  have hle := bucketSize_le len
  simp only [PAD_LEN_BYTES, MAX_BUCKET] at hle
  exact UInt32.toNat_ofNat_of_lt' (by simp only [UInt32.size]; omega)

theorem padMessage_eq (fill : Fill) (plaintext : List UInt8) :
    padMessage fill plaintext =
      .ok (plaintext++(fill (bucketSize plaintext.length-plaintext.length-PAD_LEN_BYTES)).toList
        ++u32ToLeBytes (UInt32.ofNat (bucketSize plaintext.length-plaintext.length))) := by
  have hge := bucketSize_ge plaintext.length
  exact if_neg (by omega)

theorem padMessage_length {fill : Fill} {plaintext padded : List UInt8}
    (h : padMessage fill plaintext = .ok padded) :
    padded.length = bucketSize plaintext.length := by
  rw [padMessage_eq] at h
  have hge := bucketSize_ge plaintext.length
  rw [← Except.ok.inj h, List.length_append, List.length_append, u32ToLeBytes_length,
    Vector.length_toList]
  omega

theorem unpadMessage_padMessage {fill : Fill} {plaintext padded : List UInt8}
    (h : padMessage fill plaintext = .ok padded) : unpadMessage padded = .ok plaintext := by
  have hlen := padMessage_length h
  have hge := bucketSize_ge plaintext.length
  rw [padMessage_eq] at h
  have heq := (Except.ok.inj h).symm
  have hdrop : padded.drop (padded.length-PAD_LEN_BYTES) =
      u32ToLeBytes (UInt32.ofNat (bucketSize plaintext.length-plaintext.length)) := by
    rw [hlen, heq]
    apply List.drop_left'
    rw [List.length_append, Vector.length_toList]
    omega
  have htake : padded.take plaintext.length = plaintext := by
    rw [heq, List.append_assoc]
    exact List.take_left
  have hsub : bucketSize plaintext.length-(bucketSize plaintext.length-plaintext.length) =
      plaintext.length := by omega
  simp only [unpadMessage]
  rw [hdrop, u32FromLeBytes_toLeBytes, padLen_toNat, hlen, if_neg (by omega), if_neg (by omega),
    hsub, htake]

end Vaultex.Padding
