import Vaultex.Checked
import Vaultex.PaddingBuckets

/-!
# Padding on machine numbers

`pad_message` and `bucket_size` once more, with lengths as `usize` of a 64-bit
target and the panics of a checked build. Every sum, rounding and cast is in
range for every slice; the one panic left is that of a vector too large to
allocate, for plaintexts within a bucket of the longest slice.
-/

set_option autoImplicit false

namespace Vaultex.Padding
open Checked Checked.Word

abbrev Usize := UInt64

def ISIZE_MAX : ℕ := 2^63-1

/-- A slice of bytes. -/
def Slice := {bytes : List UInt8 // bytes.length ≤ ISIZE_MAX}

def Slice.len (s : Slice) : Usize := ofNat s.1.length

/-- `Vec::with_capacity` panics when the capacity exceeds `isize::MAX` bytes. -/
def withCapacity (n : Usize) : Option Unit := if toNat n ≤ ISIZE_MAX then some () else none

def bucketSizeChecked (len : Usize) : Option Usize := do
  let needed ← add len (ofNat PAD_LEN_BYTES)
  if toNat needed ≤ MIN_BUCKET then some (ofNat MIN_BUCKET)
  else if toNat needed ≤ MAX_BUCKET then fit (nextPowerOfTwo (toNat needed))
  else do
    let quotient ← fit (divCeil (toNat needed) MAX_BUCKET)
    mul quotient (ofNat MAX_BUCKET)

def padMessageChecked (fill : Fill) (plaintext : Slice) : Option (Result (List UInt8)) := do
  let target ← bucketSizeChecked plaintext.len
  let padLen ← sub target plaintext.len
  if toNat padLen < PAD_LEN_BYTES then
    some (.error (.paddingError "computed padding too small for length encoding"))
  else do
    withCapacity target
    let fillLen ← sub padLen (ofNat PAD_LEN_BYTES)
    withCapacity fillLen
    let padded := plaintext.1++(fill (toNat fillLen)).toList++u32ToLeBytes padLen.toUInt32
    -- `debug_assert_eq!(padded.len(), target)`
    if padded.length = toNat target then some (.ok padded) else none

theorem Slice.toNat_len (s : Slice) : toNat s.len = s.1.length := by
  apply toNat_ofNat
  show s.1.length < 2^64
  exact s.2.trans_lt (by decide)

theorem toNat_small {n : ℕ} (h : n ≤ MAX_BUCKET) : toNat (ofNat n : Usize) = n := by
  apply toNat_ofNat
  show n < 2^64
  rw [MAX_BUCKET] at h
  omega

theorem bucketSize_lt_bound {len : ℕ} (h : len ≤ ISIZE_MAX) : bucketSize len < bound Usize := by
  have hle := bucketSize_le len
  simp only [ISIZE_MAX, PAD_LEN_BYTES, MAX_BUCKET] at h hle
  show bucketSize len < 2^64
  omega

/-- Machine numbers are large enough for the bucket of every length. -/
theorem bucketSizeChecked_eq {len : Usize} (h : toNat len ≤ ISIZE_MAX) :
    ∃ target, bucketSizeChecked len = some target ∧ toNat target = bucketSize (toNat len) := by
  have hroom := bucketSize_lt_bound h
  have hge := bucketSize_ge (toNat len)
  obtain ⟨needed,hadd,hneeded⟩ : ∃ needed, add len (ofNat PAD_LEN_BYTES) = some needed ∧
      toNat needed = toNat len+PAD_LEN_BYTES := by
    rw [add, toNat_small (by decide)]
    exact exists_fit (by omega)
  simp only [bucketSizeChecked, hadd, Option.bind_eq_bind, Option.bind_some, hneeded]
  by_cases hmin : toNat len+PAD_LEN_BYTES ≤ MIN_BUCKET
  · simp only [bucketSize, if_pos hmin]
    exact ⟨_,rfl,toNat_small (by decide)⟩
  · by_cases hmax : toNat len+PAD_LEN_BYTES ≤ MAX_BUCKET
    · simp only [bucketSize, if_neg hmin, if_pos hmax] at hroom ⊢
      exact exists_fit hroom
    · simp only [bucketSize, if_neg hmin, if_neg hmax] at hroom ⊢
      obtain ⟨quotient,hquot,hvalue⟩ := exists_fit (α := Usize)
        ((Nat.le_mul_of_pos_right _ (by decide)).trans_lt hroom)
      rw [hquot, Option.bind_some, mul, hvalue, toNat_small le_rfl]
      exact exists_fit hroom

theorem padLenChecked_eq (plaintext : Slice) :
    ∃ target padLen, bucketSizeChecked plaintext.len = some target ∧
      sub target plaintext.len = some padLen ∧ toNat target = bucketSize plaintext.1.length ∧
      toNat padLen = bucketSize plaintext.1.length-plaintext.1.length := by
  have hge := bucketSize_ge plaintext.1.length
  have hlen := plaintext.toNat_len
  obtain ⟨target,htarget,hvalue⟩ := bucketSizeChecked_eq (hlen.trans_le plaintext.2)
  rw [hlen] at hvalue
  obtain ⟨padLen,hsub⟩ : ∃ padLen, sub target plaintext.len = some padLen := by
    rw [← Option.ne_none_iff_exists', Ne, sub_eq_none]
    omega
  have hpad := sub_eq_some.mp hsub
  exact ⟨target,padLen,htarget,hsub,hvalue,by omega⟩

theorem toUInt32_eq {padLen : Usize} {n : ℕ} (h : toNat padLen = n) :
    padLen.toUInt32 = UInt32.ofNat n := by
  rw [← h]
  exact (UInt32.ofNat_uInt64ToNat padLen).symm

/-- A checked build computes what `padMessage` does, and panics only where the
padded message is too large for a vector. -/
theorem padMessageChecked_eq (fill : Fill) (plaintext : Slice) :
    padMessageChecked fill plaintext =
      if bucketSize plaintext.1.length ≤ ISIZE_MAX then some (padMessage fill plaintext.1)
      else none := by
  have hge := bucketSize_ge plaintext.1.length
  obtain ⟨target,padLen,htarget,hsub,hvalue,hsize⟩ := padLenChecked_eq plaintext
  obtain ⟨fillLen,hfill⟩ : ∃ fillLen, sub padLen (ofNat PAD_LEN_BYTES) = some fillLen := by
    rw [← Option.ne_none_iff_exists', Ne, sub_eq_none, toNat_small (by decide)]
    omega
  have hrest := sub_eq_some.mp hfill
  rw [toNat_small (by decide)] at hrest
  have hfillLen : toNat fillLen =
      bucketSize plaintext.1.length-plaintext.1.length-PAD_LEN_BYTES := by omega
  have hsmall : ¬toNat padLen < PAD_LEN_BYTES := by omega
  simp only [padMessageChecked, htarget, hsub, hfill, Option.bind_eq_bind, Option.bind_some,
    if_neg hsmall, withCapacity, hvalue]
  by_cases hroom : bucketSize plaintext.1.length ≤ ISIZE_MAX
  · have hroom' : toNat fillLen ≤ ISIZE_MAX := by omega
    rw [if_pos hroom, if_pos hroom, if_pos hroom', Option.bind_some, Option.bind_some, hfillLen,
      toUInt32_eq hsize, padMessage_eq, if_pos]
    exact padMessage_length (padMessage_eq fill plaintext.1)
  · rw [if_neg hroom, if_neg hroom, Option.bind_none]

/-- The buckets of 65536 bytes end short of the longest slice. -/
theorem bucketSize_le_isize_max (len : ℕ) : bucketSize len ≤ ISIZE_MAX ↔ len+65540 ≤ 2^63 := by
  have hlast : 2^63-65536 ∈ buckets := Or.inr ⟨2^47-1,by decide,by decide⟩
  have hround : bucketSize len ≤ 2^63-65536 ↔ len+PAD_LEN_BYTES ≤ 2^63-65536 :=
    bucketSize_roundsUp.le_iff hlast
  simp only [PAD_LEN_BYTES] at hround
  rw [ISIZE_MAX]
  rcases bucketSize_mem len with ⟨k,-,hhigh,heq⟩ | ⟨k,-,heq⟩
  · have hpow : 2^k ≤ 2^16 := Nat.pow_le_pow_right (by decide) hhigh
    omega
  · omega

/-- Padding a slice succeeds, with its arithmetic in range. -/
def PadTotal : Prop :=
  ∀ (fill : Fill) (plaintext : Slice), ∃ padded,
    padMessageChecked fill plaintext = some (.ok padded) ∧ unpadMessage padded = .ok plaintext.1

/-- For every slice the bucket and the padding length are computed exactly, and
the padding length survives its cast and leaves room for itself; the padded
message is returned, and unpadded again, unless it would not fit a vector. -/
theorem pad_total_iff (fill : Fill) (plaintext : Slice) :
    (∃ target padLen : Usize, bucketSizeChecked plaintext.len = some target ∧
      sub target plaintext.len = some padLen ∧ target.toNat = bucketSize plaintext.1.length ∧
      PAD_LEN_BYTES ≤ padLen.toNat ∧ padLen.toUInt32.toNat = padLen.toNat) ∧
    ((∃ padded, padMessageChecked fill plaintext = some (.ok padded) ∧
      unpadMessage padded = .ok plaintext.1) ↔ plaintext.1.length+65540 ≤ 2^63) ∧
    (padMessageChecked fill plaintext = none ↔ 2^63 < plaintext.1.length+65540) := by
  have hroom := bucketSize_le_isize_max plaintext.1.length
  refine ⟨?_,?_,?_⟩
  · have hge := bucketSize_ge plaintext.1.length
    obtain ⟨target,padLen,htarget,hsub,hvalue,hsize⟩ := padLenChecked_eq plaintext
    refine ⟨target,padLen,htarget,hsub,hvalue,?_,?_⟩
    · show PAD_LEN_BYTES ≤ toNat padLen
      omega
    · rw [toUInt32_eq hsize, padLen_toNat]
      exact hsize.symm
  · rw [padMessageChecked_eq, ← hroom]
    constructor
    · rintro ⟨padded,hok,-⟩
      by_contra hlarge
      rw [if_neg hlarge] at hok
      contradiction
    · intro hfits
      have hok := padMessage_eq fill plaintext.1
      exact ⟨_,by rw [if_pos hfits, hok],unpadMessage_padMessage hok⟩
  · rw [padMessageChecked_eq, ite_eq_right_iff]
    constructor
    · intro hnone
      by_contra hfits
      exact absurd (hnone (by omega)) (by simp)
    · intro hlarge hfits
      omega

theorem exists_longest : ∃ plaintext : Slice, plaintext.1.length = ISIZE_MAX := by
  have hlen : (List.replicate ISIZE_MAX (0 : UInt8)).length = ISIZE_MAX := List.length_replicate
  exact ⟨⟨_,hlen.le⟩,hlen⟩

/-- The longest slice there is leaves no room for padding. -/
theorem not_pad_total : ¬PadTotal := by
  intro h
  obtain ⟨plaintext,hlen⟩ := exists_longest
  obtain ⟨padded,hok,-⟩ := h (fun n => Vector.replicate n 0) plaintext
  rw [padMessageChecked_eq, if_neg] at hok
  · contradiction
  · rw [bucketSize_le_isize_max, hlen, ISIZE_MAX]
    omega

end Vaultex.Padding
