import Mathlib.Algebra.Order.Floor.Div
import Vaultex.Padding
import Vaultex.RoundUp

/-!
# The sizes of padded messages

The three branches of `bucket_size` are one rounding: to the least bucket that
leaves room for the length suffix.
-/

set_option autoImplicit false

namespace Vaultex.Padding
open RoundUp

/-- The powers of two from 256 to 65536, and the multiples of 65536. -/
def buckets : Set ℕ := {b | (∃ k, 8 ≤ k ∧ k ≤ 16 ∧ b = 2^k) ∨ ∃ k, 1 ≤ k ∧ b = k*65536}

theorem min_bucket_le {b : ℕ} (hb : b ∈ buckets) : MIN_BUCKET ≤ b := by
  rcases hb with ⟨k,hlow,-,rfl⟩ | ⟨k,hk,rfl⟩
  · exact Nat.pow_le_pow_right (n := 2) (by decide) hlow
  · rw [MIN_BUCKET]
    omega

theorem pow_bucket {needed : ℕ} (hmin : MIN_BUCKET < needed) (hmax : needed ≤ MAX_BUCKET) :
    nextPowerOfTwo needed ∈ buckets := by
  refine Or.inl ⟨Nat.clog 2 needed,?_,Nat.clog_le_of_le_pow hmax,rfl⟩
  by_contra hlow
  have hle : needed ≤ 2^7 := (Nat.clog_le_iff_le_pow (by decide)).mp (by omega)
  rw [MIN_BUCKET] at hmin
  omega

theorem nextPowerOfTwo_le {needed b : ℕ} (hmax : needed ≤ MAX_BUCKET) (hb : b ∈ buckets)
    (hle : needed ≤ b) : nextPowerOfTwo needed ≤ b := by
  have hpow {k : ℕ} (h : needed ≤ 2^k) : nextPowerOfTwo needed ≤ 2^k :=
    Nat.pow_le_pow_right (by decide) (Nat.clog_le_of_le_pow h)
  rcases hb with ⟨k,-,-,rfl⟩ | ⟨k,hk,rfl⟩
  · exact hpow hle
  · have hlast : nextPowerOfTwo needed ≤ 2^16 := hpow hmax
    omega

theorem multiple_bucket {needed : ℕ} (hmax : MAX_BUCKET < needed) :
    divCeil needed MAX_BUCKET*MAX_BUCKET ∈ buckets := by
  refine Or.inr ⟨_,?_,rfl⟩
  rw [MAX_BUCKET] at hmax
  rw [divCeil, MAX_BUCKET]
  omega

theorem multiple_le {needed b : ℕ} (hmax : MAX_BUCKET < needed) (hb : b ∈ buckets)
    (hle : needed ≤ b) : divCeil needed MAX_BUCKET*MAX_BUCKET ≤ b := by
  rcases hb with ⟨k,-,hhigh,rfl⟩ | ⟨k,-,rfl⟩
  · have hpow : 2^k ≤ MAX_BUCKET := Nat.pow_le_pow_right (n := 2) (by decide) hhigh
    omega
  · have hceil : divCeil needed MAX_BUCKET ≤ k :=
      (ceilDiv_le_iff_le_mul (by decide)).mpr (by rwa [Nat.mul_comm])
    exact Nat.mul_le_mul_right _ hceil

theorem bucketSize_mem (len : ℕ) : bucketSize len ∈ buckets := by
  simp only [bucketSize]
  split_ifs with hmin hmax
  · exact Or.inl ⟨8,by decide,by decide,rfl⟩
  · exact pow_bucket (by omega) hmax
  · exact multiple_bucket (by omega)

theorem bucketSize_roundsUp : RoundsUp buckets (·+PAD_LEN_BYTES) bucketSize := by
  intro len
  refine ⟨⟨bucketSize_mem len,bucketSize_ge len⟩,?_⟩
  rintro b ⟨hb,hle⟩
  simp only [bucketSize]
  split_ifs with hmin hmax
  · exact min_bucket_le hb
  · exact nextPowerOfTwo_le hmax hb hle
  · exact multiple_le (by omega) hb hle

/-- A padded message has the size of the least bucket with room for it, which
hides everything about its length but the buckets it lies between. -/
theorem padded_size_optimal :
    (∀ fill plaintext, ∃ padded, padMessage fill plaintext = .ok padded ∧
      padded.length = bucketSize plaintext.length) ∧
    (∀ n, IsLeast {b | b ∈ buckets ∧ n+4 ≤ b} (bucketSize n)) ∧
    Monotone bucketSize ∧
    ∀ n m, bucketSize n = bucketSize m ↔ ∀ b ∈ buckets, n+4 ≤ b ↔ m+4 ≤ b := by
  refine ⟨fun fill plaintext => ?_,bucketSize_roundsUp,?_,fun n m => bucketSize_roundsUp.eq_iff⟩
  · exact ⟨_,padMessage_eq fill plaintext,padMessage_length (padMessage_eq fill plaintext)⟩
  · exact bucketSize_roundsUp.monotone fun n m h => Nat.add_le_add_right h _

end Vaultex.Padding
