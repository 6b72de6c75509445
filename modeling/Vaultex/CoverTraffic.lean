import Vaultex.PaddingBounds

/-!
# Cover traffic

The dummy messages of `padding.rs`. Their marker stands where a real message
has its padding length, which is never that large; `unpad_message` compares
the marker with the length of the message only.
-/

set_option autoImplicit false

namespace Vaultex.Padding
open Checked Checked.Word

/-- `random` is what `randombytes_into` writes; the vector of zeros it
overwrites has to be allocated first. -/
def generateDummyMessage (random : Fill) (size : Usize) : Option (List UInt8) := do
  let actualSize := if toNat size < MIN_BUCKET then ofNat MIN_BUCKET else size
  withCapacity actualSize
  let buf := (random (toNat actualSize)).toList
  let mark := toNat actualSize-PAD_LEN_BYTES
  some ((((buf.set mark 0xFF).set (mark+1) 0xFF).set (mark+2) 0xFF).set (mark+3) 0xFF)

def isDummyMessage (data : List UInt8) : Bool :=
  if data.length < PAD_LEN_BYTES then false
  else
    let offset := data.length-PAD_LEN_BYTES
    data[offset]? == some 0xFF && data[offset+1]? == some 0xFF && data[offset+2]? == some 0xFF
      && data[offset+3]? == some 0xFF

def marker : List UInt8 := [0xFF,0xFF,0xFF,0xFF]

section Suffix
variable (front : List UInt8) {tail : List UInt8} (h : tail.length = PAD_LEN_BYTES)
include h

theorem isDummyMessage_append : isDummyMessage (front++tail) = true ↔ tail = marker := by
  match tail, h with
  | [a,b,c,d], _ =>
    have hlen : (front++[a,b,c,d]).length = front.length+4 := List.length_append
    simp only [isDummyMessage, hlen, PAD_LEN_BYTES, Nat.add_sub_cancel]
    rw [if_neg (by omega)]
    simp [marker, and_assoc]

theorem set_marker :
    ((((front++tail).set front.length 0xFF).set (front.length+1) 0xFF).set
      (front.length+2) 0xFF).set (front.length+3) 0xFF = front++marker := by
  match tail, h with
  | [a,b,c,d], _ => simp [List.set_append_right, marker]

theorem unpadMessage_append :
    unpadMessage (front++tail) =
      if (u32FromLeBytes tail).toNat < PAD_LEN_BYTES ∨
        (u32FromLeBytes tail).toNat > (front++tail).length then
        .error (.paddingError "invalid padding length")
      else .ok ((front++tail).take ((front++tail).length-(u32FromLeBytes tail).toNat)) := by
  have hlen : (front++tail).length-PAD_LEN_BYTES = front.length := by
    rw [List.length_append]
    omega
  have hlong : ¬(front++tail).length < PAD_LEN_BYTES := by
    rw [List.length_append]
    omega
  simp only [unpadMessage, hlen, List.drop_left, if_neg hlong]

end Suffix

theorem toNat_clamped (size : Usize) :
    toNat (if toNat size < MIN_BUCKET then (ofNat MIN_BUCKET : Usize) else size) =
      max MIN_BUCKET (toNat size) := by
  split
  · rw [toNat_small (by decide)]
    omega
  · omega

/-- A dummy is random bytes up to the marker. -/
theorem generateDummyMessage_eq (random : Fill) {size : Usize} (h : toNat size ≤ ISIZE_MAX) :
    ∃ front, generateDummyMessage random size = some (front++marker) ∧
      (front++marker).length = max MIN_BUCKET (toNat size) := by
  have hclamp := toNat_clamped size
  simp only [generateDummyMessage]
  generalize (if toNat size < MIN_BUCKET then (ofNat MIN_BUCKET : Usize) else size) = actual
    at hclamp ⊢
  have hroom : toNat actual ≤ ISIZE_MAX := hclamp.trans_le (Nat.max_le.mpr ⟨by decide,h⟩)
  have hmin : PAD_LEN_BYTES ≤ toNat actual :=
    le_trans (by decide) ((Nat.le_max_left _ _).trans_eq hclamp.symm)
  have htake : ((random (toNat actual)).toList.take (toNat actual-PAD_LEN_BYTES)).length =
      toNat actual-PAD_LEN_BYTES := by
    rw [List.length_take, Vector.length_toList]
    omega
  have htail : ((random (toNat actual)).toList.drop (toNat actual-PAD_LEN_BYTES)).length =
      PAD_LEN_BYTES := by
    rw [List.length_drop, Vector.length_toList]
    omega
  have hset := set_marker ((random (toNat actual)).toList.take (toNat actual-PAD_LEN_BYTES)) htail
  rw [htake, List.take_append_drop] at hset
  rw [withCapacity, if_pos hroom]
  refine ⟨_,congrArg some hset,?_⟩
  rw [List.length_append, htake, ← hclamp]
  exact Nat.sub_add_cancel hmin

theorem generateDummyMessage_none (random : Fill) {size : Usize} (h : ISIZE_MAX < toNat size) :
    generateDummyMessage random size = none := by
  have hclamp := toNat_clamped size
  simp only [generateDummyMessage]
  generalize (if toNat size < MIN_BUCKET then (ofNat MIN_BUCKET : Usize) else size) = actual
    at hclamp ⊢
  rw [withCapacity, if_neg (by omega)]
  rfl

/-- No message is padded so far that its padding length is the marker. -/
theorem padded_not_dummy {fill : Fill} {plaintext padded : List UInt8}
    (h : padMessage fill plaintext = .ok padded) : isDummyMessage padded = false := by
  have hle := bucketSize_le plaintext.length
  have hpad := padLen_toNat plaintext.length
  rw [padMessage_eq] at h
  rw [← Except.ok.inj h, ← Bool.not_eq_true, isDummyMessage_append _ (u32ToLeBytes_length _)]
  intro hmark
  have hread := u32FromLeBytes_toLeBytes
    (UInt32.ofNat (bucketSize plaintext.length-plaintext.length))
  have hvalue : (u32FromLeBytes marker).toNat = 2^32-1 := by decide
  rw [hmark] at hread
  rw [← hread, hvalue] at hpad
  simp only [PAD_LEN_BYTES, MAX_BUCKET] at hle
  omega

/-- The dummy of a size is told apart, and not unpadded. -/
def DummyDiscarded (random : Fill) (size : Usize) : Prop :=
  ∃ dummy, generateDummyMessage random size = some dummy ∧ isDummyMessage dummy = true ∧
    ∃ e, unpadMessage dummy = .error e

def CoverSeparate : Prop :=
  (∀ fill plaintext padded, padMessage fill plaintext = .ok padded →
    isDummyMessage padded = false) ∧ ∀ random size, DummyDiscarded random size

/-- The marker is no padding length exactly in messages shorter than it. -/
theorem unpadMessage_marker (front : List UInt8) :
    (∃ e, unpadMessage (front++marker) = .error e) ↔ (front++marker).length < 2^32-1 := by
  have hvalue : (u32FromLeBytes marker).toNat = 2^32-1 := by decide
  rw [unpadMessage_append front rfl, hvalue, PAD_LEN_BYTES]
  split
  · exact iff_of_true ⟨_,rfl⟩ (by omega)
  · refine iff_of_false ?_ (by omega)
    rintro ⟨e,he⟩
    cases he

/-- Real messages are never taken for dummies. A dummy, wherever one can be
allocated, is told apart; it is not unpadded exactly below 2^32-1 bytes. -/
theorem cover_separate_iff (random : Fill) (size : Usize) :
    (∀ fill plaintext padded, padMessage fill plaintext = .ok padded →
      isDummyMessage padded = false) ∧
    (∀ dummy, generateDummyMessage random size = some dummy → isDummyMessage dummy = true) ∧
    (DummyDiscarded random size ↔ size.toNat < 2^32-1) := by
  have hmark : ∀ front, isDummyMessage (front++marker) = true := fun front =>
    (isDummyMessage_append front rfl).mpr rfl
  refine ⟨fun _ _ _ => padded_not_dummy,fun dummy h => ?_,?_⟩
  · rcases Nat.lt_or_ge ISIZE_MAX (toNat size) with hlarge | hroom
    · rw [generateDummyMessage_none random hlarge] at h
      contradiction
    · obtain ⟨front,heq,-⟩ := generateDummyMessage_eq random hroom
      rw [heq] at h
      rw [← Option.some.inj h]
      exact hmark front
  · show DummyDiscarded random size ↔ toNat size < 2^32-1
    rcases Nat.lt_or_ge ISIZE_MAX (toNat size) with hlarge | hroom
    · refine iff_of_false ?_ ?_
      · rintro ⟨dummy,hgen,-⟩
        rw [generateDummyMessage_none random hlarge] at hgen
        contradiction
      · rw [ISIZE_MAX] at hlarge
        omega
    · obtain ⟨front,heq,hlen⟩ := generateDummyMessage_eq random hroom
      have hshort : (front++marker).length < 2^32-1 ↔ toNat size < 2^32-1 := by
        rw [hlen, MIN_BUCKET]
        omega
      rw [← hshort, ← unpadMessage_marker]
      constructor
      · rintro ⟨dummy,hgen,-,herr⟩
        obtain rfl := Option.some.inj (heq.symm.trans hgen)
        exact herr
      · exact fun herr => ⟨_,heq,hmark front,herr⟩

/-- A dummy of 2^32-1 bytes passes the length check of `unpad_message`. -/
theorem dummy_unpadded : ¬CoverSeparate := by
  rintro ⟨-,hdummy⟩
  obtain ⟨front,heq,hlen⟩ := @generateDummyMessage_eq (fun n => Vector.replicate n 0) 0xFFFFFFFF
    (by decide)
  obtain ⟨dummy,hgen,-,herr⟩ := hdummy (fun n => Vector.replicate n 0) 0xFFFFFFFF
  obtain rfl := Option.some.inj (heq.symm.trans hgen)
  rw [unpadMessage_marker, hlen] at herr
  exact absurd herr (by decide)

end Vaultex.Padding
