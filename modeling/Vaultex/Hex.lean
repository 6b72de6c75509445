import Vaultex.Text

/-!
# Hexadecimal texts

`hex::encode` and `hex::decode`: two lower-case digits a byte on the way
out, digits of either case on the way in.
-/

set_option autoImplicit false

namespace Vaultex.Hex
open Text

def digit (n : ℕ) : Char := if n < 10 then Char.ofNat (48+n) else Char.ofNat (87+n)

def value (c : Char) : Option ℕ :=
  if '0' ≤ c ∧ c ≤ '9' then some (c.toNat-48)
  else if 'a' ≤ c ∧ c ≤ 'f' then some (c.toNat-87)
  else if 'A' ≤ c ∧ c ≤ 'F' then some (c.toNat-55)
  else none

def digits (b : UInt8) : List Char := [digit (b.toNat/16), digit (b.toNat%16)]

def encode (bytes : List UInt8) : String := String.ofList (bytes.flatMap digits)

def decodeDigits : List Char → Option (List UInt8)
  | [] => some []
  | [_] => none
  | hi::lo::rest =>
    match value hi, value lo, decodeDigits rest with
    | some h, some l, some bytes => some (UInt8.ofNat (16*h+l)::bytes)
    | _, _, _ => none

def decode (text : String) : Option (List UInt8) := decodeDigits text.toList

theorem value_digit : ∀ n < 16, value (digit n) = some n := by decide

theorem digit_hexdigit : ∀ n < 16, isAsciiHexdigit (digit n) := by decide

theorem decodeDigits_digits (bytes : List UInt8) :
    decodeDigits (bytes.flatMap digits) = some bytes := by
  induction bytes with
  | nil => rfl
  | cons b bytes ih =>
    have hb := b.toNat_lt
    have hsum : 16*(b.toNat/16)+b.toNat%16 = b.toNat := by omega
    rw [List.flatMap_cons, digits, List.cons_append, List.cons_append, List.nil_append,
      decodeDigits, value_digit _ (by omega), value_digit _ (by omega), ih]
    simp only [hsum, UInt8.ofNat_toNat]

theorem decode_encode (bytes : List UInt8) : decode (encode bytes) = some bytes := by
  rw [decode, encode, String.toList_ofList, decodeDigits_digits]

theorem encode_inj {bytes bytes' : List UInt8} (h : encode bytes = encode bytes') :
    bytes = bytes' := eq_of_decode decode_encode h

theorem encode_hexdigits (bytes : List UInt8) : (encode bytes).toList.all isAsciiHexdigit := by
  rw [encode, String.toList_ofList, List.all_eq_true]
  intro c hc
  obtain ⟨b,-,hb⟩ := List.mem_flatMap.mp hc
  have hlt := b.toNat_lt
  rcases List.mem_pair.mp hb with rfl | rfl
  · exact digit_hexdigit _ (by omega)
  · exact digit_hexdigit _ (by omega)

theorem encode_length (bytes : List UInt8) : (encode bytes).length = 2*bytes.length := by
  rw [encode, String.length_ofList]
  induction bytes with
  | nil => rfl
  | cons b bytes ih =>
    rw [List.flatMap_cons, List.length_append, ih, List.length_cons]
    simp only [digits, List.length_cons, List.length_nil]
    omega

/-- What holds of the first 128 code points holds of every ASCII character. -/
@[elab_as_elim]
theorem forall_ascii {P : Char → Prop} (h : ∀ n < 128, P (Char.ofNat n)) (c : Char)
    (hc : c.toNat < 128) : P c := by
  rw [← Char.ofNat_toNat c]
  exact h c.toNat hc

theorem value_ascii : ∀ n < 128, isAsciiHexdigit (Char.ofNat n) →
    ∃ m < 16, value (Char.ofNat n) = some m ∧ digit m = (Char.ofNat n).toLower := by
  decide +kernel

theorem whitespace_ascii : ∀ n < 128, isAsciiHexdigit (Char.ofNat n) →
    isWhitespace (Char.ofNat n) = false := by
  decide +kernel

theorem hexdigit_ascii {c : Char} (h : isAsciiHexdigit c) : c.toNat < 128 :=
  Nat.lt_succ_of_le (Char.utf8Size_eq_one_iff.mp (utf8Size_hexdigit h))

theorem value_hexdigit {c : Char} (h : isAsciiHexdigit c) :
    ∃ m < 16, value c = some m ∧ digit m = c.toLower := by
  have hascii := hexdigit_ascii h
  revert h
  exact forall_ascii value_ascii c hascii

theorem hexdigit_not_whitespace {c : Char} (h : isAsciiHexdigit c) : isWhitespace c = false := by
  have hascii := hexdigit_ascii h
  revert h
  exact forall_ascii whitespace_ascii c hascii

theorem trim_encode (bytes : List UInt8) : trim (encode bytes) = encode bytes :=
  trim_eq_self fun c hc =>
    hexdigit_not_whitespace (List.all_eq_true.mp (encode_hexdigits bytes) c hc)

theorem digits_ofNat {hi lo : ℕ} (hhi : hi < 16) (hlo : lo < 16) :
    digits (UInt8.ofNat (16*hi+lo)) = [digit hi,digit lo] := by
  have hbyte : (UInt8.ofNat (16*hi+lo)).toNat = 16*hi+lo :=
    UInt8.toNat_ofNat_of_lt' (by simp only [UInt8.size]; omega)
  have hdiv : (16*hi+lo)/16 = hi := by omega
  have hmod : (16*hi+lo)%16 = lo := by omega
  rw [digits, hbyte, hdiv, hmod]

/-- Digits of either case are decoded, and encoded again in lower case. -/
theorem decodeDigits_hexdigits {cs : List Char} (h : cs.all isAsciiHexdigit) {n : ℕ}
    (hlen : cs.length = 2*n) :
    ∃ bytes, decodeDigits cs = some bytes ∧ bytes.length = n ∧
      bytes.flatMap digits = cs.map Char.toLower := by
  induction n generalizing cs with
  | zero =>
    rw [List.length_eq_zero_iff.mp hlen]
    exact ⟨[],rfl,rfl,rfl⟩
  | succ n ih =>
    match cs, hlen with
    | hi::lo::rest, hlen =>
      simp only [List.all_cons, Bool.and_eq_true] at h
      obtain ⟨hhi,hlo,hrest⟩ := h
      obtain ⟨m,hm,hvalue,hdigit⟩ := value_hexdigit hhi
      obtain ⟨k,hk,hvalue',hdigit'⟩ := value_hexdigit hlo
      obtain ⟨bytes,hdecode,hlength,hencode⟩ := ih hrest (by simp at hlen; omega)
      refine ⟨UInt8.ofNat (16*m+k)::bytes,?_,?_,?_⟩
      · rw [decodeDigits, hvalue, hvalue', hdecode]
      · rw [List.length_cons, hlength]
      · rw [List.flatMap_cons, digits_ofNat hm hk, hencode, hdigit, hdigit']
        rfl

/-- A text of hex digits, whatever their case, is read as the bytes that are
written as its lower-case form. -/
theorem decode_hexdigits {text : String} (h : text.toList.all isAsciiHexdigit) {n : ℕ}
    (hlen : text.length = 2*n) :
    ∃ bytes, decode text = some bytes ∧ bytes.length = n ∧
      encode bytes = toAsciiLowercase text := by
  obtain ⟨bytes,hdecode,hlength,hencode⟩ := decodeDigits_hexdigits h hlen
  exact ⟨bytes,hdecode,hlength,by rw [encode, hencode, toAsciiLowercase]⟩

theorem value_toLower_ascii : ∀ n < 128, value (Char.ofNat n).toLower = value (Char.ofNat n) := by
  decide +kernel

theorem value_toLower (c : Char) : value c.toLower = value c := by
  by_cases hupper : c.val ≥ 'A'.val ∧ c.val ≤ 'Z'.val
  · have hascii : c.toNat < 128 := Nat.lt_of_le_of_lt hupper.2 (by decide)
    exact forall_ascii value_toLower_ascii c hascii
  · exact congrArg value (dif_neg hupper)

theorem decodeDigits_toLower (cs : List Char) :
    decodeDigits (cs.map Char.toLower) = decodeDigits cs := by
  induction cs using decodeDigits.induct with
  | case1 => rfl
  | case2 c => rfl
  | case3 hi lo rest _ _ _ _ _ _ ih =>
    rw [List.map_cons, List.map_cons, decodeDigits, decodeDigits, value_toLower, value_toLower, ih]
  | case4 hi lo rest _ ih =>
    rw [List.map_cons, List.map_cons, decodeDigits, decodeDigits, value_toLower, value_toLower, ih]

theorem decode_toAsciiLowercase (text : String) :
    decode (toAsciiLowercase text) = decode text := by
  rw [decode, toAsciiLowercase, String.toList_ofList, decodeDigits_toLower, decode]

theorem hexdigit_of_value {c : Char} {n : ℕ} (h : value c = some n) : isAsciiHexdigit c := by
  by_contra hc
  simp only [isAsciiHexdigit, Bool.or_eq_true, Bool.and_eq_true, decide_eq_true_eq, not_or] at hc
  rw [value, if_neg hc.1.1, if_neg hc.1.2, if_neg hc.2] at h
  cases h

theorem decodeDigits_some {cs : List Char} {bytes : List UInt8}
    (h : decodeDigits cs = some bytes) :
    cs.all isAsciiHexdigit ∧ cs.length = 2*bytes.length := by
  induction cs using decodeDigits.induct generalizing bytes with
  | case1 =>
    rw [← Option.some.inj h]
    exact ⟨rfl,rfl⟩
  | case2 c => cases h
  | case3 hi lo rest m n tail hdecode hvalue' hvalue ih =>
    rw [decodeDigits, hvalue, hvalue', hdecode] at h
    obtain ⟨hdigits,hlength⟩ := ih hdecode
    rw [← Option.some.inj h, List.all_cons, List.all_cons, hexdigit_of_value hvalue,
      hexdigit_of_value hvalue', hdigits]
    exact ⟨rfl,by simp only [List.length_cons]; omega⟩
  | case4 hi lo rest hnone ih =>
    rw [decodeDigits] at h
    split at h
    · rename_i m n tail hvalue hvalue' hdecode
      exact absurd hdecode (hnone m n tail hvalue hvalue')
    · cases h

/-- A text decodes to the bytes whose encoding it is, up to the case of its digits. -/
theorem decode_eq_some_iff {text : String} {bytes : List UInt8} :
    decode text = some bytes ↔ toAsciiLowercase text = encode bytes := by
  constructor
  · intro h
    obtain ⟨hdigits,hlength⟩ := decodeDigits_some h
    obtain ⟨bytes',hdecode,-,hencode⟩ := decode_hexdigits hdigits
      (by rw [← String.length_toList, hlength])
    rw [← hencode, Option.some.inj (h.symm.trans hdecode)]
  · intro h
    rw [← decode_toAsciiLowercase, h, decode_encode]

end Vaultex.Hex
