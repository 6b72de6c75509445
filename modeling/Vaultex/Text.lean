import Mathlib.Algebra.Group.Nat.Defs
import Mathlib.Data.List.Infix
import Mathlib.Data.Nat.Notation

/-!
# Strings and their bytes

`String::as_bytes`, `String::from_utf8` and the character class that hex
texts are checked against.
-/

set_option autoImplicit false

namespace Vaultex.Text

/-- What can be decoded was encoded from one value. -/
theorem eq_of_decode {α β : Type} {encode : α → β} {decode : β → Option α}
    (hdecode : ∀ a, decode (encode a) = some a) {a b : α} (h : encode a = encode b) : a = b := by
  have ha := hdecode a
  rw [h, hdecode b] at ha
  exact (Option.some.inj ha).symm

def utf8 (s : String) : List UInt8 := s.toList.flatMap String.utf8EncodeChar

def fromUtf8 (bytes : List UInt8) : Option String := String.fromUTF8? bytes.toByteArray

@[simp] theorem utf8_append (s t : String) : utf8 (s++t) = utf8 s++utf8 t := by
  simp [utf8]

theorem utf8_toByteArray (s : String) : (utf8 s).toByteArray = s.toByteArray := by
  rw [← String.utf8Encode_toList]
  rfl

theorem fromUtf8_utf8 (s : String) : fromUtf8 (utf8 s) = some s := by
  rw [fromUtf8, utf8_toByteArray, String.fromUTF8?, dif_pos s.isValidUTF8]
  rfl

theorem fromUtf8_some {bytes : List UInt8} {s : String} (h : fromUtf8 bytes = some s) :
    utf8 s = bytes := by
  rw [fromUtf8, String.fromUTF8?] at h
  split at h
  · have hbytes : s.toByteArray = bytes.toByteArray := by
      rw [← Option.some.inj h]
      rfl
    rw [← utf8_toByteArray] at hbytes
    exact List.toByteArray_inj.mp hbytes
  · cases h

theorem utf8_inj {s t : String} (h : utf8 s = utf8 t) : s = t := eq_of_decode fromUtf8_utf8 h

/-- The ranges of the bytes that must follow the first byte of a longer sequence. -/
def utf8Follow (first : UInt8) : List (UInt8 × UInt8) :=
  if 0xC2 ≤ first ∧ first ≤ 0xDF then [(0x80,0xBF)]
  else if first = 0xE0 then [(0xA0,0xBF),(0x80,0xBF)]
  else if first = 0xED then [(0x80,0x9F),(0x80,0xBF)]
  else if 0xE1 ≤ first ∧ first ≤ 0xEF then [(0x80,0xBF),(0x80,0xBF)]
  else if first = 0xF0 then [(0x90,0xBF),(0x80,0xBF),(0x80,0xBF)]
  else if 0xF1 ≤ first ∧ first ≤ 0xF3 then [(0x80,0xBF),(0x80,0xBF),(0x80,0xBF)]
  else if first = 0xF4 then [(0x80,0x8F),(0x80,0xBF),(0x80,0xBF)]
  else []

/-- `Utf8Error`: the end of the valid part, and the length of the bad sequence
unless the input ends in it. The current sequence begins at `start`. -/
def utf8Error (start index : ℕ) (pending : List (UInt8 × UInt8)) :
    List UInt8 → Option (ℕ × Option ℕ)
  | [] => if pending.isEmpty then none else some (start, none)
  | b::bytes =>
    match pending with
    | (lo,hi)::pending =>
      if lo ≤ b ∧ b ≤ hi then
        utf8Error (if pending.isEmpty then index+1 else start) (index+1) pending bytes
      else some (start, some (index-start))
    | [] =>
      if b < 0x80 then utf8Error (index+1) (index+1) [] bytes
      else if (utf8Follow b).isEmpty then some (index, some 1)
      else utf8Error index (index+1) (utf8Follow b) bytes

def utf8ErrorText (bytes : List UInt8) : String :=
  match utf8Error 0 0 [] bytes with
  | some (index, some len) => s!"invalid utf-8 sequence of {len} bytes from index {index}"
  | some (index, none) => s!"incomplete utf-8 byte sequence from index {index}"
  | none => ""

def isAsciiHexdigit (c : Char) : Bool :=
  ('0' ≤ c && c ≤ '9') || ('a' ≤ c && c ≤ 'f') || ('A' ≤ c && c ≤ 'F')

def toAsciiLowercase (s : String) : String := String.ofList (s.toList.map Char.toLower)

theorem utf8Size_hexdigit {c : Char} (h : isAsciiHexdigit c) : c.utf8Size = 1 := by
  rw [Char.utf8Size_eq_one_iff]
  simp only [isAsciiHexdigit, Bool.or_eq_true, Bool.and_eq_true, decide_eq_true_eq,
    Char.le_def] at h
  rcases h with (⟨-,h⟩ | ⟨-,h⟩) | ⟨-,h⟩ <;> exact Nat.le_trans h (by decide)

theorem length_flatMap_one {α β : Type} {f : α → List β} {as : List α}
    (h : ∀ a ∈ as, (f a).length = 1) : (as.flatMap f).length = as.length := by
  induction as with
  | nil => rfl
  | cons a as ih =>
    rw [List.flatMap_cons, List.length_append, h a (by simp), ih fun b hb => h b (by simp [hb]),
      List.length_cons, Nat.add_comm]

/-- A text of ASCII hex digits has one byte for each digit. -/
theorem utf8_length_hexdigits {s : String} (h : s.toList.all isAsciiHexdigit) :
    (utf8 s).length = s.length := by
  rw [← String.length_toList]
  apply length_flatMap_one
  intro c hc
  rw [String.length_utf8EncodeChar, utf8Size_hexdigit (List.all_eq_true.mp h c hc)]

def startsWith (s start : String) : Bool := start.toList.isPrefixOf s.toList

def contains (s part : String) : Bool := s.toList.tails.any part.toList.isPrefixOf

theorem startsWith_iff {s start : String} : startsWith s start ↔ ∃ rest, s = start++rest := by
  rw [startsWith, List.isPrefixOf_iff_prefix]
  constructor
  · rintro ⟨rest,hrest⟩
    exact ⟨String.ofList rest,String.toList_inj.mp (by simp [hrest])⟩
  · rintro ⟨rest,rfl⟩
    rw [String.toList_append]
    exact List.prefix_append _ _

theorem contains_iff {s part : String} :
    contains s part ↔ ∃ before after, s = before++part++after := by
  simp only [contains, List.any_eq_true, List.mem_tails, List.isPrefixOf_iff_prefix]
  constructor
  · rintro ⟨tail,⟨before,hbefore⟩,⟨after,rfl⟩⟩
    exact ⟨String.ofList before,String.ofList after,String.toList_inj.mp (by simp [hbefore])⟩
  · rintro ⟨before,after,rfl⟩
    simp only [String.toList_append, List.append_assoc]
    exact ⟨_,List.suffix_append _ _,List.prefix_append _ _⟩

/-- The Unicode property `White_Space`. -/
def isWhitespace (c : Char) : Bool :=
  (9 ≤ c.toNat && c.toNat ≤ 13) || (0x2000 ≤ c.toNat && c.toNat ≤ 0x200A) ||
    [0x20,0x85,0xA0,0x1680,0x2028,0x2029,0x202F,0x205F,0x3000].contains c.toNat

def trim (s : String) : String :=
  String.ofList ((s.toList.dropWhile isWhitespace).reverse.dropWhile isWhitespace).reverse

theorem trim_eq_self {s : String} (h : ∀ c ∈ s.toList, isWhitespace c = false) : trim s = s := by
  have hdrop : ∀ cs : List Char, (∀ c ∈ cs, isWhitespace c = false) →
      cs.dropWhile isWhitespace = cs := by
    intro cs hcs
    cases cs with
    | nil => rfl
    | cons c cs => rw [List.dropWhile_cons, hcs c (by simp), if_neg Bool.false_ne_true]
  rw [trim, hdrop _ h, hdrop _ (by simpa using h), List.reverse_reverse, String.ofList_toList]

/-- `u64` through `Display`. -/
def u64Text (n : UInt64) : String := n.toNat.repr

/-- `u64::from_str`: an optional plus sign, then decimal digits whose value fits. -/
def parseU64 (s : String) : Option UInt64 :=
  let digits := match s.toList with
    | '+'::rest => rest
    | cs => cs
  if digits.isEmpty then none
  else if digits.all Char.isDigit then
    let n := Nat.ofDigitChars 10 digits 0
    if n < 2^64 then some (UInt64.ofNat n) else none
  else none

theorem u64Text_toList (n : UInt64) : (u64Text n).toList = Nat.toDigits 10 n.toNat :=
  Nat.toList_repr

theorem u64Text_digits {n : UInt64} {c : Char} (h : c ∈ (u64Text n).toList) : c.isDigit := by
  rw [u64Text_toList] at h
  exact Nat.isDigit_of_mem_toDigits (by decide) (by decide) h

theorem parseU64_u64Text (n : UInt64) : parseU64 (u64Text n) = some n := by
  have hdigits : (u64Text n).toList.all Char.isDigit :=
    List.all_eq_true.mpr fun c hc => u64Text_digits hc
  have hstrip : (match (u64Text n).toList with
      | '+'::rest => rest
      | cs => cs) = (u64Text n).toList := by
    split
    · rename_i rest hrest
      have hplus : '+' ∈ (u64Text n).toList := by simp [hrest]
      exact absurd (u64Text_digits hplus) (by decide)
    · rfl
  have hne : ¬(u64Text n).toList.isEmpty := by
    rw [u64Text_toList]
    simp
  have hvalue : Nat.ofDigitChars 10 (u64Text n).toList 0 = n.toNat := by
    rw [u64Text_toList, Nat.ofDigitChars_toDigits (by decide) (by decide)]
  simp only [parseU64]
  rw [hstrip, if_neg hne, if_pos hdigits, hvalue, if_pos n.toNat_lt, UInt64.ofNat_toNat]

theorem u64Text_inj {n n' : UInt64} (h : u64Text n = u64Text n') : n = n' :=
  eq_of_decode parseU64_u64Text h

/-- A list is cut at the first of its separators in one way. -/
theorem split_first {α : Type} {a : α} {xs xs' ys ys' : List α} (hx : a ∉ xs) (hx' : a ∉ xs')
    (h : xs++a::ys = xs'++a::ys') : xs = xs' ∧ ys = ys' := by
  induction xs generalizing xs' with
  | nil =>
    cases xs' with
    | nil => simpa using h
    | cons b xs' =>
      rw [List.nil_append, List.cons_append, List.cons.injEq] at h
      exact absurd (by simp [h.1]) hx'
  | cons b xs ih =>
    cases xs' with
    | nil =>
      rw [List.nil_append, List.cons_append, List.cons.injEq] at h
      exact absurd (by simp [h.1]) hx
    | cons b' xs' =>
      rw [List.cons_append, List.cons_append, List.cons.injEq] at h
      obtain ⟨hxs,hys⟩ := ih (fun ha => hx (by simp [ha])) (fun ha => hx' (by simp [ha])) h.2
      exact ⟨by rw [h.1, hxs],hys⟩

/-- And at the last of them. -/
theorem split_last {α : Type} {a : α} {xs xs' ys ys' : List α} (hy : a ∉ ys) (hy' : a ∉ ys')
    (h : xs++a::ys = xs'++a::ys') : xs = xs' ∧ ys = ys' := by
  have hrev := congrArg List.reverse h
  simp only [List.reverse_append, List.reverse_cons, List.append_assoc, List.singleton_append]
    at hrev
  obtain ⟨hys,hxs⟩ := split_first (by simpa using hy) (by simpa using hy') hrev
  exact ⟨List.reverse_injective hxs,List.reverse_injective hys⟩

/-- Four fields joined by a separator that only the second of them may contain. -/
theorem fields_inj {α : Type} {a : α} {ws ws' xs xs' ys ys' zs zs' : List α} (hw : a ∉ ws)
    (hw' : a ∉ ws') (hy : a ∉ ys) (hy' : a ∉ ys') (hz : a ∉ zs) (hz' : a ∉ zs')
    (h : ws++a::(xs++a::(ys++a::zs)) = ws'++a::(xs'++a::(ys'++a::zs'))) :
    ws = ws' ∧ xs = xs' ∧ ys = ys' ∧ zs = zs' := by
  obtain ⟨hws,hrest⟩ := split_first hw hw' h
  have hregroup : (xs++a::ys)++a::zs = (xs'++a::ys')++a::zs' := by simpa using hrest
  obtain ⟨hfront,hzs⟩ := split_last hz hz' hregroup
  obtain ⟨hxs,hys⟩ := split_last hy hy' hfront
  exact ⟨hws,hxs,hys,hzs⟩

end Vaultex.Text
