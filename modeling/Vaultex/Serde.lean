import Vaultex.Text
import Mathlib.Data.List.Nodup
import Mathlib.Logic.Encodable.Basic

/-!
# JSON serialization

`serde_json` for one type at a time, its errors being their texts. What a
result needs of it is a hypothesis: that reading inverts writing, or that an
object is written as its fields one after another.
-/

set_option autoImplicit false

namespace Vaultex
open Text

structure Serde (α : Type) where
  toVec : α → Except String (List UInt8)
  fromSlice : List UInt8 → Except String α

/-- The values the serialized types are made of. -/
inductive Json where
  | string (s : String)
  | number (n : ℕ)
  | object (fields : List (String × Json))

namespace Serde
variable {α : Type}

def Lossless (S : Serde α) : Prop :=
  ∀ a bytes, S.toVec a = .ok bytes → S.fromSlice bytes = .ok a

/-- Every value is written, and read back as it was. -/
def Faithful (S : Serde α) : Prop :=
  ∀ a, ∃ bytes, S.toVec a = .ok bytes ∧ S.fromSlice bytes = .ok a

theorem Faithful.lossless {S : Serde α} (h : S.Faithful) : S.Lossless := by
  intro a bytes hto
  obtain ⟨written,hwritten,hread⟩ := h a
  obtain rfl := Except.ok.inj (hto.symm.trans hwritten)
  exact hread

/-- Every value is written, as the JSON its derived `Serialize` stands for. -/
def Writes (S : Serde α) (text : Json → List UInt8) (toJson : α → Json) : Prop :=
  ∀ a, S.toVec a = .ok (text (toJson a))

variable [DecidableEq α]

/-- A format that knows the listed values, each with its own document. -/
def table (docs : List (α × String)) : Serde α where
  toVec a := match docs.find? (fun d => d.1 = a) with
    | some d => .ok (utf8 d.2)
    | none => .error "unknown value"
  fromSlice bytes := match docs.find? (fun d => utf8 d.2 = bytes) with
    | some d => .ok d.1
    | none => .error "unknown document"

theorem table_toVec {docs : List (α × String)} (h : (docs.map Prod.fst).Nodup) {d : α × String}
    (hd : d ∈ docs) : (table docs).toVec d.1 = .ok (utf8 d.2) := by
  simp only [table]
  split
  · rename_i d' hd'
    have hmem : d' ∈ docs := List.mem_of_find?_eq_some hd'
    have hfst : d'.1 = d.1 := by simpa using List.find?_some hd'
    rw [List.inj_on_of_nodup_map h hmem hd hfst]
  · rename_i hnone
    have hne := List.find?_eq_none.mp hnone d hd
    simp at hne

theorem table_lossless {docs : List (α × String)} (h : (docs.map Prod.snd).Nodup) :
    (table docs).Lossless := by
  intro a bytes hto
  simp only [table] at hto
  split at hto
  · rename_i d hd
    have hmem : d ∈ docs := List.mem_of_find?_eq_some hd
    have ha : d.1 = a := by simpa using List.find?_some hd
    have hbytes : utf8 d.2 = bytes := Except.ok.inj hto
    simp only [table]
    split
    · rename_i d' hd'
      have hmem' : d' ∈ docs := List.mem_of_find?_eq_some hd'
      have htext : utf8 d'.2 = bytes := by simpa using List.find?_some hd'
      have hsame : d' = d := List.inj_on_of_nodup_map h hmem' hmem
        (utf8_inj (htext.trans hbytes.symm))
      rw [hsame, ha]
    · rename_i hnone
      exact absurd hbytes (by simpa using List.find?_eq_none.mp hnone d hmem)
  · cases hto

/-- A document for each of the listed values, and for any other its code in unary. -/
def catalogue [Encodable α] (docs : List (α × String)) : Serde α where
  toVec a := match (table docs).toVec a with
    | .ok bytes => .ok bytes
    | .error _ => .ok (List.replicate (Encodable.encode a) 0)
  fromSlice bytes := match (table docs).fromSlice bytes with
    | .ok a => .ok a
    | .error e => match Encodable.decode bytes.length with
      | some a => .ok a
      | none => .error e

theorem catalogue_faithful [Encodable α] {docs : List (α × String)}
    (h : (docs.map Prod.snd).Nodup) (hdocs : ∀ d ∈ docs, ∃ rest, d.2 = "\x7b"++rest) :
    (catalogue docs).Faithful := by
  intro a
  cases hto : (table docs).toVec a with
  | ok bytes =>
    refine ⟨bytes,by simp only [catalogue, hto],?_⟩
    simp only [catalogue, table_lossless h a bytes hto]
  | error e =>
    refine ⟨List.replicate (Encodable.encode a) 0,by simp only [catalogue, hto],?_⟩
    -- Every document opens with a brace, so the code is what is read.
    have hfrom : (table docs).fromSlice (List.replicate (Encodable.encode a) 0) =
        .error "unknown document" := by
      simp only [table]
      rw [List.find?_eq_none.mpr]
      intro d hd
      obtain ⟨rest,hrest⟩ := hdocs d hd
      rw [hrest, utf8_append, decide_eq_true_eq]
      intro hzero
      have hbrace : (0x7b : UInt8) ∈ List.replicate (Encodable.encode a) 0 :=
        hzero ▸ List.mem_append_left _ (by decide)
      exact absurd (List.eq_of_mem_replicate hbrace) (by decide)
    simp only [catalogue, hfrom, List.length_replicate, Encodable.encodek]

end Serde

namespace Json

def quoted (s : String) : List UInt8 := utf8 "\""++utf8 s++utf8 "\""

section
variable (text : Json → List UInt8)

def fieldText (f : String × Json) : List UInt8 := quoted f.1++utf8 ":"++text f.2

def objectText (fields : List (String × Json)) : List UInt8 :=
  utf8 "\x7b"++(utf8 ",").intercalate (fields.map (fieldText text))++utf8 "\x7d"

/-- An object is the concatenation of its fields, and hex digits are written
verbatim between quotes. -/
structure Writer : Prop where
  object (fields : List (String × Json)) : text (.object fields) = objectText text fields
  hex (s : String) : s.toList.all isAsciiHexdigit → text (.string s) = quoted s

end

mutual

/-- A writer that escapes nothing. -/
def plainText : Json → List UInt8
  | .string s => quoted s
  | .number n => utf8 n.repr
  | .object fields => utf8 "\x7b"++(utf8 ",").intercalate (plainFields fields)++utf8 "\x7d"

def plainFields : List (String × Json) → List (List UInt8)
  | [] => []
  | (name,value)::fields => (quoted name++utf8 ":"++plainText value)::plainFields fields

end

theorem plainFields_eq (fields : List (String × Json)) :
    plainFields fields = fields.map (fieldText plainText) := by
  induction fields with
  | nil => simp [plainFields]
  | cons f fields ih => simp [plainFields, fieldText, ih]

theorem plainText_writer : Writer plainText where
  object fields := by rw [plainText, plainFields_eq, objectText]
  hex s _ := by rw [plainText]

variable {text : Json → List UInt8}

theorem length_intercalate_congr {sep : List UInt8} {xs ys : List (List UInt8)}
    (h : xs.map List.length = ys.map List.length) :
    (sep.intercalate xs).length = (sep.intercalate ys).length := by
  induction xs generalizing ys with
  | nil =>
    cases ys with
    | nil => rfl
    | cons y ys => simp at h
  | cons x xs ih =>
    cases ys with
    | nil => simp at h
    | cons y ys =>
      rw [List.map_cons, List.map_cons, List.cons.injEq] at h
      cases xs with
      | nil =>
        have hnil : ys = [] := by simpa using h.2.symm
        simpa [hnil] using h.1
      | cons x' xs =>
        cases ys with
        | nil => simp at h
        | cons y' ys =>
          rw [List.intercalate_cons_cons, List.intercalate_cons_cons, List.length_append,
            List.length_append, List.length_append, List.length_append, ih h.2, h.1]

/-- The length of an object depends on its fields only through theirs. -/
theorem objectText_length_congr {fields fields' : List (String × Json)}
    (h : fields.map (fun f => (fieldText text f).length) =
      fields'.map (fun f => (fieldText text f).length)) :
    (objectText text fields).length = (objectText text fields').length := by
  have hlengths : (fields.map (fieldText text)).map List.length =
      (fields'.map (fieldText text)).map List.length := by
    simpa [Function.comp_def] using h
  have hinner : ((utf8 ",").intercalate (fields.map (fieldText text))).length =
      ((utf8 ",").intercalate (fields'.map (fieldText text))).length :=
    length_intercalate_congr hlengths
  rw [objectText, objectText, List.length_append, List.length_append, List.length_append,
    List.length_append, hinner]

end Json
end Vaultex
