import Vaultex.Padding
import Vaultex.Serde

/-!
# The payload inside the ratchet ciphertext

`message_payload.rs`. The encoder fills in a placeholder for an absent group
identifier; the decoder takes it out again and checks the shape of any other.
-/

set_option autoImplicit false

namespace Vaultex
open Text Padding

namespace MessagePayload

def GROUP_ID_PLACEHOLDER : String :=
  "0000000000000000000000000000000000000000000000000000000000000000"

def GROUP_ID_LEN : ℕ := 64

end MessagePayload

structure Attachment where
  mediaId : String
  fileName : String
  mimeType : String
  fileSize : UInt64
  fileKeyHex : String
  thumbnailBase64 : Option String
  deriving DecidableEq

structure MessagePayload where
  body : String
  ttlSeconds : Option UInt32
  groupId : Option String
  mediaType : Option String
  attachment : Option Attachment
  deriving DecidableEq

/-- `skip_serializing_if = "Option::is_none"`. -/
def optionalField {α : Type} (name : String) (toJson : α → Json) (a : Option α) :
    List (String × Json) :=
  (a.map fun v => (name,toJson v)).toList

/-- The derived `Serialize`. -/
def Attachment.toJson (a : Attachment) : Json :=
  .object <|
    [("media_id",.string a.mediaId), ("file_name",.string a.fileName),
      ("mime_type",.string a.mimeType), ("file_size",.number a.fileSize.toNat),
      ("file_key_hex",.string a.fileKeyHex)]
    ++optionalField "thumbnail_base64" .string a.thumbnailBase64

namespace MessagePayload

/-- The fields that `Serialize` writes, in order. -/
def fields (p : MessagePayload) : List (String × Json) :=
  [("body",.string p.body)]
    ++optionalField "ttl_seconds" (fun n : UInt32 => .number n.toNat) p.ttlSeconds
    ++optionalField "group_id" .string p.groupId
    ++optionalField "media_type" .string p.mediaType
    ++optionalField "attachment" Attachment.toJson p.attachment

def toJson (p : MessagePayload) : Json := .object p.fields

def normalizeGroupId (p : MessagePayload) : MessagePayload × Result Unit :=
  match p.groupId with
  | none => (p, .ok ())
  | some id =>
    if id = GROUP_ID_PLACEHOLDER then ({p with groupId := none}, .ok ())
    else if id.isEmpty then ({p with groupId := none}, .ok ())
    else if id.utf8ByteSize = GROUP_ID_LEN ∧ id.toList.all isAsciiHexdigit then (p, .ok ())
    else (p, .error (.serializationError
      s!"invalid group_id: expected {GROUP_ID_LEN}-char hex, got {id.utf8ByteSize} chars"))

variable (S : Serde MessagePayload) (fill : Fill)

def toPaddedBytes (p : MessagePayload) : Result (List UInt8) :=
  let onWire := if p.groupId.isNone then {p with groupId := some GROUP_ID_PLACEHOLDER} else p
  match S.toVec onWire with
  | .error e => .error (.serializationError e)
  | .ok json => padMessage fill json

def fromPaddedBytes (padded : List UInt8) : Result MessagePayload :=
  match unpadMessage padded with
  | .error e => .error e
  | .ok unpadded =>
    match S.fromSlice unpadded with
    | .error e => .error (.serializationError e)
    | .ok payload =>
      match payload.normalizeGroupId with
      | (payload, .ok ()) => .ok payload
      | (_, .error e) => .error e

/-- A group identifier the decoder lets through as it is. -/
structure RealGroupId (id : String) : Prop where
  not_placeholder : id ≠ GROUP_ID_PLACEHOLDER
  length_eq : id.utf8ByteSize = GROUP_ID_LEN
  hex : id.toList.all isAsciiHexdigit

/-- The payload as it is serialized. -/
def onWire (p : MessagePayload) : MessagePayload :=
  {p with groupId := some (p.groupId.getD GROUP_ID_PLACEHOLDER)}

theorem toPaddedBytes_eq (p : MessagePayload) :
    toPaddedBytes S fill p =
      match S.toVec p.onWire with
      | .error e => .error (.serializationError e)
      | .ok json => padMessage fill json := by
  obtain ⟨body,ttl,groupId,mediaType,attachment⟩ := p
  cases groupId <;> rfl

variable {S fill}

theorem toPaddedBytes_ok {p : MessagePayload} {padded : List UInt8}
    (h : toPaddedBytes S fill p = .ok padded) :
    ∃ json, S.toVec p.onWire = .ok json ∧ padMessage fill json = .ok padded := by
  rw [toPaddedBytes_eq] at h
  split at h
  · cases h
  · rename_i json hjson
    exact ⟨json,hjson,h⟩

/-- The decoder sees the payload that was serialized, and only its check of
the group identifier is left. -/
theorem fromPaddedBytes_toPaddedBytes (hS : S.Lossless) {p : MessagePayload}
    {padded : List UInt8} (h : toPaddedBytes S fill p = .ok padded) :
    fromPaddedBytes S padded =
      match p.onWire.normalizeGroupId with
      | (payload, .ok ()) => .ok payload
      | (_, .error e) => .error e := by
  obtain ⟨json,hjson,hpad⟩ := toPaddedBytes_ok h
  simp only [fromPaddedBytes, unpadMessage_padMessage hpad, hS _ _ hjson]

theorem RealGroupId.not_empty {id : String} (h : RealGroupId id) : ¬id.isEmpty := by
  intro hempty
  have hlen := h.length_eq
  rw [String.isEmpty_iff.mp hempty] at hlen
  exact absurd hlen (by decide)

theorem normalizeGroupId_real {p : MessagePayload} {id : String} (hp : p.groupId = some id)
    (h : RealGroupId id) : p.normalizeGroupId = (p, .ok ()) := by
  simp only [normalizeGroupId, hp]
  rw [if_neg h.not_placeholder, if_neg h.not_empty, if_pos ⟨h.length_eq,h.hex⟩]

theorem normalizeGroupId_absent {p : MessagePayload} {id : String} (hp : p.groupId = some id)
    (h : id = GROUP_ID_PLACEHOLDER ∨ id = "") :
    p.normalizeGroupId = ({p with groupId := none}, .ok ()) := by
  simp only [normalizeGroupId, hp]
  rcases h with rfl | rfl
  · exact if_pos rfl
  · rfl

theorem normalizeGroupId_malformed {p : MessagePayload} {id : String} (hp : p.groupId = some id)
    (hplace : id ≠ GROUP_ID_PLACEHOLDER) (hempty : id ≠ "") (h : ¬RealGroupId id) :
    p.normalizeGroupId = (p, .error (.serializationError
      s!"invalid group_id: expected {GROUP_ID_LEN}-char hex, got {id.utf8ByteSize} chars")) := by
  simp only [normalizeGroupId, hp]
  rw [if_neg hplace, if_neg (by simpa using hempty), if_neg fun hreal => h ⟨hplace,hreal.1,hreal.2⟩]

/-- What the decoder makes of every payload the encoder emits: the group
identifier decides, by the three cases of its check. -/
theorem padded_decodes (hS : S.Lossless) {p : MessagePayload} {padded : List UInt8}
    (h : toPaddedBytes S fill p = .ok padded) :
    ((p.groupId = none ∨ ∃ id, p.groupId = some id ∧ RealGroupId id) →
      fromPaddedBytes S padded = .ok p) ∧
    (∀ id, p.groupId = some id → id = GROUP_ID_PLACEHOLDER ∨ id = "" →
      fromPaddedBytes S padded = .ok {p with groupId := none}) ∧
    (∀ id, p.groupId = some id → id ≠ GROUP_ID_PLACEHOLDER → id ≠ "" → ¬RealGroupId id →
      fromPaddedBytes S padded = .error (.serializationError
        s!"invalid group_id: expected {GROUP_ID_LEN}-char hex, got {id.utf8ByteSize} chars")) := by
  have hdecode := fromPaddedBytes_toPaddedBytes hS h
  have hwire : ∀ {id}, p.groupId = some id → p.onWire = p := by
    intro id hid
    rw [onWire, hid, Option.getD_some, ← hid]
  constructor
  · rintro (hnone | ⟨id,hid,hreal⟩)
    · have hplace : p.onWire.groupId = some GROUP_ID_PLACEHOLDER := by
        rw [onWire, hnone, Option.getD_none]
      rw [hdecode, normalizeGroupId_absent hplace (.inl rfl)]
      show Except.ok {p with groupId := none} = Except.ok p
      rw [← hnone]
    · rw [hdecode, hwire hid, normalizeGroupId_real hid hreal]
  · constructor
    · intro id hid habsent
      rw [hdecode, hwire hid, normalizeGroupId_absent hid habsent]
    · intro id hid hplace hempty hreal
      rw [hdecode, hwire hid, normalizeGroupId_malformed hid hplace hempty hreal]

def sampleGroupId : String :=
  "0123456789abcdef0123456789abcdef0123456789abcdef0123456789abcdef"

def sampleIn (id : String) : MessagePayload := ⟨"hi",none,some id,none,none⟩

def sampleDocument (id : String) : String :=
  "\x7b\"body\":\"hi\",\"group_id\":\""++id++"\"\x7d"

def sampleSerde : Serde MessagePayload :=
  .table <| [sampleGroupId,GROUP_ID_PLACEHOLDER,"","not-hex"].map fun id =>
    (sampleIn id,sampleDocument id)

theorem sampleSerde_lossless : sampleSerde.Lossless := Serde.table_lossless (by decide)

def zeroFill : Fill := fun n => Vector.replicate n 0

theorem sample_padded {id : String}
    (h : sampleSerde.toVec (sampleIn id) = .ok (utf8 (sampleDocument id))) :
    ∃ padded, toPaddedBytes sampleSerde zeroFill (sampleIn id) = .ok padded := by
  have hwire : (sampleIn id).onWire = sampleIn id := rfl
  rw [toPaddedBytes_eq, hwire, h]
  exact ⟨_,padMessage_eq _ _⟩

theorem padded_decodes_group : ∃ padded,
    toPaddedBytes sampleSerde zeroFill (sampleIn sampleGroupId) = .ok padded ∧
    fromPaddedBytes sampleSerde padded = .ok (sampleIn sampleGroupId) := by
  have hjson : sampleSerde.toVec (sampleIn sampleGroupId) =
      .ok (utf8 (sampleDocument sampleGroupId)) := rfl
  obtain ⟨padded,h⟩ := sample_padded hjson
  exact ⟨padded,h,(padded_decodes sampleSerde_lossless h).1
    (.inr ⟨sampleGroupId,rfl,by decide,by decide,by decide⟩)⟩

/-- Three payloads that are emitted and not recovered: the empty identifier
and the placeholder are dropped, any other text fails the decoder's check. -/
theorem padded_not_recovered :
    sampleSerde.Lossless ∧ ∀ id ∈ ["",GROUP_ID_PLACEHOLDER,"not-hex"], ∃ padded,
      toPaddedBytes sampleSerde zeroFill (sampleIn id) = .ok padded ∧
      fromPaddedBytes sampleSerde padded ≠ .ok (sampleIn id) := by
  have hfails : ∀ id, sampleSerde.toVec (sampleIn id) = .ok (utf8 (sampleDocument id)) →
      (∀ q, (sampleIn id).onWire.normalizeGroupId = (q,.ok ()) → q ≠ sampleIn id) →
      ∃ padded, toPaddedBytes sampleSerde zeroFill (sampleIn id) = .ok padded ∧
        fromPaddedBytes sampleSerde padded ≠ .ok (sampleIn id) := by
    intro id hjson hne
    obtain ⟨padded,h⟩ := sample_padded hjson
    refine ⟨padded,h,?_⟩
    rw [fromPaddedBytes_toPaddedBytes sampleSerde_lossless h]
    split
    · rename_i q hq
      simpa using hne q hq
    · simp
  constructor
  · exact sampleSerde_lossless
  · intro id hid
    simp only [List.mem_cons, List.not_mem_nil, or_false] at hid
    rcases hid with rfl | rfl | rfl
    · exact hfails _ rfl (by rintro q ⟨⟩; decide)
    · exact hfails _ rfl (by rintro q ⟨⟩; decide)
    · exact hfails _ rfl (by rintro q ⟨⟩)

/-- A plain conversation, or a group named by 64 hex digits. -/
def DmOrGroup (groupId : Option String) : Prop :=
  ∀ id, groupId = some id → id.length = GROUP_ID_LEN ∧ id.toList.all isAsciiHexdigit

/-- On the wire both kinds carry 64 hex digits. -/
theorem DmOrGroup.getD {groupId : Option String} (h : DmOrGroup groupId) :
    (groupId.getD GROUP_ID_PLACEHOLDER).length = GROUP_ID_LEN ∧
      (groupId.getD GROUP_ID_PLACEHOLDER).toList.all isAsciiHexdigit := by
  cases groupId with
  | none => decide
  | some id => exact h id rfl

theorem groupId_text_length {text : Json → List UInt8} (hW : Json.Writer text)
    {groupId : Option String} (h : DmOrGroup groupId) :
    (text (.string (groupId.getD GROUP_ID_PLACEHOLDER))).length = GROUP_ID_LEN+2 := by
  rw [hW.hex _ h.getD.2, Json.quoted, List.length_append, List.length_append,
    utf8_length_hexdigits h.getD.2, h.getD.1]
  rfl

/-- The size seen on the wire is the same for a plain conversation and for
every group, whatever the rest of the payload and the fill are. -/
theorem padded_length_hides_group {text : Json → List UInt8} (hW : Json.Writer text)
    (hS : S.Writes text toJson) (p : MessagePayload) {groupId groupId' : Option String}
    (hg : DmOrGroup groupId) (hg' : DmOrGroup groupId') (fill fill' : Fill) :
    ∃ padded padded', toPaddedBytes S fill {p with groupId := groupId} = .ok padded ∧
      toPaddedBytes S fill' {p with groupId := groupId'} = .ok padded' ∧
      padded.length = padded'.length := by
  have hjson : (text ({p with groupId := groupId} : MessagePayload).onWire.toJson).length =
      (text ({p with groupId := groupId'} : MessagePayload).onWire.toJson).length := by
    rw [toJson, toJson, hW.object, hW.object]
    apply Json.objectText_length_congr
    simp only [fields, onWire, List.map_append, optionalField, Option.map_some,
      Option.toList_some, List.map_cons, Json.fieldText, List.length_append,
      groupId_text_length hW hg, groupId_text_length hW hg']
  rw [toPaddedBytes_eq, toPaddedBytes_eq, hS, hS]
  refine ⟨_,_,padMessage_eq _ _,padMessage_eq _ _,?_⟩
  rw [padMessage_length (padMessage_eq _ _), padMessage_length (padMessage_eq _ _), hjson]

def plainSerde : Serde MessagePayload where
  toVec p := .ok (Json.plainText p.toJson)
  fromSlice := sampleSerde.fromSlice

theorem padded_length_hides_group_hi : ∃ padded padded',
    toPaddedBytes plainSerde zeroFill ⟨"hi",none,none,none,none⟩ = .ok padded ∧
    toPaddedBytes plainSerde zeroFill (sampleIn sampleGroupId) = .ok padded' ∧
    padded.length = padded'.length := by
  have hdm : DmOrGroup none := by
    intro id h
    cases h
  have hgroup : DmOrGroup (some sampleGroupId) := by
    intro id h
    cases h
    decide
  exact padded_length_hides_group Json.plainText_writer (fun _ => rfl)
    ⟨"hi",none,none,none,none⟩ hdm hgroup zeroFill zeroFill

end MessagePayload
end Vaultex
