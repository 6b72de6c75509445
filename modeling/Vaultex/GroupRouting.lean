import Vaultex.Group
import Vaultex.MessagePayload

/-!
# Group identifiers in received payloads

A received payload names its group by 64 hex digits of either case. They are
always an identifier, but the text is the one the sender wrote: one group has
a name for each way of casing its letters.
-/

set_option autoImplicit false

namespace Vaultex.MessagePayload
open Text Padding

variable {S S' : Serde MessagePayload} {padded padded' : List UInt8} {p p' : MessagePayload}

theorem normalizeGroupId_ok {q : MessagePayload} (h : p.normalizeGroupId = (q,.ok ()))
    {id : String} (hid : q.groupId = some id) : RealGroupId id := by
  unfold normalizeGroupId at h
  split at h
  · rename_i hnone
    rw [← (Prod.mk.inj h).1, hnone] at hid
    contradiction
  · rename_i id' hid'
    split_ifs at h with hplace hempty hreal
    · rw [← (Prod.mk.inj h).1] at hid
      contradiction
    · rw [← (Prod.mk.inj h).1] at hid
      contradiction
    · rw [← (Prod.mk.inj h).1, hid'] at hid
      obtain rfl := Option.some.inj hid
      exact ⟨hplace,hreal.1,hreal.2⟩
    · simp at h

/-- What the decoder accepts names no group, or a real one. -/
theorem fromPaddedBytes_group (h : fromPaddedBytes S padded = .ok p) {id : String}
    (hid : p.groupId = some id) : RealGroupId id := by
  unfold fromPaddedBytes at h
  split at h
  · contradiction
  · split at h
    · contradiction
    · split at h
      · rename_i hq
        rw [Except.ok.inj h] at hq
        exact normalizeGroupId_ok hq hid
      · contradiction

theorem RealGroupId.length {id : String} (h : RealGroupId id) : id.length = 64 := by
  rw [← utf8_length_hexdigits h.hex]
  have hsize : id.utf8ByteSize = (utf8 id).length := by
    rw [← List.size_toByteArray, utf8_toByteArray]
    rfl
  rw [← hsize, h.length_eq]
  rfl

theorem RealGroupId.fromHex {id : String} (h : RealGroupId id) :
    ∃ g, GroupId.fromHex id = .ok g ∧ g.toHex = toAsciiLowercase id :=
  GroupId.fromHex_hexdigits h.hex h.length

/-- The group identifiers of two accepted payloads are the text of one group
exactly when they differ in nothing but letter case, and each is printed again
in lower case. -/
theorem group_ids_up_to_case (h : fromPaddedBytes S padded = .ok p)
    (h' : fromPaddedBytes S padded' = .ok p') :
    (∀ id, p.groupId = some id → RealGroupId id ∧
      ∃ g, GroupId.fromHex id = .ok g ∧ g.toHex = toAsciiLowercase id) ∧
    ∀ id id', p.groupId = some id → p'.groupId = some id' →
      (GroupId.fromHex id = GroupId.fromHex id' ↔ toAsciiLowercase id = toAsciiLowercase id') := by
  constructor
  · intro id hid
    have hreal := fromPaddedBytes_group h hid
    exact ⟨hreal,hreal.fromHex⟩
  · intro id id' hid hid'
    obtain ⟨g,hg,htext⟩ := (fromPaddedBytes_group h hid).fromHex
    obtain ⟨g',hg',htext'⟩ := (fromPaddedBytes_group h' hid').fromHex
    rw [hg, hg', ← htext, ← htext', Except.ok.injEq]
    exact ⟨congrArg GroupId.toHex,GroupId.toHex_inj⟩

/-- Each group has one text in accepted payloads. -/
def GroupIdsCanonical : Prop :=
  ∀ (S : Serde MessagePayload) padded padded' p p', S.Lossless →
    fromPaddedBytes S padded = .ok p → fromPaddedBytes S padded' = .ok p' →
    (∀ id, p.groupId = some id → ∃ g, GroupId.fromHex id = .ok g ∧ g.toHex = id) ∧
    ∀ id id', p.groupId = some id → p'.groupId = some id' →
      (GroupId.fromHex id = GroupId.fromHex id' ↔ id = id')

def shoutedGroupId : String :=
  "0123456789ABCDEF0123456789ABCDEF0123456789ABCDEF0123456789ABCDEF"

/-- The sample group under two texts. -/
def casedSerde : Serde MessagePayload :=
  .table <| [sampleGroupId,shoutedGroupId].map fun id => (sampleIn id,sampleDocument id)

theorem shouted_real : RealGroupId shoutedGroupId := ⟨by decide,by decide,by decide⟩

theorem casedSerde_lossless : casedSerde.Lossless := Serde.table_lossless (by decide)

theorem cased_accepted {id : String} (hreal : RealGroupId id)
    (hjson : casedSerde.toVec (sampleIn id) = .ok (utf8 (sampleDocument id))) :
    ∃ padded, fromPaddedBytes casedSerde padded = .ok (sampleIn id) := by
  obtain ⟨padded,hpad⟩ : ∃ padded, padMessage zeroFill (utf8 (sampleDocument id)) = .ok padded :=
    ⟨_,padMessage_eq _ _⟩
  refine ⟨padded,?_⟩
  simp only [fromPaddedBytes, unpadMessage_padMessage hpad, casedSerde_lossless _ _ hjson,
    normalizeGroupId_real (p := sampleIn id) rfl hreal]

theorem group_ids_up_to_case_sample :
    GroupId.fromHex sampleGroupId = GroupId.fromHex shoutedGroupId := by
  have hreal : RealGroupId sampleGroupId := ⟨by decide,by decide,by decide⟩
  obtain ⟨padded,h⟩ := cased_accepted hreal rfl
  obtain ⟨padded',h'⟩ := cased_accepted shouted_real rfl
  have hlower : sampleGroupId.toList.map Char.toLower = shoutedGroupId.toList.map Char.toLower := by
    decide
  exact ((group_ids_up_to_case h h').2 _ _ rfl rfl).mpr (congrArg String.ofList hlower)

/-- An identifier in capitals is accepted as it is. -/
theorem group_ids_not_canonical : ¬GroupIdsCanonical := by
  intro h
  obtain ⟨padded,hshouted⟩ := cased_accepted shouted_real rfl
  obtain ⟨g,hg,htext⟩ := (h _ _ _ _ _ casedSerde_lossless hshouted hshouted).1 _ rfl
  obtain ⟨g',hg',htext'⟩ := (fromPaddedBytes_group hshouted rfl).fromHex
  obtain rfl := Except.ok.inj (hg.symm.trans hg')
  exact absurd (htext.symm.trans htext') (by decide)

end Vaultex.MessagePayload
