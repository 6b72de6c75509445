import Vaultex.MessagePayload

/-!
# Which payloads a receiver can be given

The decoder read from the other end: the shape of every padded message it
accepts, and the payloads that come out of it. These are the payloads that
survive another trip, so that what has been received can be passed on.
-/

set_option autoImplicit false

namespace Vaultex
open Text Padding

namespace Padding

theorem u32ToLeBytes_fromLeBytes {bytes : List UInt8} (h : bytes.length = PAD_LEN_BYTES) :
    u32ToLeBytes (u32FromLeBytes bytes) = bytes := by
  obtain ⟨a,b,c,d,rfl⟩ : ∃ a b c d, bytes = [a,b,c,d] := by
    match bytes, h with
    | [a,b,c,d], _ => exact ⟨a,b,c,d,rfl⟩
  have ha := a.toNat_lt
  have hb := b.toNat_lt
  have hc := c.toNat_lt
  have hd := d.toNat_lt
  have hvalue : (u32FromLeBytes [a,b,c,d]).toNat =
      a.toNat+256*(b.toNat+256*(c.toNat+256*d.toNat)) := by
    simp only [u32FromLeBytes, List.foldr_cons, List.foldr_nil, Nat.mul_zero, Nat.add_zero]
    exact UInt32.toNat_ofNat_of_lt' (by simp only [UInt32.size]; omega)
  have hbyte {n : ℕ} {x : UInt8} (hx : n % 256 = x.toNat) : UInt8.ofNat n = x := by
    apply UInt8.toNat_inj.mp
    rw [UInt8.toNat_ofNat']
    exact hx
  simp only [u32ToLeBytes, hvalue, List.range, List.range.loop, List.map_cons, List.map_nil]
  rw [hbyte (x := a) (by omega), hbyte (x := b) (by omega), hbyte (x := c) (by omega),
    hbyte (x := d) (by omega)]

/-- The message before any filling and the filling's length is read back. -/
theorem unpad_filled (plaintext filling : List UInt8) (h : filling.length+PAD_LEN_BYTES < 2^32) :
    unpadMessage (plaintext++filling++
      u32ToLeBytes (UInt32.ofNat (filling.length+PAD_LEN_BYTES))) = .ok plaintext := by
  have hlength := u32ToLeBytes_length (UInt32.ofNat (filling.length+PAD_LEN_BYTES))
  have hvalue : (UInt32.ofNat (filling.length+PAD_LEN_BYTES)).toNat =
      filling.length+PAD_LEN_BYTES := UInt32.toNat_ofNat_of_lt' h
  have hdrop : (plaintext++filling++
      u32ToLeBytes (UInt32.ofNat (filling.length+PAD_LEN_BYTES))).drop
        (plaintext++filling).length = _ := List.drop_left
  have htake : (plaintext++filling++
      u32ToLeBytes (UInt32.ofNat (filling.length+PAD_LEN_BYTES))).take plaintext.length =
        plaintext := by
    rw [List.append_assoc]
    exact List.take_left
  have htotal : (plaintext++filling++
      u32ToLeBytes (UInt32.ofNat (filling.length+PAD_LEN_BYTES))).length =
        plaintext.length+filling.length+PAD_LEN_BYTES := by
    rw [List.length_append, List.length_append, hlength]
  rw [List.length_append] at hdrop
  simp only [unpadMessage, htotal, Nat.add_sub_cancel, hdrop, u32FromLeBytes_toLeBytes, hvalue]
  rw [if_neg (by omega), if_neg (by omega), Nat.add_assoc, Nat.add_sub_cancel, htake]

/-- A padded message is a text, any filling, and the length of both the filling and itself in
the last four bytes: these and no others are unpadded. -/
theorem unpad_ok_iff {padded plaintext : List UInt8} :
    unpadMessage padded = .ok plaintext ↔
      ∃ filling : List UInt8, filling.length+PAD_LEN_BYTES < 2^32 ∧
        padded = plaintext++filling++
          u32ToLeBytes (UInt32.ofNat (filling.length+PAD_LEN_BYTES)) := by
  constructor
  · intro h
    simp only [unpadMessage] at h
    split at h
    · cases h
    next hshort =>
      split at h
      · cases h
      next hrange =>
        obtain rfl := Except.ok.inj h
        have hlast : (padded.drop (padded.length-PAD_LEN_BYTES)).length = PAD_LEN_BYTES := by
          rw [List.length_drop]
          omega
        have hlt := (u32FromLeBytes (padded.drop (padded.length-PAD_LEN_BYTES))).toNat_lt
        have hbytes := u32ToLeBytes_fromLeBytes hlast
        generalize u32FromLeBytes (padded.drop (padded.length-PAD_LEN_BYTES)) = n at *
        refine ⟨(padded.drop (padded.length-n.toNat)).take (n.toNat-PAD_LEN_BYTES),?_⟩
        have hfilling : ((padded.drop (padded.length-n.toNat)).take
            (n.toNat-PAD_LEN_BYTES)).length+PAD_LEN_BYTES = n.toNat := by
          rw [List.length_take, List.length_drop]
          omega
        have hrest : padded.length-n.toNat+(n.toNat-PAD_LEN_BYTES) =
            padded.length-PAD_LEN_BYTES := by omega
        rw [hfilling]
        refine ⟨hlt,?_⟩
        rw [UInt32.ofNat_toNat, hbytes, List.append_assoc, ← hrest, ← List.drop_drop,
          List.take_append_drop, List.take_append_drop]
  · rintro ⟨filling,h,rfl⟩
    exact unpad_filled plaintext filling h

end Padding

namespace MessagePayload

/-- `MessagePayload::new`. -/
def new (body : String) : MessagePayload := ⟨body,none,none,none,none⟩

def withTtl (body : String) (ttlSeconds : UInt32) : MessagePayload :=
  ⟨body,some ttlSeconds,none,none,none⟩

def withAttachment (p : MessagePayload) (mediaType : String) (attachment : Attachment) :
    MessagePayload :=
  { p with mediaType := some mediaType, attachment := some attachment }

def inGroup (p : MessagePayload) (groupId : String) : MessagePayload :=
  { p with groupId := some groupId }

section
variable (S : Serde MessagePayload)

/-- The raw form, without padding and with no placeholder for the group. -/
def toBytes (p : MessagePayload) : Except String (List UInt8) := S.toVec p

def fromBytes (bytes : List UInt8) : Except String MessagePayload := S.fromSlice bytes

end

/-- A direct message, or one to a group with an identifier of its own. -/
def Routable (p : MessagePayload) : Prop :=
  p.groupId = none ∨ ∃ id, p.groupId = some id ∧ RealGroupId id

variable {S : Serde MessagePayload} {fill : Fill}

theorem routable_new (body : String) : Routable (new body) := .inl rfl

theorem routable_withTtl (body : String) (ttlSeconds : UInt32) :
    Routable (withTtl body ttlSeconds) := .inl rfl

theorem Routable.withAttachment {p : MessagePayload} (h : Routable p) (mediaType : String)
    (attachment : Attachment) : Routable (p.withAttachment mediaType attachment) := h

theorem routable_inGroup (p : MessagePayload) {id : String} (h : RealGroupId id) :
    Routable (p.inGroup id) := .inr ⟨id,rfl,h⟩

/-- The check lets nothing through that is not routable, and leaves what is as it was. -/
theorem normalized_routable {p q : MessagePayload} (h : p.normalizeGroupId = (q, .ok ())) :
    Routable q := by
  cases hid : p.groupId with
  | none =>
    simp only [normalizeGroupId, hid] at h
    obtain rfl := (Prod.mk.inj h).1
    exact .inl hid
  | some id =>
    by_cases habsent : id = GROUP_ID_PLACEHOLDER ∨ id = ""
    · rw [normalizeGroupId_absent hid habsent] at h
      obtain rfl := (Prod.mk.inj h).1
      exact .inl rfl
    · obtain ⟨hplace,hempty⟩ := not_or.mp habsent
      by_cases hreal : RealGroupId id
      · rw [normalizeGroupId_real hid hreal] at h
        obtain rfl := (Prod.mk.inj h).1
        exact .inr ⟨id,hid,hreal⟩
      · rw [normalizeGroupId_malformed hid hplace hempty hreal] at h
        cases (Prod.mk.inj h).2

theorem received_routable {padded : List UInt8} {p : MessagePayload}
    (h : fromPaddedBytes S padded = .ok p) : Routable p := by
  simp only [fromPaddedBytes] at h
  split at h
  · cases h
  · split at h
    · cases h
    · split at h
      next hnormal =>
        obtain rfl := Except.ok.inj h
        exact normalized_routable hnormal
      · cases h

theorem routable_decodes (hS : S.Lossless) {p : MessagePayload} {padded : List UInt8}
    (h : toPaddedBytes S fill p = .ok padded) (hp : Routable p) :
    fromPaddedBytes S padded = .ok p := by
  rw [fromPaddedBytes_toPaddedBytes hS h]
  rcases hp with hnone | ⟨id,hid,hreal⟩
  · have hplace : p.onWire.groupId = some GROUP_ID_PLACEHOLDER := by
      rw [onWire, hnone, Option.getD_none]
    rw [normalizeGroupId_absent hplace (.inl rfl)]
    show Except.ok {p with groupId := none} = Except.ok p
    rw [← hnone]
  · have hwire : p.onWire = p := by
      rw [onWire, hid, Option.getD_some, ← hid]
    rw [hwire, normalizeGroupId_real hid hreal]

theorem written (hS : S.Faithful) (p : MessagePayload) (fill : Fill) :
    ∃ padded, toPaddedBytes S fill p = .ok padded := by
  obtain ⟨json,hjson,-⟩ := hS p.onWire
  rw [toPaddedBytes_eq, hjson]
  exact ⟨_,padMessage_eq _ _⟩

/-- What the decoder ever returns, whoever made the bytes, is exactly what a sender's own encoding
brings across: a payload received can be sent on, with any filling, and arrives as it is. -/
theorem received_iff_routable (hS : S.Lossless) {p : MessagePayload} {padded : List UInt8}
    (h : toPaddedBytes S fill p = .ok padded) :
    ((∃ bytes, fromPaddedBytes S bytes = .ok p) ↔ Routable p) ∧
      (fromPaddedBytes S padded = .ok p ↔ Routable p) := by
  refine ⟨⟨?_,fun hp => ⟨padded,routable_decodes hS h hp⟩⟩,received_routable,routable_decodes hS h⟩
  rintro ⟨bytes,hbytes⟩
  exact received_routable hbytes

/-- A message to a group comes back, one to a group of another name never does. -/
theorem received_iff_routable_sample :
    (∃ bytes, fromPaddedBytes sampleSerde bytes = .ok (sampleIn sampleGroupId)) ∧
    ¬∃ bytes, fromPaddedBytes sampleSerde bytes = .ok (sampleIn "not-hex") := by
  have hgroup : sampleSerde.toVec (sampleIn sampleGroupId) =
    .ok (utf8 (sampleDocument sampleGroupId)) := rfl
  have hother : sampleSerde.toVec (sampleIn "not-hex") =
    .ok (utf8 (sampleDocument "not-hex")) := rfl
  obtain ⟨padded,h⟩ := sample_padded hgroup
  obtain ⟨padded',h'⟩ := sample_padded hother
  constructor
  · exact (received_iff_routable sampleSerde_lossless h).1.mpr
      (.inr ⟨sampleGroupId,rfl,by decide,by decide,by decide⟩)
  · intro hread
    rcases (received_iff_routable sampleSerde_lossless h').1.mp hread with hnone | ⟨id,hid,hreal⟩
    · cases hnone
    · obtain rfl := Option.some.inj hid
      exact absurd hreal.length_eq (by decide)

end MessagePayload
end Vaultex
