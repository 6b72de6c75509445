import Vaultex.Errors
import Vaultex.Serde

/-!
# Sealed sender envelopes

The first half of `sealed_sender.rs`: the sender's identity and the message
in two sealed boxes of their own. `sodiumoxide::sealedbox` is a parameter; the
ephemeral keypair it draws for a box is that box's seed.
-/

set_option autoImplicit false

namespace Vaultex
open Text

structure SealedBox (PublicKey SecretKey Seed : Type) where
  init : Bool
  boxSeal (plaintext : List UInt8) (pk : PublicKey) (seed : Seed) : List UInt8
  boxOpen (ciphertext : List UInt8) (pk : PublicKey) (sk : SecretKey) : Option (List UInt8)

structure SealedSenderEnvelope where
  encryptedSender : List UInt8
  encryptedMessage : List UInt8
  deriving DecidableEq

namespace SealedSender
variable {PublicKey SecretKey Seed : Type} (B : SealedBox PublicKey SecretKey Seed)
  (S : Serde SealedSenderEnvelope)

/-- `SealedSenderEnvelope::seal`. -/
def sealEnvelope (senderIdentityKeyHex : String) (message : List UInt8)
    (recipientPublicKey : PublicKey) (senderSeed messageSeed : Seed) : Result (List UInt8) :=
  if B.init then
    let envelope : SealedSenderEnvelope := {
      encryptedSender := B.boxSeal (utf8 senderIdentityKeyHex) recipientPublicKey senderSeed
      encryptedMessage := B.boxSeal message recipientPublicKey messageSeed }
    match S.toVec envelope with
    | .ok bytes => .ok bytes
    | .error e => .error (.sealedSenderError e)
  else .error .initFailed

/-- `SealedSenderEnvelope::unseal`. -/
def unsealEnvelope (envelopeBytes : List UInt8) (recipientPk : PublicKey)
    (recipientSk : SecretKey) : Result (String × List UInt8) :=
  match S.fromSlice envelopeBytes with
  | .error e => .error (.sealedSenderError e)
  | .ok envelope =>
    match B.boxOpen envelope.encryptedSender recipientPk recipientSk with
    | none => .error (.sealedSenderError "failed to decrypt sender identity")
    | some senderBytes =>
      match fromUtf8 senderBytes with
      | none => .error (.sealedSenderError (utf8ErrorText senderBytes))
      | some senderHex =>
        match B.boxOpen envelope.encryptedMessage recipientPk recipientSk with
        | none => .error (.sealedSenderError "failed to decrypt message")
        | some message => .ok (senderHex, message)

variable {B S}

theorem unsealEnvelope_ok {bytes : List UInt8} {pk : PublicKey} {sk : SecretKey} {sender : String}
    {message : List UInt8} :
    unsealEnvelope B S bytes pk sk = .ok (sender,message) ↔
      ∃ envelope, S.fromSlice bytes = .ok envelope ∧
        (∃ senderBytes, B.boxOpen envelope.encryptedSender pk sk = some senderBytes ∧
          fromUtf8 senderBytes = some sender) ∧
        B.boxOpen envelope.encryptedMessage pk sk = some message := by
  rw [unsealEnvelope]
  split
  · simp [*]
  · split
    · simp [*]
    · split
      · simp [*]
      · split <;> simp [*]

/-- One honest call of `seal`. -/
structure SealCall (Seed : Type) where
  sender : String
  message : List UInt8
  senderSeed : Seed
  messageSeed : Seed

namespace SealCall
variable (B S)

def output (c : SealCall Seed) (pk : PublicKey) : Result (List UInt8) :=
  sealEnvelope B S c.sender c.message pk c.senderSeed c.messageSeed

def envelope (c : SealCall Seed) (pk : PublicKey) : SealedSenderEnvelope where
  encryptedSender := B.boxSeal (utf8 c.sender) pk c.senderSeed
  encryptedMessage := B.boxSeal c.message pk c.messageSeed

variable {B S}

theorem output_ok {c : SealCall Seed} {pk : PublicKey} {bytes : List UInt8}
    (h : c.output B S pk = .ok bytes) : S.toVec (c.envelope B pk) = .ok bytes := by
  rw [output, sealEnvelope] at h
  split at h
  · dsimp only at h
    split at h
    · rename_i json hjson
      rw [← Except.ok.inj h]
      exact hjson
    · cases h
  · cases h

end SealCall

variable (B S)

/-- The sealed boxes a relay finds in the envelopes of these calls. -/
def Parts (pk : PublicKey) (log : List (SealCall Seed)) (part : List UInt8) : Prop :=
  ∃ c ∈ log, ∃ bytes envelope, c.output B S pk = .ok bytes ∧
    S.fromSlice bytes = .ok envelope ∧
    (part = envelope.encryptedSender ∨ part = envelope.encryptedMessage)

/-- What a relay can put together: any bytes that read as two of those boxes. -/
def Assembled (pk : PublicKey) (log : List (SealCall Seed)) (bytes : List UInt8) : Prop :=
  ∀ envelope, S.fromSlice bytes = .ok envelope →
    Parts B S pk log envelope.encryptedSender ∧ Parts B S pk log envelope.encryptedMessage

/-- The part of a call that a box is, with its content. -/
def PartOf (pk : PublicKey) (c : SealCall Seed) (part content : List UInt8) : Prop :=
  part = (c.envelope B pk).encryptedSender ∧ content = utf8 c.sender ∨
    part = (c.envelope B pk).encryptedMessage ∧ content = c.message

/-- `open` inverts `seal` for the recipient's pair. -/
def Opens (pk : PublicKey) (sk : SecretKey) : Prop :=
  ∀ plaintext seed, B.boxOpen (B.boxSeal plaintext pk seed) pk sk = some plaintext

variable {B S} {pk : PublicKey} {sk : SecretKey} {log : List (SealCall Seed)}

theorem PartOf.opens {c : SealCall Seed} (hB : Opens B pk sk) {part content : List UInt8}
    (h : PartOf B pk c part content) : B.boxOpen part pk sk = some content := by
  rcases h with ⟨rfl,rfl⟩ | ⟨rfl,rfl⟩
  · exact hB _ _
  · exact hB _ _

theorem Parts.call (hS : S.Lossless) {part : List UInt8} (h : Parts B S pk log part) :
    ∃ c ∈ log, ∃ content, PartOf B pk c part content := by
  obtain ⟨c,hc,bytes,envelope,houtput,hread,hpart⟩ := h
  rw [hS _ _ (SealCall.output_ok houtput)] at hread
  obtain rfl := Except.ok.inj hread
  rcases hpart with hpart | hpart
  · exact ⟨c,hc,_,.inl ⟨hpart,rfl⟩⟩
  · exact ⟨c,hc,_,.inr ⟨hpart,rfl⟩⟩

/-- Each half of what is unsealed comes from an honest call to this
recipient; nothing ties the two halves, or their places, to one call. -/
theorem unsealed_halves_honest (hB : Opens B pk sk) (hS : S.Lossless) {bytes : List UInt8}
    (hbytes : Assembled B S pk log bytes) {sender : String} {message : List UInt8}
    (h : unsealEnvelope B S bytes pk sk = .ok (sender,message)) :
    ∃ envelope c c', S.fromSlice bytes = .ok envelope ∧ c ∈ log ∧ c' ∈ log ∧
      PartOf B pk c envelope.encryptedSender (utf8 sender) ∧
      PartOf B pk c' envelope.encryptedMessage message := by
  obtain ⟨envelope,hread,⟨senderBytes,hsender,htext⟩,hmessage⟩ := unsealEnvelope_ok.mp h
  obtain ⟨hpart,hpart'⟩ := hbytes envelope hread
  obtain ⟨c,hc,content,hc'⟩ := hpart.call hS
  obtain ⟨c',hmem,content',hc''⟩ := hpart'.call hS
  rw [hc'.opens hB] at hsender
  rw [hc''.opens hB] at hmessage
  obtain rfl := Option.some.inj hsender
  obtain rfl := Option.some.inj hmessage
  have hutf8 : utf8 sender = content := fromUtf8_some htext
  rw [← hutf8] at hc'
  exact ⟨envelope,c,c',hread,hc,hmem,hc',hc''⟩

def jsonBytes (bytes : List UInt8) : String :=
  "["++",".intercalate (bytes.map fun b => b.toNat.repr)++"]"

def envelopeDocument (e : SealedSenderEnvelope) : String :=
  "\x7b\"encrypted_sender\":"++jsonBytes e.encryptedSender++",\"encrypted_message\":"
    ++jsonBytes e.encryptedMessage++"\x7d"

/-- A box names its recipient and its seed in front of the plaintext. -/
def sampleBox : SealedBox UInt8 UInt8 UInt8 where
  init := true
  boxSeal plaintext pk seed := pk::seed::plaintext
  boxOpen ciphertext pk sk := match ciphertext with
    | pk'::_::plaintext => if pk' = pk ∧ sk = pk then some plaintext else none
    | _ => none

theorem sampleBox_opens : Opens sampleBox 7 7 := fun _ _ => rfl

def firstCall : SealCall UInt8 := ⟨"a1",[1],10,11⟩

def secondCall : SealCall UInt8 := ⟨"b2",[2],20,21⟩

/-- The sender of the first envelope with the message of the second. -/
def mixedEnvelope : SealedSenderEnvelope where
  encryptedSender := (firstCall.envelope sampleBox 7).encryptedSender
  encryptedMessage := (secondCall.envelope sampleBox 7).encryptedMessage

def sampleEnvelopes : Serde SealedSenderEnvelope :=
  .table <| [firstCall.envelope sampleBox 7,secondCall.envelope sampleBox 7,mixedEnvelope].map
    fun e => (e,envelopeDocument e)

theorem sampleEnvelopes_lossless : sampleEnvelopes.Lossless := Serde.table_lossless (by decide)

theorem sampleEnvelopes_toVec {e : SealedSenderEnvelope}
    (h : e ∈ [firstCall.envelope sampleBox 7,secondCall.envelope sampleBox 7,mixedEnvelope]) :
    sampleEnvelopes.toVec e = .ok (utf8 (envelopeDocument e)) :=
  Serde.table_toVec (by decide) (List.mem_map_of_mem h)

theorem sampleEnvelopes_fromSlice {e : SealedSenderEnvelope}
    (h : e ∈ [firstCall.envelope sampleBox 7,secondCall.envelope sampleBox 7,mixedEnvelope]) :
    sampleEnvelopes.fromSlice (utf8 (envelopeDocument e)) = .ok e :=
  sampleEnvelopes_lossless _ _ (sampleEnvelopes_toVec h)

theorem sample_parts {c : SealCall UInt8} (h : c ∈ [firstCall,secondCall]) :
    Parts sampleBox sampleEnvelopes 7 [firstCall,secondCall]
      (c.envelope sampleBox 7).encryptedSender ∧
    Parts sampleBox sampleEnvelopes 7 [firstCall,secondCall]
      (c.envelope sampleBox 7).encryptedMessage := by
  have hmem : c.envelope sampleBox 7 ∈
      [firstCall.envelope sampleBox 7,secondCall.envelope sampleBox 7,mixedEnvelope] := by
    simp only [List.mem_cons, List.not_mem_nil, or_false] at h ⊢
    rcases h with rfl | rfl <;> simp
  have houtput : c.output sampleBox sampleEnvelopes 7 =
      .ok (utf8 (envelopeDocument (c.envelope sampleBox 7))) := by
    show (match sampleEnvelopes.toVec (c.envelope sampleBox 7) with
      | .ok bytes => Except.ok bytes
      | .error e => Except.error (CryptoError.sealedSenderError e)) = _
    rw [sampleEnvelopes_toVec hmem]
  constructor
  · exact ⟨c,h,_,_,houtput,sampleEnvelopes_fromSlice hmem,.inl rfl⟩
  · exact ⟨c,h,_,_,houtput,sampleEnvelopes_fromSlice hmem,.inr rfl⟩

theorem mixed_assembled : Assembled sampleBox sampleEnvelopes 7 [firstCall,secondCall]
    (utf8 (envelopeDocument mixedEnvelope)) := by
  intro envelope hread
  rw [sampleEnvelopes_fromSlice (by simp)] at hread
  obtain rfl := Except.ok.inj hread
  exact ⟨(sample_parts (by simp)).1,(sample_parts (c := secondCall) (by simp)).2⟩

theorem mixed_unsealed : unsealEnvelope sampleBox sampleEnvelopes
    (utf8 (envelopeDocument mixedEnvelope)) 7 7 = .ok ("a1",[2]) :=
  unsealEnvelope_ok.mpr
    ⟨mixedEnvelope,sampleEnvelopes_fromSlice (by simp),⟨_,rfl,fromUtf8_utf8 "a1"⟩,rfl⟩

theorem unsealed_halves_honest_mixed : ∃ envelope c c',
    sampleEnvelopes.fromSlice (utf8 (envelopeDocument mixedEnvelope)) = .ok envelope ∧
    c ∈ [firstCall,secondCall] ∧ c' ∈ [firstCall,secondCall] ∧
    PartOf sampleBox 7 c envelope.encryptedSender (utf8 "a1") ∧
    PartOf sampleBox 7 c' envelope.encryptedMessage [2] :=
  unsealed_halves_honest sampleBox_opens sampleEnvelopes_lossless mixed_assembled mixed_unsealed

/-- The mixed envelope is accepted, and no call was made with what it opens to. -/
theorem unsealed_not_bound : Opens sampleBox 7 7 ∧ sampleEnvelopes.Lossless ∧
    Assembled sampleBox sampleEnvelopes 7 [firstCall,secondCall]
      (utf8 (envelopeDocument mixedEnvelope)) ∧
    unsealEnvelope sampleBox sampleEnvelopes (utf8 (envelopeDocument mixedEnvelope)) 7 7 =
      .ok ("a1",[2]) ∧
    ¬∃ c ∈ [firstCall,secondCall], c.sender = "a1" ∧ c.message = [2] :=
  ⟨sampleBox_opens,sampleEnvelopes_lossless,mixed_assembled,mixed_unsealed,by decide⟩

end SealedSender
end Vaultex
