import Vaultex.ConversationDelivery
import Vaultex.PayloadCodec
import Vaultex.RatchetTransparency
import Vaultex.SealedSender

/-!
# The whole way of a message

The flow that the tests of the crate put together: a payload is padded and
encrypted, header and ciphertext are serialized and sealed in an envelope for
the recipient, and the other end takes the layers off again. What is on the
network now is bytes alone, and every layer may refuse them.
-/

set_option autoImplicit false

namespace Vaultex

/-- The libraries of all layers. -/
structure Stack (PublicKey SecretKey Key BoxPublicKey BoxSecretKey Seed : Type) where
  suite : Suite PublicKey SecretKey Key
  box : SealedBox BoxPublicKey BoxSecretKey Seed
  payloads : Serde MessagePayload
  /-- Header and ciphertext, serialized as a pair. -/
  messages : Serde (MessageHeader PublicKey × List UInt8)
  envelopes : Serde SealedSenderEnvelope

/-- What an account is known by, and the keypair its envelopes are sealed to. -/
structure Endpoint (BoxPublicKey BoxSecretKey : Type) where
  identityHex : String
  boxPair : BoxPublicKey × BoxSecretKey

/-- An envelope on the network, with the payload that went into it. -/
structure Mail where
  bytes : List UInt8
  associatedData : List UInt8
  payload : MessagePayload

structure Receipt where
  receiver : Party
  again : Bool
  mail : Mail
  result : Result (String × MessagePayload)

structure Wire (PublicKey SecretKey Key : Type) where
  state : Party → RatchetState PublicKey SecretKey Key
  sent : Party → List Mail
  delivered : Party → List ℕ
  receipts : List Receipt
  drawn : ℕ

inductive WireAction (Seed : Type) where
  | send (p : Party) (payload : MessagePayload) (associatedData : List UInt8)
      (fill : Padding.Fill) (nonce : Nonce) (senderSeed messageSeed : Seed)
  | deliver (p : Party) (number : ℕ)

namespace MessageFlow
open DoubleRatchet Conversation MessagePayload SealedSender
variable {PublicKey SecretKey Key BoxPublicKey BoxSecretKey Seed : Type}
  (K : Stack PublicKey SecretKey Key BoxPublicKey BoxSecretKey Seed)
  (ends : Party → Endpoint BoxPublicKey BoxSecretKey)

/-- Header and ciphertext in an envelope from `p` to its peer. -/
def pack (p : Party) (message : MessageHeader PublicKey × List UInt8)
    (senderSeed messageSeed : Seed) : Result (List UInt8) :=
  match K.messages.toVec message with
  | .error e => .error (.serializationError e)
  | .ok bytes =>
    sealEnvelope K.box K.envelopes (ends p).identityHex bytes (ends p.peer).boxPair.1
      senderSeed messageSeed

def send (w : Wire PublicKey SecretKey Key) (p : Party) (payload : MessagePayload)
    (ad : List UInt8) (fill : Padding.Fill) (nonce : Nonce) (senderSeed messageSeed : Seed) :
    Wire PublicKey SecretKey Key :=
  match toPaddedBytes K.payloads fill payload with
  | .error _ => w
  | .ok padded =>
    match encrypt K.suite (w.state p) padded ad nonce with
    | (s, .error _) => { w with state := Function.update w.state p s }
    | (s, .ok message) =>
      match pack K ends p message senderSeed messageSeed with
      | .error _ => { w with state := Function.update w.state p s }
      | .ok bytes =>
        { w with
          state := Function.update w.state p s
          sent := Function.update w.sent p (w.sent p++[⟨bytes,ad,payload⟩]) }

/-- An envelope unsealed, parsed, decrypted and taken out of its padding. -/
def receive [DecidableEq PublicKey] (p : Party) (s : RatchetState PublicKey SecretKey Key)
    (bytes ad : List UInt8) (fresh : PublicKey × SecretKey) :
    RatchetState PublicKey SecretKey Key × Result (String × MessagePayload) :=
  match unsealEnvelope K.box K.envelopes bytes (ends p).boxPair.1 (ends p).boxPair.2 with
  | .error e => (s, .error e)
  | .ok (sender, message) =>
    match K.messages.fromSlice message with
    | .error e => (s, .error (.serializationError e))
    | .ok (header, ciphertext) =>
      match decrypt K.suite s header ciphertext ad fresh with
      | (s, .error e) => (s, .error e)
      | (s, .ok padded) =>
        (s, (fromPaddedBytes K.payloads padded).map fun payload => (sender,payload))

section Receiving
variable [DecidableEq PublicKey] (tape : ℕ → PublicKey × SecretKey)

/-- The header an envelope carries for `p`, if it can be read. -/
def headerOf (p : Party) (bytes : List UInt8) : Option (MessageHeader PublicKey) :=
  match unsealEnvelope K.box K.envelopes bytes (ends p).boxPair.1 (ends p).boxPair.2 with
  | .error _ => none
  | .ok (_, message) => (K.messages.fromSlice message).toOption.map Prod.fst

def deliver (w : Wire PublicKey SecretKey Key) (p : Party) (number : ℕ) :
    Wire PublicKey SecretKey Key :=
  match (w.sent p.peer)[number]? with
  | none => w
  | some mail =>
    let (s, result) := receive K ends p (w.state p) mail.bytes mail.associatedData (tape w.drawn)
    let draws := (headerOf K ends p mail.bytes).any (drawsKeypair K.suite (w.state p))
    { state := Function.update w.state p s
      sent := w.sent
      delivered := Function.update w.delivered p (number::w.delivered p)
      receipts := ⟨p,decide (number ∈ w.delivered p),mail,result⟩::w.receipts
      drawn := if draws then w.drawn+1 else w.drawn }

def step (w : Wire PublicKey SecretKey Key) : WireAction Seed → Wire PublicKey SecretKey Key
  | .send p payload ad fill nonce senderSeed messageSeed =>
    send K ends w p payload ad fill nonce senderSeed messageSeed
  | .deliver p number => deliver K ends tape w p number

end Receiving

def opening (alice bob : RatchetState PublicKey SecretKey Key) : Wire PublicKey SecretKey Key where
  state
    | .alice => alice
    | .bob => bob
  sent _ := []
  delivered _ := []
  receipts := []
  drawn := 2

/-- The step of the ratchets below. -/
def plain : WireAction Seed → Action
  | .send p payload ad fill nonce _ _ =>
    .send p ((toPaddedBytes K.payloads fill payload).toOption.getD []) ad nonce
  | .deliver p number => .deliver p number

/-- Every value is written and read back, and sealed boxes open for their recipients. -/
structure Transparent : Prop where
  init : K.box.init = true
  opens : ∀ p, Opens K.box (ends p).boxPair.1 (ends p).boxPair.2
  payloads : K.payloads.Faithful
  messages : K.messages.Faithful
  envelopes : K.envelopes.Faithful

/-- The two forms of one message: bytes above, header and ciphertext below. -/
structure Holds (p : Party) (mail : Mail) (packet : Packet PublicKey) : Prop where
  associatedData : mail.associatedData = packet.associatedData
  padded : ∃ fill, toPaddedBytes K.payloads fill mail.payload = .ok packet.plaintext
  unsealed : ∃ message, unsealEnvelope K.box K.envelopes mail.bytes (ends p.peer).boxPair.1
      (ends p.peer).boxPair.2 = .ok ((ends p).identityHex,message) ∧
    K.messages.fromSlice message = .ok (packet.header,packet.ciphertext)

/-- What the layers above make of what the ratchet returned. -/
def decoded (sender : String) : Result (List UInt8) → Result (String × MessagePayload)
  | .error e => .error e
  | .ok padded => (fromPaddedBytes K.payloads padded).map fun payload => (sender,payload)

structure Decodes (r : Receipt) (o : Outcome PublicKey) : Prop where
  receiver : r.receiver = o.receiver
  again : r.again = o.again
  holds : Holds K ends o.receiver.peer r.mail o.packet
  result : r.result = decoded K (ends o.receiver.peer).identityHex o.result

/-- The network of envelopes runs as the one of bare packets. -/
structure Carries (w : Wire PublicKey SecretKey Key) (net : Net PublicKey SecretKey Key) :
    Prop where
  state : w.state = net.state
  sent : ∀ p, List.Forall₂ (Holds K ends p) (w.sent p) (net.sent p)
  delivered : w.delivered = net.delivered
  drawn : w.drawn = net.drawn
  receipts : List.Forall₂ (Decodes K ends) w.receipts net.outcomes

section Simulation
variable {K ends} {w : Wire PublicKey SecretKey Key} {net : Net PublicKey SecretKey Key}

theorem pack_opens (hK : Transparent K ends) (p : Party)
    (message : MessageHeader PublicKey × List UInt8) (senderSeed messageSeed : Seed) :
    ∃ bytes, pack K ends p message senderSeed messageSeed = .ok bytes ∧
      ∃ body, unsealEnvelope K.box K.envelopes bytes (ends p.peer).boxPair.1
          (ends p.peer).boxPair.2 = .ok ((ends p).identityHex,body) ∧
        K.messages.fromSlice body = .ok message := by
  obtain ⟨body,hbody,hread⟩ := hK.messages message
  obtain ⟨bytes,hbytes,henvelope⟩ := hK.envelopes ⟨K.box.boxSeal (Text.utf8 (ends p).identityHex)
    (ends p.peer).boxPair.1 senderSeed,K.box.boxSeal body (ends p.peer).boxPair.1 messageSeed⟩
  refine ⟨bytes,?_,body,?_,hread⟩
  · simp only [pack, hbody, sealEnvelope, hK.init, if_true, hbytes]
  · exact unsealEnvelope_ok.mpr ⟨_,henvelope,⟨_,hK.opens p.peer _ _,Text.fromUtf8_utf8 _⟩,
      hK.opens p.peer _ _⟩

theorem send_carries (hK : Transparent K ends) (h : Carries K ends w net) (p : Party)
    (payload : MessagePayload) (ad : List UInt8) (fill : Padding.Fill) (nonce : Nonce)
    (senderSeed messageSeed : Seed) :
    Carries K ends (send K ends w p payload ad fill nonce senderSeed messageSeed)
      (Conversation.send K.suite net p
        ((toPaddedBytes K.payloads fill payload).toOption.getD []) ad nonce) := by
  obtain ⟨padded,hpadded⟩ := written hK.payloads payload fill
  have hplain : (toPaddedBytes K.payloads fill payload).toOption.getD [] = padded := by
    rw [hpadded]
    rfl
  rw [hplain]
  simp only [send, hpadded, Conversation.send, h.state]
  generalize encrypt K.suite (net.state p) padded ad nonce = r
  obtain ⟨s,e | ⟨header,ciphertext⟩⟩ := r
  · exact ⟨rfl,h.sent,h.delivered,h.drawn,h.receipts⟩
  · obtain ⟨bytes,hpack,hopens⟩ := pack_opens hK p (header,ciphertext) senderSeed messageSeed
    simp only [hpack]
    refine ⟨rfl,fun q => ?_,h.delivered,h.drawn,h.receipts⟩
    by_cases hq : q = p
    · subst hq
      simp only [Function.update_self]
      exact List.rel_append (h.sent q) (.cons ⟨rfl,⟨fill,hpadded⟩,hopens⟩ .nil)
    · simp only [Function.update_of_ne hq]
      exact h.sent q

end Simulation

section Delivery
variable [DecidableEq PublicKey] {K ends} {w : Wire PublicKey SecretKey Key}
  {net : Net PublicKey SecretKey Key} {tape : ℕ → PublicKey × SecretKey}

/-- Under the layers it is the ratchet that answers. -/
theorem receive_eq {p : Party} {mail : Mail} {packet : Packet PublicKey}
    (h : Holds K ends p.peer mail packet) (s : RatchetState PublicKey SecretKey Key)
    (fresh : PublicKey × SecretKey) :
    let r := decrypt K.suite s packet.header packet.ciphertext packet.associatedData fresh
    receive K ends p s mail.bytes mail.associatedData fresh =
      (r.1,decoded K (ends p.peer).identityHex r.2) := by
  obtain ⟨body,hunseal,hread⟩ := h.unsealed
  rw [Party.peer_peer] at hunseal
  simp only [receive, hunseal, hread, h.associatedData]
  generalize decrypt K.suite s packet.header packet.ciphertext packet.associatedData fresh = r
  obtain ⟨s',e | padded⟩ := r <;> rfl

omit [DecidableEq PublicKey] in
theorem header_eq {p : Party} {mail : Mail} {packet : Packet PublicKey}
    (h : Holds K ends p.peer mail packet) : headerOf K ends p mail.bytes = some packet.header := by
  obtain ⟨body,hunseal,hread⟩ := h.unsealed
  rw [Party.peer_peer] at hunseal
  simp only [headerOf, hunseal, hread]
  rfl

theorem deliver_carries (h : Carries K ends w net) (p : Party) (number : ℕ) :
    Carries K ends (deliver K ends tape w p number)
      (Conversation.deliver K.suite tape net p number) := by
  have hsent := h.sent p.peer
  rw [deliver, Conversation.deliver]
  cases hpacket : (net.sent p.peer)[number]? with
  | none =>
    rw [List.getElem?_eq_none_iff.mpr (hsent.length_eq ▸ List.getElem?_eq_none_iff.mp hpacket)]
    exact h
  | some packet =>
    obtain ⟨hlt,hget⟩ := List.getElem?_eq_some_iff.mp hpacket
    have hlt' : number < (w.sent p.peer).length := hsent.length_eq ▸ hlt
    have hholds := hsent.get hlt' hlt
    rw [List.getElem?_eq_getElem hlt']
    simp only [List.get_eq_getElem, hget] at hholds
    simp only [receive_eq hholds, header_eq hholds, Option.any_some, h.state, h.delivered, h.drawn]
    exact ⟨rfl,h.sent,rfl,rfl,.cons ⟨rfl,rfl,hholds,rfl⟩ h.receipts⟩

theorem step_carries (hK : Transparent K ends) (h : Carries K ends w net) (a : WireAction Seed) :
    Carries K ends (step K ends tape w a) (Conversation.step K.suite tape net (plain K a)) := by
  cases a with
  | send p payload ad fill nonce senderSeed messageSeed =>
    exact send_carries hK h p payload ad fill nonce senderSeed messageSeed
  | deliver p number => exact deliver_carries h p number

omit [DecidableEq PublicKey] in
theorem opening_carries (alice bob : RatchetState PublicKey SecretKey Key) :
    Carries K ends (opening alice bob) (Conversation.opening alice bob) := by
  refine ⟨?_,fun _ => .nil,rfl,rfl,.nil⟩
  funext p
  cases p <;> rfl

/-- The network of envelopes is at every time the network of packets in another form. -/
theorem run_carries (hK : Transparent K ends) (h : Carries K ends w net)
    (as : List (WireAction Seed)) :
    Carries K ends (Runs.run (step K ends tape) w as)
      (Runs.run (Conversation.step K.suite tape) net (as.map (plain K))) := by
  induction as generalizing w net with
  | nil => exact h
  | cons a as ih => exact ih (step_carries hK h a)

end Delivery

/-- A first delivery gives the payload with its sender, a second one is an error. -/
def Arrived (r : Receipt) : Prop :=
  if r.again then ∃ e, r.result = .error e
  else Routable r.mail.payload →
    r.result = .ok ((ends r.receiver.peer).identityHex,r.mail.payload)

section Results
variable [DecidableEq PublicKey] {K ends} {tape : ℕ → PublicKey × SecretKey}
  {generated : PublicKey × SecretKey → Prop}

omit [DecidableEq PublicKey] in
theorem arrived_of_harmless (hK : Transparent K ends) {r : Receipt} {o : Outcome PublicKey}
    (h : Decodes K ends r o) (ho : Harmless o) : Arrived ends r := by
  rw [Harmless] at ho
  rw [Arrived, h.again, h.receiver, h.result]
  split at ho
  next hagain =>
    obtain ⟨e,he⟩ := ho
    rw [if_pos hagain, he]
    exact ⟨e,rfl⟩
  next hfirst =>
    rw [if_neg hfirst, ho]
    intro hroutable
    obtain ⟨fill,hpadded⟩ := h.holds.padded
    rw [decoded, routable_decodes hK.payloads.lossless hpadded hroutable]
    rfl

/-- In whatever order the envelopes of an honest conversation come, as long as each first
delivery skips at most `MAX_SKIP` keys of either chain and no send counter is at its end,
each opens to the payload that its sender put in, under that sender's name, and opens once. -/
theorem flow_delivers (hK : Transparent K ends) (hS : HonestLibrary K.suite generated)
    (hd : Dealt generated tape 2) {sharedSecret : Key}
    {alice : RatchetState PublicKey SecretKey Key}
    (halice : initSender K.suite sharedSecret (tape 0).1 (tape 1) = .ok alice)
    {as : List (WireAction Seed)}
    (hg : Runs.Guarded (Conversation.step K.suite tape)
      (allowed K.suite tape generated rejectsReplay)
      (Conversation.opening alice (initReceiver sharedSecret (tape 0))) (as.map (plain K))) :
    ∀ r ∈ (Runs.run (step K ends tape)
      (opening alice (initReceiver sharedSecret (tape 0))) as).receipts, Arrived ends r := by
  have hcarries : Carries K ends
      (Runs.run (step K ends tape) (opening alice (initReceiver sharedSecret (tape 0))) as)
      (Runs.run (Conversation.step K.suite tape)
        (Conversation.opening alice (initReceiver sharedSecret (tape 0))) (as.map (plain K))) :=
    run_carries hK (opening_carries _ _) as
  have hharmless := run_harmless hS (opening_refines halice hS hd)
    (fun o ho => absurd ho List.not_mem_nil) hg
  intro r hr
  obtain ⟨o,ho,hdecodes⟩ := Runs.forall₂_mem hcarries.receipts hr
  exact arrived_of_harmless hK hdecodes (hharmless o ho)

end Results
end MessageFlow

section Sample
open Symbolic Conversation MessageFlow

instance encodableChar : Encodable Char :=
  Encodable.ofLeftInverse Char.toNat Char.ofNat Char.ofNat_toNat

instance encodableString : Encodable String :=
  Encodable.ofLeftInverse String.toList String.ofList fun _ => String.ofList_toList

instance encodableUInt64 : Encodable UInt64 :=
  Encodable.ofLeftInverse UInt64.toNat UInt64.ofNat fun _ => UInt64.ofNat_toNat

deriving instance Encodable for Attachment
deriving instance Encodable for MessagePayload
deriving instance Encodable for SealedSenderEnvelope
deriving instance Encodable for MessageHeader

def sampleStack : Stack ℕ ℕ Term UInt8 UInt8 UInt8 where
  suite := sample
  box := SealedSender.sampleBox
  payloads := .catalogue []
  messages := .catalogue []
  envelopes := .catalogue []

def sampleEnds : Party → Endpoint UInt8 UInt8
  | .alice => ⟨"a1",(7,7)⟩
  | .bob => ⟨"b2",(9,9)⟩

theorem unary_faithful {α : Type} [DecidableEq α] [Encodable α] :
    (Serde.catalogue ([] : List (α × String))).Faithful :=
  Serde.catalogue_faithful (by simp) (by simp)

theorem sample_transparent : Transparent sampleStack sampleEnds where
  init := rfl
  opens p plaintext seed := by cases p <;> rfl
  payloads := unary_faithful
  messages := unary_faithful
  envelopes := unary_faithful

/-- Alice sends twice, and Bob receives her messages in the other order. -/
def sampleFlow : List (WireAction UInt8) :=
  [.send .alice ⟨"hi",none,none,none,none⟩ [] MessagePayload.zeroFill zeroNonce 1 2,
    .send .alice (MessagePayload.sampleIn MessagePayload.sampleGroupId) [] MessagePayload.zeroFill
      zeroNonce 3 4, .deliver .bob 1, .deliver .bob 0]

theorem flow_delivers_sample :
    let w := Runs.run (MessageFlow.step sampleStack sampleEnds sampleTape)
      (MessageFlow.opening sampleAlice (DoubleRatchet.initReceiver (.secret 0) (1,1))) sampleFlow
    w.delivered .bob = [0, 1] ∧ ∀ r ∈ w.receipts, Arrived sampleEnds r := by
  constructor
  · rw [(run_carries sample_transparent (opening_carries _ _) sampleFlow).delivered]
    rfl
  · apply flow_delivers sample_transparent sample_honest (sample_dealt 2) sample_starts
    decide

end Sample
end Vaultex
