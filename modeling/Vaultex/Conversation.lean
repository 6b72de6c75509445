import Mathlib.Logic.Function.Basic
import Vaultex.RatchetRun

/-!
# Two parties and a network

Alice starts with `initSender`, Bob with `initReceiver`. What a party
encrypts is kept with its plaintext; the network hands any of it to the other
party in any order. The keypairs of the run lie on a tape and each call of
`gen_keypair` takes the next one.
-/

set_option autoImplicit false

namespace Vaultex

inductive Party where
  | alice
  | bob
  deriving DecidableEq

def Party.peer : Party → Party
  | .alice => .bob
  | .bob => .alice

@[simp] theorem Party.peer_peer (p : Party) : p.peer.peer = p := by cases p <;> rfl

@[simp] theorem Party.peer_ne (p : Party) : p.peer ≠ p := by cases p <;> simp [Party.peer]

theorem Party.eq_or_eq_peer (p q : Party) : q = p ∨ q = p.peer := by
  cases p <;> cases q <;> simp [Party.peer]

inductive Role where
  | sending
  | receiving
  deriving DecidableEq

structure Packet (PublicKey : Type) where
  header : MessageHeader PublicKey
  ciphertext : List UInt8
  associatedData : List UInt8
  plaintext : List UInt8

/-- One `decrypt` call: which message of the peer it was handed, and whether
the message had been delivered before. -/
structure Outcome (PublicKey : Type) where
  receiver : Party
  number : ℕ
  again : Bool
  packet : Packet PublicKey
  result : Result (List UInt8)

/-- A chain key derived by a ratchet step. -/
structure Created (Key : Type) where
  party : Party
  role : Role
  chainKey : Key

structure Net (PublicKey SecretKey Key : Type) where
  state : Party → RatchetState PublicKey SecretKey Key
  /-- The messages of each party, oldest first. -/
  sent : Party → List (Packet PublicKey)
  /-- Which messages of its peer a party was handed. -/
  delivered : Party → List ℕ
  outcomes : List (Outcome PublicKey)
  /-- The chains of the run, oldest first. -/
  created : List (Created Key)
  /-- How much of the tape is used. -/
  drawn : ℕ

inductive Action where
  | send (p : Party) (plaintext associatedData : List UInt8) (nonce : Nonce)
  | deliver (p : Party) (number : ℕ)

/-- What the ratchet needs of its libraries when both parties are honest;
`generated` are the keypairs `gen_keypair` may return. -/
structure HonestLibrary {PublicKey SecretKey Key : Type} (S : Suite PublicKey SecretKey Key)
    (generated : PublicKey × SecretKey → Prop) : Prop where
  init : S.init = true
  commutes {a b : PublicKey × SecretKey} : generated a → generated b →
    S.scalarmult a.2 b.1 = S.scalarmult b.2 a.1
  succeeds {a b : PublicKey × SecretKey} : generated a → generated b →
    (S.scalarmult a.2 b.1).isSome
  open_seal (plaintext : List UInt8) (ad : Option (List UInt8)) (nonce : Nonce) (key : Key) :
    S.aeadOpen (S.aeadSeal plaintext ad nonce key) ad nonce key = some plaintext

namespace Conversation
open DoubleRatchet
variable {PublicKey SecretKey Key : Type} (S : Suite PublicKey SecretKey Key)

/-- Alice's first chain is created with her state. -/
def opening (alice bob : RatchetState PublicKey SecretKey Key) : Net PublicKey SecretKey Key where
  state
    | .alice => alice
    | .bob => bob
  sent _ := []
  delivered _ := []
  outcomes := []
  created := alice.sendingChainKey.toList.map (⟨.alice,.sending,·⟩)
  drawn := 2

def send (net : Net PublicKey SecretKey Key) (p : Party) (plaintext ad : List UInt8)
    (nonce : Nonce) : Net PublicKey SecretKey Key :=
  match encrypt S (net.state p) plaintext ad nonce with
  | (s, .error _) => { net with state := Function.update net.state p s }
  | (s, .ok (header, ciphertext)) =>
    { net with
      state := Function.update net.state p s
      sent := Function.update net.sent p (net.sent p++[⟨header,ciphertext,ad,plaintext⟩]) }

section Receiving
variable [DecidableEq PublicKey] (tape : ℕ → PublicKey × SecretKey)

/-- The chain keys a `decrypt` call derives in its ratchet step, if it takes one. -/
def createdChains (s : RatchetState PublicKey SecretKey Key) (p : Party)
    (header : MessageHeader PublicKey) (fresh : PublicKey × SecretKey) : List (Created Key) :=
  if drawsKeypair S s header then
    let s := (skipMessageKeysForCurrentChain S s header.previousChainLength).1
    let (s, result) := dhRatchetStep S s header.ratchetPublicKey fresh
    s.receivingChainKey.toList.map (⟨p,.receiving,·⟩)++
      match result with
      | .ok () => s.sendingChainKey.toList.map (⟨p,.sending,·⟩)
      | .error _ => []
  else []

def handOver (net : Net PublicKey SecretKey Key) (p : Party) (number : ℕ)
    (packet : Packet PublicKey) : Net PublicKey SecretKey Key :=
  let s := net.state p
  let fresh := tape net.drawn
  let (s', result) := decrypt S s packet.header packet.ciphertext packet.associatedData fresh
  { state := Function.update net.state p s'
    sent := net.sent
    delivered := Function.update net.delivered p (number::net.delivered p)
    outcomes := ⟨p,number,decide (number ∈ net.delivered p),packet,result⟩::net.outcomes
    created := net.created++createdChains S s p packet.header fresh
    drawn := if drawsKeypair S s packet.header then net.drawn+1 else net.drawn }

def deliver (net : Net PublicKey SecretKey Key) (p : Party) (number : ℕ) :
    Net PublicKey SecretKey Key :=
  match (net.sent p.peer)[number]? with
  | none => net
  | some packet => handOver S tape net p number packet

def step (net : Net PublicKey SecretKey Key) : Action → Net PublicKey SecretKey Key
  | .send p plaintext ad nonce => send S net p plaintext ad nonce
  | .deliver p number => deliver S tape net p number

/-- The receiver has to skip at most `MAX_SKIP` keys, in either chain. -/
def withinSkip (s : RatchetState PublicKey SecretKey Key)
    (header : MessageHeader PublicKey) : Prop :=
  (s.skippedKeys.lookup (header.ratchetPublicKey,header.messageNumber)).isSome ∨
  if needRatchet s header.ratchetPublicKey then
    (s.receivingChainKey.isSome →
      header.previousChainLength.toNat ≤ s.recvMessageNumber.toNat+MAX_SKIP.toNat) ∧
    header.messageNumber.toNat ≤ MAX_SKIP.toNat
  else header.messageNumber.toNat ≤ s.recvMessageNumber.toNat+MAX_SKIP.toNat

instance (s : RatchetState PublicKey SecretKey Key) (header : MessageHeader PublicKey) :
    Decidable (withinSkip s header) :=
  inferInstanceAs (Decidable (_ ∨ ite _ _ _))

variable (generated : PublicKey × SecretKey → Prop)

/-- A keypair the call draws is an honest one with a new public key. -/
def drawsNew (net : Net PublicKey SecretKey Key) (p : Party)
    (header : MessageHeader PublicKey) : Prop :=
  drawsKeypair S (net.state p) header = true → generated (tape net.drawn) ∧
    ∀ i < net.drawn, (tape i).1 ≠ (tape net.drawn).1

instance [DecidablePred generated] (net : Net PublicKey SecretKey Key) (p : Party)
    (header : MessageHeader PublicKey) : Decidable (drawsNew S tape generated net p header) :=
  inferInstanceAs (Decidable (_ → _))

/-- The delivery of a packet in an honest run. A message delivered before may be
handed over again where `replay` lets it. -/
def admits (replay : RatchetState PublicKey SecretKey Key → MessageHeader PublicKey → Prop)
    (net : Net PublicKey SecretKey Key) (p : Party) (number : ℕ) :
    Option (Packet PublicKey) → Prop
  | none => False
  | some packet => drawsNew S tape generated net p packet.header ∧
    if number ∈ net.delivered p then replay (net.state p) packet.header
    else withinSkip (net.state p) packet.header

instance (replay : RatchetState PublicKey SecretKey Key → MessageHeader PublicKey → Prop)
    [∀ s header, Decidable (replay s header)] [DecidablePred generated]
    (net : Net PublicKey SecretKey Key) (p : Party) (number : ℕ) :
    ∀ packet, Decidable (admits S tape generated replay net p number packet)
  | none => isFalse id
  | some _ => inferInstanceAs (Decidable (_ ∧ ite _ _ _))

/-- The steps of an honest run within the limits: no send counter is at its end, and
a first delivery has its receiver skip at most `MAX_SKIP` keys, in either chain. -/
def allowed (replay : RatchetState PublicKey SecretKey Key → MessageHeader PublicKey → Prop)
    (net : Net PublicKey SecretKey Key) : Action → Prop
  | .send p _ _ _ => (net.state p).sendMessageNumber.toNat+1 < 2^32
  | .deliver p number =>
    admits S tape generated replay net p number (net.sent p.peer)[number]?

instance (replay : RatchetState PublicKey SecretKey Key → MessageHeader PublicKey → Prop)
    [∀ s header, Decidable (replay s header)] [DecidablePred generated]
    (net : Net PublicKey SecretKey Key) :
    ∀ a, Decidable (allowed S tape generated replay net a)
  | .send .. => inferInstanceAs (Decidable (_ < _))
  | .deliver .. => inferInstanceAs (Decidable (admits ..))

/-- A second delivery is turned away before anything is written: the message is
of the receiving chain, or its header asks for too many keys of that chain. -/
def rejectsReplay (s : RatchetState PublicKey SecretKey Key)
    (header : MessageHeader PublicKey) : Prop :=
  s.remoteRatchetKey = some header.ratchetPublicKey ∨
  (s.receivingChainKey.isSome ∧
    s.recvMessageNumber.toNat+MAX_SKIP.toNat < header.previousChainLength.toNat)

instance (s : RatchetState PublicKey SecretKey Key) (header : MessageHeader PublicKey) :
    Decidable (rejectsReplay s header) :=
  inferInstanceAs (Decidable (_ ∨ _))

/-- Each message is delivered at most once. -/
def once (_ : RatchetState PublicKey SecretKey Key) (_ : MessageHeader PublicKey) : Prop := False

instance (s : RatchetState PublicKey SecretKey Key) (header : MessageHeader PublicKey) :
    Decidable (once s header) := isFalse id

/-- A message its receiver was not handed before, however many keys it has to skip. -/
def handsFirst (net : Net PublicKey SecretKey Key) (p : Party) (number : ℕ) :
    Option (Packet PublicKey) → Prop
  | none => False
  | some packet => drawsNew S tape generated net p packet.header ∧ number ∉ net.delivered p

instance [DecidablePred generated] (net : Net PublicKey SecretKey Key) (p : Party) (number : ℕ) :
    ∀ packet, Decidable (handsFirst S tape generated net p number packet)
  | none => isFalse id
  | some _ => inferInstanceAs (Decidable (_ ∧ _))

/-- The steps of two honest parties and a network that hands each message over at most
once. What is too far ahead is refused. -/
def honest (net : Net PublicKey SecretKey Key) : Action → Prop
  | .send .. => True
  | .deliver p number => handsFirst S tape generated net p number (net.sent p.peer)[number]?

instance [DecidablePred generated] (net : Net PublicKey SecretKey Key) :
    ∀ a, Decidable (honest S tape generated net a)
  | .send .. => isTrue trivial
  | .deliver .. => inferInstanceAs (Decidable (handsFirst ..))

/-- A chain takes 2^32-1 messages. -/
def hasRoom (net : Net PublicKey SecretKey Key) : Action → Prop
  | .send p _ _ _ => (net.state p).sendMessageNumber.toNat+1 < 2^32
  | .deliver .. => True

instance (net : Net PublicKey SecretKey Key) : ∀ a, Decidable (hasRoom net a)
  | .send .. => inferInstanceAs (Decidable (_ < _))
  | .deliver .. => isTrue trivial

/-- Of the honest steps those that wrap no counter. -/
def honestInRange (net : Net PublicKey SecretKey Key) (a : Action) : Prop :=
  honest S tape generated net a ∧ hasRoom net a

instance [DecidablePred generated] (net : Net PublicKey SecretKey Key) (a : Action) :
    Decidable (honestInRange S tape generated net a) :=
  inferInstanceAs (Decidable (_ ∧ _))

theorem deliver_sent (net : Net PublicKey SecretKey Key) (p : Party) (number : ℕ) :
    (deliver S tape net p number).sent = net.sent := by
  simp only [deliver]
  split <;> rfl

theorem deliver_state_peer (net : Net PublicKey SecretKey Key) (p : Party) (number : ℕ) :
    (deliver S tape net p number).state p.peer = net.state p.peer := by
  simp only [deliver]
  split
  · rfl
  · exact Function.update_of_ne (Party.peer_ne p) _ _

end Receiving

/-- A send leaves the network as it was but for the sender's state, or puts one
more packet on it. -/
theorem send_cases (net : Net PublicKey SecretKey Key) (p : Party) (plaintext ad : List UInt8)
    (nonce : Nonce) :
    let r := encrypt S (net.state p) plaintext ad nonce
    (∃ e, r.2 = .error e ∧
      send S net p plaintext ad nonce = {net with state := Function.update net.state p r.1}) ∨
    ∃ header ciphertext, r.2 = .ok (header,ciphertext) ∧
      send S net p plaintext ad nonce =
        { net with
          state := Function.update net.state p r.1
          sent := Function.update net.sent p
            (net.sent p++[⟨header,ciphertext,ad,plaintext⟩]) } := by
  simp only [send]
  obtain ⟨s,e | ⟨header,ciphertext⟩⟩ := encrypt S (net.state p) plaintext ad nonce
  · exact .inl ⟨e,rfl,rfl⟩
  · exact .inr ⟨header,ciphertext,rfl,rfl⟩

theorem send_state (net : Net PublicKey SecretKey Key) (p : Party) (plaintext ad : List UInt8)
    (nonce : Nonce) : (send S net p plaintext ad nonce).state =
      Function.update net.state p (encrypt S (net.state p) plaintext ad nonce).1 := by
  obtain ⟨e,-,hsend⟩ | ⟨header,ciphertext,-,hsend⟩ := send_cases S net p plaintext ad nonce <;>
    rw [hsend]

theorem send_delivered (net : Net PublicKey SecretKey Key) (p : Party)
    (plaintext ad : List UInt8) (nonce : Nonce) :
    (send S net p plaintext ad nonce).delivered = net.delivered := by
  obtain ⟨e,-,hsend⟩ | ⟨header,ciphertext,-,hsend⟩ := send_cases S net p plaintext ad nonce <;>
    rw [hsend]

/-- The peer of a sender, and what either was handed, are left alone. -/
theorem send_peer (net : Net PublicKey SecretKey Key) (p : Party) (plaintext ad : List UInt8)
    (nonce : Nonce) :
    (send S net p plaintext ad nonce).state p.peer = net.state p.peer ∧
    (send S net p plaintext ad nonce).sent p.peer = net.sent p.peer ∧
    (send S net p plaintext ad nonce).delivered = net.delivered := by
  have hne := Party.peer_ne p
  obtain ⟨e,-,hsend⟩ | ⟨header,ciphertext,-,hsend⟩ := send_cases S net p plaintext ad nonce <;>
    rw [hsend]
  · exact ⟨Function.update_of_ne hne _ _,rfl,rfl⟩
  · exact ⟨Function.update_of_ne hne _ _,Function.update_of_ne hne _ _,rfl⟩

end Conversation
end Vaultex
