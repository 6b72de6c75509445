import Vaultex.AesGcm

/-!
# The double ratchet

One session's state and the operations of `double_ratchet.rs`, with the
library calls as a parameter. Counters are `u32` and wrap as in a release
build. A keypair or a nonce the code draws at random is an argument.
`from_slice` on arrays of 32 bytes, HKDF with 64 output bytes and HMAC with
any key never fail, so the conversions and the two KDFs are total here.
-/

set_option autoImplicit false

namespace Vaultex

/-- The ASCII bytes of `VAULTEX_RATCHET`. -/
def RATCHET_INFO : List UInt8 :=
  [0x56, 0x41, 0x55, 0x4c, 0x54, 0x45, 0x58, 0x5f, 0x52, 0x41, 0x54, 0x43, 0x48, 0x45, 0x54]
def CHAIN_KEY_SEED : List UInt8 := [0x01]
def MSG_KEY_SEED : List UInt8 := [0x02]
def MAX_SKIP : UInt32 := 1000

/-- What the ratchet calls in its libraries, besides the AEAD: X25519, HKDF-SHA256
expanded to two keys, and HMAC-SHA256. -/
structure Suite (PublicKey SecretKey Key : Type) extends Aead Key where
  scalarmult : SecretKey → PublicKey → Option Key
  hkdf (salt ikm : Key) (info : List UInt8) : Key × Key
  hmac : Key → List UInt8 → Key

structure MessageHeader (PublicKey : Type) where
  ratchetPublicKey : PublicKey
  previousChainLength : UInt32
  messageNumber : UInt32
  deriving DecidableEq, Repr

@[ext] structure RatchetState (PublicKey SecretKey Key : Type) where
  rootKey : Key
  sendingChainKey : Option Key
  receivingChainKey : Option Key
  sendingKeypair : Option (PublicKey × SecretKey)
  remoteRatchetKey : Option PublicKey
  sendMessageNumber : UInt32
  recvMessageNumber : UInt32
  previousChainLength : UInt32
  skippedKeys : Finmap fun _ : PublicKey × UInt32 => Key

namespace DoubleRatchet
variable {PublicKey SecretKey Key : Type} (S : Suite PublicKey SecretKey Key)

def kdfRk (rootKey dhOutput : Key) : Key × Key := S.hkdf rootKey dhOutput RATCHET_INFO

def kdfCk (chainKey : Key) : Key × Key :=
  (S.hmac chainKey CHAIN_KEY_SEED, S.hmac chainKey MSG_KEY_SEED)

def dhExchange (ourSk : SecretKey) (theirPk : PublicKey) : Result Key :=
  match S.scalarmult ourSk theirPk with
  | some shared => .ok shared
  | none => .error (.ratchetError "DH failed")

def initSender (sharedSecret : Key) (recipientRatchetKey : PublicKey)
    (fresh : PublicKey × SecretKey) : Result (RatchetState PublicKey SecretKey Key) :=
  if S.init then
    match dhExchange S fresh.2 recipientRatchetKey with
    | .error e => .error e
    | .ok dhOut =>
      let (rootKey, sendingChainKey) := kdfRk S sharedSecret dhOut
      .ok {
        rootKey, sendingChainKey := some sendingChainKey, receivingChainKey := none,
        sendingKeypair := some fresh, remoteRatchetKey := some recipientRatchetKey,
        sendMessageNumber := 0, recvMessageNumber := 0, previousChainLength := 0,
        skippedKeys := ∅ }
  else .error .initFailed

def initReceiver (sharedSecret : Key) (ourRatchetKeypair : PublicKey × SecretKey) :
    RatchetState PublicKey SecretKey Key where
  rootKey := sharedSecret
  sendingChainKey := none
  receivingChainKey := none
  sendingKeypair := some ourRatchetKeypair
  remoteRatchetKey := none
  sendMessageNumber := 0
  recvMessageNumber := 0
  previousChainLength := 0
  skippedKeys := ∅

def encrypt (s : RatchetState PublicKey SecretKey Key) (plaintext associatedData : List UInt8)
    (nonce : Nonce) :
    RatchetState PublicKey SecretKey Key × Result (MessageHeader PublicKey × List UInt8) :=
  match s.sendingChainKey with
  | none => (s, .error (.ratchetError "no sending chain key"))
  | some ck =>
    let (newCk, msgKey) := kdfCk S ck
    let s := { s with sendingChainKey := some newCk }
    match s.sendingKeypair with
    | none => (s, .error (.ratchetError "no sending keypair"))
    | some (sendingPk, _) =>
      let header : MessageHeader PublicKey := {
        ratchetPublicKey := sendingPk
        previousChainLength := s.previousChainLength
        messageNumber := s.sendMessageNumber }
      let s := { s with sendMessageNumber := s.sendMessageNumber+1 }
      match AesGcm.encrypt S.toAead msgKey plaintext (some associatedData) nonce with
      | .error e => (s, .error e)
      | .ok (nonce, ciphertext) => (s, .ok (header, nonce++ciphertext))

def decryptWithKey (msgKey : Key) (ciphertext associatedData : List UInt8) :
    Result (List UInt8) :=
  if ciphertext.length < NONCEBYTES then .error .decryptionFailed
  else AesGcm.decrypt S.toAead msgKey (ciphertext.take NONCEBYTES)
    (ciphertext.drop NONCEBYTES) (some associatedData)

section Receiving
variable [DecidableEq PublicKey]

/-- The `for` loop of both skipping methods: `count` turns from number `n` on. -/
def cacheSkipped (remotePk : PublicKey) :
    ℕ → UInt32 → Key → (Finmap fun _ : PublicKey × UInt32 => Key) →
      Key × Finmap fun _ : PublicKey × UInt32 => Key
  | 0, _, currentCk, skippedKeys => (currentCk, skippedKeys)
  | count+1, n, currentCk, skippedKeys =>
    let (newCk, mk) := kdfCk S currentCk
    cacheSkipped remotePk count (n+1) newCk (skippedKeys.insert (remotePk,n) mk)

def skipMessageKeysForCurrentChain (s : RatchetState PublicKey SecretKey Key)
    (untilNumber : UInt32) : RatchetState PublicKey SecretKey Key × Result Unit :=
  match s.receivingChainKey with
  | none => (s, .ok ())
  | some ck =>
    match s.remoteRatchetKey with
    | none => (s, .ok ())
    | some remotePk =>
      if untilNumber < s.recvMessageNumber then (s, .ok ())
      else if untilNumber-s.recvMessageNumber > MAX_SKIP then
        (s, .error (.ratchetError "too many skipped messages"))
      else
        let (currentCk, skippedKeys) := cacheSkipped S remotePk
          (untilNumber-s.recvMessageNumber).toNat s.recvMessageNumber ck s.skippedKeys
        ({ s with
            skippedKeys, receivingChainKey := some currentCk,
            recvMessageNumber := untilNumber }, .ok ())

def skipMessageKeys (s : RatchetState PublicKey SecretKey Key) (untilNumber : UInt32) :
    RatchetState PublicKey SecretKey Key × Result Unit :=
  if untilNumber < s.recvMessageNumber then
    (s, .error (.ratchetError "message number already consumed"))
  else if untilNumber-s.recvMessageNumber > MAX_SKIP then
    (s, .error (.ratchetError "too many skipped messages"))
  else
    match s.remoteRatchetKey with
    | none => (s, .error (.ratchetError "no remote ratchet key"))
    | some remotePk =>
      match s.receivingChainKey with
      | none => (s, .error (.ratchetError "no receiving chain key"))
      | some ck =>
        let (currentCk, skippedKeys) := cacheSkipped S remotePk
          (untilNumber-s.recvMessageNumber).toNat s.recvMessageNumber ck s.skippedKeys
        ({ s with skippedKeys, receivingChainKey := some currentCk }, .ok ())

end Receiving

/-- `fresh` is the keypair `gen_keypair` draws, if the step gets that far. -/
def dhRatchetStep (s : RatchetState PublicKey SecretKey Key) (theirNewPk : PublicKey)
    (fresh : PublicKey × SecretKey) : RatchetState PublicKey SecretKey Key × Result Unit :=
  let s := { s with
    previousChainLength := s.sendMessageNumber, sendMessageNumber := 0,
    recvMessageNumber := 0, remoteRatchetKey := some theirNewPk }
  match s.sendingKeypair with
  | none => (s, .error (.ratchetError "no sending keypair"))
  | some (_, ourSk) =>
    match dhExchange S ourSk theirNewPk with
    | .error e => (s, .error e)
    | .ok dhRecv =>
      let (newRoot, recvCk) := kdfRk S s.rootKey dhRecv
      let s := { s with rootKey := newRoot, receivingChainKey := some recvCk }
      match dhExchange S fresh.2 theirNewPk with
      | .error e => (s, .error e)
      | .ok dhSend =>
        let (newRoot, sendCk) := kdfRk S s.rootKey dhSend
        ({ s with
            rootKey := newRoot, sendingChainKey := some sendCk,
            sendingKeypair := some fresh }, .ok ())

section Receiving
variable [DecidableEq PublicKey]

def needRatchet (s : RatchetState PublicKey SecretKey Key) (theirPk : PublicKey) : Bool :=
  match s.remoteRatchetKey with
  | some remote => remote ≠ theirPk
  | none => true

def decrypt (s : RatchetState PublicKey SecretKey Key) (header : MessageHeader PublicKey)
    (ciphertext associatedData : List UInt8) (fresh : PublicKey × SecretKey) :
    RatchetState PublicKey SecretKey Key × Result (List UInt8) :=
  let id := (header.ratchetPublicKey, header.messageNumber)
  match s.skippedKeys.lookup id with
  | some msgKey =>
    ({ s with skippedKeys := s.skippedKeys.erase id },
      decryptWithKey S msgKey ciphertext associatedData)
  | none =>
    let ratcheted :=
      if needRatchet s header.ratchetPublicKey then
        andThen (skipMessageKeysForCurrentChain S s header.previousChainLength)
          fun s _ => dhRatchetStep S s header.ratchetPublicKey fresh
      else (s, .ok ())
    andThen ratcheted fun s _ =>
    andThen (skipMessageKeys S s header.messageNumber) fun s _ =>
    match s.receivingChainKey with
    | none => (s, .error (.ratchetError "no receiving chain key"))
    | some ck =>
      let (newCk, msgKey) := kdfCk S ck
      ({ s with
          receivingChainKey := some newCk, recvMessageNumber := header.messageNumber+1 },
        decryptWithKey S msgKey ciphertext associatedData)

end Receiving
end DoubleRatchet
end Vaultex
