import Vaultex.RatchetStep
import Vaultex.Runs

/-!
# Runs of one party

A session starts with `initSender` or `initReceiver` and goes on with any
calls: headers, ciphertexts and associated data are whatever the network
hands over. A `History` is the state together with what the run has done so
far, newest first; it records, and never decides.
-/

set_option autoImplicit false

namespace Vaultex

inductive Call (PublicKey SecretKey : Type) where
  | encrypt (plaintext associatedData : List UInt8) (nonce : Nonce)
  | decrypt (header : MessageHeader PublicKey) (ciphertext associatedData : List UInt8)
      (fresh : PublicKey × SecretKey)

/-- A message key derived for sealing, and what came of it. -/
structure Sealed (PublicKey Key : Type) where
  key : Key
  plaintext : List UInt8
  associatedData : List UInt8
  result : Result (MessageHeader PublicKey × List UInt8)

/-- A message key handed to `decryptWithKey`, and what came of it. -/
structure Opened (PublicKey Key : Type) where
  key : Key
  header : MessageHeader PublicKey
  ciphertext : List UInt8
  associatedData : List UInt8
  result : Result (List UInt8)

structure History (PublicKey SecretKey Key : Type) where
  state : RatchetState PublicKey SecretKey Key
  /-- Message keys used for sealing. -/
  sealedLog : List (Sealed PublicKey Key)
  /-- Message keys used for opening. -/
  openedLog : List (Opened PublicKey Key)
  /-- Public keys of the keypairs held, one entry for each change. -/
  held : List PublicKey
  /-- Keypairs drawn at random, the first one included. -/
  drawn : List (PublicKey × SecretKey)

namespace DoubleRatchet
variable {PublicKey SecretKey Key : Type} (S : Suite PublicKey SecretKey Key)

inductive StartedWith (sharedSecret : Key) : RatchetState PublicKey SecretKey Key → Prop
  | sender {remote : PublicKey} {fresh : PublicKey × SecretKey}
      {s : RatchetState PublicKey SecretKey Key}
      (h : initSender S sharedSecret remote fresh = .ok s) : StartedWith sharedSecret s
  | receiver (pair : PublicKey × SecretKey) :
      StartedWith sharedSecret (initReceiver sharedSecret pair)

def Started (s : RatchetState PublicKey SecretKey Key) : Prop :=
  ∃ sharedSecret, StartedWith S sharedSecret s

/-- A fresh sender in the terms of `kdfRk`. -/
theorem initSender_ok {sharedSecret : Key} {remote : PublicKey}
    {fresh : PublicKey × SecretKey} {s : RatchetState PublicKey SecretKey Key}
    (h : initSender S sharedSecret remote fresh = .ok s) :
    ∃ d, S.scalarmult fresh.2 remote = some d ∧ s = {
      rootKey := (kdfRk S sharedSecret d).1
      sendingChainKey := some (kdfRk S sharedSecret d).2
      receivingChainKey := none
      sendingKeypair := some fresh
      remoteRatchetKey := some remote
      sendMessageNumber := 0, recvMessageNumber := 0, previousChainLength := 0
      skippedKeys := ∅ } := by
  unfold initSender dhExchange at h
  cases hi : S.init with
  | false => simp [hi] at h
  | true =>
    cases hd : S.scalarmult fresh.2 remote with
    | none => simp [hi, hd] at h
    | some d =>
      simp only [hi, hd, if_true, Except.ok.injEq] at h
      exact ⟨d,rfl,h.symm⟩

variable [DecidableEq PublicKey]

def call (s : RatchetState PublicKey SecretKey Key) :
    Call PublicKey SecretKey → RatchetState PublicKey SecretKey Key
  | .encrypt plaintext ad nonce => (encrypt S s plaintext ad nonce).1
  | .decrypt header ciphertext ad fresh => (decrypt S s header ciphertext ad fresh).1

def Reachable (s : RatchetState PublicKey SecretKey Key) : Prop :=
  ∃ s0, Started S s0 ∧ ∃ calls, s = Runs.run (call S) s0 calls

/-- Whether a `decrypt` call gets as far as `gen_keypair`. -/
def drawsKeypair (s : RatchetState PublicKey SecretKey Key)
    (header : MessageHeader PublicKey) : Bool :=
  (s.skippedKeys.lookup (header.ratchetPublicKey,header.messageNumber)).isNone &&
  needRatchet s header.ratchetPublicKey &&
  match skipMessageKeysForCurrentChain S s header.previousChainLength with
  | (_, .error _) => false
  | (s, .ok ()) =>
    match s.sendingKeypair with
    | none => false
    | some (_, sk) => (S.scalarmult sk header.ratchetPublicKey).isSome

def start (s : RatchetState PublicKey SecretKey Key) : History PublicKey SecretKey Key where
  state := s
  sealedLog := []
  openedLog := []
  held := (s.sendingKeypair.map Prod.fst).toList
  drawn := s.sendingKeypair.toList

def recordHeld (s : RatchetState PublicKey SecretKey Key) (held : List PublicKey) :
    List PublicKey :=
  match s.sendingKeypair with
  | none => held
  | some (pk, _) => if held.head? = some pk then held else pk::held

/-- One call with its record. -/
def record (h : History PublicKey SecretKey Key) :
    Call PublicKey SecretKey → History PublicKey SecretKey Key
  | .encrypt plaintext ad nonce =>
    let (s, result) := encrypt S h.state plaintext ad nonce
    { h with
      state := s
      sealedLog := match h.state.sendingChainKey with
        | none => h.sealedLog
        | some ck => ⟨messageKey S ck 0,plaintext,ad,result⟩::h.sealedLog }
  | .decrypt header ciphertext ad fresh =>
    let (s, result) := decrypt S h.state header ciphertext ad fresh
    { state := s
      sealedLog := h.sealedLog
      openedLog := match (selectKey S h.state header fresh).2 with
        | .error _ => h.openedLog
        | .ok key => ⟨key,header,ciphertext,ad,result⟩::h.openedLog
      held := recordHeld s h.held
      drawn := if drawsKeypair S h.state header then fresh::h.drawn else h.drawn }

theorem record_state (h : History PublicKey SecretKey Key) (c : Call PublicKey SecretKey) :
    (record S h c).state = call S h.state c := by
  cases c <;> rfl

/-- The record has no part in what a run does. -/
theorem run_record_state (h : History PublicKey SecretKey Key)
    (calls : List (Call PublicKey SecretKey)) :
    (Runs.run (record S) h calls).state = Runs.run (call S) h.state calls :=
  Runs.run_map (record S) (record_state S) h calls

/-- The state `decrypt` leaves does not depend on the ciphertext. -/
theorem decrypt_state (s : RatchetState PublicKey SecretKey Key)
    (header : MessageHeader PublicKey) (ciphertext ad : List UInt8)
    (fresh : PublicKey × SecretKey) :
    (decrypt S s header ciphertext ad fresh).1 = (selectKey S s header fresh).1 := by
  rw [decrypt_eq_selectKey]
  obtain ⟨s1,e | key⟩ := selectKey S s header fresh <;> rfl

theorem record_decrypt_state (h : History PublicKey SecretKey Key)
    (header : MessageHeader PublicKey) (ciphertext ad : List UInt8)
    (fresh : PublicKey × SecretKey) :
    (record S h (.decrypt header ciphertext ad fresh)).state =
      (selectKey S h.state header fresh).1 := decrypt_state S _ _ _ _ _

/-- With no chain to send on, an encryption leaves not even a trace. -/
theorem record_no_chain {h : History PublicKey SecretKey Key}
    (chain : h.state.sendingChainKey = none) (plaintext ad : List UInt8) (nonce : Nonce) :
    record S h (.encrypt plaintext ad nonce) = h := by
  simp only [record, encrypt_no_chain S chain, chain]

theorem drawn_subset (h : History PublicKey SecretKey Key) (c : Call PublicKey SecretKey) :
    h.drawn ⊆ (record S h c).drawn := by
  cases c with
  | encrypt plaintext ad nonce => exact List.Subset.refl _
  | decrypt header ciphertext ad fresh =>
    simp only [record]
    split
    · exact List.subset_cons_self _ _
    · exact List.Subset.refl _

theorem decrypt_result (s : RatchetState PublicKey SecretKey Key)
    (header : MessageHeader PublicKey) (ciphertext ad : List UInt8)
    (fresh : PublicKey × SecretKey) :
    (decrypt S s header ciphertext ad fresh).2 =
      (selectKey S s header fresh).2.bind (fun key => decryptWithKey S key ciphertext ad) := by
  rw [decrypt_eq_selectKey]
  obtain ⟨s1,e | key⟩ := selectKey S s header fresh <;> rfl

theorem decrypt_ok {s : RatchetState PublicKey SecretKey Key} {header : MessageHeader PublicKey}
    {ciphertext ad plaintext : List UInt8} {fresh : PublicKey × SecretKey}
    (h : (decrypt S s header ciphertext ad fresh).2 = .ok plaintext) :
    ∃ key, (selectKey S s header fresh).2 = .ok key ∧
      decryptWithKey S key ciphertext ad = .ok plaintext := by
  rw [decrypt_result] at h
  cases hsel : (selectKey S s header fresh).2 with
  | error e =>
    rw [hsel] at h
    contradiction
  | ok key =>
    rw [hsel] at h
    exact ⟨key,rfl,h⟩

/-- A call that reaches the ratchet step: a miss under a new key that no check stops. -/
def takesRatchetStep (s : RatchetState PublicKey SecretKey Key)
    (header : MessageHeader PublicKey) : Prop :=
  s.skippedKeys.lookup (header.ratchetPublicKey,header.messageNumber) = none ∧
    needRatchet s header.ratchetPublicKey = true ∧ ¬rejectsEarly s header

instance (s : RatchetState PublicKey SecretKey Key) (header : MessageHeader PublicKey) :
    Decidable (takesRatchetStep s header) :=
  inferInstanceAs (Decidable (_ ∧ _ ∧ _))

variable {S} in
/-- A step is taken when the current chain has been skipped for it. -/
theorem CurrentSkipped.takes {s s1 : RatchetState PublicKey SecretKey Key}
    {header : MessageHeader PublicKey}
    (skipped : CurrentSkipped S s header.previousChainLength s1)
    (miss : s.skippedKeys.lookup (header.ratchetPublicKey,header.messageNumber) = none)
    (need : needRatchet s header.ratchetPublicKey = true) : takesRatchetStep s header :=
  ⟨miss,need,skipped.not_early need⟩

/-- Nothing stops the skipping in the chain about to be left. -/
theorem skipped_of_takes {s : RatchetState PublicKey SecretKey Key}
    {header : MessageHeader PublicKey} (h : takesRatchetStep s header) :
    ∃ s1, CurrentSkipped S s header.previousChainLength s1 ∧
      skipMessageKeysForCurrentChain S s header.previousChainLength = (s1, .ok ()) := by
  rcases skip_current_cases S s header.previousChainLength with hs1 | ⟨hck,hpk,hfar,-⟩
  · exact hs1
  · refine absurd ?_ h.2.2
    rw [rejectsEarly, if_pos h.2.1]
    exact ⟨hck,hpk,hfar⟩

theorem draws_of_first_exchange {s : RatchetState PublicKey SecretKey Key}
    {header : MessageHeader PublicKey} (h : takesRatchetStep s header) {pk : PublicKey}
    {sk : SecretKey} {d : Key} (pair : s.sendingKeypair = some (pk,sk))
    (dh : S.scalarmult sk header.ratchetPublicKey = some d) :
    drawsKeypair S s header = true := by
  obtain ⟨s1,hs1,heq⟩ := skipped_of_takes S h
  have hpair := hs1.pair.trans pair
  simp only [drawsKeypair, h.1, h.2.1, heq, hpair, dh]
  rfl

theorem takes_of_draws {s : RatchetState PublicKey SecretKey Key}
    {header : MessageHeader PublicKey} (h : drawsKeypair S s header = true) :
    takesRatchetStep s header := by
  simp only [drawsKeypair, Bool.and_eq_true, Option.isNone_iff_eq_none] at h
  obtain ⟨⟨miss,need⟩,hmatch⟩ := h
  refine ⟨miss,need,?_⟩
  rcases skip_current_cases S s header.previousChainLength with ⟨s1,hs1,-⟩ | ⟨-,-,-,heq⟩
  · exact hs1.not_early need
  · rw [heq] at hmatch
    contradiction

/-- A call that takes a key out of the chain, with no ratchet step before. -/
def takesFromChain (s : RatchetState PublicKey SecretKey Key)
    (header : MessageHeader PublicKey) : Prop :=
  s.skippedKeys.lookup (header.ratchetPublicKey,header.messageNumber) = none ∧
    needRatchet s header.ratchetPublicKey = false ∧ ¬rejectsEarly s header

instance (s : RatchetState PublicKey SecretKey Key) (header : MessageHeader PublicKey) :
    Decidable (takesFromChain s header) :=
  inferInstanceAs (Decidable (_ ∧ _ ∧ _))

theorem takes_from_chain_iff {s : RatchetState PublicKey SecretKey Key}
    {header : MessageHeader PublicKey} :
    takesFromChain s header ↔
      s.skippedKeys.lookup (header.ratchetPublicKey,header.messageNumber) = none ∧
      s.remoteRatchetKey = some header.ratchetPublicKey ∧
      s.recvMessageNumber.toNat ≤ header.messageNumber.toNat ∧
      header.messageNumber.toNat ≤ s.recvMessageNumber.toNat+1000 ∧
      s.receivingChainKey.isSome := by
  rw [takesFromChain, needRatchet_eq_false]
  exact and_congr_right fun _ => and_congr_right not_rejects_in_chain

theorem select_from_chain {s : RatchetState PublicKey SecretKey Key}
    {header : MessageHeader PublicKey} (hfrom : takesFromChain s header)
    (fresh : PublicKey × SecretKey) :
    ∃ ck, s.receivingChainKey = some ck ∧
      s.recvMessageNumber.toNat ≤ header.messageNumber.toNat ∧
      selectKey S s header fresh = (advance S s header.ratchetPublicKey ck header.messageNumber,
        .ok (messageKey S ck (header.messageNumber.toNat-s.recvMessageNumber.toNat))) := by
  obtain ⟨hmiss,hneed,hearly⟩ := hfrom
  have hs := selection S s header fresh
  generalize selectKey S s header fresh = r at hs
  cases hs with
  | cached hit =>
    rw [hmiss] at hit
    contradiction
  | rejected e miss early => exact absurd early hearly
  | inChain miss same chain low => exact ⟨_,chain,low,rfl⟩
  | noKeypair e miss need | dhRecvFailed e miss need | dhSendFailed e miss need
  | tooFar e miss need | ratcheted miss need =>
    rw [hneed] at need
    contradiction

section Step
variable {s : RatchetState PublicKey SecretKey Key} {header : MessageHeader PublicKey}
  {pair fresh : PublicKey × SecretKey} {d d' : Key} (htakes : takesRatchetStep s header)
  (hpair : s.sendingKeypair = some pair)
  (hdh : S.scalarmult pair.2 header.ratchetPublicKey = some d)
  (hdh' : S.scalarmult fresh.2 header.ratchetPublicKey = some d')
include htakes hpair hdh hdh'

/-- A ratchet step both of whose exchanges succeed stays taken, also where the message is
too far up the new chain for its key to be derived. -/
theorem select_step : ∃ s1, CurrentSkipped S s header.previousChainLength s1 ∧
    let s2 := sendStep S (recvStep S (relabel s1 header.ratchetPublicKey) d) fresh d'
    (header.messageNumber.toNat ≤ 1000 ∧ selectKey S s header fresh =
      (advance S s2 header.ratchetPublicKey (kdfRk S s1.rootKey d).2 header.messageNumber,
        .ok (messageKey S (kdfRk S s1.rootKey d).2 header.messageNumber.toNat))) ∨
    (1000 < header.messageNumber.toNat ∧ ∃ e, selectKey S s header fresh = (s2, .error e)) := by
  obtain ⟨hmiss,hneed,hearly⟩ := htakes
  have hs := selection S s header fresh
  generalize selectKey S s header fresh = r at hs
  cases hs with
  | cached hit =>
    rw [hmiss] at hit
    contradiction
  | rejected e miss early => exact absurd early hearly
  | inChain miss same => exact absurd same ((needRatchet_iff _ _).mp hneed)
  | noKeypair e miss need skipped noPair =>
    rw [skipped.pair, hpair] at noPair
    contradiction
  | dhRecvFailed e miss need skipped pair dh =>
    obtain rfl := Option.some.inj (hpair.symm.trans (skipped.pair.symm.trans pair))
    rw [hdh] at dh
    contradiction
  | dhSendFailed e miss need skipped pair dh dh' =>
    rw [hdh'] at dh'
    contradiction
  | tooFar e miss need skipped pair dh dh' far =>
    obtain rfl := Option.some.inj (hpair.symm.trans (skipped.pair.symm.trans pair))
    obtain rfl := Option.some.inj (hdh.symm.trans dh)
    obtain rfl := Option.some.inj (hdh'.symm.trans dh')
    exact ⟨_,skipped,Or.inr ⟨far,e,rfl⟩⟩
  | ratcheted miss need skipped pair dh dh' near =>
    obtain rfl := Option.some.inj (hpair.symm.trans (skipped.pair.symm.trans pair))
    obtain rfl := Option.some.inj (hdh.symm.trans dh)
    obtain rfl := Option.some.inj (hdh'.symm.trans dh')
    exact ⟨_,skipped,Or.inl ⟨near,rfl⟩⟩

/-- The message is near the start of its chain, and its key is derived. -/
theorem select_after_step (hnear : header.messageNumber.toNat ≤ 1000) :
    ∃ s1, CurrentSkipped S s header.previousChainLength s1 ∧ selectKey S s header fresh =
      (advance S (sendStep S (recvStep S (relabel s1 header.ratchetPublicKey) d) fresh d')
          header.ratchetPublicKey (kdfRk S s1.rootKey d).2 header.messageNumber,
        .ok (messageKey S (kdfRk S s1.rootKey d).2 header.messageNumber.toNat)) := by
  obtain ⟨s1,skipped,⟨-,heq⟩ | ⟨hfar,-⟩⟩ := select_step S htakes hpair hdh hdh'
  · exact ⟨s1,skipped,heq⟩
  · omega

end Step

/-- What a call does to the sending side: nothing, or half of a ratchet step, or all of it. -/
theorem selectKey_sending (s : RatchetState PublicKey SecretKey Key)
    (header : MessageHeader PublicKey) (fresh : PublicKey × SecretKey) :
    let s' := (selectKey S s header fresh).1
    (¬takesRatchetStep s header ∧ s'.sendingKeypair = s.sendingKeypair ∧
      s'.sendMessageNumber = s.sendMessageNumber ∧
      s'.previousChainLength = s.previousChainLength ∧ s'.sendingChainKey = s.sendingChainKey) ∨
    (takesRatchetStep s header ∧
      exchangesSucceed S s header.ratchetPublicKey fresh = false ∧
      s'.sendingKeypair = s.sendingKeypair ∧ s'.sendMessageNumber = 0 ∧
      s'.previousChainLength = s.sendMessageNumber ∧ s'.sendingChainKey = s.sendingChainKey) ∨
    (takesRatchetStep s header ∧
      exchangesSucceed S s header.ratchetPublicKey fresh = true ∧
      drawsKeypair S s header = true ∧ s'.sendingKeypair = some fresh ∧
      s'.sendMessageNumber = 0 ∧ s'.previousChainLength = s.sendMessageNumber ∧
      s'.sendingChainKey.isSome) := by
  have hs := selection S s header fresh
  generalize selectKey S s header fresh = r at hs
  cases hs with
  | cached hit =>
    exact Or.inl ⟨fun h => Option.some_ne_none _ (hit.symm.trans h.1),rfl,rfl,rfl,rfl⟩
  | rejected e miss early => exact Or.inl ⟨fun h => h.2.2 early,rfl,rfl,rfl,rfl⟩
  | inChain miss same chain low high =>
    exact Or.inl ⟨fun h => (needRatchet_iff _ _).mp h.2.1 same,rfl,rfl,rfl,rfl⟩
  | noKeypair e miss need skipped noPair =>
    obtain ⟨-,hchain,hpair,-,hsend,-⟩ := skipped.frame
    exact Or.inr (Or.inl ⟨skipped.takes miss need,skipped.no_keypair noPair,hpair,
      rfl,hsend,hchain⟩)
  | dhRecvFailed e miss need skipped pair dh =>
    obtain ⟨-,hchain,hpair,-,hsend,-⟩ := skipped.frame
    exact Or.inr (Or.inl ⟨skipped.takes miss need,
      skipped.exchange_failed pair (Or.inl dh),hpair,rfl,hsend,hchain⟩)
  | dhSendFailed e miss need skipped pair dh dh' =>
    obtain ⟨-,hchain,hpair,-,hsend,-⟩ := skipped.frame
    exact Or.inr (Or.inl ⟨skipped.takes miss need,
      skipped.exchange_failed pair (Or.inr dh'),hpair,rfl,hsend,hchain⟩)
  | tooFar e miss need skipped pair dh dh' far =>
    obtain ⟨-,-,hpair,-,hsend,-⟩ := skipped.frame
    have htakes := skipped.takes miss need
    exact Or.inr (Or.inr ⟨htakes,skipped.exchanges_done pair dh dh',
      draws_of_first_exchange S htakes (hpair.symm.trans pair) dh,rfl,rfl,hsend,rfl⟩)
  | ratcheted miss need skipped pair dh dh' near =>
    obtain ⟨-,-,hpair,-,hsend,-⟩ := skipped.frame
    have htakes := skipped.takes miss need
    exact Or.inr (Or.inr ⟨htakes,skipped.exchanges_done pair dh dh',
      draws_of_first_exchange S htakes (hpair.symm.trans pair) dh,rfl,rfl,hsend,rfl⟩)

/-- A call that gets a key has completed the ratchet step it took. -/
theorem completes_of_key {s : RatchetState PublicKey SecretKey Key}
    {header : MessageHeader PublicKey} {fresh : PublicKey × SecretKey} {key : Key}
    (hkey : (selectKey S s header fresh).2 = .ok key) (htakes : takesRatchetStep s header) :
    exchangesSucceed S s header.ratchetPublicKey fresh = true := by
  have hs := selection S s header fresh
  generalize selectKey S s header fresh = r at hs hkey
  cases hs with
  | cached hit =>
    exact absurd (hit.symm.trans htakes.1) (Option.some_ne_none _)
  | inChain miss same chain low high => exact absurd same ((needRatchet_iff _ _).mp htakes.2.1)
  | ratcheted miss need skipped pair dh dh' near =>
    exact skipped.exchanges_done pair dh dh'
  | rejected | noKeypair | dhRecvFailed | dhSendFailed | tooFar => contradiction

/-- The keypairs drawn in a run have distinct public keys. -/
def drawsFresh (h : History PublicKey SecretKey Key) : Call PublicKey SecretKey → Prop
  | .encrypt .. => True
  | .decrypt header _ _ fresh =>
    drawsKeypair S h.state header = true → fresh.1 ∉ h.drawn.map Prod.fst

instance (h : History PublicKey SecretKey Key) :
    ∀ c : Call PublicKey SecretKey, Decidable (drawsFresh S h c)
  | .encrypt .. => isTrue trivial
  | .decrypt .. => inferInstanceAs (Decidable (_ → _))

end DoubleRatchet
end Vaultex
