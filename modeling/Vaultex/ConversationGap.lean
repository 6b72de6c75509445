import Vaultex.ConversationDelivery

/-!
# A gap that no ratchet step mends

A party that has missed more than `MAX_SKIP` messages at the end of a chain
refuses every message of the next one, and with them the ratchet step that
would give its peer a new key to answer. So the peer opens no further chain,
and the direction stays closed until an overdue message comes after all.
-/

set_option autoImplicit false

namespace Vaultex.Conversation
open DoubleRatchet Mailbox
variable {PublicKey SecretKey Key : Type}

/-- The peer is on a chain that `p` has not come to, and too much of the one before is missing. -/
def CutOff (net : Net PublicKey SecretKey Key) (p : Party) : Prop :=
  (net.state p).receivingChainKey.isSome ∧
  (net.state p).remoteRatchetKey ≠ (net.state p.peer).sendingKeypair.map Prod.fst ∧
  (net.state p).recvMessageNumber.toNat+MAX_SKIP.toNat <
    (net.state p.peer).previousChainLength.toNat

/-- A header under the key that the peer of `p` has now. -/
def FromPeer (net : Net PublicKey SecretKey Key) (p : Party) (header : MessageHeader PublicKey) :
    Prop :=
  (net.state p.peer).sendingKeypair.map Prod.fst = some header.ratchetPublicKey

variable [DecidableEq PublicKey] {S : Suite PublicKey SecretKey Key}
  {tape : ℕ → PublicKey × SecretKey} {generated : PublicKey × SecretKey → Prop}
  {sharedSecret : Key} {net net0 : Net PublicKey SecretKey Key} {tr : Transcript} {p : Party}

/-- The two networks differ in what `p` was handed and what came of it. -/
structure AsIf (p : Party) (net net0 : Net PublicKey SecretKey Key) : Prop where
  state : net.state = net0.state
  sent : net.sent = net0.sent
  drawn : net.drawn = net0.drawn
  delivered : net.delivered p.peer = net0.delivered p.peer

section Cut
variable (h : Refines S generated sharedSecret tape net tr)
include h

theorem cut_iff : CutOff net p ↔ 2 ≤ tr.epoch p ∧ tr.epoch p.peer = tr.epoch p+1 ∧
    (net.state p).recvMessageNumber.toNat+1000 < tr.count (tr.epoch p-1) := by
  have hs := h.shows p
  have hpeer := h.shows p.peer
  have hnear := h.valid.near p
  have hnear' := h.valid.near p.peer
  have hpar := h.valid.parity p
  have hpar' := h.valid.parity p.peer
  have hsum := Transcript.parity_peer p
  have hmax := h.drawn p
  rw [Party.peer_peer] at hnear'
  rw [CutOff, hs.receiving, hs.remote, hpeer.pair, hpeer.previous,
    show MAX_SKIP.toNat = 1000 from rfl]
  by_cases hchain : tr.epoch p ≤ 1
  · rw [if_pos hchain]
    exact iff_of_false (by simp) (by omega)
  · rw [if_neg hchain, if_neg (by omega), Option.map_some]
    have hkeys : (tape (tr.epoch p-1)).1 = (tape (tr.epoch p.peer)).1 ↔
        tr.epoch p-1 = tr.epoch p.peer := by
      constructor
      · exact h.dealt.distinct _ _ (by omega) (by omega)
      · intro heq
        rw [heq]
    rw [Ne, Option.some_inj, hkeys]
    constructor
    · rintro ⟨-,hne,hfar⟩
      have hahead : tr.epoch p.peer = tr.epoch p+1 := by omega
      rw [hahead] at hfar
      exact ⟨by omega,hahead,hfar⟩
    · rintro ⟨-,hahead,hfar⟩
      refine ⟨rfl,by omega,?_⟩
      rw [hahead]
      exact hfar

/-- What comes under the peer's present key is turned away before anything is written. -/
theorem ahead_stops (hcut : CutOff net p) {k : ℕ} {packet : Packet PublicKey}
    (hpacket : (net.sent p.peer)[k]? = some packet) (hfrom : FromPeer net p packet.header) :
    stopsInTime (net.state p) packet.header := by
  obtain ⟨hchain,hahead,hfar⟩ := (cut_iff h).mp hcut
  obtain ⟨l,-,hl,hat⟩ := label_of_packet h.toTracks hpacket
  have hs := h.shows p
  have hbelow := h.below p
  have hlast := (Transcript.sent_chain h.valid hl).2
  rw [FromPeer, (h.shows p.peer).pair, Option.map_some, Option.some_inj, hat.heads.key] at hfrom
  have hnext : l.chain = tr.epoch p+1 := by
    have heq := h.dealt.distinct _ _ hbelow (hlast.trans_lt hbelow) hfrom
    omega
  have hmiss := miss_beyond h.valid hs hl hat.heads h.dealt hbelow
    (Transcript.not_passed_beyond h.valid (by omega))
  have hneed := (need_iff h.valid hs hl hat.heads h.dealt hbelow).mpr (by omega)
  refine ⟨hmiss,?_⟩
  rw [rejectsEarly, if_pos hneed, hat.heads.previous, hnext, hs.receiving, hs.remote,
    if_neg (by omega), if_neg (by omega)]
  exact ⟨rfl,rfl,hfar⟩

end Cut

/-- Beyond the gap the network does as it likes: both send, the peer is handed what there is,
and `p` anything that its peer has sent under its present key. -/
def beyondGap (S : Suite PublicKey SecretKey Key) (tape : ℕ → PublicKey × SecretKey)
    (generated : PublicKey × SecretKey → Prop) (p : Party) (net : Net PublicKey SecretKey Key) :
    Action → Prop
  | .send q _ _ _ => (net.state q).sendMessageNumber.toNat+1 < 2^32
  | .deliver q k =>
    if q = p then ∀ packet, (net.sent p.peer)[k]? = some packet → FromPeer net p packet.header
    else allowed S tape generated rejectsReplay net (.deliver q k)

section AsIf

theorem AsIf.allowed (h : AsIf p net net0) {k : ℕ}
    (ha : Conversation.allowed S tape generated rejectsReplay net (.deliver p.peer k)) :
    Conversation.allowed S tape generated rejectsReplay net0 (.deliver p.peer k) := by
  rw [Conversation.allowed] at ha ⊢
  rw [← h.sent]
  cases hpacket : (net.sent p.peer.peer)[k]? with
  | none =>
    rw [hpacket] at ha
    exact ha
  | some packet =>
    rw [hpacket] at ha
    rw [admits, drawsNew] at ha ⊢
    rwa [← h.state, ← h.drawn, ← h.delivered]

omit [DecidableEq PublicKey] in
theorem AsIf.send (h : AsIf p net net0) (q : Party) (plaintext ad : List UInt8) (nonce : Nonce) :
    AsIf p (send S net q plaintext ad nonce) (Conversation.send S net0 q plaintext ad nonce) := by
  rw [Conversation.send, Conversation.send, h.state, h.sent]
  obtain ⟨s,e | ⟨header,ciphertext⟩⟩ := encrypt S (net0.state q) plaintext ad nonce
  · exact ⟨rfl,rfl,h.drawn,h.delivered⟩
  · exact ⟨rfl,rfl,h.drawn,h.delivered⟩

theorem AsIf.deliver (h : AsIf p net net0) (k : ℕ) :
    AsIf p (deliver S tape net p.peer k) (Conversation.deliver S tape net0 p.peer k) := by
  rw [Conversation.deliver, Conversation.deliver, h.sent]
  cases (net0.sent p.peer.peer)[k]? with
  | none => exact h
  | some packet =>
    simp only [handOver, h.state, h.drawn, h.delivered, h.sent]
    exact ⟨rfl,rfl,rfl,by simp only [Function.update_self]⟩

omit [DecidableEq PublicKey] in
theorem AsIf.cut (h : AsIf p net net0) : CutOff net p ↔ CutOff net0 p := by
  rw [CutOff, CutOff, h.state]

end AsIf

/-- The receiving side of `p` and the keypair of its peer are where they were. -/
structure Frozen (p : Party) (before after : Net PublicKey SecretKey Key) : Prop where
  chain : (after.state p).receivingChainKey = (before.state p).receivingChainKey
  number : (after.state p).recvMessageNumber = (before.state p).recvMessageNumber
  cache : (after.state p).skippedKeys = (before.state p).skippedKeys
  pair : (after.state p.peer).sendingKeypair = (before.state p.peer).sendingKeypair

/-- Up to what `p` was handed in vain, the conversation is an honest one that stands at the gap. -/
structure Beyond (S : Suite PublicKey SecretKey Key) (generated : PublicKey × SecretKey → Prop)
    (sharedSecret : Key) (tape : ℕ → PublicKey × SecretKey) (p : Party)
    (before net : Net PublicKey SecretKey Key) : Prop where
  honest : ∃ net0 tr, AsIf p net net0 ∧ Refines S generated sharedSecret tape net0 tr
  cut : CutOff net p
  frozen : Frozen p before net

section Step
variable {before : Net PublicKey SecretKey Key}

/-- What `p` is handed leaves its state, and draws nothing. -/
theorem Beyond.handed (h : Beyond S generated sharedSecret tape p before net) {k : ℕ}
    {packet : Packet PublicKey} (hpacket : (net.sent p.peer)[k]? = some packet)
    (hfrom : FromPeer net p packet.header) (ciphertext ad : List UInt8)
    (fresh : PublicKey × SecretKey) :
    ((decrypt S (net.state p) packet.header ciphertext ad fresh).1 = net.state p ∧
      ∃ e, (decrypt S (net.state p) packet.header ciphertext ad fresh).2 = .error e) ∧
    drawsKeypair S (net.state p) packet.header = false := by
  obtain ⟨net0,tr,hsame,hrefines⟩ := h.honest
  rw [FromPeer, hsame.state] at hfrom
  rw [hsame.sent] at hpacket
  have hstops := ahead_stops hrefines (hsame.cut.mp h.cut) hpacket hfrom
  rw [← hsame.state] at hstops
  obtain ⟨hstate,⟨e,he⟩,hdraws⟩ := select_stopped (S := S) hstops fresh
  rw [decrypt_state, decrypt_result, he]
  exact ⟨⟨hstate,e,rfl⟩,hdraws⟩

theorem beyond_deliver (h : Beyond S generated sharedSecret tape p before net) {k : ℕ}
    (ha : beyondGap S tape generated p net (.deliver p k)) :
    Beyond S generated sharedSecret tape p before (deliver S tape net p k) := by
  rw [beyondGap, if_pos rfl] at ha
  rw [deliver]
  cases hpacket : (net.sent p.peer)[k]? with
  | none => exact h
  | some packet =>
    obtain ⟨⟨hstate,-⟩,hdraws⟩ := h.handed hpacket (ha packet hpacket) packet.ciphertext
      packet.associatedData (tape net.drawn)
    have hsame : (handOver S tape net p k packet).state = net.state := by
      simp only [handOver, hstate, Function.update_eq_self]
    obtain ⟨net0,tr,has,hrefines⟩ := h.honest
    refine ⟨⟨net0,tr,⟨?_,?_,?_,?_⟩,hrefines⟩,?_,?_⟩
    · rw [hsame, has.state]
    · exact has.sent
    · simp only [handOver, hdraws, Bool.false_eq_true, if_false, has.drawn]
    · simp only [handOver, Function.update_of_ne (Party.peer_ne p), has.delivered]
    · rw [CutOff, hsame]
      exact h.cut
    · exact ⟨hsame ▸ h.frozen.chain,hsame ▸ h.frozen.number,hsame ▸ h.frozen.cache,
        hsame ▸ h.frozen.pair⟩

omit [DecidableEq PublicKey] in
variable (S) in
/-- Sending moves a party's own chain and nothing else that the gap is made of. -/
theorem send_keeps (net : Net PublicKey SecretKey Key) (q : Party) (plaintext ad : List UInt8)
    (nonce : Nonce) (r : Party) :
    let s := (send S net q plaintext ad nonce).state r
    s.receivingChainKey = (net.state r).receivingChainKey ∧
    s.recvMessageNumber = (net.state r).recvMessageNumber ∧
    s.skippedKeys = (net.state r).skippedKeys ∧
    s.sendingKeypair = (net.state r).sendingKeypair ∧
    s.remoteRatchetKey = (net.state r).remoteRatchetKey ∧
    s.previousChainLength = (net.state r).previousChainLength := by
  rw [send_state]
  by_cases hr : r = q
  · subst hr
    rw [Function.update_self]
    obtain ⟨-,-,hrecv,hpair,hremote,hnumber,hprevious,hskip⟩ :=
      encrypt_frame S (net.state r) plaintext ad nonce
    exact ⟨hrecv,hnumber,hskip,hpair,hremote,hprevious⟩
  · rw [Function.update_of_ne hr]
    exact ⟨rfl,rfl,rfl,rfl,rfl,rfl⟩

theorem beyond_send (hS : HonestLibrary S generated)
    (h : Beyond S generated sharedSecret tape p before net) {q : Party}
    (hroom : (net.state q).sendMessageNumber.toNat+1 < 2^32) (plaintext ad : List UInt8)
    (nonce : Nonce) :
    Beyond S generated sharedSecret tape p before (send S net q plaintext ad nonce) := by
  obtain ⟨net0,tr,has,hrefines⟩ := h.honest
  obtain ⟨hchain,hnumber,hcache,-,hremote,-⟩ := send_keeps S net q plaintext ad nonce p
  obtain ⟨-,-,-,hpair,-,hprevious⟩ := send_keeps S net q plaintext ad nonce p.peer
  refine ⟨⟨_,tr.send q,has.send q plaintext ad nonce,?_⟩,?_,?_⟩
  · exact refines_send hrefines hS (has.state ▸ hroom) plaintext ad nonce
  · rw [CutOff, hchain, hremote, hnumber, hpair, hprevious]
    exact h.cut
  · exact ⟨hchain.trans h.frozen.chain,hnumber.trans h.frozen.number,hcache.trans h.frozen.cache,
      hpair.trans h.frozen.pair⟩

/-- The peer receives what `p` had sent, and comes to no new chain by it. -/
theorem beyond_peer (hS : HonestLibrary S generated)
    (h : Beyond S generated sharedSecret tape p before net) {k : ℕ}
    (ha : allowed S tape generated rejectsReplay net (.deliver p.peer k)) :
    Beyond S generated sharedSecret tape p before (deliver S tape net p.peer k) := by
  obtain ⟨net0,tr,has,hrefines⟩ := h.honest
  have hcut := (cut_iff hrefines).mp (has.cut.mp h.cut)
  have hsame : AsIf p (deliver S tape net p.peer k) (deliver S tape net0 p.peer k) :=
    has.deliver k
  obtain ⟨packet,hpacket,-⟩ := sent_of_allowed (has.allowed ha)
  obtain ⟨l,hlog,hl,-⟩ := label_of_packet hrefines.toTracks hpacket
  rw [Party.peer_peer] at hl
  have hlast := (Transcript.sent_chain hrefines.valid hl).2
  have htr : tr.step (.deliver p.peer k) = tr.receive p.peer l := by
    rw [Transcript.step, hlog]
    rfl
  have hnext : Refines S generated sharedSecret tape (deliver S tape net0 p.peer k)
      (tr.receive p.peer l) := htr ▸ step_refines hS hrefines (has.allowed ha)
  have hpeer : (tr.receive p.peer l).epoch p.peer = tr.epoch p.peer := by
    rw [Transcript.receive_epoch]
    omega
  have hown : (tr.receive p.peer l).epoch p = tr.epoch p := by
    have hother := Transcript.receive_epoch_peer tr p.peer l
    rwa [Party.peer_peer] at hother
  have hstate : (deliver S tape net0 p.peer k).state p = net0.state p := by
    have hother := deliver_state_peer S tape net0 p.peer k
    rwa [Party.peer_peer] at hother
  have hpair : ((deliver S tape net0 p.peer k).state p.peer).sendingKeypair =
      (net0.state p.peer).sendingKeypair := by
    rw [(hnext.shows p.peer).pair, hpeer, (hrefines.shows p.peer).pair]
  refine ⟨⟨_,_,hsame,hnext⟩,?_,?_⟩
  · apply hsame.cut.mpr
    rw [cut_iff hnext, hown, hpeer, hstate]
    exact hcut
  · have hp : (deliver S tape net p.peer k).state p = net.state p := by
      rw [hsame.state, hstate, has.state]
    refine ⟨hp ▸ h.frozen.chain,hp ▸ h.frozen.number,hp ▸ h.frozen.cache,?_⟩
    rw [hsame.state, hpair, ← has.state]
    exact h.frozen.pair

theorem beyond_step (hS : HonestLibrary S generated)
    (h : Beyond S generated sharedSecret tape p before net) {a : Action}
    (ha : beyondGap S tape generated p net a) :
    Beyond S generated sharedSecret tape p before (step S tape net a) := by
  cases a with
  | send q plaintext ad nonce => exact beyond_send hS h ha plaintext ad nonce
  | deliver q k =>
    rcases Party.eq_or_eq_peer p q with rfl | rfl
    · exact beyond_deliver h ha
    · rw [beyondGap, if_neg (Party.peer_ne p)] at ha
      exact beyond_peer hS h ha

end Step

/-- Once a party is more than `MAX_SKIP` messages short at the end of a chain, then as long as
it is handed only what its peer sends under its present key, and none of the messages before
these, nothing opens any more, however the two go on: what `p` is handed is refused and leaves
`p` where it was, and the peer stays for ever on the keypair it has. -/
theorem gap_closes_direction (hS : HonestLibrary S generated) (hd : Dealt generated tape 2)
    {alice : RatchetState PublicKey SecretKey Key}
    (halice : initSender S sharedSecret (tape 0).1 (tape 1) = .ok alice) {as : List Action}
    (hg : Runs.Guarded (step S tape) (allowed S tape generated rejectsReplay)
      (opening alice (initReceiver sharedSecret (tape 0))) as) {p : Party}
    (hcut : CutOff
      (Runs.run (step S tape) (opening alice (initReceiver sharedSecret (tape 0))) as) p)
    {more : List Action} (hmore : Runs.Guarded (step S tape) (beyondGap S tape generated p)
      (Runs.run (step S tape) (opening alice (initReceiver sharedSecret (tape 0))) as) more) :
    let net := Runs.run (step S tape) (opening alice (initReceiver sharedSecret (tape 0))) as
    let net' := Runs.run (step S tape) net more
    Frozen p net net' ∧ CutOff net' p ∧ ∀ (k : ℕ) (packet : Packet PublicKey) fresh,
      (net'.sent p.peer)[k]? = some packet → FromPeer net p packet.header →
      let r := decrypt S (net'.state p) packet.header packet.ciphertext packet.associatedData fresh
      r.1 = net'.state p ∧ ∃ e, r.2 = .error e := by
  intro net net'
  have hrefines := run_refines hS (opening_refines halice hS hd) hg
  have hbeyond : Beyond S generated sharedSecret tape p net net' :=
    Runs.run_invariant (step S tape) (I := Beyond S generated sharedSecret tape p net)
      (fun _ _ h ha => beyond_step hS h ha)
      ⟨⟨net,_,⟨rfl,rfl,rfl,rfl⟩,hrefines⟩,hcut,⟨rfl,rfl,rfl,rfl⟩⟩ hmore
  refine ⟨hbeyond.frozen,hbeyond.cut,fun k packet fresh hpacket hfrom => ?_⟩
  rw [FromPeer, ← hbeyond.frozen.pair] at hfrom
  exact (hbeyond.handed hpacket hfrom _ _ fresh).1

section Sends
open Symbolic

theorem run_burst_transcript (tr : Transcript) {p : Party} (hp : tr.epoch p ≠ 0) (n : ℕ) :
    let tr' := Runs.run Transcript.step tr (burst p n)
    tr'.epoch = tr.epoch ∧ tr'.count (tr.epoch p) = tr.count (tr.epoch p)+n ∧
      (∀ i ≠ tr.epoch p, tr'.count i = tr.count i) ∧
      (tr'.log p).length = (tr.log p).length+n ∧ tr'.log p.peer = tr.log p.peer := by
  induction n generalizing tr with
  | zero => exact ⟨rfl,rfl,fun _ _ => rfl,rfl,rfl⟩
  | succ n ih =>
    have hepoch := Transcript.send_epoch tr p
    obtain ⟨he,hc,hc',hl,hl'⟩ := ih (tr.send p) (by rwa [hepoch])
    rw [hepoch] at he hc hc'
    refine ⟨he,?_,?_,?_,?_⟩
    · refine hc.trans ?_
      rw [Transcript.send_count hp]
      omega
    · intro i hi
      exact (hc' i hi).trans (Transcript.send_count_ne tr p hi)
    · refine hl.trans ?_
      rw [Transcript.send_log hp, List.length_append]
      simp only [List.length_singleton]
      omega
    · exact hl'.trans (Transcript.send_log_peer tr p)

/-- A burst leaves the peer alone, and of its sender what it receives with. -/
theorem run_burst (hS : HonestLibrary S generated)
    (h : Refines S generated sharedSecret tape net tr) {p : Party} (hp : tr.epoch p ≠ 0) {n : ℕ}
    (hn : tr.count (tr.epoch p)+n < 2^32) :
    Runs.Guarded (step S tape) (allowed S tape generated rejectsReplay) net (burst p n) ∧
    let net' := Runs.run (step S tape) net (burst p n)
    net'.state p.peer = net.state p.peer ∧ net'.sent p.peer = net.sent p.peer ∧
      net'.delivered = net.delivered ∧
      (net'.state p).receivingChainKey = (net.state p).receivingChainKey := by
  induction n generalizing net tr with
  | zero => exact ⟨trivial,rfl,rfl,rfl,rfl⟩
  | succ n ih =>
    have hroom : (net.state p).sendMessageNumber.toNat+1 < 2^32 := by
      rw [(h.shows p).sendNumber]
      omega
    have hepoch := Transcript.send_epoch tr p
    obtain ⟨hg,hstate,hsent,hdelivered,hchain⟩ := ih (refines_send h hS hroom [] [] zeroNonce)
      (by rwa [hepoch]) (by rw [hepoch, Transcript.send_count hp]; omega)
    have hframe := send_peer S net p [] [] zeroNonce
    obtain ⟨hkeep,-⟩ := send_keeps S net p [] [] zeroNonce p
    exact ⟨⟨hroom,hg⟩,hstate.trans hframe.1,hsent.trans hframe.2.1,hdelivered.trans hframe.2.2,
      hchain.trans hkeep⟩

end Sends

section Sample
open Symbolic

/-- Bob has Alice's first message and answers it; she has sent on without him. -/
def answered : List Action :=
  [.send .alice [7] [] zeroNonce, .deliver .bob 0, .send .bob [8] [] zeroNonce]

def gapNet (as : List Action) : Net ℕ ℕ Term :=
  Runs.run (step sample sampleTape) (opening sampleAlice (initReceiver (.secret 0) (1,1))) as

def gapTranscript (as : List Action) : Transcript := Runs.run Transcript.step .opening as

theorem answered_refines :
    Refines sample namedPair (.secret 0) sampleTape (gapNet answered) (gapTranscript answered) :=
  run_refines sample_honest (opening_refines sample_starts sample_honest (sample_dealt 2))
    (by decide)

/-- Alice sends on, and then has Bob's answer. -/
def silence (n : ℕ) : List Action := answered++(burst .alice n++[.deliver .alice 0])

theorem silence_guarded {n : ℕ} (hn : 1+n < 2^32) :
    Runs.Guarded (step sample sampleTape) (allowed sample sampleTape namedPair rejectsReplay)
      (opening sampleAlice (initReceiver (.secret 0) (1,1))) (silence n) := by
  obtain ⟨hburst,-,hsent,hdelivered,hchain⟩ := run_burst sample_honest answered_refines
    (by decide : (gapTranscript answered).epoch .alice ≠ 0) hn
  obtain ⟨packet,hpacket,hnumber⟩ : ∃ packet, (gapNet answered).sent .bob = [packet] ∧
      packet.header.messageNumber = 0 := ⟨_,rfl,rfl⟩
  rw [silence, Runs.guarded_append, Runs.guarded_append]
  refine ⟨by decide,hburst,?_,trivial⟩
  have hfirst : ((Runs.run (step sample sampleTape) (gapNet answered) (burst .alice n)).sent
      .bob)[0]? = some packet := by
    rw [show Party.bob = Party.alice.peer from rfl, hsent]
    exact congrArg (·[0]?) hpacket
  refine (congrArg (admits _ _ _ _ _ _ _) hfirst).mpr ⟨drawsNew_sample _ _ _,?_⟩
  rw [if_neg (hdelivered ▸ List.not_mem_nil), withinSkip, hnumber]
  have hnone : ¬((Runs.run (step sample sampleTape) (gapNet answered) (burst .alice n)).state
      .alice).receivingChainKey.isSome = true := by
    rw [hchain]
    exact Bool.false_ne_true
  right
  split
  · exact ⟨fun h => absurd h hnone,Nat.zero_le _⟩
  · exact Nat.zero_le _

theorem silence_transcript (n : ℕ) :
    let tr := gapTranscript (silence n)
    tr.epoch .bob = 2 ∧ tr.epoch .alice = 3 ∧ tr.count 1 = 1+n ∧ tr.count 3 = 0 ∧
      (tr.log .alice).length = 1+n := by
  obtain ⟨hepoch,hcount,hother,hlength,hlog⟩ := run_burst_transcript (gapTranscript answered)
    (by decide : (gapTranscript answered).epoch .alice ≠ 0) n
  have hlast : gapTranscript (silence n) =
      (Runs.run Transcript.step (gapTranscript answered) (burst .alice n)).receive
        .alice ⟨2,0⟩ := by
    rw [gapTranscript, silence, Runs.run_append, Runs.run_append]
    exact congrArg (fun log => Transcript.arrive _ .alice (log[0]?)) hlog
  intro tr
  rw [show tr = _ from hlast]
  refine ⟨?_,?_,hcount,hother 3 (by decide),hlength⟩
  · exact congrFun hepoch .bob
  · exact (Transcript.receive_epoch ..).trans (congrArg (max · 3) (congrFun hepoch .alice))

theorem silence_refines {n : ℕ} (hn : 1+n < 2^32) :
    Refines sample namedPair (.secret 0) sampleTape (gapNet (silence n))
      (gapTranscript (silence n)) :=
  run_refines sample_honest (opening_refines sample_starts sample_honest (sample_dealt 2))
    (silence_guarded hn)

/-- Alice's messages but the first are lost, and Bob is more than 1000 behind. -/
theorem silence_cut {n : ℕ} (hn : 1+n < 2^32) (hfar : 1000 < n) :
    CutOff (gapNet (silence n)) .bob := by
  obtain ⟨-,hstate,-⟩ := run_burst sample_honest answered_refines
    (by decide : (gapTranscript answered).epoch .alice ≠ 0) hn
  have hbob : (gapNet (silence n)).state .bob = (gapNet answered).state .bob := by
    rw [gapNet, silence, Runs.run_append, Runs.run_append]
    exact (deliver_state_peer sample sampleTape _ .alice 0).trans hstate
  obtain ⟨hepoch,hepoch',hcount,-⟩ := silence_transcript n
  apply (cut_iff (silence_refines hn)).mpr
  rw [Party.peer, hepoch, hepoch', hcount, hbob]
  refine ⟨le_refl 2,rfl,?_⟩
  rw [show ((gapNet answered).state .bob).recvMessageNumber.toNat = 1 from rfl]
  omega

/-- Alice's next message is of a chain that Bob cannot come to. -/
def onward (n : ℕ) : List Action := [.send .alice [5] [] zeroNonce, .deliver .bob (1+n)]

theorem onward_guarded {n : ℕ} (hn : 1+n < 2^32) :
    Runs.Guarded (step sample sampleTape) (beyondGap sample sampleTape namedPair .bob)
      (gapNet (silence n)) (onward n) := by
  obtain ⟨-,hepoch,-,hcount,hlength⟩ := silence_transcript n
  have hrefines := silence_refines hn
  have hroom : ((gapNet (silence n)).state .alice).sendMessageNumber.toNat+1 < 2^32 := by
    rw [(hrefines.shows .alice).sendNumber, hepoch, hcount]
    decide
  refine ⟨hroom,?_,trivial⟩
  have hsent := refines_send hrefines sample_honest hroom [5] [] zeroNonce
  have hactive : (gapTranscript (silence n)).epoch .alice ≠ 0 := by
    rw [hepoch]
    decide
  intro packet hpacket
  obtain ⟨l,hl,-,hat⟩ := label_of_packet hsent.toTracks hpacket
  have hlast : (((gapTranscript (silence n)).send .alice).log .alice)[1+n]? = some ⟨3,0⟩ := by
    rw [Transcript.send_log hactive, ← hlength, List.getElem?_concat_length, hepoch, hcount]
  obtain rfl := Option.some.inj (hl.symm.trans hlast)
  refine (congrArg (Option.map Prod.fst) (hsent.shows .alice).pair).trans ?_
  rw [Transcript.send_epoch, hepoch, hat.heads.key]
  rfl

theorem gap_closes_direction_sample :
    let net := gapNet (silence 1001)
    let net' := Runs.run (step sample sampleTape) net (onward 1001)
    Frozen .bob net net' ∧ CutOff net' .bob := by
  intro net net'
  obtain ⟨hfrozen,hcut,-⟩ := gap_closes_direction sample_honest (sample_dealt 2) sample_starts
    (silence_guarded (by decide : 1+1001 < 2^32)) (silence_cut (by decide) (by decide))
    (onward_guarded (by decide : 1+1001 < 2^32))
  exact ⟨hfrozen,hcut⟩

end Sample
end Vaultex.Conversation
