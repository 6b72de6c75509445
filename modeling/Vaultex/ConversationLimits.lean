import Vaultex.ConversationDelivery
import Vaultex.RatchetCounters

/-!
# The limits of an honest conversation

Two numbers bound what the ratchet takes: the counters end at 2^32, and a
receiver skips no more than `MAX_SKIP` keys. Between honest parties the first
is a matter of sending alone, and the second decides of every message on its
way whether it opens.
-/

set_option autoImplicit false

namespace Vaultex.Conversation
open DoubleRatchet
variable {PublicKey SecretKey Key : Type} [DecidableEq PublicKey]
  (S : Suite PublicKey SecretKey Key) (tape : ℕ → PublicKey × SecretKey)
  (generated : PublicKey × SecretKey → Prop)

/-- The call of the ratchet that a step makes, if it makes one. -/
def callOf (net : Net PublicKey SecretKey Key) : Action → Option (Party × Call PublicKey SecretKey)
  | .send p plaintext ad nonce => some (p,.encrypt plaintext ad nonce)
  | .deliver p number => (net.sent p.peer)[number]?.map fun packet =>
    (p,.decrypt packet.header packet.ciphertext packet.associatedData (tape net.drawn))

/-- No panic in a checked build, and no wrapped counter in a release build. -/
def StepInRange (net : Net PublicKey SecretKey Key) (a : Action) : Prop :=
  ∀ p c, callOf tape net a = some (p,c) → InRange S (net.state p) c

/-- The network delivers as it may, and parties send as they like. -/
def deliversAllowed (net : Net PublicKey SecretKey Key) : Action → Prop
  | .send .. => True
  | .deliver p number => allowed S tape generated rejectsReplay net (.deliver p number)

instance [DecidablePred generated] (net : Net PublicKey SecretKey Key) :
    ∀ a, Decidable (deliversAllowed S tape generated net a)
  | .send .. => isTrue trivial
  | .deliver p number =>
    inferInstanceAs (Decidable (allowed S tape generated rejectsReplay net (.deliver p number)))

section Results
variable {S tape generated} {sharedSecret : Key} {net : Net PublicKey SecretKey Key}
  {tr : Transcript}

theorem allowed_iff (a : Action) :
    allowed S tape generated rejectsReplay net a ↔
      deliversAllowed S tape generated net a ∧ hasRoom net a := by
  cases a with
  | send p plaintext ad nonce => exact Iff.symm (and_iff_right trivial)
  | deliver p k => exact Iff.symm (and_iff_left trivial)

/-- A state that shows a transcript counts what it sends. -/
theorem Refines.counted (h : Refines S generated sharedSecret tape net tr) (p : Party) :
    CountsSent ⟨net.state p,(net.state p).sendMessageNumber.toNat⟩ :=
  ⟨by rw [(h.shows p).pair]; rfl,rfl⟩

/-- A party without a chain stands at zero. -/
theorem Refines.room_of_no_chain (h : Refines S generated sharedSecret tape net tr) {p : Party}
    (hchain : (net.state p).sendingChainKey = none) :
    (net.state p).sendMessageNumber.toNat = 0 := by
  have hsending := (h.shows p).sending
  rw [hchain] at hsending
  have hzero : tr.epoch p = 0 := by
    by_contra hp
    rw [if_neg hp] at hsending
    cases hsending
  rw [(h.shows p).sendNumber, hzero, h.valid.noChain]

/-- A delivered header never bears the last number. -/
theorem header_in_range (h : Refines S generated sharedSecret tape net tr) {p : Party} {k : ℕ}
    {packet : Packet PublicKey} (hpacket : (net.sent p.peer)[k]? = some packet) :
    packet.header.messageNumber.toNat+1 < 2^32 := by
  obtain ⟨l,-,hl,hat⟩ := label_of_packet h.toTracks hpacket
  have hnumber := hat.heads.number
  have hsent := hl.2
  have hcount := h.counts l.chain
  omega

theorem step_in_range_iff (h : Refines S generated sharedSecret tape net tr) (a : Action) :
    StepInRange S tape net a ↔ hasRoom net a := by
  cases a with
  | send p plaintext ad nonce =>
    have hcall : StepInRange S tape net (.send p plaintext ad nonce) ↔
        InRange S (net.state p) (.encrypt plaintext ad nonce) := by
      constructor
      · intro hstep
        exact hstep p _ rfl
      · rintro hrange _ _ ⟨⟩
        exact hrange
    rw [hcall, inRange_iff (h.counted p)]
    constructor
    · intro hkeeps
      cases hchain : (net.state p).sendingChainKey with
      | none =>
        have hzero := h.room_of_no_chain hchain
        show (net.state p).sendMessageNumber.toNat+1 < 2^32
        omega
      | some ck => exact hkeeps (by rw [hchain]; rfl)
    · intro hroom _
      exact hroom
  | deliver p k =>
    refine iff_of_true ?_ trivial
    intro q c hcall
    obtain ⟨packet,hpacket,heq⟩ := Option.map_eq_some_iff.mp hcall
    obtain ⟨rfl,rfl⟩ := Prod.mk.inj heq
    exact (inRange_iff (h.counted p) _).mpr fun _ => header_in_range h hpacket

/-- In an honest conversation whose first deliveries skip at most `MAX_SKIP` keys of either
chain, receiving never takes a counter out of its range; the calls stay in range exactly as
long as no chain is asked for its last number. -/
theorem conversation_in_range_iff (hS : HonestLibrary S generated) (hd : Dealt generated tape 2)
    {alice : RatchetState PublicKey SecretKey Key}
    (halice : initSender S sharedSecret (tape 0).1 (tape 1) = .ok alice) {as : List Action}
    (hg : Runs.Guarded (step S tape) (deliversAllowed S tape generated)
      (opening alice (initReceiver sharedSecret (tape 0))) as) :
    Runs.Guarded (step S tape) (StepInRange S tape)
        (opening alice (initReceiver sharedSecret (tape 0))) as ↔
      Runs.Guarded (step S tape) hasRoom
        (opening alice (initReceiver sharedSecret (tape 0))) as := by
  have hcongr : Runs.Guarded (step S tape)
      (fun net a => deliversAllowed S tape generated net a ∧ StepInRange S tape net a)
      (opening alice (initReceiver sharedSecret (tape 0))) as ↔
      Runs.Guarded (step S tape)
        (fun net a => deliversAllowed S tape generated net a ∧ hasRoom net a)
        (opening alice (initReceiver sharedSecret (tape 0))) as :=
    Runs.guarded_congr (step S tape)
      (I := fun net => ∃ tr, Refines S generated sharedSecret tape net tr)
      (fun net a ⟨_,h⟩ => and_congr_right fun _ => step_in_range_iff h a)
      (fun net a ⟨_,h⟩ ha => ⟨_,step_refines hS h ((allowed_iff a).mpr ha)⟩)
      ⟨_,opening_refines halice hS hd⟩ as
  rw [Runs.guarded_and, Runs.guarded_and] at hcongr
  exact and_congr_right_iff.mp hcongr hg

/-- A call that gives a key had no more to skip than it may. -/
theorem within_of_selected {s : RatchetState PublicKey SecretKey Key} {p : Party}
    (hs : Shows S sharedSecret tape tr p s) {header : MessageHeader PublicKey}
    {fresh : PublicKey × SecretKey} {key : Key}
    (hkey : (selectKey S s header fresh).2 = .ok key) : withinSkip s header := by
  have hsel := selection S s header fresh
  generalize selectKey S s header fresh = r at hsel hkey
  rw [withinSkip]
  cases hsel with
  | cached hit => exact Or.inl (by rw [hit]; rfl)
  | inChain miss same chain low high =>
    have hneed : ¬needRatchet s header.ratchetPublicKey = true := by
      rw [needRatchet_eq_false.mpr same]
      exact Bool.false_ne_true
    rw [if_neg hneed]
    exact Or.inr high
  | ratcheted miss need skipped pair dh dh' near =>
    rw [if_pos need]
    refine Or.inr ⟨fun hchain => ?_,near⟩
    cases skipped with
    | nothing h =>
      rcases h with hnone | hnone | hlow
      · rw [hnone] at hchain
        cases hchain
      · have hsome := hs.remote_isSome hchain
        rw [hnone] at hsome
        cases hsome
      · exact (hlow.le.trans (Nat.le_add_right _ _))
    | skipped chain remote low high => exact high
  | rejected e miss early => cases hkey
  | noKeypair e miss need skipped noPair => cases hkey
  | dhRecvFailed e miss need skipped pair dh => cases hkey
  | dhSendFailed e miss need skipped pair dh dh' => cases hkey
  | tooFar e miss need skipped pair dh dh' far => cases hkey

/-- As long as the first deliveries of an honest conversation stay within `MAX_SKIP` and no
send counter is at its end, of the messages on their way to a party exactly those open that
it can reach by skipping at most `MAX_SKIP` keys of either chain. -/
theorem opens_iff_within_skip (hS : HonestLibrary S generated) (hd : Dealt generated tape 2)
    {alice : RatchetState PublicKey SecretKey Key}
    (halice : initSender S sharedSecret (tape 0).1 (tape 1) = .ok alice) {as : List Action}
    (hg : Runs.Guarded (step S tape) (allowed S tape generated rejectsReplay)
      (opening alice (initReceiver sharedSecret (tape 0))) as) :
    let net := Runs.run (step S tape) (opening alice (initReceiver sharedSecret (tape 0))) as
    ∀ p k packet, (net.sent p.peer)[k]? = some packet → k ∉ net.delivered p →
      drawsNew S tape generated net p packet.header →
      let r := (decrypt S (net.state p) packet.header packet.ciphertext packet.associatedData
        (tape net.drawn)).2
      (r = .ok packet.plaintext ∧ withinSkip (net.state p) packet.header) ∨
      ((∃ e, r = .error e) ∧ ¬withinSkip (net.state p) packet.header) := by
  intro net p k packet hpacket hnew hfresh r
  have h := run_refines hS (opening_refines halice hS hd) hg
  obtain ⟨l,hlog,-⟩ := label_of_packet h.toTracks hpacket
  by_cases hw : withinSkip (net.state p) packet.header
  · have ha : admits S tape generated rejectsReplay net p k (some packet) :=
      ⟨hfresh,by rwa [if_neg hnew]⟩
    exact Or.inl ⟨(first_delivery hS h.toTracks hpacket hlog hnew ha).2,hw⟩
  · refine Or.inr ⟨?_,hw⟩
    cases hkey : (selectKey S (net.state p) packet.header (tape net.drawn)).2 with
    | error e => exact ⟨e,(decrypt_result ..).trans (congrArg (Except.bind · _) hkey)⟩
    | ok key => exact absurd (within_of_selected (h.shows p) hkey) hw

end Results

section Sample
open Symbolic

def outAndBack : List Action :=
  [.send .alice [7] [] zeroNonce, .send .alice [8] [] zeroNonce, .deliver .bob 1,
    .send .bob [9] [] zeroNonce, .deliver .alice 0]

/-- Alice and Bob use a few numbers of two chains. -/
theorem conversation_in_range_iff_sample :
    Runs.Guarded (step sample sampleTape) (StepInRange sample sampleTape)
      (opening sampleAlice (initReceiver (.secret 0) (1,1))) outAndBack := by
  refine (conversation_in_range_iff sample_honest (sample_dealt 2) sample_starts ?_).mpr ?_
  · decide
  · decide

/-- Of two messages Bob was handed the second; the first opens still. -/
theorem opens_iff_within_skip_sample :
    let net := Runs.run (step sample sampleTape)
      (opening sampleAlice (initReceiver (.secret 0) (1,1))) outAndBack
    ∃ packet, (net.sent .alice)[0]? = some packet ∧ withinSkip (net.state .bob) packet.header ∧
      (decrypt sample (net.state .bob) packet.header packet.ciphertext packet.associatedData
        (sampleTape net.drawn)).2 = .ok packet.plaintext := by
  intro net
  refine ⟨_,rfl,by decide,?_⟩
  rcases opens_iff_within_skip sample_honest (sample_dealt 2) sample_starts
    (by decide : Runs.Guarded _ _ _ outAndBack) .bob 0 _ rfl (by decide) (by decide) with h | h
  · exact h.1
  · exact absurd (by decide) h.2

end Sample
end Vaultex.Conversation
