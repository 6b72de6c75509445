import Vaultex.ConversationBurst
import Vaultex.ConversationRefinement

/-!
# Delivery, redelivery and order of delivery

What the refinement gives for the runs of an honest conversation, and where a
replayed message or a counter that wraps ends it.
-/

set_option autoImplicit false

namespace Vaultex.Conversation
open DoubleRatchet
variable {PublicKey SecretKey Key : Type} [DecidableEq PublicKey]

/-- A first delivery opens, a second one is an error. -/
def Harmless (o : Outcome PublicKey) : Prop :=
  if o.again then ∃ e, o.result = .error e else o.result = .ok o.packet.plaintext

/-- Every `decrypt` call returned the plaintext encrypted. -/
def AllOpened (net : Net PublicKey SecretKey Key) : Prop :=
  ∀ o ∈ net.outcomes, o.result = .ok o.packet.plaintext

def AllHarmless (net : Net PublicKey SecretKey Key) : Prop := ∀ o ∈ net.outcomes, Harmless o

/-- Any message may be delivered again at any time of an honest run: the second
delivery is an error, and what comes later still opens. -/
def RedeliveryHarmless (S : Suite PublicKey SecretKey Key)
    (generated : PublicKey × SecretKey → Prop) : Prop :=
  ∀ sharedSecret tape alice as, Dealt generated tape 2 →
    initSender S sharedSecret (tape 0).1 (tape 1) = .ok alice →
    Runs.Guarded (step S tape) (allowed S tape generated fun _ _ => True)
      (opening alice (initReceiver sharedSecret (tape 0))) as →
    AllHarmless (Runs.run (step S tape) (opening alice (initReceiver sharedSecret (tape 0))) as)

/-- No message delivered before can be delivered again to any effect. -/
def ReplaysIgnored (S : Suite PublicKey SecretKey Key)
    (generated : PublicKey × SecretKey → Prop) (tape : ℕ → PublicKey × SecretKey)
    (net : Net PublicKey SecretKey Key) : Prop :=
  ∀ p k, k ∈ net.delivered p → allowed S tape generated rejectsReplay net (.deliver p k) →
    (step S tape net (.deliver p k)).state = net.state

variable {S : Suite PublicKey SecretKey Key} {generated : PublicKey × SecretKey → Prop}
  {sharedSecret : Key} {tape : ℕ → PublicKey × SecretKey} {net : Net PublicKey SecretKey Key}
  {tr : Transcript} {p : Party} {k : ℕ} {packet : Packet PublicKey}

theorem once_replayed {replay : RatchetState PublicKey SecretKey Key →
    MessageHeader PublicKey → Prop} (net : Net PublicKey SecretKey Key) (a : Action)
    (ha : allowed S tape generated once net a) : allowed S tape generated replay net a := by
  cases a with
  | send p plaintext ad nonce => exact ha
  | deliver p k =>
    rw [allowed] at ha ⊢
    cases hpacket : (net.sent p.peer)[k]? with
    | none =>
      rw [hpacket] at ha
      exact ha
    | some packet =>
      rw [hpacket] at ha
      obtain ⟨hfresh,hw⟩ := ha
      by_cases hold : k ∈ net.delivered p
      · rw [if_pos hold] at hw
        exact absurd hw id
      · rw [if_neg hold] at hw
        exact ⟨hfresh,by rwa [if_neg hold]⟩

theorem once_honest (net : Net PublicKey SecretKey Key) (a : Action)
    (ha : allowed S tape generated once net a) : honestInRange S tape generated net a := by
  cases a with
  | send p plaintext ad nonce => exact ⟨trivial,ha⟩
  | deliver p k =>
    rw [allowed] at ha
    rw [honestInRange, honest]
    refine ⟨?_,trivial⟩
    cases hpacket : (net.sent p.peer)[k]? with
    | none =>
      rw [hpacket] at ha
      exact ha
    | some packet =>
      rw [hpacket] at ha
      obtain ⟨hfresh,hw⟩ := ha
      refine ⟨hfresh,fun hold => ?_⟩
      rwa [if_pos hold] at hw

/-- A first delivery within the limits is received, whatever was refused before. -/
theorem step_once (hS : HonestLibrary S generated)
    (h : Tracks S generated sharedSecret tape net tr) {a : Action}
    (ha : allowed S tape generated once net a) :
    Tracks S generated sharedSecret tape (step S tape net a) (tr.step a) := by
  have hfirst := (once_honest net a ha).1
  cases a with
  | send p plaintext ad nonce => exact tracks_send h hS ha plaintext ad nonce
  | deliver p k =>
    obtain ⟨packet,hpacket,-,hnew⟩ := sent_of_honest hfirst
    obtain ⟨l,hlog,-⟩ := label_of_packet h hpacket
    have hadmits : allowed S tape generated rejectsReplay net (.deliver p k) :=
      once_replayed net _ ha
    rw [allowed, hpacket] at hadmits
    rw [step, deliver, Transcript.step, hpacket, hlog]
    exact tracks_deliver hS h hpacket hlog (fun hold => absurd hold hnew) hadmits

theorem run_once (hS : HonestLibrary S generated)
    (h : Tracks S generated sharedSecret tape net tr) {as : List Action}
    (hg : Runs.Guarded (step S tape) (allowed S tape generated once) net as) :
    Tracks S generated sharedSecret tape (Runs.run (step S tape) net as)
      (Runs.run Transcript.step tr as) := by
  induction as generalizing net tr with
  | nil => exact h
  | cons a as ih => exact ih (step_once hS h hg.1) hg.2

/-- The outcome a packet should have. -/
theorem handed_harmless (hS : HonestLibrary S generated)
    (h : Refines S generated sharedSecret tape net tr)
    (hpacket : (net.sent p.peer)[k]? = some packet)
    (ha : admits S tape generated rejectsReplay net p k (some packet)) :
    Harmless ⟨p,k,decide (k ∈ net.delivered p),packet,(decrypt S (net.state p) packet.header
      packet.ciphertext packet.associatedData (tape net.drawn)).2⟩ := by
  obtain ⟨l,hlog,-⟩ := label_of_packet h.toTracks hpacket
  by_cases hold : k ∈ net.delivered p
  · have hmem := (h.delivered_iff hlog).mp hold
    obtain ⟨-,⟨e,he⟩,-⟩ := second_delivery h.toTracks hpacket hlog hold hmem ha
    rw [Harmless, decide_eq_true hold]
    exact ⟨e,he⟩
  · obtain ⟨-,hok⟩ := first_delivery hS h.toTracks hpacket hlog hold ha
    rw [Harmless, decide_eq_false hold]
    exact hok

theorem replay_ignored (h : Refines S generated sharedSecret tape net tr) :
    ReplaysIgnored S generated tape net := by
  intro p k hold ha
  rw [allowed] at ha
  rw [step, deliver]
  cases hpacket : (net.sent p.peer)[k]? with
  | none => rfl
  | some packet =>
    rw [hpacket] at ha
    obtain ⟨l,hlog,hmem⟩ := h.answered p k hold
    funext q
    rcases Party.eq_or_eq_peer p q with rfl | rfl
    · exact (handOver_state k packet).trans
        (second_delivery h.toTracks hpacket hlog hold hmem ha).1
    · exact handOver_state_peer k packet

theorem step_outcomes {a : Action} {P : Outcome PublicKey → Prop}
    (ho : ∀ o ∈ net.outcomes, P o)
    (hP : ∀ p k packet, a = .deliver p k → (net.sent p.peer)[k]? = some packet →
      P ⟨p,k,decide (k ∈ net.delivered p),packet,(decrypt S (net.state p) packet.header
        packet.ciphertext packet.associatedData (tape net.drawn)).2⟩) :
    ∀ o ∈ (step S tape net a).outcomes, P o := by
  cases a with
  | send p plaintext ad nonce =>
    rw [step, send]
    split <;> exact ho
  | deliver p k =>
    rw [step, deliver]
    cases hpacket : (net.sent p.peer)[k]? with
    | none => exact ho
    | some packet =>
      intro o hmem
      rcases List.mem_cons.mp hmem with rfl | hmem
      · exact hP p k packet rfl hpacket
      · exact ho o hmem

theorem outcome_recorded (hpacket : (net.sent p.peer)[k]? = some packet) :
    ⟨p,k,decide (k ∈ net.delivered p),packet,(decrypt S (net.state p) packet.header
      packet.ciphertext packet.associatedData (tape net.drawn)).2⟩ ∈
      (step S tape net (.deliver p k)).outcomes := by
  rw [step, deliver, hpacket]
  exact List.mem_cons_self

theorem run_harmless (hS : HonestLibrary S generated)
    (h : Refines S generated sharedSecret tape net tr) (ho : ∀ o ∈ net.outcomes, Harmless o)
    {as : List Action}
    (hg : Runs.Guarded (step S tape) (allowed S tape generated rejectsReplay) net as) :
    ∀ o ∈ (Runs.run (step S tape) net as).outcomes, Harmless o := by
  induction as generalizing net tr with
  | nil => exact ho
  | cons a as ih =>
    apply ih (step_refines hS h hg.1) _ hg.2
    apply step_outcomes ho
    rintro p k packet rfl hpacket
    have ha := hg.1
    rw [allowed, hpacket] at ha
    exact handed_harmless hS h hpacket ha

theorem run_first {as : List Action} (ho : ∀ o ∈ net.outcomes, o.again = false)
    (hg : Runs.Guarded (step S tape) (allowed S tape generated once) net as) :
    ∀ o ∈ (Runs.run (step S tape) net as).outcomes, o.again = false := by
  apply Runs.run_invariant (step S tape)
    (I := fun net => ∀ o ∈ net.outcomes, o.again = false) _ ho hg
  intro net a ho ha
  apply step_outcomes ho
  rintro p k packet rfl hpacket
  rw [allowed, hpacket] at ha
  have hnew : k ∉ net.delivered p := fun hold => by
    have hreplay := ha.2
    rw [if_pos hold] at hreplay
    exact hreplay
  exact decide_eq_false hnew

/-- The outcomes of first deliveries within the limits, whatever the order. -/
theorem delivered_outcomes (hS : HonestLibrary S generated)
    (h : Tracks S generated sharedSecret tape net tr) {ks : List ℕ}
    (hg : Runs.Guarded (step S tape) (allowed S tape generated once) net
      (ks.map (.deliver p))) :
    (Runs.run (step S tape) net (ks.map (.deliver p))).outcomes =
      (ks.filterMap fun k => (net.sent p.peer)[k]?.map fun packet =>
        ⟨p,k,false,packet,.ok packet.plaintext⟩).reverse++net.outcomes := by
  induction ks generalizing net tr with
  | nil => rfl
  | cons k ks ih =>
    obtain ⟨ha,hg⟩ := hg
    rw [List.map_cons, Runs.run, ih (step_once hS h ha) hg]
    obtain ⟨packet,hpacket,-,hnew⟩ := sent_of_honest (once_honest net _ ha).1
    obtain ⟨l,hlog,-⟩ := label_of_packet h hpacket
    have hadmits : allowed S tape generated rejectsReplay net (.deliver p k) :=
      once_replayed net _ ha
    rw [allowed, hpacket] at hadmits
    obtain ⟨-,hok⟩ := first_delivery hS h hpacket hlog hnew hadmits
    rw [step, deliver, hpacket]
    show _++(handOver S tape net p k packet).outcomes = _
    rw [handOver_outcomes, hok, decide_eq_false hnew, List.filterMap_cons, hpacket,
      Option.map_some, List.reverse_cons, List.append_assoc]
    rfl

/-- A message whose key the receiver no longer finds is lost. -/
theorem lost_of_other_key (hA : IdealAead S.toAead) {header : MessageHeader PublicKey}
    {plaintext ad : List UInt8} {nonce : Nonce} {key : Key}
    (hpacket : (net.sent p.peer)[k]? = some
      ⟨header,nonce.bytes++S.aeadSeal plaintext (some ad) nonce key,ad,plaintext⟩)
    (hfirst : k ∉ net.delivered p)
    (hlost : (selectKey S (net.state p) header (tape net.drawn)).2.toOption ≠ some key) :
    ¬AllHarmless (step S tape net (.deliver p k)) := by
  intro h
  have hlast := h _ (outcome_recorded hpacket)
  rw [Harmless, decide_eq_false hfirst, decrypt_result, if_neg Bool.false_ne_true] at hlast
  cases hsel : (selectKey S (net.state p) header (tape net.drawn)).2 with
  | error e =>
    rw [hsel] at hlast
    contradiction
  | ok key' =>
    rw [hsel] at hlast hlost
    have hkey : key' = key := opened_key hA hlast
    exact hlost (congrArg some hkey)

section Results
variable {alice : RatchetState PublicKey SecretKey Key}

/-- Every message delivered in an honest run opens to what was encrypted, in whatever order
and with whatever losses, as long as the receiver never has more than `MAX_SKIP` keys to skip
in either chain and no sender's counter is at its end. -/
theorem delivery_correct (hS : HonestLibrary S generated) (hd : Dealt generated tape 2)
    (halice : initSender S sharedSecret (tape 0).1 (tape 1) = .ok alice) {as : List Action}
    (hg : Runs.Guarded (step S tape) (allowed S tape generated once)
      (opening alice (initReceiver sharedSecret (tape 0))) as) :
    AllOpened (Runs.run (step S tape) (opening alice (initReceiver sharedSecret (tape 0))) as) := by
  intro o ho
  have hopening := opening_refines halice hS hd
  have hnone : ∀ P : Outcome PublicKey → Prop,
      ∀ o ∈ (opening alice (initReceiver sharedSecret (tape 0))).outcomes, P o :=
    fun P o ho => absurd ho List.not_mem_nil
  have hright := run_harmless hS hopening (hnone _) (Runs.guarded_mono _ once_replayed hg) o ho
  rwa [Harmless, run_first (hnone _) hg o ho] at hright

/-- As long as each second delivery is one the checks turn away, each first one is within
`MAX_SKIP` and no sender's counter is at its end, a second delivery is an error without effect
and every first delivery opens. -/
theorem redelivery_harmless (hS : HonestLibrary S generated) (hd : Dealt generated tape 2)
    (halice : initSender S sharedSecret (tape 0).1 (tape 1) = .ok alice) {as : List Action}
    (hg : Runs.Guarded (step S tape) (allowed S tape generated rejectsReplay)
      (opening alice (initReceiver sharedSecret (tape 0))) as) :
    let net := Runs.run (step S tape) (opening alice (initReceiver sharedSecret (tape 0))) as
    AllHarmless net ∧ ReplaysIgnored S generated tape net := by
  have hopening := opening_refines halice hS hd
  constructor
  · exact run_harmless hS hopening (fun o ho => absurd ho List.not_mem_nil) hg
  · exact replay_ignored (run_refines hS hopening hg)

/-- Wherever an honest run has come to, also past messages that were refused, two orders of
delivering the same messages within the limits end in the same state and open the same
plaintexts. -/
theorem deliveries_commute (hS : HonestLibrary S generated) (hd : Dealt generated tape 2)
    (halice : initSender S sharedSecret (tape 0).1 (tape 1) = .ok alice) {as : List Action}
    (hg : Runs.Guarded (step S tape) (honestInRange S tape generated)
      (opening alice (initReceiver sharedSecret (tape 0))) as) {ks ks' : List ℕ}
    (hp : ks.Perm ks') :
    let net := Runs.run (step S tape) (opening alice (initReceiver sharedSecret (tape 0))) as
    Runs.Guarded (step S tape) (allowed S tape generated once) net (ks.map (.deliver p)) →
    Runs.Guarded (step S tape) (allowed S tape generated once) net (ks'.map (.deliver p)) →
    (Runs.run (step S tape) net (ks.map (.deliver p))).state =
      (Runs.run (step S tape) net (ks'.map (.deliver p))).state ∧
    (Runs.run (step S tape) net (ks.map (.deliver p))).outcomes.Perm
      (Runs.run (step S tape) net (ks'.map (.deliver p))).outcomes := by
  intro net h1 h2
  obtain ⟨tr,hnet⟩ := run_tracks hS (opening_tracks halice hS hd) hg
  have hend := run_once hS hnet h1
  have hend' := run_once hS hnet h2
  have hcomm : ∀ tr : Transcript, ∀ a ∈ ks.map (.deliver p), ∀ b ∈ ks.map (.deliver p),
      (tr.step a).step b = (tr.step b).step a := by
    intro tr a ha b hb
    obtain ⟨k,-,rfl⟩ := List.mem_map.mp ha
    obtain ⟨k',-,rfl⟩ := List.mem_map.mp hb
    exact Transcript.deliver_comm tr p k k'
  have htr := Runs.run_perm Transcript.step hcomm (hp.map _) tr
  constructor
  · funext q
    apply (hend.shows q).unique
    rw [htr]
    exact hend'.shows q
  · rw [delivered_outcomes hS hnet h1, delivered_outcomes hS hnet h2]
    apply List.Perm.append_right
    exact (List.reverse_perm _).trans ((hp.filterMap _).trans (List.reverse_perm _).symm)

end Results

section Sample
open Symbolic

/-- Keypairs of the sample suite: the public key is the secret name, and not 0. -/
def namedPair (pair : ℕ × ℕ) : Prop := pair.1 = pair.2 ∧ pair.1 ≠ 0

instance : DecidablePred namedPair := fun _ => inferInstanceAs (Decidable (_ ∧ _))

theorem sample_aead_ideal : IdealAead sample.toAead := aead_ideal

theorem sample_honest : HonestLibrary sample namedPair where
  init := rfl
  commutes {a b} ha hb := by
    simp [sample, suite, ha.2, hb.2, ← ha.1, ← hb.1, shared_comm a.1 b.1]
  succeeds {a b} ha hb := by simp [sample, suite, hb.2]
  open_seal := sample_aead_ideal.open_seal

def sampleTape (i : ℕ) : ℕ × ℕ := (i+1,i+1)

theorem sample_dealt (n : ℕ) : Dealt namedPair sampleTape n where
  honest i _ := ⟨rfl,Nat.succ_ne_zero i⟩
  distinct _ _ _ _ h := Nat.succ.inj h

theorem drawsNew_sample (net : Net ℕ ℕ Term) (p : Party) (header : MessageHeader ℕ) :
    drawsNew sample sampleTape namedPair net p header := by
  intro _
  exact ⟨⟨rfl,Nat.succ_ne_zero _⟩,fun i hi heq => absurd (Nat.succ.inj heq) (by omega)⟩

/-- Alice's second message overtakes her first, which then arrives from behind
the chains that Bob's reply and hers open. -/
theorem delivery_correct_overtaken :
    AllOpened (Runs.run (step sample sampleTape)
      (opening sampleAlice (initReceiver (.secret 0) (1,1)))
      [.send .alice [7] [] zeroNonce, .send .alice [8] [] zeroNonce, .deliver .bob 1,
        .send .bob [9] [] zeroNonce, .deliver .alice 0, .send .alice [10] [] zeroNonce,
        .deliver .bob 2, .deliver .bob 0]) :=
  delivery_correct sample_honest (sample_dealt 2) rfl (by decide)

/-- Bob awaits one message of the old chain and one of the new. -/
theorem deliveries_commute_across :
    let net := Runs.run (step sample sampleTape)
      (opening sampleAlice (initReceiver (.secret 0) (1,1)))
      [.send .alice [7] [] zeroNonce, .send .alice [8] [] zeroNonce, .deliver .bob 0,
        .send .bob [9] [] zeroNonce, .deliver .alice 0, .send .alice [10] [] zeroNonce]
    (Runs.run (step sample sampleTape) net [.deliver .bob 1, .deliver .bob 2]).state =
      (Runs.run (step sample sampleTape) net [.deliver .bob 2, .deliver .bob 1]).state ∧
    (Runs.run (step sample sampleTape) net [.deliver .bob 1, .deliver .bob 2]).outcomes.Perm
      (Runs.run (step sample sampleTape) net [.deliver .bob 2, .deliver .bob 1]).outcomes :=
  deliveries_commute (p := .bob) sample_honest (sample_dealt 2) rfl (by decide)
    (List.Perm.swap 2 1 []) (by decide) (by decide)

/-- Alice's burst, in a run of its own. -/
def sampleBurst : ℕ → Packet ℕ :=
  burstPacket sample sampleAlice 2 (.chain (.secret 0) (shared 1 2) RATCHET_INFO)

theorem burst_leaves (n : ℕ) :
    let start := opening sampleAlice (initReceiver (.secret 0) (1,1))
    let net := Runs.run (step sample sampleTape) start (burst .alice n)
    Runs.Guarded (step sample sampleTape) (honest sample sampleTape namedPair) start
      (burst .alice n) ∧ net.state .bob = initReceiver (.secret 0) (1,1) ∧ net.drawn = 2 ∧
    net.delivered .bob = [] ∧ net.outcomes = [] ∧
    ∀ i < n, (net.sent .alice)[i]? = some (sampleBurst i) := by
  intro start net
  obtain ⟨hg,hrun⟩ := run_burst_from (S := sample) sampleTape namedPair rfl start
    (p := .alice) rfl rfl n
  rw [show net = _ from hrun]
  refine ⟨hg,rfl,rfl,rfl,rfl,fun i hi => ?_⟩
  show ((List.range n).map sampleBurst)[i]? = _
  rw [List.getElem?_map, List.getElem?_range hi, Option.map_some]

/-- The order of delivery does not matter in any honest run, however long its chains. -/
def CommutesUnbounded (S : Suite ℕ ℕ Term) (generated : ℕ × ℕ → Prop) : Prop :=
  ∀ (sharedSecret : Term) (tape : ℕ → ℕ × ℕ) (alice : RatchetState ℕ ℕ Term) (p : Party)
    (as : List Action) (ks ks' : List ℕ), Dealt generated tape 2 →
    initSender S sharedSecret (tape 0).1 (tape 1) = .ok alice →
    let start := opening alice (initReceiver sharedSecret (tape 0))
    let net := Runs.run (step S tape) start as
    Runs.Guarded (step S tape) (honest S tape generated) start as → ks.Perm ks' →
    Runs.Guarded (step S tape) (allowed S tape generated once) net (ks.map (.deliver p)) →
    Runs.Guarded (step S tape) (allowed S tape generated once) net (ks'.map (.deliver p)) →
    (Runs.run (step S tape) net (ks.map (.deliver p))).state =
      (Runs.run (step S tape) net (ks'.map (.deliver p))).state ∧
    (Runs.run (step S tape) net (ks.map (.deliver p))).outcomes.Perm
      (Runs.run (step S tape) net (ks'.map (.deliver p))).outcomes

/-- Bob once he has taken number 0 of Alice's chain. -/
def bobTaken : RatchetState ℕ ℕ Term :=
  call sample (initReceiver (.secret 0) (1,1)) (.decrypt ⟨2,0,0⟩ [] [] (3,3))

theorem taken_once (fresh : ℕ × ℕ) :
    (selectKey sample (initReceiver (.secret 0) (1,1)) ⟨2,0,0⟩ (3,3)).2 =
      .ok (messageKey sample (chainAt sample (.secret 0) sampleTape 1) 0) ∧
    ∃ e, (selectKey sample bobTaken ⟨2,0,0⟩ fresh).2 = .error e :=
  ⟨by with_unfolding_all rfl,_,by with_unfolding_all rfl⟩

/-- Of two messages under one number, a receiver that has had nothing yet takes the key
for the first to come and refuses the other. -/
theorem same_number {net : Net ℕ ℕ Term} (hbob : net.state .bob = initReceiver (.secret 0) (1,1))
    (hdrawn : net.drawn = 2) (hnew : net.delivered .bob = []) (hnone : net.outcomes = [])
    {i j : ℕ} (hij : j ≠ i) {a b : Packet ℕ} (ha : (net.sent .alice)[i]? = some a)
    (hb : (net.sent .alice)[j]? = some b) (hheader : a.header = ⟨2,0,0⟩)
    (hheader' : b.header = ⟨2,0,0⟩) :
    Runs.Guarded (step sample sampleTape) (allowed sample sampleTape namedPair once) net
      [.deliver .bob i, .deliver .bob j] ∧
    ∃ e, (Runs.run (step sample sampleTape) net [.deliver .bob i, .deliver .bob j]).outcomes =
      [⟨.bob,j,false,b,.error e⟩,⟨.bob,i,false,a,
        decryptWithKey sample (messageKey sample (chainAt sample (.secret 0) sampleTape 1) 0)
          a.ciphertext a.associatedData⟩] := by
  set next := handOver sample sampleTape net .bob i a with hnext
  have hb' : (next.sent .alice)[j]? = some b := hb
  have hfirst : step sample sampleTape net (.deliver .bob i) = next := deliver_packet ha
  have hlast : step sample sampleTape next (.deliver .bob j) =
      handOver sample sampleTape next .bob j b := deliver_packet hb'
  have hstate : next.state .bob = bobTaken := by
    rw [hnext, handOver_state, decrypt_state, hbob, hheader, hdrawn]
    with_unfolding_all rfl
  have hagain : j ∉ next.delivered .bob := by
    rw [hnext, handOver_delivered, hnew]
    simp [hij]
  obtain ⟨htaken,e,hgone⟩ := taken_once (sampleTape next.drawn)
  refine ⟨⟨?_,?_,trivial⟩,e,?_⟩
  · rw [allowed, Party.peer, ha]
    refine ⟨drawsNew_sample _ _ _,?_⟩
    rw [if_neg (by rw [hnew]; exact List.not_mem_nil), hbob, hheader]
    decide
  · rw [hfirst, allowed, Party.peer, hb']
    refine ⟨drawsNew_sample _ _ _,?_⟩
    rw [if_neg hagain, hstate, hheader']
    decide
  · rw [Runs.run, Runs.run, Runs.run, hfirst, hlast, handOver_outcomes, decrypt_result, hstate,
      hheader', hgone, decide_eq_false hagain, hnext, handOver_outcomes, decrypt_result, hbob,
      hheader, hdrawn, show sampleTape 2 = (3,3) from rfl, htaken, hnew, hnone]
    rfl

/-- A message opens ahead of the one that has its number after a wrap, and not behind it. -/
theorem late_not_commuting {n : ℕ} (hn : UInt32.ofNat n = 0) (hpos : n ≠ 0) :
    ¬CommutesUnbounded sample namedPair := by
  intro h
  obtain ⟨hg,hbob,hdrawn,hnew,hnone,hsent⟩ := burst_leaves (n+1)
  set net := Runs.run (step sample sampleTape)
    (opening sampleAlice (initReceiver (.secret 0) (1,1))) (burst .alice (n+1))
  have hheader : (sampleBurst n).header = ⟨2,0,0⟩ := by
    rw [sampleBurst, burstPacket, hn]
    rfl
  obtain ⟨hg1,e,h1⟩ := same_number hbob hdrawn hnew hnone hpos (hsent 0 n.succ_pos)
    (hsent n n.lt_succ_self) rfl hheader
  obtain ⟨hg2,e',h2⟩ := same_number hbob hdrawn hnew hnone hpos.symm (hsent n n.lt_succ_self)
    (hsent 0 n.succ_pos) hheader rfl
  have hperm : List.Perm
      (Runs.run (step sample sampleTape) net [.deliver .bob 0, .deliver .bob n]).outcomes
      (Runs.run (step sample sampleTape) net [.deliver .bob n, .deliver .bob 0]).outcomes :=
    (h (.secret 0) sampleTape sampleAlice .bob (burst .alice (n+1)) [0,n] [n,0]
      (sample_dealt 2) rfl hg (List.Perm.swap ..) hg1 hg2).2
  have hopens : decryptWithKey sample
      (messageKey sample (chainAt sample (.secret 0) sampleTape 1) 0)
      (sampleBurst 0).ciphertext (sampleBurst 0).associatedData = .ok [] :=
    burst_opens sample_honest _ _ _ _
  rw [h1, h2, hopens] at hperm
  have hmem := hperm.subset (List.mem_cons_of_mem _ List.mem_cons_self)
  rcases List.mem_cons.mp hmem with heq | hmem
  · have hresult : (.ok [] : Result (List UInt8)) = .error e' := congrArg Outcome.result heq
    cases hresult
  · have hnumber := congrArg Outcome.number (List.mem_singleton.mp hmem)
    exact hpos hnumber.symm

/-- A sender whose counter wraps puts two messages under one number, of which the first to
come keeps the other out. -/
theorem wrapped_not_commuting : HonestLibrary sample namedPair ∧
    ¬CommutesUnbounded sample namedPair :=
  ⟨sample_honest,late_not_commuting (n := 4294967296) rfl (by decide)⟩

/-- A message is replayed while its chain is the receiving one. -/
theorem redelivery_harmless_current :
    let net := Runs.run (step sample sampleTape)
      (opening sampleAlice (initReceiver (.secret 0) (1,1)))
      [.send .alice [7] [] zeroNonce, .deliver .bob 0, .deliver .bob 0,
        .send .alice [8] [] zeroNonce, .deliver .bob 1]
    AllHarmless net ∧ ReplaysIgnored sample namedPair sampleTape net :=
  redelivery_harmless sample_honest (sample_dealt 2) rfl (by decide)

/-- Bob is two chains further on when Alice's first message comes again. -/
def replayed : List Action :=
  [.send .alice [7] [] zeroNonce, .deliver .bob 0, .send .bob [8] [] zeroNonce,
    .deliver .alice 0, .send .alice [9] [] zeroNonce, .deliver .bob 1, .deliver .bob 0,
    .send .alice [10] [] zeroNonce]

def replayedNet : Net ℕ ℕ Term :=
  Runs.run (step sample sampleTape)
    (opening sampleAlice (initReceiver (.secret 0) (sampleTape 0))) replayed

/-- He ratchets on her old key, and her next message no longer opens. -/
theorem redelivery_not_harmless :
    HonestLibrary sample namedPair ∧ ¬RedeliveryHarmless sample namedPair := by
  refine ⟨sample_honest,fun h => ?_⟩
  have hrun := h (.secret 0) sampleTape sampleAlice (replayed++[Action.deliver .bob 2])
    (sample_dealt 2) rfl (by decide)
  rw [Runs.run_append] at hrun
  have hpacket : (replayedNet.sent (Party.peer .bob))[2]? = some ⟨⟨4,1,1⟩,zeroNonce.bytes++
      sample.aeadSeal [10] (some []) zeroNonce (keyAt sample (.secret 0) sampleTape ⟨3,1⟩),[],[10]⟩ :=
    rfl
  exact lost_of_other_key aead_ideal hpacket (by decide) (by decide) hrun

end Sample
end Vaultex.Conversation
