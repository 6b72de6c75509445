import Vaultex.ConversationDelivery

/-!
# What a party still keeps for its peer

A transcript tells which messages were overtaken: sent before one that has
arrived, and not arrived themselves. The cache holds their keys and no others,
so it is empty whenever nothing is outstanding; then the two chains of the last
direction stand at the same key.
-/

set_option autoImplicit false

namespace Vaultex

namespace Transcript

/-- Messages are sent in the order of their labels. -/
def Sorted (tr : Transcript) : Prop := ∀ p, (tr.log p).Pairwise (· < ·)

theorem step_sorted {tr : Transcript} (h : tr.Valid) (hs : tr.Sorted) (a : Action) :
    (tr.step a).Sorted := by
  cases a with
  | deliver p k =>
    rw [step, Sorted, arrive_log]
    exact hs
  | send p plaintext ad nonce =>
    show (tr.send p).Sorted
    by_cases hp : tr.epoch p = 0
    · rw [send, if_pos hp]
      exact hs
    intro q
    rcases Party.eq_or_eq_peer p q with rfl | rfl
    · rw [send_log hp]
      refine List.pairwise_append.mpr ⟨hs q,List.pairwise_singleton _ _,?_⟩
      intro l hl next hnext
      obtain rfl := List.mem_singleton.mp hnext
      have hsent := (h.logged q l).mp hl
      have hchain := (sent_chain h hsent).2
      have hlt := hsent.2
      rw [Label.lt_iff]
      rcases Nat.lt_or_eq_of_le hchain with hc | hc
      · exact Or.inl hc
      · rw [hc] at hlt
        exact Or.inr ⟨hc,hlt⟩
    · rw [send_log_peer]
      exact hs _

theorem opening_sorted : opening.Sorted := fun _ => List.Pairwise.nil

/-- No party has passed a message but by a later one of the same or the next chains. -/
def Overtaking (tr : Transcript) : Prop :=
  ∀ p, Mailbox.Reached (tr.horizon p) (tr.received p)

theorem opening_overtaking : opening.Overtaking := by
  intro p l hl
  rw [Label.lt_iff] at hl
  simp only [opening] at hl
  omega

theorem step_overtaking {tr : Transcript} (h : tr.Overtaking) (a : Action) :
    (tr.step a).Overtaking := by
  cases a with
  | send p plaintext ad nonce =>
    show (tr.send p).Overtaking
    rw [Overtaking, send_horizon, send_received]
    exact h
  | deliver p k =>
    rw [step]
    cases (tr.log p.peer)[k]? with
    | none => exact h
    | some l =>
      show (tr.receive p l).Overtaking
      intro q
      rcases Party.eq_or_eq_peer p q with rfl | rfl
      · rw [receive_horizon, receive_received]
        exact Mailbox.reached_receive (h q)
      · rw [receive_horizon_peer, receive_received_peer]
        exact h _

/-- An earlier place in the log is an earlier label. -/
theorem Sorted.index_lt {tr : Transcript} (hs : tr.Sorted) {p : Party} {k k' : ℕ} {l l' : Label}
    (hk : (tr.log p)[k]? = some l) (hk' : (tr.log p)[k']? = some l') : l < l' ↔ k < k' := by
  obtain ⟨hlt,rfl⟩ := List.getElem?_eq_some_iff.mp hk
  obtain ⟨hlt',rfl⟩ := List.getElem?_eq_some_iff.mp hk'
  have hpair := List.pairwise_iff_getElem.mp (hs p)
  constructor
  · intro h
    by_contra hnot
    rcases Nat.lt_or_eq_of_le (Nat.not_lt.mp hnot) with hback | hsame
    · exact lt_asymm h (hpair k' k hlt' hlt hback)
    · subst hsame
      exact lt_irrefl _ h
  · exact hpair k k' hlt hlt'

/-- One party is always one keypair ahead of the other. -/
theorem one_ahead {tr : Transcript} (hv : tr.Valid) : ∃ p, tr.epoch p = tr.epoch p.peer+1 := by
  have halice := hv.parity .alice
  have hbob := hv.parity .bob
  have hnear := hv.near .alice
  have hnear' := hv.near .bob
  simp only [Transcript.parity, Party.peer] at halice hbob hnear hnear'
  by_cases hle : tr.epoch .bob < tr.epoch .alice
  · exact ⟨.alice,by simp only [Party.peer]; omega⟩
  · exact ⟨.bob,by simp only [Party.peer]; omega⟩

end Transcript

namespace Conversation
open DoubleRatchet Mailbox
variable {PublicKey SecretKey Key : Type} [DecidableEq PublicKey]
  {S : Suite PublicKey SecretKey Key} {generated : PublicKey × SecretKey → Prop}
  {sharedSecret : Key} {tape : ℕ → PublicKey × SecretKey} {net : Net PublicKey SecretKey Key}
  {tr : Transcript}

/-- A message of the peer that a later one has overtaken. -/
def Overtaken (net : Net PublicKey SecretKey Key) (p : Party) (k : ℕ) : Prop :=
  k ∉ net.delivered p ∧ ∃ k' ∈ net.delivered p, k < k'

theorem run_sorted (hS : HonestLibrary S generated)
    (h : Refines S generated sharedSecret tape net tr) (hs : tr.Sorted) {as : List Action}
    (hg : Runs.Guarded (step S tape) (allowed S tape generated rejectsReplay) net as) :
    (Runs.run Transcript.step tr as).Sorted := by
  induction as generalizing net tr with
  | nil => exact hs
  | cons a as ih => exact ih (step_refines hS h hg.1) (Transcript.step_sorted h.valid hs a) hg.2

theorem run_overtaking (as : List Action) :
    (Runs.run Transcript.step .opening as).Overtaking :=
  Runs.run_invariant' Transcript.step (I := Transcript.Overtaking) (fun _ a h => Transcript.step_overtaking h a)
    Transcript.opening_overtaking as

section
variable (h : Refines S generated sharedSecret tape net tr) {p : Party}
include h

/-- A sent label has its place in the log, and its packet on the network. -/
theorem packet_of_label {l : Label} (hl : tr.Sent p l) :
    ∃ (k : ℕ) (packet : _), (tr.log p)[k]? = some l ∧ (net.sent p)[k]? = some packet ∧
      PacketAt S sharedSecret tape tr l packet := by
  obtain ⟨k,hk⟩ := List.mem_iff_getElem?.mp ((h.valid.logged p l).mpr hl)
  have hlt : k < (net.sent p).length := by
    rw [h.length]
    exact (List.getElem?_eq_some_iff.mp hk).1
  have hget := List.getElem?_eq_getElem hlt
  exact ⟨k,_,hk,hget,h.mail p k l _ hk hget⟩

variable (hs : tr.Sorted) (hover : tr.Overtaking)
include hs hover

/-- To await a message is to have received a later one first. -/
theorem awaited_iff_overtaken {k : ℕ} {l : Label} (hk : (tr.log p.peer)[k]? = some l) :
    awaited tr p l ↔ Overtaken net p k := by
  have hiff := h.delivered_iff hk
  have hsent : tr.Sent p.peer l := (h.valid.logged _ _).mp (List.mem_of_getElem? hk)
  constructor
  · rintro ⟨-,hpass,hnot⟩
    refine ⟨fun hmem => hnot (hiff.mp hmem),?_⟩
    obtain ⟨r,hr,hle⟩ := hover p l hpass
    obtain ⟨k',-,hk',-⟩ := packet_of_label h (h.valid.arrived p r hr).1
    refine ⟨k',(h.delivered_iff hk').mpr hr,(hs.index_lt hk hk').mp ?_⟩
    exact lt_of_le_of_ne hle fun heq => hnot (heq ▸ hr)
  · rintro ⟨hnot,k',hmem,hlt⟩
    obtain ⟨r,hk',hr⟩ := h.answered p k' hmem
    have hpass := ((hs.index_lt hk hk').mpr hlt).trans (h.valid.arrived p r hr).2
    exact ⟨hsent,hpass,fun hmem' => hnot (hiff.mpr hmem')⟩

/-- The cache by the packets it is kept for. -/
theorem cached_iff (id : PublicKey × UInt32) :
    id ∈ (net.state p).skippedKeys ↔ ∃ k packet, (net.sent p.peer)[k]? = some packet ∧
      id = (packet.header.ratchetPublicKey,packet.header.messageNumber) ∧ Overtaken net p k := by
  obtain ⟨pk,x⟩ := id
  rw [← Finmap.lookup_isSome, Option.isSome_iff_exists]
  have hcache := (h.shows p).cache
  constructor
  · rintro ⟨key,hkey⟩
    obtain ⟨i,rfl,hawaited,-⟩ := (hcache pk x key).mp hkey
    obtain ⟨k,packet,hlog,hpacket,hat⟩ := packet_of_label h hawaited.1
    refine ⟨k,packet,hpacket,?_,(awaited_iff_overtaken h hs hover hlog).mp hawaited⟩
    rw [hat.heads.key, UInt32.toNat_inj.mp hat.heads.number]
  · rintro ⟨k,packet,hpacket,hid,hlate⟩
    obtain ⟨l,hlog,-,hat⟩ := label_of_packet h.toTracks hpacket
    have hawaited := (awaited_iff_overtaken h hs hover hlog).mpr hlate
    obtain ⟨rfl,rfl⟩ := Prod.mk.inj hid
    refine ⟨keyAt S sharedSecret tape l,(hcache _ _ _).mpr ⟨l.chain,hat.heads.key,?_⟩⟩
    rw [hat.heads.number]
    exact ⟨hawaited,rfl⟩

omit hs hover in
/-- With nothing outstanding, the chain numbers agree. -/
theorem numbers_agree (hall : ∀ l, tr.Sent p.peer l → l ∈ tr.received p)
    (hahead : tr.epoch p = tr.epoch p.peer+1) :
    (net.state p).recvMessageNumber = (net.state p.peer).sendMessageNumber := by
  apply UInt32.toNat_inj.mp
  rw [(h.shows p.peer).sendNumber, (h.shows p).recvNumber]
  have hlevel := h.valid.level p
  have hwithin := h.valid.within p
  have hchain : (tr.horizon p).chain = tr.epoch p.peer := by omega
  rw [hchain] at hwithin
  apply Nat.le_antisymm hwithin
  by_contra hlow
  -- The last message sent would still be ahead.
  have hlast : (⟨tr.epoch p.peer,(tr.horizon p).number⟩ : Label) ∈ tr.received p :=
    hall _ ⟨h.valid.parity p.peer,Nat.lt_of_not_le hlow⟩
  have hlt := (h.valid.arrived p _ hlast).2
  rw [Label.lt_iff] at hlt
  simp only at hlt
  omega

end

section Results
variable {alice : RatchetState PublicKey SecretKey Key}

/-- At every moment of an honest run whose first deliveries skip at most `MAX_SKIP` keys of
either chain, and whose send counters stay off their end, the cache of a party holds the keys
of the messages that were overtaken, and of no others. -/
theorem cache_holds_overtaken (hS : HonestLibrary S generated) (hd : Dealt generated tape 2)
    (halice : initSender S sharedSecret (tape 0).1 (tape 1) = .ok alice) {as : List Action}
    (hg : Runs.Guarded (step S tape) (allowed S tape generated rejectsReplay)
      (opening alice (initReceiver sharedSecret (tape 0))) as) (p : Party)
    (id : PublicKey × UInt32) :
    let net := Runs.run (step S tape) (opening alice (initReceiver sharedSecret (tape 0))) as
    id ∈ (net.state p).skippedKeys ↔
      ∃ (k : ℕ) (packet : Packet PublicKey), (net.sent p.peer)[k]? = some packet ∧
        id = (packet.header.ratchetPublicKey,packet.header.messageNumber) ∧
        Overtaken net p k := by
  intro net
  have hopening := opening_refines halice hS hd
  exact cached_iff (run_refines hS hopening hg)
    (run_sorted hS hopening Transcript.opening_sorted hg) (run_overtaking as) id

/-- When everything sent has been delivered within the same limits, nothing is cached, and
the receiving chain of one party, its number and the ratchet key it goes by are those its
peer sends with. -/
theorem in_step_when_delivered (hS : HonestLibrary S generated) (hd : Dealt generated tape 2)
    (halice : initSender S sharedSecret (tape 0).1 (tape 1) = .ok alice) {as : List Action}
    (hg : Runs.Guarded (step S tape) (allowed S tape generated rejectsReplay)
      (opening alice (initReceiver sharedSecret (tape 0))) as) :
    let net := Runs.run (step S tape) (opening alice (initReceiver sharedSecret (tape 0))) as
    (∀ p k, k < (net.sent p.peer).length → k ∈ net.delivered p) →
    (∀ p, (net.state p).skippedKeys = ∅) ∧
    ∃ p, (net.state p).receivingChainKey = (net.state p.peer).sendingChainKey ∧
      (net.state p).recvMessageNumber = (net.state p.peer).sendMessageNumber ∧
      (net.state p).remoteRatchetKey = (net.state p.peer).sendingKeypair.map Prod.fst := by
  intro net hall
  have hopening := opening_refines halice hS hd
  have h := run_refines hS hopening hg
  have hsorted := run_sorted hS hopening Transcript.opening_sorted hg
  constructor
  · intro p
    apply Finmap.ext_lookup
    intro id
    rw [Finmap.lookup_empty, Finmap.lookup_eq_none, cached_iff h hsorted (run_overtaking as)]
    rintro ⟨k,packet,hpacket,-,hnot,-⟩
    exact hnot (hall p k (List.getElem?_eq_some_iff.mp hpacket).1)
  · obtain ⟨p,hahead⟩ := Transcript.one_ahead h.valid
    have hreceived : ∀ l, (Runs.run Transcript.step .opening as).Sent p.peer l →
        l ∈ (Runs.run Transcript.step .opening as).received p := by
      intro l hl
      obtain ⟨k,packet,hlog,hpacket,-⟩ := packet_of_label h hl
      obtain ⟨l',hlog',hmem⟩ := h.answered p k
        (hall p k (List.getElem?_eq_some_iff.mp hpacket).1)
      obtain rfl := Option.some.inj (hlog.symm.trans hlog')
      exact hmem
    have hnumber := numbers_agree h hreceived hahead
    refine ⟨p,?_,hnumber,?_⟩
    · rw [(h.shows p).receiving, (h.shows p.peer).sending, hnumber, (h.shows p.peer).sendNumber,
        hahead, Nat.add_sub_cancel]
      by_cases hzero : (Runs.run Transcript.step .opening as).epoch p.peer = 0
      · rw [if_pos hzero, if_pos (by omega)]
      · rw [if_neg hzero, if_neg (by omega)]
    · rw [(h.shows p).remote, (h.shows p.peer).pair, hahead, if_neg (Nat.succ_ne_zero _),
        Nat.add_sub_cancel, Option.map_some]

end Results

section Sample
open Symbolic

/-- Alice's second message arrives before her first. -/
def overtaking : List Action :=
  [.send .alice [7] [] zeroNonce, .send .alice [8] [] zeroNonce, .deliver .bob 1]

def overtakingNet (more : List Action) : Net ℕ ℕ Term :=
  Runs.run (step sample sampleTape) (opening sampleAlice (initReceiver (.secret 0) (1,1)))
    (overtaking++more)

theorem cache_holds_overtaken_sample :
    ((2, 0) : ℕ × UInt32) ∈ ((overtakingNet []).state .bob).skippedKeys := by
  apply (cache_holds_overtaken sample_honest (sample_dealt 2) sample_starts
    (by decide : Runs.Guarded _ _ _ (overtaking++[])) .bob (2,0)).mpr
  refine ⟨0,_,rfl,rfl,?_,1,?_,Nat.zero_lt_one⟩
  · exact (by decide : 0 ∉ [1])
  · exact (by decide : 1 ∈ [1])

/-- Once her first message has come as well, Bob's chain is hers. -/
theorem in_step_when_delivered_sample :
    let net := overtakingNet [.deliver .bob 0]
    (∀ p, (net.state p).skippedKeys = ∅) ∧
    ∃ p, (net.state p).receivingChainKey = (net.state p.peer).sendingChainKey ∧
      (net.state p).recvMessageNumber = (net.state p.peer).sendMessageNumber ∧
      (net.state p).remoteRatchetKey = (net.state p.peer).sendingKeypair.map Prod.fst := by
  apply in_step_when_delivered sample_honest (sample_dealt 2) sample_starts
    (by decide : Runs.Guarded _ _ _ (overtaking++[.deliver .bob 0]))
  intro p k hk
  cases p with
  | alice => exact absurd hk (Nat.not_lt_zero k)
  | bob =>
    have hlt : k < 2 := hk
    show k ∈ [0, 1]
    simp only [List.mem_cons, List.not_mem_nil, or_false]
    omega

end Sample

end Conversation
end Vaultex
