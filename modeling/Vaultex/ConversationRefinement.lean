import Vaultex.ConversationReceiver
import Vaultex.RatchetAtomicity

/-!
# The network refines the transcript

Every step of an honest run is one of the transcript's. A delivery within
`MAX_SKIP` is its receipt and opens to the plaintext sealed; one that asks for
more is refused, before or after the ratchet step to its chain. A second
delivery, where it is turned away, changes nothing.
-/

set_option autoImplicit false

namespace Vaultex.Conversation
open DoubleRatchet Mailbox
variable {PublicKey SecretKey Key : Type} [DecidableEq PublicKey]

/-- A packet as its sender put it on the network. -/
structure PacketAt (S : Suite PublicKey SecretKey Key) (sharedSecret : Key)
    (tape : ℕ → PublicKey × SecretKey) (tr : Transcript) (l : Label)
    (packet : Packet PublicKey) : Prop where
  heads : Heads tape tr l packet.header
  isSealed : ∃ nonce : Nonce, packet.ciphertext = nonce.bytes++
    S.aeadSeal packet.plaintext (some packet.associatedData) nonce (keyAt S sharedSecret tape l)

/-- The transcript tells both states and all there is on the network. -/
structure Tracks (S : Suite PublicKey SecretKey Key)
    (generated : PublicKey × SecretKey → Prop) (sharedSecret : Key)
    (tape : ℕ → PublicKey × SecretKey) (net : Net PublicKey SecretKey Key) (tr : Transcript) :
    Prop where
  valid : tr.Valid
  shows : ∀ p, Shows S sharedSecret tape tr p (net.state p)
  drawn : ∀ p, net.drawn = max (tr.epoch p) (tr.epoch p.peer)+1
  dealt : Dealt generated tape net.drawn
  counts : ∀ i, tr.count i < 2^32
  length : ∀ p, (net.sent p).length = (tr.log p).length
  mail : ∀ (p : Party) (k : ℕ) l packet, (tr.log p)[k]? = some l → (net.sent p)[k]? = some packet →
    PacketAt S sharedSecret tape tr l packet
  handed : ∀ (p : Party) (k : ℕ) l, (tr.log p.peer)[k]? = some l → l ∈ tr.received p →
    k ∈ net.delivered p

/-- Besides, whatever was delivered was received. -/
structure Refines (S : Suite PublicKey SecretKey Key)
    (generated : PublicKey × SecretKey → Prop) (sharedSecret : Key)
    (tape : ℕ → PublicKey × SecretKey) (net : Net PublicKey SecretKey Key) (tr : Transcript) :
    Prop extends Tracks S generated sharedSecret tape net tr where
  answered : ∀ (p : Party) (k : ℕ), k ∈ net.delivered p →
    ∃ l, (tr.log p.peer)[k]? = some l ∧ l ∈ tr.received p

variable {S : Suite PublicKey SecretKey Key} {generated : PublicKey × SecretKey → Prop}
  {sharedSecret : Key} {tape : ℕ → PublicKey × SecretKey} {net : Net PublicKey SecretKey Key}
  {tr : Transcript} {p : Party} {s : RatchetState PublicKey SecretKey Key} {l : Label}
  {header : MessageHeader PublicKey} {n : ℕ}

omit [DecidableEq PublicKey] in
theorem packet_opens (hS : HonestLibrary S generated) {packet : Packet PublicKey}
    (h : PacketAt S sharedSecret tape tr l packet) :
    decryptWithKey S (keyAt S sharedSecret tape l) packet.ciphertext packet.associatedData =
      .ok packet.plaintext := by
  obtain ⟨nonce,hct⟩ := h.isSealed
  exact (decryptWithKey_ok S).mpr ⟨nonce,_,hct,hS.open_seal _ _ _ _⟩

section Receive
variable (hv : tr.Valid) (hs : Shows S sharedSecret tape tr p s) (hl : tr.Sent p.peer l)
  (hh : Heads tape tr l header) (hd : Dealt generated tape n) (hn : tr.epoch p.peer < n)
include hv hl

/-- Where a message not yet received can be found. -/
theorem unreceived_cases (hnew : l ∉ tr.received p) :
    awaited tr p l ∨ (l.chain+1 = tr.epoch p ∧ tr.horizon p ≤ l) ∨
      (l.chain = tr.epoch p+1 ∧ tr.epoch p.peer = tr.epoch p+1) := by
  by_cases hpass : l < tr.horizon p
  · exact Or.inl ⟨hl,hpass,hnew⟩
  · rcases Transcript.sent_by_peer hv hl with h | h
    · exact Or.inr (Or.inr h)
    · refine Or.inr (Or.inl ⟨?_,not_lt.mp hpass⟩)
      by_contra hne
      exact hpass (Transcript.passed_below hv (by omega))

include hs hh hd hn

theorem within_next_iff (hc : l.chain = tr.epoch p+1) : withinSkip s header ↔
    (s.receivingChainKey.isSome →
      header.previousChainLength.toNat ≤ s.recvMessageNumber.toNat+1000) ∧ l.number ≤ 1000 := by
  have hmiss := miss_beyond hv hs hl hh hd hn (Transcript.not_passed_beyond hv (by omega))
  have hneed := (need_iff hv hs hl hh hd hn).mpr (by omega)
  rw [withinSkip, hmiss, if_pos hneed, hh.number]
  exact or_iff_right (by simp)

theorem within_chain_iff (hc : l.chain+1 = tr.epoch p) (hpass : tr.horizon p ≤ l) :
    withinSkip s header ↔ l.number ≤ s.recvMessageNumber.toNat+1000 := by
  have hmiss := miss_beyond hv hs hl hh hd hn hpass
  have hneed : ¬needRatchet s header.ratchetPublicKey = true := by
    rw [need_iff hv hs hl hh hd hn, not_not]
    exact hc
  rw [withinSkip, hmiss, if_neg hneed, hh.number]
  exact or_iff_right (by simp)

/-- A keypair is drawn for messages of the next chain only. -/
theorem draws_next (hdraws : drawsKeypair S s header = true) (hnew : l ∉ tr.received p) :
    l.chain = tr.epoch p+1 := by
  obtain ⟨hmiss,hneed,-⟩ := takes_of_draws S hdraws
  rcases unreceived_cases hv hl hnew with ha | ⟨hc,-⟩ | ⟨hc,-⟩
  · exact absurd ha ((miss_iff hv hs hl hh hd hn).mp hmiss)
  · exact absurd hc ((need_iff hv hs hl hh hd hn).mp hneed)
  · exact hc

/-- And for each of them whose step is reached. -/
theorem draws_of_step (hS : HonestLibrary S generated) (htakes : takesRatchetStep s header)
    (hc : l.chain = tr.epoch p+1) : drawsKeypair S s header = true := by
  have hchain := Transcript.sent_chain hv hl
  obtain ⟨d,hdh,-⟩ := exchange hS sharedSecret (hd.honest (tr.epoch p) (by omega))
    (hd.honest (tr.epoch p+1) (by omega))
  rw [← hc, ← hh.key] at hdh
  exact draws_of_first_exchange S htakes hs.pair hdh

theorem draws_iff (hS : HonestLibrary S generated) (hw : withinSkip s header)
    (hnew : l ∉ tr.received p) :
    drawsKeypair S s header = true ↔ l.chain = tr.epoch p+1 := by
  constructor
  · exact fun hdraws => draws_next hv hs hl hh hd hn hdraws hnew
  · intro hc
    have hcurrent := ((within_next_iff hv hs hl hh hd hn hc).mp hw).1
    exact draws_of_step hv hs hl hh hd hn hS (reaches_step hv hs hl hh hd hn hc hcurrent) hc

/-- A first delivery within the limits follows the transcript. -/
theorem select_first (hS : HonestLibrary S generated) (hw : withinSkip s header)
    (hnew : l ∉ tr.received p) (hcount : ∀ i, tr.count i < 2^32)
    (hmax : n = max (tr.epoch p) (tr.epoch p.peer)+1)
    (hfresh : drawsKeypair S s header = true →
      generated (tape n) ∧ ∀ i < n, (tape i).1 ≠ (tape n).1) :
    Follows S sharedSecret tape tr p l (selectKey S s header (tape n)) := by
  rcases unreceived_cases hv hl hnew with ha | ⟨hc,hpass⟩ | ⟨hc,hpeer⟩
  · exact select_awaited hv hs hl hh hd hn ha _
  · exact select_in_chain hv hs hl hh hd hn hc hpass
      ((within_chain_iff hv hs hl hh hd hn hc hpass).mp hw) hcount _
  · obtain ⟨hgen,hne⟩ := hfresh ((draws_iff hv hs hl hh hd hn hS hw hnew).mpr hc)
    obtain ⟨hcurrent,hnear⟩ := (within_next_iff hv hs hl hh hd hn hc).mp hw
    have htop : n = tr.epoch p+2 := by omega
    have hbeyond := select_beyond hv hs hl hh (hd.succ hgen hne) (by omega) hS hc (by omega)
      hcurrent hcount
    rw [← htop, if_pos hnear] at hbeyond
    exact hbeyond

/-- A message out of reach is turned away at once, or once the step to its chain is taken. -/
theorem refused_cases (hw : ¬withinSkip s header) (hnew : l ∉ tr.received p) :
    stopsInTime s header ∨ (l.chain = tr.epoch p+1 ∧ 1000 < l.number ∧
      (s.receivingChainKey.isSome →
        header.previousChainLength.toNat ≤ s.recvMessageNumber.toNat+1000)) := by
  rcases unreceived_cases hv hl hnew with ha | ⟨hc,hpass⟩ | ⟨hc,-⟩
  · have hit := (hit_iff hv hs hl hh hd hn _).mpr ⟨ha,rfl⟩
    exact absurd (Or.inl (by rw [hit]; rfl)) hw
  · rw [within_chain_iff hv hs hl hh hd hn hc hpass] at hw
    have hneed : ¬needRatchet s header.ratchetPublicKey = true := by
      rw [need_iff hv hs hl hh hd hn, not_not]
      exact hc
    refine Or.inl ⟨miss_beyond hv hs hl hh hd hn hpass,?_⟩
    rw [rejectsEarly, if_neg hneed, hh.number]
    exact Or.inr (Or.inl (by omega))
  · rw [within_next_iff hv hs hl hh hd hn hc] at hw
    have hmiss := miss_beyond hv hs hl hh hd hn (Transcript.not_passed_beyond hv (by omega))
    by_cases hcurrent : s.receivingChainKey.isSome →
        header.previousChainLength.toNat ≤ s.recvMessageNumber.toNat+1000
    · exact Or.inr ⟨hc,Nat.lt_of_not_le fun hnear => hw ⟨hcurrent,hnear⟩,hcurrent⟩
    · obtain ⟨hsome,hfar⟩ := Classical.not_imp.mp hcurrent
      refine Or.inl ⟨hmiss,?_⟩
      rw [rejectsEarly, if_pos ((need_iff hv hs hl hh hd hn).mpr (by omega))]
      exact ⟨hsome,hs.remote_isSome hsome,by omega⟩

omit hv hs hl hh hd hn in
/-- What stops in time leaves everything. -/
theorem select_stopped (h : stopsInTime s header) (fresh : PublicKey × SecretKey) :
    (selectKey S s header fresh).1 = s ∧ (∃ e, (selectKey S s header fresh).2 = .error e) ∧
      drawsKeypair S s header = false := by
  rcases selectKey_cases S s header fresh with ⟨-,hstate,he⟩ | ⟨hnot,-⟩
  · refine ⟨hstate,he,?_⟩
    rw [← Bool.not_eq_true]
    exact fun hdraws => (takes_of_draws S hdraws).2.2 h.2
  · exact absurd h hnot

/-- Any first delivery is one of the things that can come of it. -/
theorem select_any (hS : HonestLibrary S generated) (hnew : l ∉ tr.received p)
    (hcount : ∀ i, tr.count i < 2^32) (hmax : n = max (tr.epoch p) (tr.epoch p.peer)+1)
    (hfresh : drawsKeypair S s header = true →
      generated (tape n) ∧ ∀ i < n, (tape i).1 ≠ (tape n).1) :
    ∃ tr', tr.Arrives p l tr' ∧
      Shows S sharedSecret tape tr' p (selectKey S s header (tape n)).1 ∧
      (drawsKeypair S s header = true ↔ tr'.epoch p ≠ tr.epoch p) := by
  have hcases := Transcript.sent_by_peer hv hl
  by_cases hw : withinSkip s header
  · obtain ⟨hshows,-⟩ := select_first hv hs hl hh hd hn hS hw hnew hcount hmax hfresh
    refine ⟨_,.received,hshows,?_⟩
    rw [draws_iff hv hs hl hh hd hn hS hw hnew, Transcript.receive_epoch]
    omega
  · rcases refused_cases hv hs hl hh hd hn hw hnew with hstops | ⟨hc,hfar,hcurrent⟩
    · obtain ⟨hstate,-,hdraws⟩ := select_stopped (S := S) hstops (tape n)
      refine ⟨tr,.refused,?_,iff_of_false (by simp [hdraws]) (not_not.mpr rfl)⟩
      rw [hstate]
      exact hs
    · have htakes := reaches_step hv hs hl hh hd hn hc hcurrent
      have hdraws := draws_of_step hv hs hl hh hd hn hS htakes hc
      obtain ⟨hgen,hne⟩ := hfresh hdraws
      have htop : n = tr.epoch p+2 := by omega
      have hbeyond := select_beyond hv hs hl hh (hd.succ hgen hne) (by omega) hS hc (by omega)
        hcurrent hcount
      rw [← htop, if_neg (by omega)] at hbeyond
      refine ⟨_,.stepped hc,hbeyond.1,iff_of_true hdraws ?_⟩
      rw [Transcript.ratchet_epoch]
      omega

/-- A second delivery that is turned away. -/
theorem replay_stops (hold : l ∈ tr.received p) (hr : rejectsReplay s header) :
    stopsInTime s header := by
  have hmiss := (miss_iff hv hs hl hh hd hn).mpr fun ha => ha.2.2 hold
  refine ⟨hmiss,?_⟩
  rw [rejectsEarly]
  by_cases hneed : needRatchet s header.ratchetPublicKey = true
  · rw [if_pos hneed]
    rcases hr with hremote | ⟨hsome,hfar⟩
    · exact absurd hremote ((needRatchet_iff _ _).mp hneed)
    · exact ⟨hsome,hs.remote_isSome hsome,hfar⟩
  · rw [if_neg hneed]
    have hc : l.chain+1 = tr.epoch p := by
      by_contra hne
      exact hneed ((need_iff hv hs hl hh hd hn).mpr hne)
    have hlevel := hv.level p
    have hlt := (hv.arrived p l hold).2
    rw [Label.lt_iff] at hlt
    rw [hh.number, hs.recvNumber]
    exact Or.inl (by omega)

end Receive

section Send
variable (h : Tracks S generated sharedSecret tape net tr)
include h

/-- An epoch that one more message of `p` does not concern. -/
theorem prior_chain_ne (hp : tr.epoch p ≠ 0) {q : Party} {i : ℕ} (hi : i % 2 = Transcript.parity q)
    (hle : i ≤ tr.epoch q) (hpos : 1 ≤ i) : i-2 ≠ tr.epoch p := by
  have hparp := h.valid.parity p
  have hsum := Transcript.parity_peer p
  rcases Party.eq_or_eq_peer p q with rfl | rfl <;> omega

theorem shows_sent (hp : tr.epoch p ≠ 0) {ck : Key}
    (hck : ck = chainKey S (chainAt S sharedSecret tape (tr.epoch p)) (tr.count (tr.epoch p)))
    (hroom : (net.state p).sendMessageNumber.toNat+1 < 2^32) :
    Shows S sharedSecret tape (tr.send p) p { net.state p with
      sendingChainKey := some (chainKey S ck 1)
      sendMessageNumber := (net.state p).sendMessageNumber+1 } := by
  have hs := h.shows p
  have hpar := h.valid.parity p
  constructor
  · rw [Transcript.send_epoch]; exact hs.root
  · rw [Transcript.send_epoch, if_neg hp, Transcript.send_count hp, hck, chainKey_add]
  · rw [Transcript.send_epoch]; exact hs.pair
  · rw [Transcript.send_epoch]; exact hs.remote
  · rw [Transcript.send_epoch]; exact hs.receiving
  · rw [Transcript.send_epoch, Transcript.send_count hp, ← hs.sendNumber]
    exact succ_toNat (k := 0) hroom
  · rw [Transcript.send_horizon]; exact hs.recvNumber
  · rw [Transcript.send_epoch, Transcript.send_count_ne tr p (by omega)]; exact hs.previous
  · apply hs.cache.congr
    intro l
    rw [awaited, awaited, Transcript.send_received, Transcript.send_horizon]
    apply pending_congr
    intro _
    rw [Transcript.sent_send h.valid hp]
    exact (or_iff_left (by simp)).symm

theorem shows_unsent (hp : tr.epoch p ≠ 0) :
    Shows S sharedSecret tape (tr.send p) p.peer (net.state p.peer) := by
  have hpar := h.valid.parity p
  have hpeer := h.valid.parity p.peer
  have hsum := Transcript.parity_peer p
  apply (h.shows p.peer).congr
  · rw [Transcript.send_epoch]
  · rw [Transcript.send_horizon]
  · exact Transcript.send_count_ne tr p (by omega)
  · exact Transcript.send_count_ne tr p (by omega)
  · intro l
    rw [awaited, awaited, Transcript.send_received, Transcript.send_horizon]
    apply pending_congr
    intro hpass
    rw [Transcript.sent_send h.valid hp]
    refine (or_iff_left ?_).symm
    rintro ⟨-,rfl⟩
    exact not_lt_of_ge (Transcript.next_not_passed h.valid p) hpass

theorem packet_kept (hp : tr.epoch p ≠ 0) {q : Party} {packet : Packet PublicKey}
    (hl : tr.Sent q l) (hpacket : PacketAt S sharedSecret tape tr l packet) :
    PacketAt S sharedSecret tape (tr.send p) l packet where
  heads := by
    have hchain := Transcript.sent_chain h.valid hl
    refine ⟨hpacket.heads.key,hpacket.heads.number,?_⟩
    rw [Transcript.send_count_ne tr p (prior_chain_ne h hp hl.1 hchain.2 hchain.1)]
    exact hpacket.heads.previous
  isSealed := hpacket.isSealed

theorem mail_sent (hp : tr.epoch p ≠ 0) {packet : Packet PublicKey}
    (hnew : PacketAt S sharedSecret tape (tr.send p) ⟨tr.epoch p,tr.count (tr.epoch p)⟩ packet)
    (q : Party) (k : ℕ) (l : Label) (packet' : Packet PublicKey)
    (hlog : ((tr.send p).log q)[k]? = some l)
    (hsent : (Function.update net.sent p (net.sent p++[packet]) q)[k]? = some packet') :
    PacketAt S sharedSecret tape (tr.send p) l packet' := by
  have hold : ∀ q, (tr.log q)[k]? = some l → (net.sent q)[k]? = some packet' →
      PacketAt S sharedSecret tape (tr.send p) l packet' := by
    intro q hlog hsent
    have hl := (h.valid.logged q l).mp (List.mem_of_getElem? hlog)
    exact packet_kept h hp hl (h.mail q k l packet' hlog hsent)
  rcases Party.eq_or_eq_peer p q with rfl | rfl
  · have hlen := h.length q
    rw [Transcript.send_log hp, List.getElem?_append] at hlog
    rw [Function.update_self, List.getElem?_append, hlen] at hsent
    by_cases hk : k < (tr.log q).length
    · rw [if_pos hk] at hlog hsent
      exact hold q hlog hsent
    · rw [if_neg hk, List.getElem?_singleton] at hlog hsent
      split at hlog
      next hzero =>
        rw [if_pos hzero] at hsent
        obtain rfl := Option.some.inj hlog
        obtain rfl := Option.some.inj hsent
        exact hnew
      next => contradiction
  · rw [Transcript.send_log_peer] at hlog
    rw [Function.update_of_ne (Party.peer_ne p)] at hsent
    exact hold _ hlog hsent

/-- A received label keeps its place in the longer log. -/
theorem log_sent_iff (hp : tr.epoch p ≠ 0) (q : Party) (k : ℕ) (hl : l ∈ tr.received q) :
    ((tr.send p).log q.peer)[k]? = some l ↔ (tr.log q.peer)[k]? = some l := by
  rcases Party.eq_or_eq_peer p q with rfl | rfl
  · rw [Transcript.send_log_peer]
  · rw [Party.peer_peer, Transcript.send_log hp, List.getElem?_append]
    by_cases hk : k < (tr.log p).length
    · rw [if_pos hk]
    · have hnone : (tr.log p)[k]? = none := List.getElem?_eq_none (by omega)
      rw [if_neg hk, hnone, List.getElem?_singleton]
      refine iff_of_false ?_ (by simp)
      split
      · rintro heq
        obtain rfl := Option.some.inj heq
        exact not_lt_of_ge (Transcript.next_not_passed h.valid p) (h.valid.arrived _ _ hl).2
      · simp

/-- Sending is the transcript's sending. -/
theorem tracks_send (hS : HonestLibrary S generated)
    (hroom : (net.state p).sendMessageNumber.toNat+1 < 2^32) (plaintext ad : List UInt8)
    (nonce : Nonce) :
    Tracks S generated sharedSecret tape (send S net p plaintext ad nonce) (tr.send p) := by
  have hs := h.shows p
  have hsending := hs.sending
  by_cases hp : tr.epoch p = 0
  · rw [if_pos hp] at hsending
    rw [send, encrypt_no_chain S hsending, Transcript.send, if_pos hp]
    simp only [Function.update_eq_self]
    exact h
  rw [if_neg hp] at hsending
  rw [send, encrypt_eq S hsending hs.pair hS.init]
  have hpar := h.valid.parity p
  constructor
  · exact Transcript.send_valid h.valid p
  · intro q
    rcases Party.eq_or_eq_peer p q with rfl | rfl
    · simp only [Function.update_self]
      exact shows_sent h hp rfl hroom
    · simp only [Function.update_of_ne (Party.peer_ne p)]
      exact shows_unsent h hp
  · rw [Transcript.send_epoch]
    exact h.drawn
  · exact h.dealt
  · intro i
    by_cases hi : i = tr.epoch p
    · rw [hi, Transcript.send_count hp, ← hs.sendNumber]
      exact hroom
    · rw [Transcript.send_count_ne tr p hi]
      exact h.counts i
  · intro q
    rcases Party.eq_or_eq_peer p q with rfl | rfl
    · simp only [Function.update_self, Transcript.send_log hp, List.length_append, h.length q]
      rfl
    · simp only [Function.update_of_ne (Party.peer_ne p), Transcript.send_log_peer, h.length]
  · apply mail_sent h hp
    refine ⟨⟨rfl,hs.sendNumber,?_⟩,nonce,?_⟩
    · show _ = (tr.send p).count (tr.epoch p-2)
      rw [Transcript.send_count_ne tr p (by omega)]
      exact hs.previous
    · rw [messageKey_add]
      rfl
  · intro q k l hlog hl
    rw [Transcript.send_received] at hl
    exact h.handed q k l ((log_sent_iff h hp q k hl).mp hlog) hl

end Send

theorem refines_send (h : Refines S generated sharedSecret tape net tr)
    (hS : HonestLibrary S generated) (hroom : (net.state p).sendMessageNumber.toNat+1 < 2^32)
    (plaintext ad : List UInt8) (nonce : Nonce) :
    Refines S generated sharedSecret tape (send S net p plaintext ad nonce) (tr.send p) where
  toTracks := tracks_send h.toTracks hS hroom plaintext ad nonce
  answered q k hk := by
    rw [send_delivered] at hk
    obtain ⟨l,hlog,hl⟩ := h.answered q k hk
    rw [Transcript.send_received]
    refine ⟨l,?_,hl⟩
    by_cases hp : tr.epoch p = 0
    · rwa [Transcript.send, if_pos hp]
    · exact (log_sent_iff h.toTracks hp q k hl).mpr hlog

theorem deliver_packet {k : ℕ} {packet : Packet PublicKey}
    (hpacket : (net.sent p.peer)[k]? = some packet) :
    deliver S tape net p k = handOver S tape net p k packet := by
  rw [deliver, hpacket]

theorem handOver_state (k : ℕ) (packet : Packet PublicKey) :
    (handOver S tape net p k packet).state p = (decrypt S (net.state p) packet.header
      packet.ciphertext packet.associatedData (tape net.drawn)).1 := Function.update_self ..

theorem handOver_state_peer (k : ℕ) (packet : Packet PublicKey) :
    (handOver S tape net p k packet).state p.peer = net.state p.peer :=
  Function.update_of_ne (Party.peer_ne p) _ _

theorem handOver_outcomes (k : ℕ) (packet : Packet PublicKey) :
    (handOver S tape net p k packet).outcomes =
      ⟨p,k,decide (k ∈ net.delivered p),packet,(decrypt S (net.state p) packet.header
        packet.ciphertext packet.associatedData (tape net.drawn)).2⟩::net.outcomes := rfl

theorem handOver_created (k : ℕ) (packet : Packet PublicKey) :
    (handOver S tape net p k packet).created = net.created++
      createdChains S (net.state p) p packet.header (tape net.drawn) := rfl

theorem handOver_drawn (k : ℕ) (packet : Packet PublicKey) :
    (handOver S tape net p k packet).drawn =
      if drawsKeypair S (net.state p) packet.header then net.drawn+1 else net.drawn := rfl

theorem handOver_delivered (k : ℕ) (packet : Packet PublicKey) (q : Party) (k' : ℕ) :
    k' ∈ (handOver S tape net p k packet).delivered q ↔
      k' ∈ net.delivered q ∨ (q = p ∧ k' = k) := by
  show k' ∈ Function.update net.delivered p (k::net.delivered p) q ↔ _
  rcases Party.eq_or_eq_peer p q with rfl | rfl
  · rw [Function.update_self, List.mem_cons]
    tauto
  · rw [Function.update_of_ne (Party.peer_ne p)]
    have hne := Party.peer_ne p
    tauto

omit [DecidableEq PublicKey] in
theorem PacketAt.congr {l' : Label} {packet : Packet PublicKey} {tr' : Transcript}
    (h : PacketAt S sharedSecret tape tr l' packet) (hcount : tr'.count = tr.count) :
    PacketAt S sharedSecret tape tr' l' packet where
  heads := ⟨h.heads.key,h.heads.number,hcount ▸ h.heads.previous⟩
  isSealed := h.isSealed

section Deliver
variable {k : ℕ} {packet : Packet PublicKey} (hS : HonestLibrary S generated)

section Tracks
variable (h : Tracks S generated sharedSecret tape net tr)
  (hpacket : (net.sent p.peer)[k]? = some packet)
include h

theorem Tracks.below (p : Party) : tr.epoch p.peer < net.drawn := by
  have hmax := h.drawn p
  omega

include hpacket

theorem label_of_packet : ∃ l, (tr.log p.peer)[k]? = some l ∧ tr.Sent p.peer l ∧
    PacketAt S sharedSecret tape tr l packet := by
  have hlt : k < (tr.log p.peer).length := by
    rw [← h.length]
    exact (List.getElem?_eq_some_iff.mp hpacket).1
  have hget := List.getElem?_eq_getElem hlt
  exact ⟨_,hget,(h.valid.logged _ _).mp (List.getElem_mem hlt),h.mail _ _ _ _ hget hpacket⟩

variable (hlog : (tr.log p.peer)[k]? = some l)
include hlog

theorem packet_at : tr.Sent p.peer l ∧ PacketAt S sharedSecret tape tr l packet :=
  ⟨(h.valid.logged _ _).mp (List.mem_of_getElem? hlog),h.mail _ _ _ _ hlog hpacket⟩

/-- What the state becomes, the transcript becomes. -/
theorem tracks_handed {tr' : Transcript} (harr : tr.Arrives p l tr')
    (hfresh : drawsNew S tape generated net p packet.header)
    (hshows : Shows S sharedSecret tape tr' p (selectKey S (net.state p) packet.header
      (tape net.drawn)).1)
    (hdraws : drawsKeypair S (net.state p) packet.header = true ↔ tr'.epoch p ≠ tr.epoch p) :
    Tracks S generated sharedSecret tape (handOver S tape net p k packet) tr' := by
  obtain ⟨hl,hat⟩ := packet_at h hpacket hlog
  obtain ⟨hlogs,hcount,hepoch,hreceived,hhorizon⟩ := harr.frame
  have hdrawn : (handOver S tape net p k packet).drawn =
      max (tr'.epoch p) (tr'.epoch p.peer)+1 := by
    have hmax := h.drawn p
    have hmoved := harr.epoch_cases h.valid hl
    rw [hepoch]
    show (if drawsKeypair S (net.state p) packet.header then net.drawn+1 else net.drawn) = _
    by_cases hc : drawsKeypair S (net.state p) packet.header = true
    · have hne := hdraws.mp hc
      rw [if_pos hc]
      omega
    · have heq := not_not.mp fun hne => hc (hdraws.mpr hne)
      rw [if_neg hc]
      omega
  constructor
  · exact harr.valid h.valid hl
  · intro q
    rcases Party.eq_or_eq_peer p q with rfl | rfl
    · rw [handOver_state, decrypt_state]
      exact hshows
    · rw [handOver_state_peer]
      apply (h.shows p.peer).congr hepoch hhorizon (congrFun hcount _) (congrFun hcount _)
      intro l'
      rw [awaited, awaited, hreceived, hhorizon, Party.peer_peer]
      apply pending_congr
      intro _
      rw [Transcript.Sent, Transcript.Sent, hcount]
  · intro q
    rcases Party.eq_or_eq_peer p q with rfl | rfl
    · exact hdrawn
    · rwa [Party.peer_peer, max_comm]
  · show Dealt generated tape
      (if drawsKeypair S (net.state p) packet.header then net.drawn+1 else net.drawn)
    by_cases hc : drawsKeypair S (net.state p) packet.header = true
    · rw [if_pos hc]
      exact h.dealt.succ (hfresh hc).1 (hfresh hc).2
    · rw [if_neg hc]
      exact h.dealt
  · rw [hcount]
    exact h.counts
  · rw [hlogs]
    exact h.length
  · intro q k' l' packet' hl' hp'
    rw [hlogs] at hl'
    exact (h.mail q k' l' packet' hl' hp').congr hcount
  · intro q k' l' hl' hmem
    rw [hlogs] at hl'
    rw [handOver_delivered]
    rcases harr.mem_received hmem with hold | ⟨rfl,rfl⟩
    · exact Or.inl (h.handed q k' l' hl' hold)
    · have hlt := (List.getElem?_eq_some_iff.mp hl').1
      exact Or.inr ⟨rfl,(List.getElem?_inj hlt (h.valid.distinct _)).mp (hl'.trans hlog.symm)⟩

include hS

/-- A first delivery within the limits opens to what was sealed. -/
theorem first_delivery (hnew : k ∉ net.delivered p)
    (ha : admits S tape generated rejectsReplay net p k (some packet)) :
    let r := decrypt S (net.state p) packet.header packet.ciphertext packet.associatedData
      (tape net.drawn)
    Shows S sharedSecret tape (tr.receive p l) p r.1 ∧ r.2 = .ok packet.plaintext := by
  obtain ⟨hl,hat⟩ := packet_at h hpacket hlog
  obtain ⟨hfresh,hw⟩ := ha
  rw [if_neg hnew] at hw
  obtain ⟨hshows,hkey⟩ := select_first h.valid (h.shows p) hl hat.heads h.dealt (h.below p) hS hw
    (fun hmem => hnew (h.handed p k l hlog hmem)) h.counts (h.drawn p) hfresh
  intro r
  have hresult : r.2 = (Except.ok (keyAt S sharedSecret tape l)).bind _ :=
    (decrypt_result ..).trans (congrArg (Except.bind · _) hkey)
  refine ⟨?_,hresult.trans (packet_opens hS hat)⟩
  rw [decrypt_state]
  exact hshows

omit hS in
/-- A second delivery that is turned away is an error and changes nothing. -/
theorem second_delivery (hold : k ∈ net.delivered p) (hmem : l ∈ tr.received p)
    (ha : admits S tape generated rejectsReplay net p k (some packet)) :
    let r := decrypt S (net.state p) packet.header packet.ciphertext packet.associatedData
      (tape net.drawn)
    r.1 = net.state p ∧ (∃ e, r.2 = .error e) ∧
      drawsKeypair S (net.state p) packet.header = false := by
  obtain ⟨hl,hat⟩ := packet_at h hpacket hlog
  obtain ⟨-,hr⟩ := ha
  rw [if_pos hold] at hr
  obtain ⟨hstate,⟨e,he⟩,hdraws⟩ := select_stopped (S := S) (replay_stops h.valid (h.shows p) hl
    hat.heads h.dealt (h.below p) hmem hr) (tape net.drawn)
  exact ⟨(decrypt_state ..).trans hstate,⟨e,(decrypt_result ..).trans
    (congrArg (Except.bind · _) he)⟩,hdraws⟩

/-- Delivering within the limits is the transcript's receiving. -/
theorem tracks_deliver (hold : k ∈ net.delivered p → l ∈ tr.received p)
    (ha : admits S tape generated rejectsReplay net p k (some packet)) :
    Tracks S generated sharedSecret tape (handOver S tape net p k packet) (tr.receive p l) := by
  obtain ⟨hl,hat⟩ := packet_at h hpacket hlog
  have hcases := Transcript.sent_by_peer h.valid hl
  refine tracks_handed h hpacket hlog .received ha.1 ?_ ?_
  · rw [← decrypt_state S _ _ packet.ciphertext packet.associatedData]
    by_cases hk : k ∈ net.delivered p
    · rw [(second_delivery h hpacket hlog hk (hold hk) ha).1,
        Transcript.receive_again h.valid (hold hk)]
      exact h.shows p
    · exact (first_delivery hS h hpacket hlog hk ha).1
  · by_cases hk : k ∈ net.delivered p
    · rw [(second_delivery h hpacket hlog hk (hold hk) ha).2.2,
        Transcript.receive_again h.valid (hold hk)]
      exact iff_of_false Bool.false_ne_true (not_not.mpr rfl)
    · have hw := ha.2
      rw [if_neg hk] at hw
      rw [draws_iff h.valid (h.shows p) hl hat.heads h.dealt (h.below p) hS hw
        fun hmem => hk (h.handed p k l hlog hmem), Transcript.receive_epoch]
      omega

/-- Any first delivery is one of the transcript's arrivals. -/
theorem tracks_first (ha : handsFirst S tape generated net p k (some packet)) :
    ∃ tr', tr.Arrives p l tr' ∧
      Tracks S generated sharedSecret tape (handOver S tape net p k packet) tr' := by
  obtain ⟨hl,hat⟩ := packet_at h hpacket hlog
  obtain ⟨tr',harr,hshows,hdraws⟩ := select_any h.valid (h.shows p) hl hat.heads h.dealt
    (h.below p) hS (fun hmem => ha.2 (h.handed p k l hlog hmem)) h.counts (h.drawn p) ha.1
  exact ⟨tr',harr,tracks_handed h hpacket hlog harr ha.1 hshows hdraws⟩

end Tracks

section Refines
variable (h : Refines S generated sharedSecret tape net tr)
include h

theorem Refines.delivered_iff (hlog : (tr.log p.peer)[k]? = some l) :
    k ∈ net.delivered p ↔ l ∈ tr.received p := by
  constructor
  · intro hk
    obtain ⟨l',hlog',hmem⟩ := h.answered p k hk
    obtain rfl := Option.some.inj (hlog.symm.trans hlog')
    exact hmem
  · exact h.handed p k l hlog

include hS

/-- Delivering is the transcript's receiving. -/
theorem refines_deliver (hpacket : (net.sent p.peer)[k]? = some packet)
    (ha : admits S tape generated rejectsReplay net p k (some packet))
    (hlog : (tr.log p.peer)[k]? = some l) :
    Refines S generated sharedSecret tape (handOver S tape net p k packet)
      (tr.receive p l) where
  toTracks := tracks_deliver hS h.toTracks hpacket hlog (h.delivered_iff hlog).mp ha
  answered q k' hk := by
    rcases (handOver_delivered k packet q k').mp hk with hk | ⟨rfl,rfl⟩
    · obtain ⟨l',hlog',hmem⟩ := h.answered q k' hk
      refine ⟨l',hlog',?_⟩
      rcases Party.eq_or_eq_peer p q with rfl | rfl
      · rw [Transcript.receive_received]
        exact Finset.mem_insert_of_mem hmem
      · rwa [Transcript.receive_received_peer]
    · refine ⟨l,hlog,?_⟩
      rw [Transcript.receive_received]
      exact Finset.mem_insert_self _ _

end Refines

end Deliver

/-- An honest run delivers packets that were sent. -/
theorem sent_of_allowed {k : ℕ}
    {replay : RatchetState PublicKey SecretKey Key → MessageHeader PublicKey → Prop}
    (ha : allowed S tape generated replay net (.deliver p k)) :
    ∃ packet, (net.sent p.peer)[k]? = some packet ∧
      admits S tape generated replay net p k (some packet) := by
  rw [allowed] at ha
  cases hpacket : (net.sent p.peer)[k]? with
  | none =>
    rw [hpacket] at ha
    exact absurd ha id
  | some packet =>
    rw [hpacket] at ha
    exact ⟨packet,rfl,ha⟩

theorem sent_of_honest {k : ℕ} (ha : honest S tape generated net (.deliver p k)) :
    ∃ packet, (net.sent p.peer)[k]? = some packet ∧
      handsFirst S tape generated net p k (some packet) := by
  rw [honest] at ha
  cases hpacket : (net.sent p.peer)[k]? with
  | none =>
    rw [hpacket] at ha
    exact absurd ha id
  | some packet =>
    rw [hpacket] at ha
    exact ⟨packet,rfl,ha⟩

/-- One step of an honest run within the limits is one step of the transcript. -/
theorem step_refines (hS : HonestLibrary S generated)
    (h : Refines S generated sharedSecret tape net tr) {a : Action}
    (ha : allowed S tape generated rejectsReplay net a) :
    Refines S generated sharedSecret tape (step S tape net a) (tr.step a) := by
  cases a with
  | send p plaintext ad nonce => exact refines_send h hS ha plaintext ad nonce
  | deliver p k =>
    obtain ⟨packet,hpacket,hadmits⟩ := sent_of_allowed ha
    obtain ⟨l,hlog,-⟩ := label_of_packet h.toTracks hpacket
    rw [step, deliver, Transcript.step, hpacket, hlog]
    exact refines_deliver hS h hpacket hadmits hlog

theorem run_refines (hS : HonestLibrary S generated)
    (h : Refines S generated sharedSecret tape net tr) {as : List Action}
    (hg : Runs.Guarded (step S tape) (allowed S tape generated rejectsReplay) net as) :
    Refines S generated sharedSecret tape (Runs.run (step S tape) net as)
      (Runs.run Transcript.step tr as) := by
  induction as generalizing net tr with
  | nil => exact h
  | cons a as ih => exact ih (step_refines hS h hg.1) hg.2

/-- One step of any honest run is tracked, whether its message opens or not. -/
theorem step_tracks (hS : HonestLibrary S generated)
    (h : Tracks S generated sharedSecret tape net tr) {a : Action}
    (ha : honestInRange S tape generated net a) :
    ∃ tr', Tracks S generated sharedSecret tape (step S tape net a) tr' := by
  obtain ⟨ha,hroom⟩ := ha
  cases a with
  | send p plaintext ad nonce => exact ⟨_,tracks_send h hS hroom plaintext ad nonce⟩
  | deliver p k =>
    obtain ⟨packet,hpacket,hfirst⟩ := sent_of_honest ha
    obtain ⟨l,hlog,-⟩ := label_of_packet h hpacket
    obtain ⟨tr',-,htracks⟩ := tracks_first hS h hpacket hlog hfirst
    rw [step, deliver, hpacket]
    exact ⟨tr',htracks⟩

theorem run_tracks (hS : HonestLibrary S generated)
    (h : Tracks S generated sharedSecret tape net tr) {as : List Action}
    (hg : Runs.Guarded (step S tape) (honestInRange S tape generated) net as) :
    ∃ tr', Tracks S generated sharedSecret tape (Runs.run (step S tape) net as) tr' :=
  Runs.run_invariant (step S tape)
    (I := fun net => ∃ tr, Tracks S generated sharedSecret tape net tr)
    (fun _ _ ⟨_,h⟩ ha => step_tracks hS h ha) ⟨tr,h⟩ hg

/-- Two fresh sessions on one secret stand at the empty transcript. -/
theorem opening_tracks {alice : RatchetState PublicKey SecretKey Key}
    (halice : initSender S sharedSecret (tape 0).1 (tape 1) = .ok alice)
    (hS : HonestLibrary S generated) (hd : Dealt generated tape 2) :
    Tracks S generated sharedSecret tape (opening alice (initReceiver sharedSecret (tape 0)))
      Transcript.opening := by
  obtain ⟨d,hdh,rfl⟩ := initSender_ok S halice
  obtain ⟨d',-,hdh',hrung⟩ := exchange hS sharedSecret (hd.honest 0 (by omega))
    (hd.honest 1 (by omega))
  obtain rfl := Option.some.inj (hdh.symm.trans hdh')
  have hroot : rootAt S sharedSecret tape 0 = sharedSecret := rfl
  rw [hroot] at hrung
  have hempty : ∀ p, Caches S sharedSecret tape (awaited Transcript.opening p) ∅ := by
    intro p pk x key
    refine iff_of_false (by simp) ?_
    rintro ⟨i,-,⟨⟨-,hlt⟩,-⟩,-⟩
    exact Nat.not_lt_zero _ hlt
  constructor
  · exact Transcript.opening_valid
  · intro p
    cases p with
    | alice =>
      constructor
      · exact congrArg Prod.fst hrung
      · exact congrArg (fun r => some r.2) hrung
      · rfl
      · rfl
      · rfl
      · rfl
      · rfl
      · rfl
      · exact hempty .alice
    | bob =>
      constructor
      · rfl
      · rfl
      · rfl
      · rfl
      · rfl
      · rfl
      · rfl
      · rfl
      · exact hempty .bob
  · intro p
    cases p <;> rfl
  · exact hd
  · intro i
    exact Nat.two_pow_pos 32
  · intro p
    rfl
  · intro p k l packet hl
    simp [Transcript.opening] at hl
  · intro p k l hl
    simp [Transcript.opening] at hl

theorem opening_refines {alice : RatchetState PublicKey SecretKey Key}
    (halice : initSender S sharedSecret (tape 0).1 (tape 1) = .ok alice)
    (hS : HonestLibrary S generated) (hd : Dealt generated tape 2) :
    Refines S generated sharedSecret tape (opening alice (initReceiver sharedSecret (tape 0)))
      Transcript.opening where
  toTracks := opening_tracks halice hS hd
  answered _ _ hk := absurd hk List.not_mem_nil

end Vaultex.Conversation
