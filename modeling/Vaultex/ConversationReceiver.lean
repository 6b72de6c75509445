import Vaultex.ConversationLadder

/-!
# A receiver follows the transcript

`Shows` reads a state off a transcript. A message of the peer is found in the
cache, in the receiving chain or beyond a ratchet step, as the transcript
says; in each case the key selected is the one it was sealed under and the new
state shows the new transcript.
-/

set_option autoImplicit false

namespace Vaultex.Conversation
open DoubleRatchet Mailbox
variable {PublicKey SecretKey Key : Type} [DecidableEq PublicKey]
  (S : Suite PublicKey SecretKey Key) (sharedSecret : Key) (tape : ℕ → PublicKey × SecretKey)

/-- The labels a party's cache holds the keys of. -/
def awaited (tr : Transcript) (p : Party) : Label → Prop :=
  Pending (tr.Sent p.peer) (tr.horizon p) (tr.received p)

structure Shows (tr : Transcript) (p : Party) (s : RatchetState PublicKey SecretKey Key) :
    Prop where
  root : s.rootKey = rootAt S sharedSecret tape (tr.epoch p)
  sending : s.sendingChainKey = if tr.epoch p = 0 then none else
    some (chainKey S (chainAt S sharedSecret tape (tr.epoch p)) (tr.count (tr.epoch p)))
  pair : s.sendingKeypair = some (tape (tr.epoch p))
  remote : s.remoteRatchetKey = if tr.epoch p = 0 then none else some (tape (tr.epoch p-1)).1
  receiving : s.receivingChainKey = if tr.epoch p ≤ 1 then none else
    some (chainKey S (chainAt S sharedSecret tape (tr.epoch p-1)) s.recvMessageNumber.toNat)
  sendNumber : s.sendMessageNumber.toNat = tr.count (tr.epoch p)
  recvNumber : s.recvMessageNumber.toNat = (tr.horizon p).number
  previous : s.previousChainLength.toNat = tr.count (tr.epoch p-2)
  cache : Caches S sharedSecret tape (awaited tr p) s.skippedKeys

/-- A header as its sender wrote it. -/
structure Heads (tr : Transcript) (l : Label) (header : MessageHeader PublicKey) : Prop where
  key : header.ratchetPublicKey = (tape l.chain).1
  number : header.messageNumber.toNat = l.number
  previous : header.previousChainLength.toNat = tr.count (l.chain-2)

variable {S sharedSecret tape} {tr tr' : Transcript} {p : Party}
  {s s' : RatchetState PublicKey SecretKey Key}

/-- A transcript leaves nothing of the state open. -/
theorem Shows.unique (h : Shows S sharedSecret tape tr p s)
    (h' : Shows S sharedSecret tape tr p s') : s = s' := by
  have hrecv : s.recvMessageNumber = s'.recvMessageNumber :=
    UInt32.toNat_inj.mp (h.recvNumber.trans h'.recvNumber.symm)
  apply RatchetState.ext
  · exact h.root.trans h'.root.symm
  · exact h.sending.trans h'.sending.symm
  · rw [h.receiving, h'.receiving, hrecv]
  · exact h.pair.trans h'.pair.symm
  · exact h.remote.trans h'.remote.symm
  · exact UInt32.toNat_inj.mp (h.sendNumber.trans h'.sendNumber.symm)
  · exact hrecv
  · exact UInt32.toNat_inj.mp (h.previous.trans h'.previous.symm)
  · exact h.cache.unique h'.cache

theorem Shows.congr (h : Shows S sharedSecret tape tr p s) (hepoch : tr'.epoch p = tr.epoch p)
    (hhorizon : tr'.horizon p = tr.horizon p)
    (hcount : tr'.count (tr.epoch p) = tr.count (tr.epoch p))
    (hprev : tr'.count (tr.epoch p-2) = tr.count (tr.epoch p-2))
    (hawaited : ∀ l, awaited tr p l ↔ awaited tr' p l) : Shows S sharedSecret tape tr' p s where
  root := by rw [h.root, hepoch]
  sending := by rw [h.sending, hepoch, hcount]
  pair := by rw [h.pair, hepoch]
  remote := by rw [h.remote, hepoch]
  receiving := by rw [h.receiving, hepoch]
  sendNumber := by rw [h.sendNumber, hepoch, hcount]
  recvNumber := by rw [h.recvNumber, hhorizon]
  previous := by rw [h.previous, hepoch, hprev]
  cache := h.cache.congr hawaited

theorem Shows.secret (h : Shows S sharedSecret tape tr p s) {pk : PublicKey} {sk : SecretKey}
    (pair : s.sendingKeypair = some (pk,sk)) : (tape (tr.epoch p)).2 = sk :=
  congrArg Prod.snd (Option.some.inj (h.pair.symm.trans pair))

/-- A receiving chain has its key. -/
theorem Shows.remote_isSome (h : Shows S sharedSecret tape tr p s)
    (hchain : s.receivingChainKey.isSome) : s.remoteRatchetKey.isSome := by
  rw [h.receiving] at hchain
  rw [h.remote]
  by_cases hp : tr.epoch p ≤ 1
  · rw [if_pos hp] at hchain
    contradiction
  · rw [if_neg (by omega)]
    rfl

omit [DecidableEq PublicKey] in
/-- The counter moved past a message is short of wrapping. -/
theorem Heads.next_number {l : Label} {header : MessageHeader PublicKey}
    (h : Heads tape tr l header) (hl : tr.Sent p.peer l) (hcount : ∀ i, tr.count i < 2^32) :
    (header.messageNumber+1).toNat = l.number+1 := by
  have hlast := hl.2
  have hbound := hcount l.chain
  rw [succ_toNat (k := 0) (by rw [h.number]; omega), h.number]

section Receive
variable {generated : PublicKey × SecretKey → Prop} {n : ℕ} {l : Label}
  {header : MessageHeader PublicKey}
  (hv : tr.Valid) (hs : Shows S sharedSecret tape tr p s) (hl : tr.Sent p.peer l)
  (hh : Heads tape tr l header) (hd : Dealt generated tape n) (hn : tr.epoch p.peer < n)

section Lookups
include hv hn

theorem awaited_dealt (l : Label) (h : awaited tr p l) : l.chain < n :=
  (Transcript.sent_chain hv h.1).2.trans_lt hn

include hs hl hh hd

theorem hit_iff (key : Key) :
    s.skippedKeys.lookup (header.ratchetPublicKey,header.messageNumber) = some key ↔
      awaited tr p l ∧ key = keyAt S sharedSecret tape l := by
  rw [hh.key]
  exact hs.cache.lookup hd (awaited_dealt hv hn) ((Transcript.sent_chain hv hl).2.trans_lt hn)
    hh.number key

theorem miss_iff :
    s.skippedKeys.lookup (header.ratchetPublicKey,header.messageNumber) = none ↔
      ¬awaited tr p l := by
  rw [hh.key]
  exact hs.cache.lookup_none hd (awaited_dealt hv hn)
    ((Transcript.sent_chain hv hl).2.trans_lt hn) hh.number

theorem miss_beyond (hpass : tr.horizon p ≤ l) :
    s.skippedKeys.lookup (header.ratchetPublicKey,header.messageNumber) = none :=
  (miss_iff hv hs hl hh hd hn).mpr fun ha => not_lt_of_ge hpass ha.2.1

theorem need_iff : needRatchet s header.ratchetPublicKey = true ↔ l.chain+1 ≠ tr.epoch p := by
  rw [needRatchet_iff, hs.remote, hh.key]
  have hchain := Transcript.sent_chain hv hl
  have hnear := hv.near p
  by_cases h0 : tr.epoch p = 0
  · rw [if_pos h0]
    exact iff_of_true (by simp) (by omega)
  · rw [if_neg h0, not_iff_not, Option.some_inj]
    constructor
    · intro heq
      have hi := hd.distinct (tr.epoch p-1) l.chain (by omega) (by omega) heq
      omega
    · intro heq
      rw [← heq, Nat.add_sub_cancel]

end Lookups

section Overtaken
include hv

/-- What a message of the receiving chain overtakes. -/
theorem overtaken_in_chain (hl : tr.Sent p.peer l) (hc : l.chain+1 = tr.epoch p) (l' : Label) :
    (l'.chain = l.chain ∧ (tr.horizon p).number ≤ l'.number ∧ l'.number < l.number) ↔
      tr.Sent p.peer l' ∧ tr.horizon p ≤ l' ∧ l' < l := by
  have hlevel := hv.level p
  have hlast := hl.2
  rw [Label.le_iff, Label.lt_iff]
  constructor
  · rintro ⟨heq,hlow,hhigh⟩
    exact ⟨⟨heq ▸ hl.1,by rw [heq]; omega⟩,by omega,by omega⟩
  · rintro ⟨-,hge,hlt⟩
    omega

/-- What a ratchet step overtakes: the rest of the receiving chain. -/
theorem overtaken_by_step (l' : Label) :
    (l'.chain = tr.epoch p-1 ∧ (tr.horizon p).number ≤ l'.number ∧
      l'.number < tr.count (tr.epoch p-1)) ↔
      tr.Sent p.peer l' ∧ tr.horizon p ≤ l' ∧ l' < ⟨tr.epoch p+1,0⟩ := by
  have hlevel := hv.level p
  have hpar := hv.parity p
  have hsum := Transcript.parity_peer p
  have hzero := hv.noChain
  rw [Label.le_iff, Label.lt_iff]
  constructor
  · rintro ⟨heq,hlow,hhigh⟩
    by_cases h0 : tr.epoch p = 0
    · rw [h0, hzero] at hhigh
      omega
    · rw [← heq] at hhigh
      exact ⟨⟨by omega,hhigh⟩,by omega,by simp only; omega⟩
  · rintro ⟨⟨hown,hsent⟩,hge,hlt⟩
    simp only at hlt
    have heq : l'.chain = tr.epoch p-1 := by omega
    rw [heq] at hsent
    omega

end Overtaken

section Chain
variable {P : Label → Prop} {c : ℕ} {x : UInt32} {ck : Key}

/-- Skipping to number `x` caches what lies before it on chain `c`. -/
theorem skip_to_caches (hd : Dealt generated tape n) (hP : ∀ l, P l → l.chain < n) (hc : c < n)
    (hcache : Caches S sharedSecret tape P s.skippedKeys)
    (hck : ck = chainKey S (chainAt S sharedSecret tape c) s.recvMessageNumber.toNat)
    (low : s.recvMessageNumber.toNat ≤ x.toNat) :
    Caches S sharedSecret tape
      (fun l => P l ∨ (l.chain = c ∧ s.recvMessageNumber.toNat ≤ l.number ∧ l.number < x.toNat))
      (skipTo S s (tape c).1 ck x).skippedKeys := by
  have hsub := UInt32.toNat_sub_of_le _ _ (UInt32.le_iff_toNat_le.mpr low)
  have hx := x.toNat_lt
  have hend : s.recvMessageNumber.toNat+(x-s.recvMessageNumber).toNat = x.toNat := by omega
  have hskip := hcache.skip hd hP hc (hend.trans_lt hx) hck
  rwa [hend] at hskip

omit [DecidableEq PublicKey] in
theorem chain_advanced
    (hck : ck = chainKey S (chainAt S sharedSecret tape c) s.recvMessageNumber.toNat)
    (low : s.recvMessageNumber.toNat ≤ x.toNat) :
    chainKey S ck ((x-s.recvMessageNumber).toNat+1) =
      chainKey S (chainAt S sharedSecret tape c) (x.toNat+1) := by
  rw [UInt32.toNat_sub_of_le _ _ (UInt32.le_iff_toNat_le.mpr low), hck, chainKey_add]
  congr 1
  omega

end Chain

/-- The key of message `l` is selected and its receipt noted. -/
def Follows (S : Suite PublicKey SecretKey Key) (sharedSecret : Key)
    (tape : ℕ → PublicKey × SecretKey) (tr : Transcript) (p : Party) (l : Label)
    (r : RatchetState PublicKey SecretKey Key × Result Key) : Prop :=
  Shows S sharedSecret tape (tr.receive p l) p r.1 ∧ r.2 = .ok (keyAt S sharedSecret tape l)

theorem awaited_receive (l' : Label) : awaited (tr.receive p l) p l' ↔
    Pending (tr.Sent p.peer) (max (tr.horizon p) (Order.succ l))
      (insert l (tr.received p)) l' := by
  rw [awaited, Transcript.receive_received, Transcript.receive_horizon]
  rfl

include hv hs hl hh hd hn

/-- The key waits in the cache. -/
theorem select_awaited (ha : awaited tr p l) (fresh : PublicKey × SecretKey) :
    Follows S sharedSecret tape tr p l (selectKey S s header fresh) := by
  have hit := (hit_iff hv hs hl hh hd hn _).mpr ⟨ha,rfl⟩
  have hepoch : (tr.receive p l).epoch p = tr.epoch p := by
    rw [Transcript.receive_epoch, max_eq_left (Transcript.passed_chain hv ha.2.1)]
  have hstays : max (tr.horizon p) (Order.succ l) = tr.horizon p :=
    max_eq_left (Order.succ_le_of_lt ha.2.1)
  simp only [selectKey, hit]
  refine ⟨?_,rfl⟩
  constructor
  · rw [hepoch]; exact hs.root
  · rw [hepoch]; exact hs.sending
  · rw [hepoch]; exact hs.pair
  · rw [hepoch]; exact hs.remote
  · rw [hepoch]; exact hs.receiving
  · rw [hepoch]; exact hs.sendNumber
  · rw [Transcript.receive_horizon, hstays]; exact hs.recvNumber
  · rw [hepoch]; exact hs.previous
  · rw [hh.key]
    apply (hs.cache.erase hd (awaited_dealt hv hn) (awaited_dealt hv hn l ha) hh.number).congr
    intro l'
    rw [awaited_receive, hstays, pending_take]
    rfl

/-- The receiving chain goes past a message ahead of it. -/
theorem follows_advanced {ck : Key} (hchain : s.receivingChainKey = some ck)
    (hc : l.chain+1 = tr.epoch p) (hpass : tr.horizon p ≤ l) (hcount : ∀ i, tr.count i < 2^32) :
    Follows S sharedSecret tape tr p l (advance S s header.ratchetPublicKey ck
      header.messageNumber,.ok (messageKey S ck
        (header.messageNumber.toNat-s.recvMessageNumber.toNat))) := by
  have hpos : ¬tr.epoch p ≤ 1 := by
    have hfirst := (Transcript.sent_chain hv hl).1
    omega
  have hlevel := hv.level p
  have hnear := hv.near p
  have hlow : s.recvMessageNumber.toNat ≤ header.messageNumber.toNat := by
    rw [hs.recvNumber, hh.number]
    rw [Label.le_iff] at hpass
    omega
  have hreceiving := hs.receiving
  rw [if_neg hpos, ← hc, Nat.add_sub_cancel] at hreceiving
  obtain rfl := Option.some.inj (hchain.symm.trans hreceiving)
  have hepoch : (tr.receive p l).epoch p = tr.epoch p := by
    rw [Transcript.receive_epoch, max_eq_left hc.le]
  have hmoves : max (tr.horizon p) (Order.succ l) = Order.succ l :=
    max_eq_right (hpass.trans (Order.le_succ l))
  have hsucc := hh.next_number hl hcount
  refine ⟨?_,?_⟩
  · constructor
    · rw [hepoch]; exact hs.root
    · rw [hepoch]; exact hs.sending
    · rw [hepoch]; exact hs.pair
    · rw [hepoch]; exact hs.remote
    · rw [hepoch, if_neg hpos, ← hc, Nat.add_sub_cancel]
      show some _ = some _
      rw [chain_advanced rfl hlow]
      show _ = some (chainKey S _ (header.messageNumber+1).toNat)
      rw [hsucc, hh.number]
    · rw [hepoch]; exact hs.sendNumber
    · rw [Transcript.receive_horizon, hmoves]; exact hsucc
    · rw [hepoch]; exact hs.previous
    · rw [hh.key]
      apply (skip_to_caches hd (awaited_dealt hv hn) (by omega) hs.cache rfl hlow).congr
      intro l'
      rw [awaited_receive, hmoves, pending_advance (fun r hr => (hv.arrived p r hr).2) hpass]
      apply or_congr_right
      rw [hh.number, hs.recvNumber]
      exact overtaken_in_chain hv hl hc l'
  · rw [hh.number] at hlow ⊢
    rw [messageKey_add, Nat.add_sub_cancel' hlow]
    rfl

/-- The key is some way up the receiving chain. -/
theorem select_in_chain (hc : l.chain+1 = tr.epoch p) (hpass : tr.horizon p ≤ l)
    (hnear : l.number ≤ s.recvMessageNumber.toNat+1000) (hcount : ∀ i, tr.count i < 2^32)
    (fresh : PublicKey × SecretKey) :
    Follows S sharedSecret tape tr p l (selectKey S s header fresh) := by
  have hfrom : takesFromChain s header := by
    have hfirst := (Transcript.sent_chain hv hl).1
    have hlevel := hv.level p
    have hneed : ¬needRatchet s header.ratchetPublicKey = true := by
      rw [need_iff hv hs hl hh hd hn, not_not]
      exact hc
    have hsame := needRatchet_eq_false.mp (eq_false_of_ne_true hneed)
    have hlow : s.recvMessageNumber.toNat ≤ l.number := by
      rw [hs.recvNumber]
      rw [Label.le_iff] at hpass
      omega
    rw [takes_from_chain_iff, hs.receiving, if_neg (by omega), hh.number]
    exact ⟨miss_beyond hv hs hl hh hd hn hpass,hsame,hlow,hnear,rfl⟩
  obtain ⟨ck,chain,-,heq⟩ := select_from_chain S hfrom fresh
  rw [heq]
  exact follows_advanced hv hs hl hh hd hn chain hc hpass hcount

omit hl hh in
/-- The rest of the receiving chain is cached before a ratchet step. -/
theorem current_caches {s1 : RatchetState PublicKey SecretKey Key} {x : UInt32}
    (hx : x.toNat = tr.count (tr.epoch p-1)) (h : CurrentSkipped S s x s1) :
    Caches S sharedSecret tape (fun l' => awaited tr p l' ∨ (l'.chain = tr.epoch p-1 ∧
      s.recvMessageNumber.toNat ≤ l'.number ∧ l'.number < tr.count (tr.epoch p-1)))
      s1.skippedKeys := by
  have hreceiving := hs.receiving
  have hremote := hs.remote
  cases h with
  | nothing h =>
    have hempty : tr.count (tr.epoch p-1) ≤ s.recvMessageNumber.toNat := by
      by_cases he : tr.epoch p ≤ 1
      · have hzero : tr.epoch p-1 = 0 := by omega
        rw [hzero, hv.noChain]
        exact Nat.zero_le _
      · rw [if_neg he] at hreceiving
        rw [if_neg (by omega)] at hremote
        rcases h with h | h | h
        · rw [hreceiving] at h; contradiction
        · rw [hremote] at h; contradiction
        · omega
    apply hs.cache.congr
    intro l'
    exact (or_iff_left (by omega)).symm
  | @skipped ck pk chain remote low high =>
    have he : ¬tr.epoch p ≤ 1 := by
      intro he
      rw [hreceiving, if_pos he] at chain
      contradiction
    rw [if_neg he] at hreceiving
    rw [if_neg (by omega)] at hremote
    obtain rfl := Option.some.inj (chain.symm.trans hreceiving)
    obtain rfl := Option.some.inj (remote.symm.trans hremote)
    have hnear := hv.near p
    have hlast : tr.epoch p-1 < n := by omega
    have hskip := skip_to_caches hd (awaited_dealt hv hn) hlast hs.cache rfl low
    rwa [hx] at hskip

theorem reaches_step (hc : l.chain = tr.epoch p+1)
    (hcurrent : s.receivingChainKey.isSome →
      header.previousChainLength.toNat ≤ s.recvMessageNumber.toNat+1000) :
    takesRatchetStep s header := by
  have hneed := (need_iff hv hs hl hh hd hn).mpr (by omega)
  refine ⟨miss_beyond hv hs hl hh hd hn (Transcript.not_passed_beyond hv (by omega)),hneed,?_⟩
  rw [rejectsEarly, if_pos hneed]
  rintro ⟨hsome,-,hfar⟩
  have hle := hcurrent hsome
  omega

omit hl hh in
/-- After both exchanges the state is that of two rungs further up. -/
theorem shows_ratcheted {s1 : RatchetState PublicKey SecretKey Key} {d d' : Key} {x : UInt32}
    (hx : x.toNat = tr.count (tr.epoch p-1))
    (skipped : CurrentSkipped S s x s1)
    (hrung : kdfRk S (rootAt S sharedSecret tape (tr.epoch p)) d =
      (rootAt S sharedSecret tape (tr.epoch p+1),chainAt S sharedSecret tape (tr.epoch p+1)))
    (hrung' : kdfRk S (rootAt S sharedSecret tape (tr.epoch p+1)) d' =
      (rootAt S sharedSecret tape (tr.epoch p+2),chainAt S sharedSecret tape (tr.epoch p+2))) :
    Shows S sharedSecret tape (tr.ratchet p) p (sendStep S (recvStep S
      (relabel s1 (tape (tr.epoch p+1)).1) d) (tape (tr.epoch p+2)) d') := by
  obtain ⟨hroot,-,-,-,hsend,-⟩ := skipped.frame
  have hunopened : tr.count (tr.epoch p+2) = 0 :=
    hv.unopened p _ (by have := hv.parity p; omega) (by omega)
  have hepoch := Transcript.ratchet_epoch tr p
  have hroot' : (kdfRk S s1.rootKey d).1 = rootAt S sharedSecret tape (tr.epoch p+1) := by
    rw [hroot, hs.root, hrung]
  constructor
  · rw [hepoch]
    show (kdfRk S (kdfRk S s1.rootKey d).1 d').1 = _
    rw [hroot', hrung']
  · rw [hepoch, if_neg (by omega)]
    show some (kdfRk S (kdfRk S s1.rootKey d).1 d').2 = _
    rw [hroot', hrung']
    show _ = some (chainKey S _ (tr.count (tr.epoch p+2)))
    rw [hunopened]
    rfl
  · rw [hepoch]
    rfl
  · rw [hepoch, if_neg (by omega)]
    rfl
  · rw [hepoch, if_neg (by omega)]
    show some (kdfRk S s1.rootKey d).2 = _
    rw [hroot, hs.root, hrung]
    rfl
  · rw [hepoch]
    exact hunopened.symm
  · rw [Transcript.ratchet_horizon]
    rfl
  · rw [hepoch]
    exact (congrArg UInt32.toNat hsend).trans hs.sendNumber
  · apply (current_caches hv hs hd hn hx skipped).congr
    intro l'
    rw [awaited, awaited, Transcript.ratchet_horizon, hs.recvNumber, overtaken_by_step hv l']
    exact (pending_move (fun r hr => (hv.arrived p r hr).2) (Transcript.not_passed_beyond hv
      (l := ⟨tr.epoch p+1,0⟩) (Nat.le_succ _))).symm

/-- The message is the first seen of a new chain, and not too far up it. -/
theorem select_beyond (hS : HonestLibrary S generated) (hc : l.chain = tr.epoch p+1)
    (hn' : tr.epoch p+2 < n) (hcurrent : s.receivingChainKey.isSome →
      header.previousChainLength.toNat ≤ s.recvMessageNumber.toNat+1000)
    (hcount : ∀ i, tr.count i < 2^32) :
    let r := selectKey S s header (tape (tr.epoch p+2))
    if l.number ≤ 1000 then Follows S sharedSecret tape tr p l r
    else Shows S sharedSecret tape (tr.ratchet p) p r.1 ∧ ∃ e, r.2 = .error e := by
  intro r
  have hnext : tr.epoch p.peer = tr.epoch p+1 := by
    rcases Transcript.sent_by_peer hv hl with ⟨-,hpeer⟩ | hback <;> omega
  obtain ⟨d,hdh,-,hrung⟩ := exchange hS sharedSecret (hd.honest (tr.epoch p) (by omega))
    (hd.honest (tr.epoch p+1) (by omega))
  obtain ⟨d',-,hdh',hrung'⟩ := exchange hS sharedSecret (hd.honest (tr.epoch p+1) (by omega))
    (hd.honest (tr.epoch p+2) hn')
  have hkey := hh.key
  rw [hc] at hkey
  rw [← hkey] at hdh hdh'
  have htakes := reaches_step hv hs hl hh hd hn hc hcurrent
  have hprev := hh.previous
  rw [show l.chain-2 = tr.epoch p-1 by omega] at hprev
  obtain ⟨s1,skipped,hsel⟩ := select_step S htakes hs.pair hdh hdh'
  have hratcheted := shows_ratcheted hv hs hd hn hprev skipped hrung hrung'
  rw [← hkey] at hratcheted
  rw [hh.number] at hsel
  rcases hsel with ⟨hnear,heq⟩ | ⟨hfar,e,heq⟩
  · rw [if_pos hnear, show r = _ from heq]
    have hstep := follows_advanced (Transcript.ratchet_valid hv hnext) hratcheted hl
      ⟨hh.key,hh.number,hh.previous⟩ hd (by rwa [Transcript.ratchet_epoch_peer]) rfl
      (by rw [Transcript.ratchet_epoch, hc]) (by
        rw [Transcript.ratchet_horizon, Label.le_iff]
        simp only
        omega) hcount
    rw [hh.number] at hstep
    rwa [Follows, Transcript.ratchet_receive hv hc] at hstep
  · rw [if_neg (by omega), show r = _ from heq]
    exact ⟨hratcheted,e,rfl⟩

end Receive
end Vaultex.Conversation
