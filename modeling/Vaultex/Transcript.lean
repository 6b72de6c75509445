import Mathlib.Data.Prod.Lex
import Vaultex.Conversation
import Vaultex.Mailbox

/-!
# What two ratchets are for

The abstract conversation: keypairs and chains are numbered in the order of
the run, chain `i` belonging to keypair `i`, Alice's odd and Bob's even. A
message is known by its chain and its number in it; all a party has to
remember of its peer is which messages it has received, and how far it has come.
-/

set_option autoImplicit false

namespace Vaultex

@[ext] structure Label where
  chain : ℕ
  number : ℕ

instance : LinearOrder Label :=
  LinearOrder.lift' (fun l => toLex (l.chain,l.number)) fun a b h => by
    have hpair : (a.chain,a.number) = (b.chain,b.number) := toLex_inj.mp h
    exact Label.ext (congrArg Prod.fst hpair) (congrArg Prod.snd hpair)

theorem Label.le_iff {a b : Label} :
    a ≤ b ↔ a.chain < b.chain ∨ (a.chain = b.chain ∧ a.number ≤ b.number) :=
  Prod.Lex.toLex_le_toLex

theorem Label.lt_iff {a b : Label} :
    a < b ↔ a.chain < b.chain ∨ (a.chain = b.chain ∧ a.number < b.number) :=
  Prod.Lex.toLex_lt_toLex

instance : SuccOrder Label :=
  SuccOrder.ofSuccLeIff (fun l => ⟨l.chain,l.number+1⟩) fun {a b} => by
    rw [Label.le_iff, Label.lt_iff]
    exact or_congr_right (and_congr_right fun _ => Nat.succ_le_iff)

@[simp] theorem Label.succ_chain (l : Label) : (Order.succ l).chain = l.chain := rfl

@[simp] theorem Label.succ_number (l : Label) : (Order.succ l).number = l.number+1 := rfl

instance : NoMaxOrder Label where
  exists_gt l := ⟨⟨l.chain+1,0⟩,Label.lt_iff.mpr (Or.inl (Nat.lt_succ_self _))⟩

structure Transcript where
  /-- The number of the keypair a party holds. -/
  epoch : Party → ℕ
  /-- How many messages a chain has sealed. -/
  count : ℕ → ℕ
  log : Party → List Label
  received : Party → Finset Label
  /-- The place in the receiving chain: all before it has been passed. -/
  horizon : Party → Label

namespace Transcript
open Mailbox

def parity : Party → ℕ
  | .alice => 1
  | .bob => 0

theorem parity_peer (p : Party) : parity p+parity p.peer = 1 := by cases p <;> rfl

def opening : Transcript where
  epoch := parity
  count _ := 0
  log _ := []
  received _ := ∅
  horizon _ := ⟨0,0⟩

/-- A party with no chain yet cannot send. -/
def send (tr : Transcript) (p : Party) : Transcript :=
  if tr.epoch p = 0 then tr
  else { tr with
    count := Function.update tr.count (tr.epoch p) (tr.count (tr.epoch p)+1)
    log := Function.update tr.log p (tr.log p++[⟨tr.epoch p,tr.count (tr.epoch p)⟩]) }

/-- A message from beyond the receiving chain moves its receiver past it. -/
def receive (tr : Transcript) (p : Party) (l : Label) : Transcript :=
  { tr with
    epoch := Function.update tr.epoch p (max (tr.epoch p) (l.chain+1))
    received := Function.update tr.received p (insert l (tr.received p))
    horizon := Function.update tr.horizon p (max (tr.horizon p) (Order.succ l)) }

/-- A ratchet step without a message: a party comes to the next chain and opens nothing. -/
def ratchet (tr : Transcript) (p : Party) : Transcript :=
  { tr with
    epoch := Function.update tr.epoch p (tr.epoch p+2)
    horizon := Function.update tr.horizon p ⟨tr.epoch p+1,0⟩ }

/-- What the delivery of a label can come to: it is received, or refused, or refused
after the step to its chain. -/
inductive Arrives (tr : Transcript) (p : Party) (l : Label) : Transcript → Prop
  | received : Arrives tr p l (tr.receive p l)
  | refused : Arrives tr p l tr
  | stepped (hnext : l.chain = tr.epoch p+1) : Arrives tr p l (tr.ratchet p)

section Send
variable (tr : Transcript) (p : Party)

theorem send_epoch : (tr.send p).epoch = tr.epoch := by
  by_cases hp : tr.epoch p = 0
  · rw [send, if_pos hp]
  · rw [send, if_neg hp]

theorem send_received : (tr.send p).received = tr.received := by
  by_cases hp : tr.epoch p = 0
  · rw [send, if_pos hp]
  · rw [send, if_neg hp]

theorem send_horizon : (tr.send p).horizon = tr.horizon := by
  by_cases hp : tr.epoch p = 0
  · rw [send, if_pos hp]
  · rw [send, if_neg hp]

theorem send_count_ne {i : ℕ} (hi : i ≠ tr.epoch p) : (tr.send p).count i = tr.count i := by
  by_cases hp : tr.epoch p = 0
  · rw [send, if_pos hp]
  · rw [send, if_neg hp]
    exact Function.update_of_ne hi _ _

theorem send_log_peer : (tr.send p).log p.peer = tr.log p.peer := by
  by_cases hp : tr.epoch p = 0
  · rw [send, if_pos hp]
  · rw [send, if_neg hp]
    exact Function.update_of_ne (Party.peer_ne p) _ _

variable {tr p} (hp : tr.epoch p ≠ 0)
include hp

theorem send_count : (tr.send p).count (tr.epoch p) = tr.count (tr.epoch p)+1 := by
  rw [send, if_neg hp]
  exact Function.update_self ..

theorem send_log :
    (tr.send p).log p = tr.log p++[⟨tr.epoch p,tr.count (tr.epoch p)⟩] := by
  rw [send, if_neg hp]
  exact Function.update_self ..

end Send

section Receive
variable (tr : Transcript) (p : Party) (l : Label)

theorem receive_epoch : (tr.receive p l).epoch p = max (tr.epoch p) (l.chain+1) :=
  Function.update_self ..

theorem receive_received : (tr.receive p l).received p = insert l (tr.received p) :=
  Function.update_self ..

theorem receive_horizon : (tr.receive p l).horizon p = max (tr.horizon p) (Order.succ l) :=
  Function.update_self ..

theorem receive_epoch_peer : (tr.receive p l).epoch p.peer = tr.epoch p.peer :=
  Function.update_of_ne (Party.peer_ne p) _ _

theorem epoch_le_receive (q : Party) : tr.epoch q ≤ (tr.receive p l).epoch q := by
  rcases Party.eq_or_eq_peer p q with rfl | rfl
  · rw [receive_epoch]
    exact le_max_left _ _
  · rw [receive_epoch_peer]

theorem receive_received_peer : (tr.receive p l).received p.peer = tr.received p.peer :=
  Function.update_of_ne (Party.peer_ne p) _ _

theorem receive_horizon_peer : (tr.receive p l).horizon p.peer = tr.horizon p.peer :=
  Function.update_of_ne (Party.peer_ne p) _ _

end Receive

section Ratchet
variable (tr : Transcript) (p : Party)

theorem ratchet_epoch : (tr.ratchet p).epoch p = tr.epoch p+2 := Function.update_self ..

theorem ratchet_horizon : (tr.ratchet p).horizon p = ⟨tr.epoch p+1,0⟩ := Function.update_self ..

theorem ratchet_epoch_peer : (tr.ratchet p).epoch p.peer = tr.epoch p.peer :=
  Function.update_of_ne (Party.peer_ne p) _ _

theorem ratchet_horizon_peer : (tr.ratchet p).horizon p.peer = tr.horizon p.peer :=
  Function.update_of_ne (Party.peer_ne p) _ _

end Ratchet

def arrive (tr : Transcript) (p : Party) : Option Label → Transcript
  | none => tr
  | some l => tr.receive p l

theorem arrive_log (tr : Transcript) (p : Party) (o : Option Label) :
    (tr.arrive p o).log = tr.log := by cases o <;> rfl

def step (tr : Transcript) : Action → Transcript
  | .send p _ _ _ => tr.send p
  | .deliver p number => tr.arrive p (tr.log p.peer)[number]?

def Sent (tr : Transcript) (p : Party) (l : Label) : Prop :=
  l.chain % 2 = parity p ∧ l.number < tr.count l.chain

structure Valid (tr : Transcript) : Prop where
  parity : ∀ p, tr.epoch p % 2 = parity p
  near : ∀ p, tr.epoch p ≤ tr.epoch p.peer+1
  unopened : ∀ p i, i % 2 = Transcript.parity p → tr.epoch p < i → tr.count i = 0
  noChain : tr.count 0 = 0
  level : ∀ p, (tr.horizon p).chain = tr.epoch p-1
  within : ∀ p, (tr.horizon p).number ≤ tr.count (tr.horizon p).chain
  arrived : ∀ p l, l ∈ tr.received p → tr.Sent p.peer l ∧ l < tr.horizon p
  logged : ∀ p l, l ∈ tr.log p ↔ tr.Sent p l
  distinct : ∀ p, (tr.log p).Nodup

theorem opening_valid : opening.Valid where
  parity p := by cases p <;> rfl
  near p := by cases p <;> simp [opening, Transcript.parity, Party.peer]
  unopened _ _ _ _ := rfl
  noChain := rfl
  level p := by cases p <;> rfl
  within _ := le_rfl
  arrived p l h := absurd h (Finset.notMem_empty l)
  logged p l := by simp [opening, Sent]
  distinct _ := List.nodup_nil

section Valid
variable {tr : Transcript} (h : tr.Valid)
include h

theorem sent_chain {p : Party} {l : Label} (hl : tr.Sent p l) :
    1 ≤ l.chain ∧ l.chain ≤ tr.epoch p := by
  obtain ⟨hpar,hlt⟩ := hl
  have h0 := h.noChain
  constructor
  · by_contra hzero
    have hc : l.chain = 0 := by omega
    rw [hc, h0] at hlt
    omega
  · by_contra hlow
    have hc := h.unopened p l.chain hpar (by omega)
    omega

/-- A message of the peer lies on the next chain, or on one already passed to. -/
theorem sent_by_peer {p : Party} {l : Label} (hl : tr.Sent p.peer l) :
    (l.chain = tr.epoch p+1 ∧ tr.epoch p.peer = tr.epoch p+1) ∨ l.chain+1 ≤ tr.epoch p := by
  have hc := sent_chain h hl
  have hnear := h.near p.peer
  rw [Party.peer_peer] at hnear
  have hpar := hl.1
  have hp := h.parity p
  have hsum := parity_peer p
  omega

theorem passed_below {p : Party} {l : Label} (hl : l.chain+1 < tr.epoch p) :
    l < tr.horizon p := by
  have hlevel := h.level p
  rw [Label.lt_iff]
  omega

theorem not_passed_beyond {p : Party} {l : Label} (hl : tr.epoch p ≤ l.chain) :
    tr.horizon p ≤ l := by
  have hlevel := h.level p
  have hwithin := h.within p
  have hzero := h.noChain
  rw [Label.le_iff]
  by_cases hp : tr.epoch p = 0
  · rw [hlevel, hp, hzero] at hwithin
    omega
  · omega

/-- What has been passed lies on a chain the party has come to. -/
theorem passed_chain {p : Party} {l : Label} (hl : l < tr.horizon p) : l.chain+1 ≤ tr.epoch p := by
  by_contra hlow
  exact not_lt_of_ge (not_passed_beyond h (by omega)) hl

/-- The next message of a party is ahead of all its peer has passed. -/
theorem next_not_passed (p : Party) :
    tr.horizon p.peer ≤ ⟨tr.epoch p,tr.count (tr.epoch p)⟩ := by
  have hlevel := h.level p.peer
  have hwithin := h.within p.peer
  have hnear := h.near p.peer
  rw [Party.peer_peer] at hnear
  rw [Label.le_iff]
  simp only
  by_cases hc : (tr.horizon p.peer).chain = tr.epoch p
  · rw [hc] at hwithin
    exact Or.inr ⟨hc,hwithin⟩
  · omega

theorem sent_send {p q : Party} {l : Label} (hp : tr.epoch p ≠ 0) :
    (tr.send p).Sent q l ↔
      tr.Sent q l ∨ (q = p ∧ l = ⟨tr.epoch p,tr.count (tr.epoch p)⟩) := by
  have hpar := h.parity p
  simp only [Sent, send, if_neg hp, Label.ext_iff]
  by_cases hc : l.chain = tr.epoch p
  · rw [hc, Function.update_self]
    constructor
    · rintro ⟨hq,hlt⟩
      have hqp : q = p := by
        rcases Party.eq_or_eq_peer p q with rfl | rfl
        · rfl
        · have hsum := parity_peer p
          omega
      by_cases heq : l.number = tr.count (tr.epoch p)
      · exact Or.inr ⟨hqp,rfl,heq⟩
      · exact Or.inl ⟨hq,by omega⟩
    · rintro (⟨hq,hlt⟩ | ⟨rfl,-,heq⟩)
      · exact ⟨hq,by omega⟩
      · exact ⟨hpar,by omega⟩
  · rw [Function.update_of_ne hc]
    tauto

theorem send_valid (p : Party) : (tr.send p).Valid := by
  by_cases hp : tr.epoch p = 0
  · rwa [send, if_pos hp]
  have hsent := fun q l => sent_send h (q := q) (l := l) hp
  constructor
  · rw [send_epoch]
    exact h.parity
  · rw [send_epoch]
    exact h.near
  · intro q i hi hlt
    rw [send_epoch] at hlt
    rw [send_count_ne]
    · exact h.unopened q i hi hlt
    · rintro rfl
      have hparp := h.parity p
      have hsum := parity_peer p
      rcases Party.eq_or_eq_peer p q with rfl | rfl <;> omega
  · rw [send_count_ne tr p (Ne.symm hp)]
    exact h.noChain
  · rw [send_epoch, send_horizon]
    exact h.level
  · intro q
    rw [send_horizon]
    have hwithin := h.within q
    by_cases hc : (tr.horizon q).chain = tr.epoch p
    · rw [hc] at hwithin ⊢
      rw [send_count hp]
      omega
    · rwa [send_count_ne tr p hc]
  · rw [send_horizon, send_received]
    exact fun q l hl => ⟨(hsent _ _).mpr (Or.inl (h.arrived q l hl).1),(h.arrived q l hl).2⟩
  · intro q l
    rw [hsent q l]
    rcases Party.eq_or_eq_peer p q with rfl | rfl
    · rw [send_log hp, List.mem_append, List.mem_singleton, h.logged]
      tauto
    · rw [send_log_peer, h.logged]
      have hne := Party.peer_ne p
      tauto
  · intro q
    rcases Party.eq_or_eq_peer p q with rfl | rfl
    · rw [send_log hp]
      apply List.nodup_append.mpr
      refine ⟨h.distinct q,List.nodup_singleton _,?_⟩
      rintro l hl _ hm rfl
      rw [List.mem_singleton] at hm
      have hlt := ((h.logged q l).mp hl).2
      rw [hm] at hlt
      exact lt_irrefl _ hlt
    · rw [send_log_peer]
      exact h.distinct _

/-- Where the horizon stands after a message of the peer. -/
theorem receive_level {p : Party} {l : Label} (hl : tr.Sent p.peer l) :
    ((tr.receive p l).horizon p).chain = (tr.receive p l).epoch p-1 ∧
    ((tr.receive p l).horizon p).number ≤ tr.count ((tr.receive p l).horizon p).chain := by
  have hlevel := h.level p
  have hwithin := h.within p
  have hlast := hl.2
  have hchain := (sent_chain h hl).1
  rw [receive_epoch, receive_horizon]
  rcases le_total (tr.horizon p) (Order.succ l) with hle | hle
  · rw [max_eq_right hle, Label.succ_chain, Label.succ_number]
    rw [Label.le_iff, Label.succ_chain, Label.succ_number] at hle
    omega
  · rw [max_eq_left hle]
    rw [Label.le_iff, Label.succ_chain, Label.succ_number] at hle
    omega

theorem receive_valid {p : Party} {l : Label} (hl : tr.Sent p.peer l) : (tr.receive p l).Valid := by
  have hsum := parity_peer p
  have hpp := h.parity p
  have hpar := hl.1
  have hself := receive_epoch tr p l
  have hpeer := receive_epoch_peer tr p l
  have hnear := h.near p
  have hnear' := h.near p.peer
  have hcases := sent_by_peer h hl
  obtain ⟨hlevel,hwithin⟩ := receive_level h hl
  rw [Party.peer_peer] at hnear'
  constructor
  · intro q
    rcases Party.eq_or_eq_peer p q with rfl | rfl
    · omega
    · rw [hpeer]
      exact h.parity _
  · intro q
    rcases Party.eq_or_eq_peer p q with rfl | rfl
    · omega
    · rw [Party.peer_peer]
      omega
  · intro q i hi hlt
    apply h.unopened q i hi
    rcases Party.eq_or_eq_peer p q with rfl | rfl <;> omega
  · exact h.noChain
  · intro q
    rcases Party.eq_or_eq_peer p q with rfl | rfl
    · exact hlevel
    · rw [receive_horizon_peer, hpeer]
      exact h.level _
  · intro q
    rcases Party.eq_or_eq_peer p q with rfl | rfl
    · exact hwithin
    · rw [receive_horizon_peer]
      exact h.within _
  · intro q m hm
    rcases Party.eq_or_eq_peer p q with rfl | rfl
    · rw [receive_received, Finset.mem_insert] at hm
      rw [receive_horizon, lt_max_iff, Order.lt_succ_iff]
      rcases hm with rfl | hm
      · exact ⟨hl,Or.inr le_rfl⟩
      · exact ⟨(h.arrived _ m hm).1,Or.inl (h.arrived _ m hm).2⟩
    · rw [receive_received_peer] at hm
      rw [receive_horizon_peer]
      exact h.arrived _ m hm
  · exact h.logged
  · exact h.distinct

/-- The step that an unopened message of the next chain still brings about. -/
theorem ratchet_valid {p : Party} (hnext : tr.epoch p.peer = tr.epoch p+1) :
    (tr.ratchet p).Valid := by
  have hpp := h.parity p
  have hnear := h.near p
  have hself := ratchet_epoch tr p
  have hpeer := ratchet_epoch_peer tr p
  have hlevel := h.level p
  constructor
  · intro q
    rcases Party.eq_or_eq_peer p q with rfl | rfl
    · omega
    · rw [hpeer]
      exact h.parity _
  · intro q
    rcases Party.eq_or_eq_peer p q with rfl | rfl
    · omega
    · rw [Party.peer_peer]
      omega
  · intro q i hi hlt
    apply h.unopened q i hi
    rcases Party.eq_or_eq_peer p q with rfl | rfl <;> omega
  · exact h.noChain
  · intro q
    rcases Party.eq_or_eq_peer p q with rfl | rfl
    · rw [hself, ratchet_horizon]
      rfl
    · rw [ratchet_horizon_peer, hpeer]
      exact h.level _
  · intro q
    rcases Party.eq_or_eq_peer p q with rfl | rfl
    · rw [ratchet_horizon]
      exact Nat.zero_le _
    · rw [ratchet_horizon_peer]
      exact h.within _
  · intro q m hm
    rcases Party.eq_or_eq_peer p q with rfl | rfl
    · obtain ⟨hsent,hlt⟩ := h.arrived _ m hm
      refine ⟨hsent,hlt.trans ?_⟩
      rw [ratchet_horizon, Label.lt_iff]
      exact Or.inl (by simp only; omega)
    · rw [ratchet_horizon_peer]
      exact h.arrived _ m hm
  · exact h.logged
  · exact h.distinct

/-- Receiving a message a second time changes nothing. -/
theorem receive_again {p : Party} {l : Label} (hl : l ∈ tr.received p) : tr.receive p l = tr := by
  have hlt := (h.arrived p l hl).2
  have hc := passed_chain h hlt
  rw [receive, Finset.insert_eq_of_mem hl, max_eq_left hc, max_eq_left (Order.succ_le_of_lt hlt),
    Function.update_eq_self, Function.update_eq_self, Function.update_eq_self]

/-- A message of the next chain that opens: the step to its chain, and then its receipt. -/
theorem ratchet_receive {p : Party} {l : Label} (hl : l.chain = tr.epoch p+1) :
    (tr.ratchet p).receive p l = tr.receive p l := by
  have hlevel := h.level p
  have hnew : (⟨tr.epoch p+1,0⟩ : Label) ≤ Order.succ l := by
    rw [Label.le_iff, Label.succ_chain, Label.succ_number]
    simp only
    omega
  have hold : tr.horizon p ≤ Order.succ l := by
    rw [Label.le_iff, Label.succ_chain]
    omega
  simp only [receive, ratchet, Function.update_self, Function.update_idem, hl,
    max_eq_right hnew, max_eq_right hold, max_self, max_eq_right (Nat.le_add_right (tr.epoch p) 2)]

end Valid

section Arrives
variable {tr tr' : Transcript} {p : Party} {l : Label} (harr : tr.Arrives p l tr')
include harr

/-- A delivery is nothing to its sender, and leaves what was sent. -/
theorem Arrives.frame : tr'.log = tr.log ∧ tr'.count = tr.count ∧
    tr'.epoch p.peer = tr.epoch p.peer ∧ tr'.received p.peer = tr.received p.peer ∧
    tr'.horizon p.peer = tr.horizon p.peer := by
  cases harr with
  | received =>
    exact ⟨rfl,rfl,receive_epoch_peer tr p l,receive_received_peer tr p l,
      receive_horizon_peer tr p l⟩
  | refused => exact ⟨rfl,rfl,rfl,rfl,rfl⟩
  | stepped hnext => exact ⟨rfl,rfl,ratchet_epoch_peer tr p,rfl,ratchet_horizon_peer tr p⟩

theorem Arrives.epoch_le (q : Party) : tr.epoch q ≤ tr'.epoch q := by
  rcases Party.eq_or_eq_peer p q with rfl | rfl
  · cases harr with
    | received => exact epoch_le_receive tr q l q
    | refused => exact le_rfl
    | stepped hnext =>
      rw [ratchet_epoch]
      exact Nat.le_add_right _ 2
  · exact harr.frame.2.2.1.ge

theorem Arrives.epoch_cases (h : tr.Valid) (hl : tr.Sent p.peer l) :
    tr'.epoch p = tr.epoch p ∨
      (tr'.epoch p = tr.epoch p+2 ∧ tr.epoch p.peer = tr.epoch p+1) := by
  have hcases := sent_by_peer h hl
  cases harr with
  | received =>
    rw [receive_epoch]
    omega
  | refused => exact Or.inl rfl
  | stepped hnext =>
    rw [ratchet_epoch]
    omega

theorem Arrives.mem_received {q : Party} {m : Label} (hm : m ∈ tr'.received q) :
    m ∈ tr.received q ∨ (q = p ∧ m = l) := by
  rcases Party.eq_or_eq_peer p q with rfl | rfl
  · cases harr with
    | received =>
      rw [receive_received, Finset.mem_insert] at hm
      tauto
    | refused | stepped => exact Or.inl hm
  · rw [harr.frame.2.2.2.1] at hm
    exact Or.inl hm

theorem Arrives.valid (h : tr.Valid) (hl : tr.Sent p.peer l) : tr'.Valid := by
  cases harr with
  | received => exact receive_valid h hl
  | refused => exact h
  | stepped hnext =>
    rcases sent_by_peer h hl with ⟨-,hpeer⟩ | hback
    · exact ratchet_valid h hpeer
    · omega

end Arrives

/-- The order of arrival leaves no trace. -/
theorem receive_comm (tr : Transcript) (p : Party) (l l' : Label) :
    (tr.receive p l).receive p l' = (tr.receive p l').receive p l := by
  simp only [receive, Function.update_self, Function.update_idem]
  rw [Finset.insert_comm, max_right_comm, max_right_comm (a := tr.horizon p)]

theorem deliver_comm (tr : Transcript) (p : Party) (k k' : ℕ) :
    (tr.step (.deliver p k)).step (.deliver p k') =
      (tr.step (.deliver p k')).step (.deliver p k) := by
  simp only [step, arrive_log]
  cases (tr.log p.peer)[k]? with
  | none => rfl
  | some l =>
    cases (tr.log p.peer)[k']? with
    | none => rfl
    | some l' => exact receive_comm tr p l l'

end Transcript
end Vaultex
