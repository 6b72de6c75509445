import Vaultex.RatchetChecked

/-!
# The counters of a session

The counters stay in range as long as no chain comes to its last number. A
sender comes to it by sending, and an attacker takes a receiver to it with
headers of his own, in order and one at a time.
-/

set_option autoImplicit false

namespace Vaultex.DoubleRatchet
variable {PublicKey SecretKey Key : Type} (S : Suite PublicKey SecretKey Key)

section Runs
open Symbolic
variable [DecidableEq PublicKey]

/-- A session, and how many messages it has encrypted since it last began to
count: at its start, or at the ratchet step it last reached. -/
structure Tally (PublicKey SecretKey Key : Type) where
  state : RatchetState PublicKey SecretKey Key
  sent : ℕ

def count (h : Tally PublicKey SecretKey Key) :
    Call PublicKey SecretKey → Tally PublicKey SecretKey Key
  | .encrypt plaintext ad nonce =>
    ⟨(encrypt S h.state plaintext ad nonce).1,
      if h.state.sendingChainKey.isSome then h.sent+1 else h.sent⟩
  | .decrypt header ciphertext ad fresh =>
    ⟨(decrypt S h.state header ciphertext ad fresh).1,
      if takesRatchetStep h.state header then 0 else h.sent⟩

/-- No chain has 2^32 messages sent on it, and none its last number taken out of it. -/
def keepsRange (h : Tally PublicKey SecretKey Key) : Call PublicKey SecretKey → Prop
  | .encrypt .. => h.state.sendingChainKey.isSome → h.sent+1 < 2^32
  | .decrypt header .. => takesFromChain h.state header → header.messageNumber.toNat+1 < 2^32

/-- The call panics in no checked build and does in a release build what it
does in a checked one. -/
def InRange (s : RatchetState PublicKey SecretKey Key) (c : Call PublicKey SecretKey) : Prop :=
  callChecked S s c = some (call S s c,outcome S s c)

/-- Every call of a run does, in the state the calls before it lead to. -/
def RunInRange (s : RatchetState PublicKey SecretKey Key)
    (calls : List (Call PublicKey SecretKey)) : Prop :=
  ∀ pre c suf, calls = pre++c::suf → InRange S (Runs.run (call S) s pre) c

/-- The `u32` counter is the number of messages sent. -/
structure CountsSent (h : Tally PublicKey SecretKey Key) : Prop where
  keypair : h.state.sendingKeypair.isSome
  sent : h.state.sendMessageNumber.toNat = h.sent

variable {S} {h : Tally PublicKey SecretKey Key}

theorem inRange_iff (hh : CountsSent h) (c : Call PublicKey SecretKey) :
    InRange S h.state c ↔ keepsRange h c := by
  cases c with
  | encrypt plaintext ad nonce =>
    simp only [InRange, callChecked, encryptChecked_eq, hh.keypair, and_true, hh.sent, keepsRange]
    split
    next hfits => exact iff_of_true rfl hfits
    next hfull => exact iff_of_false (by simp) hfull
  | decrypt header ciphertext ad fresh =>
    simp only [InRange, callChecked, decryptChecked_eq, keepsRange]
    split
    next hfits => exact iff_of_true rfl hfits
    next hfull => exact iff_of_false (by simp) hfull

theorem count_counts (hh : CountsSent h) {c : Call PublicKey SecretKey} (hc : keepsRange h c) :
    CountsSent (count S h c) := by
  cases c with
  | encrypt plaintext ad nonce =>
    obtain ⟨-,-,-,hpair,-⟩ := encrypt_frame S h.state plaintext ad nonce
    refine ⟨hpair ▸ hh.keypair,?_⟩
    cases chain : h.state.sendingChainKey with
    | none => simpa [count, chain, encrypt_no_chain S chain] using hh.sent
    | some ck =>
      obtain ⟨pair,hpair⟩ := Option.isSome_iff_exists.mp hh.keypair
      have hroom : h.sent+1 < 2^32 := hc (by rw [chain]; rfl)
      rw [← hh.sent] at hroom
      simp only [count, encrypt_counts S chain hpair, chain, Option.isSome_some, if_true]
      rw [succ_toNat hroom, hh.sent]
  | decrypt header ciphertext ad fresh =>
    have hsending := selectKey_sending S h.state header fresh
    rw [← decrypt_state S h.state header ciphertext ad fresh] at hsending
    rcases hsending with ⟨hidle,hpair,hsend,-⟩ | ⟨htakes,-,hpair,hsend,-⟩ |
      ⟨htakes,-,-,hpair,hsend,-⟩
    · refine ⟨hpair ▸ hh.keypair,?_⟩
      simp only [count, if_neg hidle, hsend, hh.sent]
    · refine ⟨hpair ▸ hh.keypair,?_⟩
      simp only [count, if_pos htakes, hsend]
      rfl
    · refine ⟨Option.isSome_iff_exists.mpr ⟨_,hpair⟩,?_⟩
      simp only [count, if_pos htakes, hsend]
      rfl

omit [DecidableEq PublicKey] in
theorem started_counts {s : RatchetState PublicKey SecretKey Key} (hs : Started S s) :
    CountsSent ⟨s,0⟩ := by
  obtain ⟨sharedSecret,hs⟩ := hs
  cases hs with
  | sender hinit =>
    obtain ⟨d,-,rfl⟩ := initSender_ok S hinit
    exact ⟨rfl,rfl⟩
  | receiver pair => exact ⟨rfl,rfl⟩

/-- Every call of a run stays in range exactly when none asks for the last number
of a chain: an encryption after 2^32-1 others, or a header that bears it. -/
theorem calls_in_range_iff {s : RatchetState PublicKey SecretKey Key} (hs : Started S s)
    (calls : List (Call PublicKey SecretKey)) :
    RunInRange S s calls ↔ Runs.Guarded (count S) keepsRange ⟨s,0⟩ calls := by
  have hcongr : Runs.Guarded (count S) (fun h c => InRange S h.state c) ⟨s,0⟩ calls ↔
      Runs.Guarded (count S) keepsRange ⟨s,0⟩ calls :=
    Runs.guarded_congr (count S) (I := CountsSent) (fun _ c hh => inRange_iff hh c)
      (fun _ _ hh hc => count_counts hh hc) (started_counts hs) calls
  have hstate (pre : List (Call PublicKey SecretKey)) :
      (Runs.run (count S) ⟨s,0⟩ pre).state = Runs.run (call S) s pre :=
    Runs.run_map (count S) (f := Tally.state) (fun _ c => by cases c <;> rfl) ⟨s,0⟩ pre
  rw [← hcongr, Runs.guarded_iff_forall]
  simp only [hstate]
  rfl

/-- Alice sends, takes Bob's answer, and sends on. -/
theorem calls_in_range_answered : RunInRange sample sampleAlice
    [.encrypt [] [] zeroNonce, .decrypt ⟨3,0,0⟩ [] [] (4,4), .encrypt [] [] zeroNonce] := by
  refine (calls_in_range_iff ⟨_,.sender sample_starts⟩ _).mpr ⟨?_,?_,?_,trivial⟩
  · exact fun _ => (by decide : 0+1 < 2^32)
  · exact fun _ => (by decide : (0 : UInt32).toNat+1 < 2^32)
  · exact fun _ => (by decide : 0+1 < 2^32)

variable (S) in
/-- No call panics, whatever calls came before. -/
def CountersInRange : Prop := ∀ s, Reachable S s → ∀ c, InRange S s c

/-- Sending without an answer counts on. -/
theorem run_sends {s : RatchetState PublicKey SecretKey Key} (hchain : s.sendingChainKey.isSome)
    (hpair : s.sendingKeypair.isSome) {n : ℕ} (hn : s.sendMessageNumber.toNat+n < 2^32)
    (plaintext ad : List UInt8) (nonce : Nonce) :
    let s' := Runs.run (call S) s (List.replicate n (.encrypt plaintext ad nonce))
    s'.sendingChainKey.isSome ∧ s'.sendingKeypair.isSome ∧
      s'.sendMessageNumber.toNat = s.sendMessageNumber.toNat+n := by
  induction n generalizing s with
  | zero => exact ⟨hchain,hpair,rfl⟩
  | succ n ih =>
    obtain ⟨ck,hck⟩ := Option.isSome_iff_exists.mp hchain
    obtain ⟨pair,hkp⟩ := Option.isSome_iff_exists.mp hpair
    obtain ⟨-,hchain',-,hpair',-⟩ := encrypt_frame S s plaintext ad nonce
    have hnext := encrypt_counts S hck hkp plaintext ad nonce
    have hsucc := succ_toNat hn
    rw [← hnext] at hsucc
    obtain ⟨hc,hp,hs⟩ := @ih (encrypt S s plaintext ad nonce).1 (by rw [hchain', hck]; rfl)
      (by rw [hpair', hkp]; rfl) (by omega)
    exact ⟨hc,hp,by rw [List.replicate_succ, Runs.run, call, hs, hsucc]; omega⟩

variable (S) in
theorem encrypt_panics {s : RatchetState PublicKey SecretKey Key}
    (hchain : s.sendingChainKey.isSome) (hpair : s.sendingKeypair.isSome)
    (hlast : s.sendMessageNumber.toNat+1 = 2^32) (plaintext ad : List UInt8) (nonce : Nonce) :
    callChecked S s (.encrypt plaintext ad nonce) = none := by
  rw [callChecked, encryptChecked_eq, if_neg, Option.map_none]
  intro h
  have hroom := h ⟨hchain,hpair⟩
  omega

variable (S) in
theorem decrypt_panics {s : RatchetState PublicKey SecretKey Key} {header : MessageHeader PublicKey}
    (hfrom : takesFromChain s header) (hlast : header.messageNumber.toNat+1 = 2^32)
    (ciphertext ad : List UInt8) (fresh : PublicKey × SecretKey) :
    callChecked S s (.decrypt header ciphertext ad fresh) = none := by
  rw [callChecked, decryptChecked_eq, if_neg, Option.map_none]
  intro h
  have hroom := h hfrom
  omega

/-- A session that has just taken message `n` from the chain of `pk` and skipped none. -/
structure Caught (s : RatchetState PublicKey SecretKey Key) (pk : PublicKey) (n : ℕ) : Prop where
  remote : s.remoteRatchetKey = some pk
  chain : s.receivingChainKey.isSome
  next : s.recvMessageNumber.toNat = n+1
  skipped : s.skippedKeys = ∅

theorem takes_next {s : RatchetState PublicKey SecretKey Key} {pk : PublicKey} {n : ℕ}
    (h : Caught s pk n) (hn : n+1 < 2^32) (previous : UInt32) :
    takesFromChain s ⟨pk,previous,UInt32.ofNat (n+1)⟩ := by
  have hnumber : (UInt32.ofNat (n+1)).toNat = n+1 := UInt32.toNat_ofNat_of_lt' hn
  refine takes_from_chain_iff.mpr ⟨?_,h.remote,?_,?_,h.chain⟩
  · rw [h.skipped, Finmap.lookup_empty]
  · simp only [hnumber, h.next, le_refl]
  · simp only [hnumber, h.next]
    omega

theorem catches_next {s : RatchetState PublicKey SecretKey Key} {pk : PublicKey} {n : ℕ}
    (h : Caught s pk n) (hn : n+2 < 2^32) (previous : UInt32) (ciphertext ad : List UInt8)
    (fresh : PublicKey × SecretKey) :
    Caught (call S s (.decrypt ⟨pk,previous,UInt32.ofNat (n+1)⟩ ciphertext ad fresh)) pk (n+1) := by
  have hnumber : (UInt32.ofNat (n+1)).toNat = n+1 :=
    UInt32.toNat_ofNat_of_lt' (Nat.lt_of_succ_lt hn)
  have hsame : UInt32.ofNat (n+1) = s.recvMessageNumber :=
    UInt32.toNat_inj.mp (hnumber.trans h.next.symm)
  obtain ⟨ck,-,-,hsel⟩ := select_from_chain S (takes_next h (by omega) previous) fresh
  rw [call, decrypt_state, hsel]
  constructor
  · exact h.remote
  · rfl
  · have hsucc : (UInt32.ofNat (n+1)+1).toNat = (UInt32.ofNat (n+1)).toNat+1 :=
      succ_toNat (k := 0) (by omega)
    rw [advance_recvMessageNumber, hsucc, hnumber]
  · simp only [advance, skipTo, hsame, UInt32.sub_self, UInt32.toNat_zero, cacheSkipped, h.skipped]

end Runs

section Overflow
open Symbolic

def unanswered (n : ℕ) : List (Call ℕ ℕ) := List.replicate n (.encrypt [] [] zeroNonce)

/-- Headers under the ratchet key 2, numbered from 0, none of them skipping a message. -/
def forgeries (n : ℕ) : List (Call ℕ ℕ) :=
  (List.range n).map fun i => .decrypt ⟨2,0,UInt32.ofNat i⟩ [] [] (3,3)

theorem run_forgeries {n : ℕ} (hn : n+1 < 2^32) :
    Caught (Runs.run (call sample) (initReceiver (.secret 0) (1,1)) (forgeries (n+1))) 2 n := by
  induction n with
  | zero => exact ⟨rfl,rfl,rfl,rfl⟩
  | succ n ih =>
    rw [forgeries, List.range_succ, List.map_append, Runs.run_append]
    exact catches_next (ih (Nat.lt_of_succ_lt hn)) hn 0 [] [] (3,3)

/-- A sender without an answer comes to its last number, and an attacker can
count a receiver up to it; the next call overflows. -/
theorem counters_overflow :
    callChecked sample (Runs.run (call sample) sampleAlice (unanswered 4294967295))
      (.encrypt [] [] zeroNonce) = none ∧
    callChecked sample (Runs.run (call sample) (initReceiver (.secret 0) (1,1))
      (forgeries 4294967295)) (.decrypt ⟨2,0,4294967295⟩ [] [] (3,3)) = none ∧
    ¬CountersInRange sample := by
  have hreach : Reachable sample (Runs.run (call sample) sampleAlice (unanswered 4294967295)) :=
    ⟨sampleAlice,⟨_,.sender sample_starts⟩,_,rfl⟩
  obtain ⟨hchain,hpair,hsent⟩ := @run_sends _ _ _ sample _ sampleAlice rfl rfl 4294967295
    (by decide) [] [] zeroNonce
  rw [← unanswered] at hchain hpair hsent
  have hsends := encrypt_panics sample hchain hpair (congrArg (·+1) hsent) [] [] zeroNonce
  have hcaught : Caught (Runs.run (call sample) (initReceiver (.secret 0) (1,1))
      (forgeries 4294967295)) 2 4294967294 := run_forgeries (by decide)
  have hforged := decrypt_panics sample (takes_next hcaught (by decide) 0) (by decide) [] [] (3,3)
  refine ⟨hsends,hforged,fun h => ?_⟩
  have hrange : InRange sample _ (.encrypt [] [] zeroNonce) := h _ hreach _
  exact Option.some_ne_none _ (hrange.symm.trans hsends)

end Overflow
end Vaultex.DoubleRatchet
