import Vaultex.RatchetNames
import Vaultex.Symbolic

/-!
# Where the receiving chain stands

The record of a run lists the receiving chains it has derived, newest first.
A state is positioned when its chain is the newest one, under the ratchet key
that one was derived from and advanced as often as the counter says, and every
cached key is where its label says.
-/

set_option autoImplicit false

namespace Vaultex.DoubleRatchet
variable {PublicKey SecretKey Key : Type} (S : Suite PublicKey SecretKey Key)

structure Derivation (PublicKey SecretKey Key : Type) where
  state : RatchetState PublicKey SecretKey Key
  /-- A ratchet key and the initial key of the receiving chain derived from it. -/
  derived : List (PublicKey × Key)

/-- What the first exchange of a ratchet step towards `theirPk` gives. -/
def firstExchange (s : RatchetState PublicKey SecretKey Key) (theirPk : PublicKey) : Option Key :=
  s.sendingKeypair.bind fun pair => S.scalarmult pair.2 theirPk

variable [DecidableEq PublicKey]

/-- The receiving chain a call derives, if it gets that far. -/
def derives (s : RatchetState PublicKey SecretKey Key) :
    Call PublicKey SecretKey → Option (PublicKey × Key)
  | .encrypt .. => none
  | .decrypt header _ _ _ =>
    if takesRatchetStep s header then
      (firstExchange S s header.ratchetPublicKey).map fun d =>
        (header.ratchetPublicKey, (kdfRk S s.rootKey d).2)
    else none

def derive (h : Derivation PublicKey SecretKey Key) (c : Call PublicKey SecretKey) :
    Derivation PublicKey SecretKey Key :=
  ⟨call S h.state c,(derives S h.state c).toList++h.derived⟩

structure Positioned (h : Derivation PublicKey SecretKey Key) : Prop where
  chain : ∀ ck, h.state.receivingChainKey = some ck → ∃ pk c, h.derived.head? = some (pk,c) ∧
    h.state.remoteRatchetKey = some pk ∧ ck = chainKey S c h.state.recvMessageNumber.toNat
  cached : ∀ pk n key, h.state.skippedKeys.lookup (pk,n) = some key →
    ∃ c, (pk,c) ∈ h.derived ∧ key = messageKey S c n.toNat

/-- A ratchet step that would leave a chain behind gets past its first exchange,
and the key taken out of the chain is not number 2^32-1. -/
def keepsPosition (s : RatchetState PublicKey SecretKey Key) : Call PublicKey SecretKey → Prop
  | .encrypt .. => True
  | .decrypt header _ _ _ =>
    (takesRatchetStep s header → s.receivingChainKey.isSome →
      (firstExchange S s header.ratchetPublicKey).isSome) ∧
    (takesFromChain s header → header.messageNumber.toNat+1 < 2^32)

instance (s : RatchetState PublicKey SecretKey Key) :
    ∀ c : Call PublicKey SecretKey, Decidable (keepsPosition S s c)
  | .encrypt .. => isTrue trivial
  | .decrypt .. => inferInstanceAs (Decidable (_ ∧ _))

omit [DecidableEq PublicKey] in
/-- Numbers count up to 2^32, in the chains derived; the newest is in use. -/
def counted (derived : List (PublicKey × Key)) : Naming PublicKey Key where
  made pk c := (pk,c) ∈ derived
  current pk c := derived.head? = some (pk,c)
  place n j := j = n.toNat
  made_of_current := List.mem_of_mem_head?
  place_add hj low := by omega

variable {S} {h : Derivation PublicKey SecretKey Key}

theorem positioned_iff : Positioned S h ↔ Named S (counted h.derived) h.state := by
  constructor
  · intro hp
    constructor
    · intro ck hck
      obtain ⟨pk,c,hc,remote,hkey⟩ := hp.chain ck hck
      exact ⟨pk,c,_,remote,hc,hkey,rfl⟩
    · intro pk n key hkey
      obtain ⟨c,hc,hkey⟩ := hp.cached pk n key hkey
      exact ⟨c,_,hc,rfl,hkey⟩
  · intro hn
    constructor
    · intro ck hck
      obtain ⟨pk,c,j,remote,hc,hkey,rfl⟩ := hn.chain ck hck
      exact ⟨pk,c,hc,remote,hkey⟩
    · intro pk n key hkey
      obtain ⟨c,j,hc,rfl,hkey⟩ := hn.cached pk n key hkey
      exact ⟨c,hc,hkey⟩

omit [DecidableEq PublicKey] in
theorem counted_cons {derived : List (PublicKey × Key)} (entry : PublicKey × Key) (pk : PublicKey)
    (n : UInt32) (key : Key) (hkey : (counted derived).Names S pk n key) :
    (counted (entry::derived)).Names S pk n key := by
  obtain ⟨c,j,hc,hkey⟩ := hkey
  exact ⟨c,j,List.mem_cons_of_mem _ hc,hkey⟩

section Steps
variable {s s1 : RatchetState PublicKey SecretKey Key} {header : MessageHeader PublicKey}
  {ciphertext ad : List UInt8} {fresh : PublicKey × SecretKey} {n : UInt32}

theorem CurrentSkipped.firstExchange_eq (hs : CurrentSkipped S s n s1) {pk : PublicKey}
    {sk : SecretKey} (pair : s1.sendingKeypair = some (pk,sk)) (theirPk : PublicKey) :
    firstExchange S s theirPk = S.scalarmult sk theirPk := by
  rw [firstExchange, ← hs.pair, pair]
  rfl

theorem CurrentSkipped.chain_isSome (hs : CurrentSkipped S s n s1) :
    s1.receivingChainKey.isSome = s.receivingChainKey.isSome := by
  cases hs with
  | nothing => rfl
  | skipped chain =>
    rw [chain, skipTo_receivingChainKey]
    rfl

theorem derives_idle (hno : ¬takesRatchetStep s header) :
    derives S s (.decrypt header ciphertext ad fresh) = none := by
  rw [derives, if_neg hno]

theorem derives_stuck (hnone : firstExchange S s header.ratchetPublicKey = none) :
    derives S s (.decrypt header ciphertext ad fresh) = none := by
  rw [derives, hnone, Option.map_none, ite_self]

/-- The chain a ratchet step derives, in the state it derives it in. -/
theorem derives_step
    (miss : s.skippedKeys.lookup (header.ratchetPublicKey,header.messageNumber) = none)
    (need : needRatchet s header.ratchetPublicKey = true)
    (skipped : CurrentSkipped S s header.previousChainLength s1) {pk : PublicKey} {sk : SecretKey}
    {d : Key} (pair : s1.sendingKeypair = some (pk,sk))
    (dh : S.scalarmult sk header.ratchetPublicKey = some d) :
    derives S s (.decrypt header ciphertext ad fresh) =
      some (header.ratchetPublicKey,(kdfRk S s1.rootKey d).2) := by
  rw [derives, if_pos (skipped.takes miss need), skipped.firstExchange_eq pair, dh,
    skipped.frame.1]
  rfl

end Steps

section Decrypt
variable {header : MessageHeader PublicKey} {ciphertext ad : List UInt8}
  {fresh : PublicKey × SecretKey}

/-- A ratchet step that stops at its first exchange had no chain to mislabel. -/
theorem stuck_named {s1 : RatchetState PublicKey SecretKey Key}
    (hp : Named S (counted h.derived) h.state)
    (hk : keepsPosition S h.state (.decrypt header ciphertext ad fresh))
    (htakes : takesRatchetStep h.state header)
    (skipped : CurrentSkipped S h.state header.previousChainLength s1)
    (hnone : firstExchange S h.state header.ratchetPublicKey = none) :
    Named S (counted ((derives S h.state (.decrypt header ciphertext ad fresh)).toList++h.derived))
      (relabel s1 header.ratchetPublicKey) := by
  rw [derives_stuck hnone]
  refine ⟨fun ck hck => ?_,(hp.current_skipped skipped).cached⟩
  have hchain : h.state.receivingChainKey.isSome := by
    rw [← skipped.chain_isSome, Option.isSome_iff_exists]
    exact ⟨ck,hck⟩
  have hsome := hk.1 htakes hchain
  rw [hnone] at hsome
  contradiction

theorem derived_named {s1 : RatchetState PublicKey SecretKey Key}
    (hp : Named S (counted h.derived) h.state)
    (skipped : CurrentSkipped S h.state header.previousChainLength s1) (d : Key) :
    Named S (counted ((header.ratchetPublicKey,(kdfRk S s1.rootKey d).2)::h.derived))
      (recvStep S (relabel s1 header.ratchetPublicKey) d) :=
  (hp.current_skipped skipped).recvStep (counted_cons _) rfl rfl

/-- A step that keeps its position leaves every name right. -/
theorem decrypt_positioned (hp : Positioned S h)
    (hk : keepsPosition S h.state (.decrypt header ciphertext ad fresh)) :
    Positioned S (derive S h (.decrypt header ciphertext ad fresh)) := by
  rw [positioned_iff] at hp ⊢
  simp only [derive, call, decrypt_state]
  have hs := selection S h.state header fresh
  generalize selectKey S h.state header fresh = r at hs
  cases hs with
  | cached hit =>
    rw [derives_idle fun htakes => Option.some_ne_none _ (hit.symm.trans htakes.1)]
    exact hp.takeOut _
  | rejected e miss early =>
    rw [derives_idle fun htakes => htakes.2.2 early]
    exact hp
  | inChain miss same chain low high =>
    rw [derives_idle fun htakes => (needRatchet_iff _ _).mp htakes.2.1 same]
    apply hp.advance same chain low
    have hfrom : takesFromChain h.state header :=
      takes_from_chain_iff.mpr ⟨miss,same,low,high,by rw [chain]; rfl⟩
    rintro j rfl
    exact (succ_toNat (k := 0) (hk.2 hfrom)).symm
  | noKeypair e miss need skipped noPair =>
    apply stuck_named hp hk (skipped.takes miss need) skipped
    rw [firstExchange, ← skipped.pair, noPair]
    rfl
  | dhRecvFailed e miss need skipped pair dh =>
    apply stuck_named hp hk (skipped.takes miss need) skipped
    rw [skipped.firstExchange_eq pair, dh]
  | dhSendFailed e miss need skipped pair dh dh' =>
    rw [derives_step miss need skipped pair dh]
    exact derived_named hp skipped _
  | tooFar e miss need skipped pair dh dh' far =>
    rw [derives_step miss need skipped pair dh]
    exact (derived_named hp skipped _).sendStep _ _
  | ratcheted miss need skipped pair dh dh' near =>
    rw [derives_step miss need skipped pair dh]
    apply ((derived_named hp skipped _).sendStep fresh _).advance rfl rfl (Nat.zero_le _)
    rintro j rfl
    exact (succ_toNat (k := 0) (by omega)).symm

/-- A ratchet step that fails at its first exchange only renames the chain. -/
theorem stuck_state {s : RatchetState PublicKey SecretKey Key} (htakes : takesRatchetStep s header)
    (hnone : firstExchange S s header.ratchetPublicKey = none) (fresh : PublicKey × SecretKey) :
    ∃ s1, CurrentSkipped S s header.previousChainLength s1 ∧
      (selectKey S s header fresh).1 = relabel s1 header.ratchetPublicKey := by
  have hs := selection S s header fresh
  generalize selectKey S s header fresh = r at hs
  cases hs with
  | cached hit => exact absurd (hit.symm.trans htakes.1) (Option.some_ne_none _)
  | rejected e miss early => exact absurd early htakes.2.2
  | inChain miss same => exact absurd same ((needRatchet_iff _ _).mp htakes.2.1)
  | noKeypair e miss need skipped => exact ⟨_,skipped,rfl⟩
  | dhRecvFailed e miss need skipped => exact ⟨_,skipped,rfl⟩
  | dhSendFailed e miss need skipped pair dh | tooFar e miss need skipped pair dh
  | ratcheted miss need skipped pair dh =>
    rw [skipped.firstExchange_eq pair, dh] at hnone
    contradiction

/-- Where no chain comes back to its beginning, nothing else keeps the names right. -/
theorem keeps_of_positioned (hcycle : ∀ c, chainKey S c (2^32) ≠ c) (hp : Positioned S h)
    (hp' : Positioned S (derive S h (.decrypt header ciphertext ad fresh))) :
    keepsPosition S h.state (.decrypt header ciphertext ad fresh) := by
  obtain ⟨hchain,-⟩ := hp'
  simp only [derive, call, decrypt_state] at hchain
  constructor
  · intro htakes hsome
    rw [Option.isSome_iff_ne_none]
    intro hnone
    obtain ⟨s1,hs1,heq⟩ := stuck_state htakes hnone fresh
    obtain ⟨ck,hck⟩ := Option.isSome_iff_exists.mp (hs1.chain_isSome.trans hsome)
    rw [heq, derives_stuck hnone] at hchain
    obtain ⟨pk,c,hc,hremote,-⟩ := hchain ck hck
    obtain ⟨ck0,hck0⟩ := Option.isSome_iff_exists.mp hsome
    obtain ⟨pk',c',hc',hremote',-⟩ := hp.chain ck0 hck0
    obtain ⟨rfl,-⟩ := Prod.mk.inj (Option.some.inj (hc.symm.trans hc'))
    apply (needRatchet_iff _ _).mp htakes.2.1
    rw [hremote', ← hremote]
    rfl
  · intro hfrom
    by_contra hlast
    have hn := header.messageNumber.toNat_lt
    obtain ⟨ck,hck,hlow,heq⟩ := select_from_chain S hfrom fresh
    have hidle : ¬takesRatchetStep h.state header := fun htakes => by
      have hneed := htakes.2.1
      rw [hfrom.2.1] at hneed
      contradiction
    rw [heq, derives_idle hidle] at hchain
    obtain ⟨pk,c,hc,-,hkey⟩ := hchain _ rfl
    obtain ⟨pk',c',hc',-,rfl⟩ := hp.chain ck hck
    obtain ⟨-,rfl⟩ := Prod.mk.inj (Option.some.inj (hc.symm.trans hc'))
    have hwrap : (header.messageNumber+1).toNat = 0 := by
      simp only [UInt32.toNat_add, UInt32.reduceToNat]
      omega
    have hcount : h.state.recvMessageNumber.toNat+
        ((header.messageNumber-h.state.recvMessageNumber).toNat+1) = 2^32 := by
      rw [UInt32.toNat_sub_of_le _ _ (UInt32.le_iff_toNat_le.mpr hlow)]
      omega
    rw [advance_recvMessageNumber, hwrap, chainKey_add, hcount] at hkey
    exact hcycle c hkey

end Decrypt

theorem encrypt_positioned (hp : Positioned S h) (plaintext ad : List UInt8) (nonce : Nonce) :
    Positioned S (derive S h (.encrypt plaintext ad nonce)) := by
  obtain ⟨-,-,hrecv,-,hremote,hnumber,-,hskipped⟩ := encrypt_frame S h.state plaintext ad nonce
  constructor
  · rw [derive, call, hrecv, hremote, hnumber]
    exact hp.chain
  · rw [derive, call, hskipped]
    exact hp.cached

theorem derive_positioned (hp : Positioned S h) {c : Call PublicKey SecretKey}
    (hk : keepsPosition S h.state c) : Positioned S (derive S h c) := by
  cases c with
  | encrypt plaintext ad nonce => exact encrypt_positioned hp plaintext ad nonce
  | decrypt header ciphertext ad fresh => exact decrypt_positioned hp hk

theorem derive_positioned_iff (hcycle : ∀ c, chainKey S c (2^32) ≠ c) (hp : Positioned S h)
    (c : Call PublicKey SecretKey) : Positioned S (derive S h c) ↔ keepsPosition S h.state c := by
  refine ⟨fun hp' => ?_,derive_positioned hp⟩
  cases c with
  | encrypt => trivial
  | decrypt => exact keeps_of_positioned hcycle hp hp'

theorem started_positioned {s : RatchetState PublicKey SecretKey Key} (hs : Started S s) :
    Positioned S ⟨s,[]⟩ := by
  obtain ⟨sharedSecret,hs⟩ := hs
  cases hs with
  | sender hinit =>
    obtain ⟨d,-,rfl⟩ := initSender_ok S hinit
    exact ⟨by simp,by simp⟩
  | receiver pair => exact ⟨by simp [initReceiver],by simp [initReceiver]⟩

variable (S)

/-- In every state a session can come to, the receiving chain and the cached
keys are where their labels say. -/
def PositionsRight : Prop :=
  ∀ s, Started S s → ∀ calls, Positioned S (Runs.run (derive S) ⟨s,[]⟩ calls)

variable {S}

/-- The record has no part in what a run does. -/
theorem run_derive_state (h : Derivation PublicKey SecretKey Key)
    (calls : List (Call PublicKey SecretKey)) :
    (Runs.run (derive S) h calls).state = Runs.run (call S) h.state calls :=
  Runs.run_map (derive S) (fun _ _ => rfl) h calls

/-- A run whose calls all keep the position has every state in it positioned,
and, unless a chain comes back to its beginning after 2^32 steps, no other has. -/
theorem positioned_of_guarded {s : RatchetState PublicKey SecretKey Key} (hs : Started S s)
    (calls : List (Call PublicKey SecretKey)) :
    (Runs.Guarded (derive S) (fun h => keepsPosition S h.state) ⟨s,[]⟩ calls →
      ∀ pre suf, calls = pre++suf → Positioned S (Runs.run (derive S) ⟨s,[]⟩ pre)) ∧
    ((∀ c, chainKey S c (2^32) ≠ c) →
      (∀ pre suf, calls = pre++suf → Positioned S (Runs.run (derive S) ⟨s,[]⟩ pre)) →
      Runs.Guarded (derive S) (fun h => keepsPosition S h.state) ⟨s,[]⟩ calls) := by
  constructor
  · rintro hg pre suf rfl
    exact Runs.run_invariant (derive S) (I := Positioned S)
      (fun _ _ hp hk => derive_positioned hp hk) (started_positioned hs)
      ((Runs.guarded_append (derive S)).mp hg).1
  · intro hcycle
    exact (Runs.guarded_iff_prefixes (derive S) (B := Positioned S)
      (fun _ c hp => derive_positioned_iff hcycle hp c) (started_positioned hs) calls).mp

/-- The initiator's first message arrives second, after her next one. -/
def sampleCalls : List (Call ℕ ℕ) :=
  [.decrypt ⟨2,0,1⟩ [] [] (3,3),.encrypt [] [] Symbolic.zeroNonce,.decrypt ⟨2,0,0⟩ [] [] (4,4)]

/-- A message of the initiator, and then one under a key of low order. -/
def sampleForged : List (Call ℕ ℕ) :=
  [.decrypt ⟨2,0,0⟩ [] [] (3,3),.decrypt ⟨0,0,5⟩ [] [] (4,4)]

theorem positioned_of_guarded_sample :
    Positioned Symbolic.sample
      (Runs.run (derive Symbolic.sample) ⟨initReceiver (.secret 0) (1,1),[]⟩ sampleCalls) ∧
    ¬∀ pre suf, sampleForged = pre++suf → Positioned Symbolic.sample
      (Runs.run (derive Symbolic.sample) ⟨initReceiver (.secret 0) (1,1),[]⟩ pre) := by
  have hstarted : Started Symbolic.sample (initReceiver (.secret 0) (1,1)) := ⟨_,.receiver _⟩
  constructor
  · exact (positioned_of_guarded hstarted sampleCalls).1 (by decide) sampleCalls [] rfl
  · intro h
    have hguarded := (positioned_of_guarded hstarted sampleForged).2
      (fun c => Symbolic.chainKey_ne_self c (by decide)) h
    exact absurd hguarded (by decide)

/-- The forged message fails, and leaves the initiator's chain under the key of
low order, its first key taken and its number 0. -/
theorem positions_not_right : ¬PositionsRight Symbolic.sample := by
  intro h
  obtain ⟨hchain,-⟩ := h (initReceiver (.secret 0) (1,1)) ⟨_,.receiver _⟩ sampleForged
  obtain ⟨pk,c,hc,hremote,-⟩ := hchain _ rfl
  obtain rfl : 2 = pk := congrArg Prod.fst (Option.some.inj hc)
  exact absurd hremote (by decide)

end Vaultex.DoubleRatchet
