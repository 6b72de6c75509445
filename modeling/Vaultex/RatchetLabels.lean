import Vaultex.RatchetNames

/-!
# Which chain a key belongs to

A header names a chain by a ratchet key and a place in it by a number. While
each ratchet step completes, the names the state goes by are right: the
receiving chain, each cached key and each key used lie on a chain made with
the named key, at the named place, counted as the code counts.
-/

set_option autoImplicit false

namespace Vaultex.DoubleRatchet
variable {PublicKey SecretKey Key : Type} (S : Suite PublicKey SecretKey Key)

/-- `c` begins a chain that one of the keypairs shares with `pk`. -/
def ChainWith (pairs : List (PublicKey × SecretKey)) (pk : PublicKey) (c : Key) : Prop :=
  ∃ pair ∈ pairs, ∃ root d, S.scalarmult pair.2 pk = some d ∧ c = (kdfRk S root d).2

/-- `key` is the message key number `n` of such a chain. -/
def Labelled (pairs : List (PublicKey × SecretKey)) (pk : PublicKey) (n : UInt32)
    (key : Key) : Prop :=
  ∃ c j, ChainWith S pairs pk c ∧ n = UInt32.ofNat j ∧ key = messageKey S c j

variable {S}

theorem ChainWith.mono {pairs pairs' : List (PublicKey × SecretKey)} {pk : PublicKey} {c : Key}
    (h : ChainWith S pairs pk c) (hsub : pairs ⊆ pairs') : ChainWith S pairs' pk c := by
  obtain ⟨pair,hmem,h⟩ := h
  exact ⟨pair,hsub hmem,h⟩

theorem Labelled.mono {pairs pairs' : List (PublicKey × SecretKey)} {pk : PublicKey}
    {n : UInt32} {key : Key} (h : Labelled S pairs pk n key) (hsub : pairs ⊆ pairs') :
    Labelled S pairs' pk n key := by
  obtain ⟨c,j,hc,h⟩ := h
  exact ⟨c,j,hc.mono hsub,h⟩

/-- A counter that counts modulo 2^32 does so from any number on. -/
theorem ofNat_advance {r n : UInt32} {j : ℕ} (hr : r = UInt32.ofNat j)
    (low : r.toNat ≤ n.toNat) : n = UInt32.ofNat (j+(n.toNat-r.toNat)) := by
  have hj : r.toNat = j%2^32 := by rw [hr, UInt32.toNat_ofNat']
  have hn := n.toNat_lt
  apply UInt32.toNat_inj.mp
  rw [UInt32.toNat_ofNat']
  omega

theorem ofNat_succ (j : ℕ) : UInt32.ofNat j+1 = UInt32.ofNat (j+1) :=
  (UInt32.ofNat_add j 1).symm

variable (S)

/-- Numbers count modulo 2^32, in any of the chains shared with a ratchet key. -/
def modular (pairs : List (PublicKey × SecretKey)) : Naming PublicKey Key where
  made := ChainWith S pairs
  current := ChainWith S pairs
  place n j := n = UInt32.ofNat j
  made_of_current := id
  place_add := ofNat_advance

/-- The sending side of a state: its chain is one made with the keypair held. -/
def SendingLabelled (s : RatchetState PublicKey SecretKey Key) : Prop :=
  ∀ ck, s.sendingChainKey = some ck → ∃ pair remote c j, s.sendingKeypair = some pair ∧
    ChainWith S [pair] remote c ∧ ck = chainKey S c j ∧ s.sendMessageNumber = UInt32.ofNat j

variable [DecidableEq PublicKey]

/-- The receiving side of a state, against the keypairs drawn so far. -/
structure ReceivingLabelled (pairs : List (PublicKey × SecretKey))
    (s : RatchetState PublicKey SecretKey Key) : Prop where
  held : ∃ pair ∈ pairs, s.sendingKeypair = some pair
  chain : ∀ ck, s.receivingChainKey = some ck → ∃ pk c j, s.remoteRatchetKey = some pk ∧
    ChainWith S pairs pk c ∧ ck = chainKey S c j ∧ s.recvMessageNumber = UInt32.ofNat j
  cached : ∀ pk n key, s.skippedKeys.lookup (pk,n) = some key → Labelled S pairs pk n key

section Receiving
variable {S} {pairs : List (PublicKey × SecretKey)} {s : RatchetState PublicKey SecretKey Key}

theorem ReceivingLabelled.mono {pairs' : List (PublicKey × SecretKey)}
    (h : ReceivingLabelled S pairs s) (hsub : pairs ⊆ pairs') :
    ReceivingLabelled S pairs' s where
  held := by
    obtain ⟨pair,hmem,hpair⟩ := h.held
    exact ⟨pair,hsub hmem,hpair⟩
  chain ck hck := by
    obtain ⟨pk,c,j,remote,hc,hkey⟩ := h.chain ck hck
    exact ⟨pk,c,j,remote,hc.mono hsub,hkey⟩
  cached pk n key hkey := (h.cached pk n key hkey).mono hsub

theorem ReceivingLabelled.named (h : ReceivingLabelled S pairs s) :
    Named S (modular S pairs) s := ⟨h.chain,h.cached⟩

theorem Named.labelled (h : Named S (modular S pairs) s)
    (held : ∃ pair ∈ pairs, s.sendingKeypair = some pair) : ReceivingLabelled S pairs s :=
  ⟨held,h.chain,h.cached⟩

/-- The key taken out of the chain bears the number asked for. -/
theorem advance_labelled (h : ReceivingLabelled S pairs s) {pk : PublicKey} {ck : Key}
    {n : UInt32} (remote : s.remoteRatchetKey = some pk) (chain : s.receivingChainKey = some ck)
    (low : s.recvMessageNumber.toNat ≤ n.toNat) :
    ReceivingLabelled S pairs (advance S s pk ck n) ∧
    Labelled S pairs pk n (messageKey S ck (n.toNat-s.recvMessageNumber.toNat)) := by
  have hadvance := h.named.advance remote chain low fun j hj => by
    rw [hj]
    exact ofNat_succ j
  exact ⟨hadvance.labelled h.held,h.named.taken remote chain low⟩

theorem current_labelled {s1 : RatchetState PublicKey SecretKey Key} {n : UInt32}
    (h : ReceivingLabelled S pairs s) (hs : CurrentSkipped S s n s1) :
    ReceivingLabelled S pairs s1 := by
  apply (h.named.current_skipped hs).labelled
  rw [hs.pair]
  exact h.held

/-- The first half of a ratchet step, with the key of the new receiving chain. -/
theorem recvStep_labelled (h : ReceivingLabelled S pairs s) {pair : PublicKey × SecretKey}
    {pk : PublicKey} {d : Key} (hpair : s.sendingKeypair = some pair)
    (dh : S.scalarmult pair.2 pk = some d) :
    ReceivingLabelled S pairs (recvStep S (relabel s pk) d) := by
  obtain ⟨pair',hmem,hpair'⟩ := h.held
  obtain rfl : pair' = pair := Option.some.inj (hpair'.symm.trans hpair)
  have hchain : ChainWith S pairs pk (kdfRk S s.rootKey d).2 := ⟨pair',hmem,_,d,dh,rfl⟩
  exact (h.named.recvStep (fun _ _ _ hkey => hkey) hchain rfl).labelled ⟨pair',hmem,hpair⟩

theorem sendStep_labelled (h : ReceivingLabelled S pairs s) {fresh : PublicKey × SecretKey}
    (hmem : fresh ∈ pairs) (d : Key) : ReceivingLabelled S pairs (sendStep S s fresh d) :=
  ⟨⟨fresh,hmem,rfl⟩,h.chain,h.cached⟩

theorem takeOut_labelled (h : ReceivingLabelled S pairs s) (id : PublicKey × UInt32) :
    ReceivingLabelled S pairs (takeOut s id) := (h.named.takeOut id).labelled h.held

theorem first_exchange_of_draws {header : MessageHeader PublicKey}
    (h : drawsKeypair S s header = true) {pk : PublicKey} {sk : SecretKey}
    (pair : s.sendingKeypair = some (pk,sk)) :
    S.scalarmult sk header.ratchetPublicKey ≠ none := by
  simp only [drawsKeypair, Bool.and_eq_true] at h
  obtain ⟨-,hmatch⟩ := h
  rcases skip_current_cases S s header.previousChainLength with ⟨s1,hs1,heq⟩ | ⟨-,-,-,heq⟩
  · have hpair := hs1.pair.trans pair
    simp only [heq, hpair] at hmatch
    exact Option.isSome_iff_ne_none.mp hmatch
  · rw [heq] at hmatch
    contradiction

/-- A call whose ratchet step, if it takes one, gets past the first exchange. -/
theorem select_labelled (h : ReceivingLabelled S pairs s) {header : MessageHeader PublicKey}
    {fresh : PublicKey × SecretKey} {pairs' : List (PublicKey × SecretKey)}
    (hsub : pairs ⊆ pairs') (hfresh : drawsKeypair S s header = true → fresh ∈ pairs')
    (hdraws : takesRatchetStep s header → drawsKeypair S s header = true) :
    ReceivingLabelled S pairs' (selectKey S s header fresh).1 ∧
    ∀ key, (selectKey S s header fresh).2 = .ok key →
      Labelled S pairs' header.ratchetPublicKey header.messageNumber key := by
  replace h := h.mono hsub
  have hs := selection S s header fresh
  generalize selectKey S s header fresh = r at hs
  cases hs with
  | cached hit =>
    refine ⟨takeOut_labelled h _,fun key hkey => ?_⟩
    obtain rfl := Except.ok.inj hkey
    exact h.cached _ _ _ hit
  | rejected => exact ⟨h,by simp⟩
  | inChain miss same chain low high =>
    obtain ⟨hstate,hkey⟩ := advance_labelled h same chain low
    refine ⟨hstate,fun key heq => ?_⟩
    obtain rfl := Except.ok.inj heq
    exact hkey
  | noKeypair e miss need skipped noPair =>
    obtain ⟨pair,-,hpair⟩ := (current_labelled h skipped).held
    rw [hpair] at noPair
    contradiction
  | dhRecvFailed e miss need skipped pair dh =>
    have htakes := hdraws (skipped.takes miss need)
    exact absurd dh (first_exchange_of_draws htakes (skipped.pair.symm.trans pair))
  | dhSendFailed e miss need skipped pair dh dh' =>
    exact ⟨recvStep_labelled (current_labelled h skipped) pair dh,by simp⟩
  | tooFar e miss need skipped pair dh dh' far =>
    have hmem := hfresh (hdraws (skipped.takes miss need))
    have hrecv := recvStep_labelled (current_labelled h skipped) pair dh
    exact ⟨sendStep_labelled hrecv hmem _,by simp⟩
  | ratcheted miss need skipped pair dh dh' near =>
    have hmem := hfresh (hdraws (skipped.takes miss need))
    have hrecv := recvStep_labelled (current_labelled h skipped) pair dh
    obtain ⟨hstate,hkey⟩ := advance_labelled (n := header.messageNumber)
      (sendStep_labelled hrecv hmem _) rfl rfl (Nat.zero_le _)
    refine ⟨hstate,fun key heq => ?_⟩
    obtain rfl := Except.ok.inj heq
    exact hkey

/-- A call whose ratchet step, if it takes one, completes. -/
theorem select_sending (h : SendingLabelled S s) {header : MessageHeader PublicKey}
    {fresh : PublicKey × SecretKey} (hdone : takesRatchetStep s header →
      exchangesSucceed S s header.ratchetPublicKey fresh = true) :
    SendingLabelled S (selectKey S s header fresh).1 := by
  have hs := selection S s header fresh
  generalize selectKey S s header fresh = r at hs
  cases hs with
  | cached | rejected | inChain => exact h
  | noKeypair e miss need skipped noPair =>
    have hok := hdone (skipped.takes miss need)
    rw [skipped.no_keypair noPair] at hok
    contradiction
  | dhRecvFailed e miss need skipped pair dh =>
    have hok := hdone (skipped.takes miss need)
    rw [skipped.exchange_failed pair (Or.inl dh)] at hok
    contradiction
  | dhSendFailed e miss need skipped pair dh dh' =>
    have hok := hdone (skipped.takes miss need)
    rw [skipped.exchange_failed pair (Or.inr dh')] at hok
    contradiction
  | tooFar e miss need skipped pair dh dh' far =>
    intro ck hck
    obtain rfl := Option.some.inj hck
    exact ⟨fresh,_,_,0,rfl,⟨fresh,by simp,_,_,dh',rfl⟩,rfl,rfl⟩
  | ratcheted miss need skipped pair dh dh' near =>
    intro ck hck
    obtain rfl := Option.some.inj hck
    exact ⟨fresh,_,_,0,rfl,⟨fresh,by simp,_,_,dh',rfl⟩,rfl,rfl⟩

end Receiving

/-- Every key of the run against the header it was used under. -/
structure RunLabelled (h : History PublicKey SecretKey Key) : Prop where
  receiving : ReceivingLabelled S h.drawn h.state
  sending : SendingLabelled S h.state
  opened : ∀ e ∈ h.openedLog,
    Labelled S h.drawn e.header.ratchetPublicKey e.header.messageNumber e.key
  sealedUnder : ∀ e ∈ h.sealedLog, ∀ header ciphertext, e.result = .ok (header,ciphertext) →
    ∃ sk remote, (header.ratchetPublicKey,sk) ∈ h.drawn ∧
      Labelled S [(header.ratchetPublicKey,sk)] remote header.messageNumber e.key

/-- A ratchet step, if the call takes one, completes. -/
def stepsComplete (s : RatchetState PublicKey SecretKey Key) :
    Call PublicKey SecretKey → Prop
  | .encrypt .. => True
  | .decrypt header _ _ fresh => takesRatchetStep s header →
    exchangesSucceed S s header.ratchetPublicKey fresh = true

instance (s : RatchetState PublicKey SecretKey Key) :
    ∀ c : Call PublicKey SecretKey, Decidable (stepsComplete S s c)
  | .encrypt .. => isTrue trivial
  | .decrypt .. => inferInstanceAs (Decidable (_ → _))

variable {S} {h : History PublicKey SecretKey Key}

theorem encrypt_labelled (hl : RunLabelled S h) (plaintext ad : List UInt8) (nonce : Nonce) :
    RunLabelled S (record S h (.encrypt plaintext ad nonce)) := by
  cases chain : h.state.sendingChainKey with
  | none =>
    rwa [record_no_chain S chain]
  | some ck =>
    obtain ⟨pair,remote,c,j,hpair,hc,rfl,hj⟩ := hl.sending ck chain
    obtain ⟨pair',hmem,hpair'⟩ := hl.receiving.held
    obtain rfl : pair' = pair := Option.some.inj (hpair'.symm.trans hpair)
    obtain ⟨-,hsend,hrecv,hheld,hremote,hnumber,-,hskip⟩ :=
      encrypt_frame S h.state plaintext ad nonce
    have hcounts := encrypt_counts S chain hpair plaintext ad nonce
    constructor
    · refine ⟨⟨pair',hmem,hheld.trans hpair⟩,?_,?_⟩
      · simp only [record, hrecv, hremote, hnumber]
        exact hl.receiving.chain
      · simp only [record, hskip]
        exact hl.receiving.cached
    · intro ck' hck'
      simp only [record, hsend, chain, Option.map_some, Option.some.injEq] at hck'
      refine ⟨pair',remote,c,j+1,hheld.trans hpair,hc,?_,?_⟩
      · rw [← hck', chainKey_add]
      · rw [← ofNat_succ, ← hj]
        exact hcounts
    · exact hl.opened
    · intro e he header ciphertext hresult
      simp only [record, chain] at he
      rcases List.mem_cons.mp he with rfl | he
      · obtain ⟨ck',sk,-,hown,hno,-⟩ := encrypt_ok S hresult
        obtain rfl : pair' = (header.ratchetPublicKey,sk) :=
          Option.some.inj (hpair.symm.trans hown)
        exact ⟨sk,remote,hmem,c,j,hc,hno.trans hj,messageKey_add S c j 0⟩
      · exact hl.sealedUnder e he header ciphertext hresult

theorem decrypt_labelled (hl : RunLabelled S h) {header : MessageHeader PublicKey}
    {ciphertext ad : List UInt8} {fresh : PublicKey × SecretKey}
    (hdone : stepsComplete S h.state (.decrypt header ciphertext ad fresh)) :
    RunLabelled S (record S h (.decrypt header ciphertext ad fresh)) := by
  have hsub := drawn_subset S h (.decrypt header ciphertext ad fresh)
  have hfresh (hd : drawsKeypair S h.state header = true) :
      fresh ∈ (record S h (.decrypt header ciphertext ad fresh)).drawn := by
    simp only [record, hd, if_true]
    exact List.mem_cons_self
  have hdraws (htakes : takesRatchetStep h.state header) :
      drawsKeypair S h.state header = true := by
    rcases selectKey_sending S h.state header fresh with hno | ⟨-,hfail,-⟩ | ⟨-,-,hd,-⟩
    · exact absurd htakes hno.1
    · rw [hdone htakes] at hfail
      contradiction
    · exact hd
  obtain ⟨hrecv,hkey⟩ := select_labelled hl.receiving hsub hfresh hdraws
  constructor
  · rw [record_decrypt_state]
    exact hrecv
  · rw [record_decrypt_state]
    exact select_sending hl.sending hdone
  · intro e he
    cases hsel : (selectKey S h.state header fresh).2 with
    | error e' =>
      simp only [record, hsel] at he
      exact (hl.opened e he).mono hsub
    | ok key =>
      simp only [record, hsel] at he
      rcases List.mem_cons.mp he with rfl | he
      · exact hkey key hsel
      · exact (hl.opened e he).mono hsub
  · intro e he header' ciphertext' hresult
    obtain ⟨sk,remote,hmem,hlabel⟩ := hl.sealedUnder e he header' ciphertext' hresult
    exact ⟨sk,remote,hsub hmem,hlabel⟩

theorem start_labelled {s : RatchetState PublicKey SecretKey Key} (hs : Started S s) :
    RunLabelled S (start s) := by
  obtain ⟨ss,hs⟩ := hs
  cases hs with
  | @sender remote fresh _ h =>
    obtain ⟨d,dh,rfl⟩ := initSender_ok S h
    refine ⟨⟨⟨fresh,by simp [start],rfl⟩,by simp [start],by simp [start]⟩,?_,
      by simp [start],by simp [start]⟩
    intro ck hck
    obtain rfl := Option.some.inj hck
    exact ⟨fresh,remote,_,0,rfl,⟨fresh,by simp,_,d,dh,rfl⟩,rfl,rfl⟩
  | receiver pair =>
    exact ⟨⟨⟨pair,by simp [start, initReceiver],rfl⟩,by simp [start, initReceiver],
      by simp [start, initReceiver]⟩,by simp [SendingLabelled, start, initReceiver],
      by simp [start],by simp [start]⟩

theorem record_labelled (hl : RunLabelled S h) {c : Call PublicKey SecretKey}
    (hdone : stepsComplete S h.state c) : RunLabelled S (record S h c) := by
  cases c with
  | encrypt plaintext ad nonce => exact encrypt_labelled hl plaintext ad nonce
  | decrypt header ciphertext ad fresh => exact decrypt_labelled hl hdone

end Vaultex.DoubleRatchet
