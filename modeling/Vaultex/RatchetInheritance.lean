import Vaultex.RatchetRun

/-!
# What keys inherit

All keys of a party are computed from those it starts with and from exchanges
of keypairs it has drawn. A property that the KDFs pass on, given the exchanges
that go into them, is one of every key of every later state; cached keys from
before may be exempt.
-/

set_option autoImplicit false

namespace Vaultex.DoubleRatchet
variable {PublicKey SecretKey Key : Type} (S : Suite PublicKey SecretKey Key)

/-- `P` passes from keys to the keys computed from them, with exchanges in `D`. -/
structure Inherited (P D : Key → Prop) : Prop where
  hmac {ck : Key} (h : P ck) (data : List UInt8) : P (S.hmac ck data)
  root {rk d : Key} (h : P rk) (hd : D d) : P (kdfRk S rk d).1
  chain {rk d : Key} (h : P rk) (hd : D d) : P (kdfRk S rk d).2

/-- What the drawn keypairs exchange with anyone. -/
def Exchanging (D : Key → Prop) (drawn : List (PublicKey × SecretKey)) : Prop :=
  ∀ pair ∈ drawn, ∀ pk d, S.scalarmult pair.2 pk = some d → D d

variable {S} {P D old : Key → Prop}

theorem Inherited.chainKey (hP : Inherited S P D) {ck : Key} (h : P ck) (n : ℕ) :
    P (chainKey S ck n) := by
  induction n with
  | zero => exact h
  | succ n ih => exact hP.hmac ih CHAIN_KEY_SEED

theorem Inherited.messageKey (hP : Inherited S P D) {ck : Key} (h : P ck) (n : ℕ) :
    P (messageKey S ck n) := hP.hmac (hP.chainKey h n) MSG_KEY_SEED

variable [DecidableEq PublicKey]

/-- The keys of a state have the property, or are exempt in the cache. -/
structure AllKeys (P old : Key → Prop) (s : RatchetState PublicKey SecretKey Key) : Prop where
  root : P s.rootKey
  sending : ∀ ck, s.sendingChainKey = some ck → P ck
  receiving : ∀ ck, s.receivingChainKey = some ck → P ck
  cached : ∀ id key, s.skippedKeys.lookup id = some key → P key ∨ old key

section Calls
variable {s : RatchetState PublicKey SecretKey Key} {header : MessageHeader PublicKey}
  {fresh : PublicKey × SecretKey}

theorem cacheSkipped_all (hP : Inherited S P D) (pk : PublicKey) (count : ℕ) (n : UInt32) {ck : Key}
    (hck : P ck) {m : Finmap fun _ : PublicKey × UInt32 => Key}
    (hm : ∀ id key, m.lookup id = some key → P key ∨ old key) :
    ∀ id key, (cacheSkipped S pk count n ck m).2.lookup id = some key → P key ∨ old key := by
  induction count generalizing n ck m with
  | zero => exact hm
  | succ count ih =>
    apply ih (n+1) (hP.hmac hck CHAIN_KEY_SEED)
    intro id key hkey
    by_cases hid : id = (pk,n)
    · subst hid
      rw [Finmap.lookup_insert] at hkey
      obtain rfl := Option.some.inj hkey
      exact Or.inl (hP.hmac hck MSG_KEY_SEED)
    · rw [Finmap.lookup_insert_of_ne _ hid] at hkey
      exact hm id key hkey

theorem AllKeys.takeOut (h : AllKeys P old s) (id : PublicKey × UInt32) :
    AllKeys P old (takeOut s id) := by
  refine ⟨h.root,h.sending,h.receiving,fun id' key hkey => h.cached id' key ?_⟩
  rw [takeOut_skippedKeys] at hkey
  by_cases hid : id' = id
  · rw [hid, Finmap.lookup_erase] at hkey
    contradiction
  · rwa [Finmap.lookup_erase_ne hid] at hkey

theorem AllKeys.current (hP : Inherited S P D) (h : AllKeys P old s)
    {s1 : RatchetState PublicKey SecretKey Key} {n : UInt32} (hs : CurrentSkipped S s n s1) :
    AllKeys P old s1 := by
  cases hs with
  | nothing => exact h
  | skipped chain remote low high =>
    have hck := h.receiving _ chain
    refine ⟨h.root,h.sending,fun ck hck' => ?_,cacheSkipped_all hP _ _ _ hck h.cached⟩
    obtain rfl := Option.some.inj hck'
    exact hP.chainKey hck _

theorem AllKeys.advance (hP : Inherited S P D) (h : AllKeys P old s) {ck : Key}
    (chain : s.receivingChainKey = some ck) (pk : PublicKey) (n : UInt32) :
    AllKeys P old (advance S s pk ck n) := by
  have hck := h.receiving ck chain
  refine ⟨h.root,h.sending,fun ck' hck' => ?_,cacheSkipped_all hP _ _ _ hck h.cached⟩
  obtain rfl := Option.some.inj hck'
  exact hP.chainKey hck _

theorem AllKeys.recvStep (hP : Inherited S P D) (h : AllKeys P old s) {d : Key} (hd : D d)
    (pk : PublicKey) : AllKeys P old (recvStep S (relabel s pk) d) := by
  refine ⟨hP.root h.root hd,h.sending,fun ck hck => ?_,h.cached⟩
  obtain rfl := Option.some.inj hck
  exact hP.chain h.root hd

theorem AllKeys.sendStep (hP : Inherited S P D) (h : AllKeys P old s) {d : Key} (hd : D d)
    (fresh : PublicKey × SecretKey) : AllKeys P old (sendStep S s fresh d) := by
  refine ⟨hP.root h.root hd,fun ck hck => ?_,h.receiving,h.cached⟩
  obtain rfl := Option.some.inj hck
  exact hP.chain h.root hd

/-- Every call, wherever it stops, passes the property on. -/
theorem select_all (hP : Inherited S P D) (h : AllKeys P old s)
    (hown : ∀ pair ∈ s.sendingKeypair, ∀ d,
      S.scalarmult pair.2 header.ratchetPublicKey = some d → D d)
    (hfresh : drawsKeypair S s header = true → ∀ d,
      S.scalarmult fresh.2 header.ratchetPublicKey = some d → D d) :
    AllKeys P old (selectKey S s header fresh).1 := by
  have hs := selection S s header fresh
  generalize selectKey S s header fresh = r at hs
  cases hs with
  | cached hit => exact h.takeOut _
  | rejected e miss early => exact h
  | inChain miss same chain low high => exact h.advance hP chain _ _
  | noKeypair e miss need skipped noPair =>
    have hall := h.current hP skipped
    exact ⟨hall.root,hall.sending,hall.receiving,hall.cached⟩
  | dhRecvFailed e miss need skipped pair dh =>
    have hall := h.current hP skipped
    exact ⟨hall.root,hall.sending,hall.receiving,hall.cached⟩
  | dhSendFailed e miss need skipped pair dh dh' =>
    exact (h.current hP skipped).recvStep hP (hown _ (skipped.pair.symm.trans pair) _ dh) _
  | tooFar e miss need skipped pair dh dh' far =>
    have hpair := skipped.pair.symm.trans pair
    have hdraws := draws_of_first_exchange S (skipped.takes miss need) hpair dh
    exact ((h.current hP skipped).recvStep hP (hown _ hpair _ dh) _).sendStep hP
      (hfresh hdraws _ dh') _
  | ratcheted miss need skipped pair dh dh' near =>
    have hpair := skipped.pair.symm.trans pair
    have hdraws := draws_of_first_exchange S (skipped.takes miss need) hpair dh
    exact (((h.current hP skipped).recvStep hP (hown _ hpair _ dh) _).sendStep hP
      (hfresh hdraws _ dh') _).advance hP rfl _ _

/-- And so does the key it selects. -/
theorem selected_all (hP : Inherited S P D) (h : AllKeys P old s)
    (hown : ∀ pair ∈ s.sendingKeypair, ∀ d,
      S.scalarmult pair.2 header.ratchetPublicKey = some d → D d) {key : Key}
    (hkey : (selectKey S s header fresh).2 = .ok key) : P key ∨ old key := by
  have hs := selection S s header fresh
  generalize selectKey S s header fresh = r at hs hkey
  cases hs with
  | cached hit =>
    obtain rfl := Except.ok.inj hkey
    exact h.cached _ _ hit
  | inChain miss same chain low high =>
    obtain rfl := Except.ok.inj hkey
    exact Or.inl (hP.messageKey (h.receiving _ chain) _)
  | ratcheted miss need skipped pair dh dh' near =>
    obtain rfl := Except.ok.inj hkey
    have hroot := (h.current hP skipped).root
    have hd := hown _ (skipped.pair.symm.trans pair) _ dh
    exact Or.inl (hP.messageKey (hP.chain hroot hd) _)
  | rejected | noKeypair | dhRecvFailed | dhSendFailed | tooFar => contradiction

end Calls

section Runs
variable {h : History PublicKey SecretKey Key}

/-- The keypair a party holds is one it has drawn. -/
def HoldsDrawn (h : History PublicKey SecretKey Key) : Prop :=
  ∀ pair ∈ h.state.sendingKeypair, pair ∈ h.drawn

theorem record_holds (hd : HoldsDrawn h) (c : Call PublicKey SecretKey) :
    HoldsDrawn (record S h c) := by
  cases c with
  | encrypt plaintext ad nonce =>
    intro pair hpair
    obtain ⟨-,-,-,hkeep,-⟩ := encrypt_frame S h.state plaintext ad nonce
    exact hd pair (hkeep.symm.trans hpair)
  | decrypt header ciphertext ad fresh =>
    intro pair hpair
    rw [record_decrypt_state] at hpair
    rcases selectKey_sending S h.state header fresh with
      ⟨-,hkeep,-⟩ | ⟨-,-,hkeep,-⟩ | ⟨-,-,hdraws,hnew,-⟩
    · exact drawn_subset S h _ (hd pair (hkeep.symm.trans hpair))
    · exact drawn_subset S h _ (hd pair (hkeep.symm.trans hpair))
    · obtain rfl := Option.some.inj (hnew.symm.trans hpair)
      simp only [record, hdraws, if_true]
      exact List.mem_cons_self

theorem run_drawn_subset (h : History PublicKey SecretKey Key)
    (calls : List (Call PublicKey SecretKey)) :
    h.drawn ⊆ (Runs.run (record S) h calls).drawn := by
  induction calls generalizing h with
  | nil => exact List.Subset.refl _
  | cons c calls ih => exact List.Subset.trans (drawn_subset S h c) (ih _)

/-- The state's keys, and those used for sealing since the log was `log0`. -/
structure AllSince (P old : Key → Prop) (log0 : List (Sealed PublicKey Key))
    (h : History PublicKey SecretKey Key) : Prop where
  state : AllKeys P old h.state
  sealed : ∃ new, h.sealedLog = new++log0 ∧ ∀ e ∈ new, P e.key

variable {log0 : List (Sealed PublicKey Key)}

theorem encrypt_all (hP : Inherited S P D) (ha : AllSince P old log0 h)
    (plaintext ad : List UInt8) (nonce : Nonce) :
    AllSince P old log0 (record S h (.encrypt plaintext ad nonce)) := by
  cases chain : h.state.sendingChainKey with
  | none => rwa [record_no_chain S chain]
  | some ck =>
    have hck := ha.state.sending ck chain
    obtain ⟨hroot,hsend,hrecv,-,-,-,-,hskip⟩ := encrypt_frame S h.state plaintext ad nonce
    constructor
    · constructor
      · exact hroot ▸ ha.state.root
      · intro ck' hck'
        have hnext := hsend.symm.trans hck'
        rw [chain, Option.map_some] at hnext
        obtain rfl := Option.some.inj hnext
        exact hP.chainKey hck 1
      · intro ck' hck'
        exact ha.state.receiving ck' (hrecv.symm.trans hck')
      · intro id key hkey
        simp only [record, hskip] at hkey
        exact ha.state.cached id key hkey
    · obtain ⟨new,hlog,hnew⟩ := ha.sealed
      simp only [record, chain, hlog]
      refine ⟨_::new,rfl,fun e he => ?_⟩
      rcases List.mem_cons.mp he with rfl | he
      · exact hP.messageKey hck 0
      · exact hnew e he

theorem record_all (hP : Inherited S P D) (hd : HoldsDrawn h) (ha : AllSince P old log0 h)
    (c : Call PublicKey SecretKey) (hD : Exchanging S D (record S h c).drawn) :
    AllSince P old log0 (record S h c) := by
  cases c with
  | encrypt plaintext ad nonce => exact encrypt_all hP ha plaintext ad nonce
  | decrypt header ciphertext ad fresh =>
    refine ⟨?_,ha.sealed⟩
    rw [record_decrypt_state]
    apply select_all hP ha.state
    · intro pair hpair d hdh
      exact hD pair (drawn_subset S h _ (hd pair hpair)) _ d hdh
    · intro hdraws d hdh
      refine hD fresh ?_ _ d hdh
      simp only [record, hdraws, if_true]
      exact List.mem_cons_self

/-- Over a whole run, given what the keypairs drawn in it exchange. -/
theorem run_all (hP : Inherited S P D) (hd : HoldsDrawn h) (ha : AllSince P old log0 h)
    (calls : List (Call PublicKey SecretKey))
    (hD : Exchanging S D (Runs.run (record S) h calls).drawn) :
    AllSince P old log0 (Runs.run (record S) h calls) := by
  induction calls generalizing h with
  | nil => exact ha
  | cons c calls ih =>
    have hD' : Exchanging S D (record S h c).drawn := fun pair hpair =>
      hD pair (run_drawn_subset (record S h c) calls hpair)
    exact ih (record_holds hd c) (record_all hP hd ha c hD') hD

omit [DecidableEq PublicKey] in
theorem start_holds (s : RatchetState PublicKey SecretKey Key) : HoldsDrawn (start s) :=
  fun _ hpair => Option.mem_toList.mpr hpair

theorem run_holds (hd : HoldsDrawn h) (calls : List (Call PublicKey SecretKey)) :
    HoldsDrawn (Runs.run (record S) h calls) :=
  Runs.run_invariant' (record S) (I := HoldsDrawn) (fun _ c h => record_holds h c) hd calls

/-- A fresh session inherits from its secret and its first exchange. -/
theorem start_all (hP : Inherited S P D) {sharedSecret : Key} (hsecret : P sharedSecret)
    {s : RatchetState PublicKey SecretKey Key} (hs : StartedWith S sharedSecret s)
    (hD : Exchanging S D (start s).drawn) : AllSince P (fun _ => False) [] (start s) := by
  refine ⟨?_,[],rfl,fun e he => absurd he List.not_mem_nil⟩
  cases hs with
  | @sender remote fresh _ hs =>
    obtain ⟨d,hdh,rfl⟩ := initSender_ok S hs
    have hd : D d := hD fresh List.mem_cons_self remote d hdh
    constructor
    · exact hP.root hsecret hd
    · intro ck hck
      obtain rfl := Option.some.inj hck
      exact hP.chain hsecret hd
    · intro ck hck
      contradiction
    · intro id key hkey
      contradiction
  | receiver pair =>
    constructor
    · exact hsecret
    · intro ck hck
      contradiction
    · intro ck hck
      contradiction
    · intro id key hkey
      contradiction

end Runs
end Vaultex.DoubleRatchet
