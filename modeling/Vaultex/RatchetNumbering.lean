import Vaultex.Symbolic

/-!
# The numbers in a sender's headers

A header counts the messages made under its ratchet key and under the key
held before. The ratchet step resets the counters before the exponentiations
that can fail, so a failed step leaves the old key with a new count; without
such a step, and short of 2^32 messages under one key, the counts are right.
-/

set_option autoImplicit false

namespace Vaultex.DoubleRatchet
variable {PublicKey SecretKey Key : Type} (S : Suite PublicKey SecretKey Key)
variable [DecidableEq PublicKey]

/-- The headers the run's encryptions returned, newest first. -/
def headers (h : History PublicKey SecretKey Key) : List (MessageHeader PublicKey) :=
  h.sealedLog.filterMap fun e =>
    match e.result with
    | .ok (header, _) => some header
    | .error _ => none

def madeUnder (h : History PublicKey SecretKey Key) (pk : PublicKey) : ℕ :=
  (headers h).countP fun header => header.ratchetPublicKey = pk

/-- The number made under the keypair held immediately before the current one. -/
def madeBefore (h : History PublicKey SecretKey Key) : List PublicKey → ℕ
  | _::previous::_ => madeUnder h previous
  | _ => 0

/-- The next encryption numbers its message truthfully. -/
def NextTruthful (h : History PublicKey SecretKey Key) : Prop :=
  ∀ plaintext ad nonce s header output,
    encrypt S h.state plaintext ad nonce = (s, .ok (header,output)) →
    header.messageNumber.toNat = madeUnder h header.ratchetPublicKey ∧
    header.previousChainLength.toNat = madeBefore h h.held ∧
    ∀ earlier ∈ headers h, (earlier.ratchetPublicKey,earlier.messageNumber) ≠
      (header.ratchetPublicKey,header.messageNumber)

/-- Every encryption of every run with fresh keypairs is truthful. -/
def TruthfulNumbering : Prop :=
  ∀ s, Started S s → ∀ calls, Runs.Guarded (record S) (drawsFresh S) (start s) calls →
    NextTruthful S (Runs.run (record S) (start s) calls)

/-- A ratchet step completes, or finds both counters at zero; an encryption is
not the last that fits the counter. -/
def numberingSafe (s : RatchetState PublicKey SecretKey Key) :
    Call PublicKey SecretKey → Prop
  | .encrypt .. => s.sendMessageNumber.toNat+1 < 2^32
  | .decrypt header _ _ fresh => takesRatchetStep s header →
    exchangesSucceed S s header.ratchetPublicKey fresh = true ∨
      (s.sendMessageNumber = 0 ∧ s.previousChainLength = 0)

instance (s : RatchetState PublicKey SecretKey Key) :
    ∀ c : Call PublicKey SecretKey, Decidable (numberingSafe S s c)
  | .encrypt .. => inferInstanceAs (Decidable (_ < _))
  | .decrypt .. => inferInstanceAs (Decidable (_ → _))

/-- The counters of the state against the record of the run. -/
structure Counted (h : History PublicKey SecretKey Key) : Prop where
  current : ∃ pk sk rest, h.state.sendingKeypair = some (pk,sk) ∧ h.held = pk::rest ∧
    h.state.sendMessageNumber.toNat = madeUnder h pk
  previous : h.state.previousChainLength.toNat = madeBefore h h.held
  held_nodup : h.held.Nodup
  held_drawn : ∀ pk ∈ h.held, pk ∈ h.drawn.map Prod.fst
  header_held : ∀ header ∈ headers h, header.ratchetPublicKey ∈ h.held
  header_counted : ∀ header ∈ headers h,
    header.messageNumber.toNat < madeUnder h header.ratchetPublicKey

theorem start_counted {s : RatchetState PublicKey SecretKey Key} (hs : Started S s) :
    Counted (start s) := by
  obtain ⟨ss,hs⟩ := hs
  cases hs with
  | sender h =>
    obtain ⟨d,-,rfl⟩ := initSender_ok S h
    exact ⟨⟨_,_,[],rfl,rfl,rfl⟩,rfl,List.nodup_singleton _,by simp [start],
      by simp [start, headers],by simp [start, headers]⟩
  | receiver pair =>
    exact ⟨⟨_,_,[],rfl,rfl,rfl⟩,rfl,List.nodup_singleton _,by simp [start, initReceiver],
      by simp [start, headers],by simp [start, headers]⟩

theorem record_encrypt_counted {h : History PublicKey SecretKey Key} (hc : Counted h)
    (hinit : S.init = true) (hs : h.state.sendMessageNumber.toNat+1 < 2^32)
    (plaintext ad : List UInt8) (nonce : Nonce) :
    Counted (record S h (.encrypt plaintext ad nonce)) := by
  cases chain : h.state.sendingChainKey with
  | none =>
    rwa [record_no_chain S chain]
  | some ck =>
    obtain ⟨⟨pk,sk,rest,pair,hheld,hsend⟩,hprev,hnodup,hdrawn,hmem,hcount⟩ := hc
    have heq := encrypt_eq S chain pair hinit plaintext ad nonce
    let header : MessageHeader PublicKey :=
      ⟨pk,h.state.previousChainLength,h.state.sendMessageNumber⟩
    have hheaders : headers (record S h (.encrypt plaintext ad nonce)) =
        header::headers h := by
      simp only [headers, record, heq, chain, List.filterMap_cons, header]
    have hmade (p : PublicKey) : madeUnder (record S h (.encrypt plaintext ad nonce)) p =
        madeUnder h p+if pk = p then 1 else 0 := by
      simp only [madeUnder, hheaders, List.countP_cons, header, decide_eq_true_eq]
    have hheld' : (record S h (.encrypt plaintext ad nonce)).held = h.held := rfl
    have hstate : (record S h (.encrypt plaintext ad nonce)).state =
        (encrypt S h.state plaintext ad nonce).1 := rfl
    rw [heq] at hstate
    constructor
    · refine ⟨pk,sk,rest,by rw [hstate]; exact pair,hheld,?_⟩
      have hadd : (h.state.sendMessageNumber+1).toNat = h.state.sendMessageNumber.toNat+1 :=
        succ_toNat (k := 0) hs
      rw [hstate, hmade, if_pos rfl, ← hsend]
      exact hadd
    · rw [hstate, hheld', hheld]
      rw [hheld] at hprev hnodup
      cases rest with
      | nil => exact hprev
      | cons q rest =>
        have hne : pk ≠ q := fun heq => by simp [heq] at hnodup
        simp only [madeBefore, hmade, if_neg hne]
        exact hprev
    · exact hnodup
    · exact hdrawn
    · intro e he
      rw [hheaders] at he
      rcases List.mem_cons.mp he with rfl | he
      · rw [hheld', hheld]
        exact List.mem_cons_self
      · exact hmem e he
    · intro e he
      rw [hheaders] at he
      rw [hmade]
      rcases List.mem_cons.mp he with rfl | he
      · rw [if_pos rfl]
        exact Nat.lt_succ_of_le hsend.le
      · exact Nat.lt_add_right _ (hcount e he)

/-- A call that leaves the sending side as it was, up to counters that stay zero. -/
theorem counted_of_same {h h' : History PublicKey SecretKey Key} (hc : Counted h)
    (hpair : h'.state.sendingKeypair = h.state.sendingKeypair)
    (hsend : h'.state.sendMessageNumber = h.state.sendMessageNumber)
    (hprev : h'.state.previousChainLength = h.state.previousChainLength)
    (hlog : h'.sealedLog = h.sealedLog) (hheld : h'.held = h.held)
    (hdrawn : ∀ pk ∈ h.drawn.map Prod.fst, pk ∈ h'.drawn.map Prod.fst) : Counted h' := by
  have hheaders : headers h' = headers h := by simp only [headers, hlog]
  have hmade : madeUnder h' = madeUnder h := by
    funext p
    rw [madeUnder, hheaders, madeUnder]
  have hbefore : madeBefore h' = madeBefore h := by
    funext l
    rcases l with _ | ⟨_,_ | ⟨q,_⟩⟩ <;> simp only [madeBefore, hmade]
  obtain ⟨hcur,hprev',hnodup,hdrawn',hmem,hcount⟩ := hc
  constructor
  · rw [hpair, hsend, hmade, hheld]
    exact hcur
  · rw [hprev, hbefore, hheld]
    exact hprev'
  · rw [hheld]
    exact hnodup
  · rw [hheld]
    exact fun pk hpk => hdrawn pk (hdrawn' pk hpk)
  · rw [hheaders, hheld]
    exact hmem
  · rw [hheaders, hmade]
    exact hcount

theorem recordHeld_same {s s' : RatchetState PublicKey SecretKey Key}
    {pk : PublicKey} {sk : SecretKey} {rest : List PublicKey}
    (pair : s.sendingKeypair = some (pk,sk)) (hpair : s'.sendingKeypair = s.sendingKeypair) :
    recordHeld s' (pk::rest) = pk::rest := by
  simp only [recordHeld, hpair, pair, List.head?_cons, if_true]

theorem record_decrypt_counted {h : History PublicKey SecretKey Key} (hc : Counted h)
    {header : MessageHeader PublicKey} {ciphertext ad : List UInt8}
    {fresh : PublicKey × SecretKey}
    (hfresh : drawsFresh S h (.decrypt header ciphertext ad fresh))
    (hsafe : numberingSafe S h.state (.decrypt header ciphertext ad fresh)) :
    Counted (record S h (.decrypt header ciphertext ad fresh)) := by
  obtain ⟨pk,sk,rest,pair,hheld,hsend⟩ := hc.current
  have hstate := record_decrypt_state S h header ciphertext ad fresh
  have hheld' : (record S h (.decrypt header ciphertext ad fresh)).held =
      recordHeld (selectKey S h.state header fresh).1 (pk::rest) := by
    rw [← hheld, ← hstate]
    rfl
  have hdrawn (p : PublicKey) (hp : p ∈ h.drawn.map Prod.fst) :
      p ∈ (record S h (.decrypt header ciphertext ad fresh)).drawn.map Prod.fst :=
    List.map_subset _ (drawn_subset S h _) hp
  rcases selectKey_sending S h.state header fresh with
    ⟨-,hpair,hn,hp,-⟩ | ⟨htakes,hfail,hpair,hn,hp,-⟩ | ⟨htakes,-,hdraws,hpair,hn,hp,-⟩
  · refine counted_of_same hc (by rw [hstate, hpair]) (by rw [hstate, hn]) (by rw [hstate, hp])
      rfl ?_ hdrawn
    rw [hheld', recordHeld_same pair hpair, hheld]
  · -- The half-made step: harmless only where the counters were zero anyway.
    rcases hsafe htakes with hok | ⟨hs0,hp0⟩
    · rw [hok] at hfail
      contradiction
    · refine counted_of_same hc (by rw [hstate, hpair]) (by rw [hstate, hn, hs0])
        (by rw [hstate, hp, hs0, hp0]) rfl ?_ hdrawn
      rw [hheld', recordHeld_same pair hpair, hheld]
  · have hnew : fresh.1 ∉ h.held := fun hmem => hfresh hdraws (hc.held_drawn _ hmem)
    have hne : pk ≠ fresh.1 := fun heq => hnew (by rw [hheld, heq]; exact List.mem_cons_self)
    have hlist : (record S h (.decrypt header ciphertext ad fresh)).held =
        fresh.1::pk::rest := by
      rw [hheld', recordHeld, hpair]
      simp only [List.head?_cons, Option.some.injEq, if_neg hne]
    have hmade (p : PublicKey) : madeUnder (record S h (.decrypt header ciphertext ad fresh)) p =
        madeUnder h p := rfl
    have hzero : madeUnder h fresh.1 = 0 := by
      rw [madeUnder, List.countP_eq_zero]
      intro e he heq
      exact hnew (of_decide_eq_true heq ▸ hc.header_held e he)
    constructor
    · refine ⟨fresh.1,fresh.2,pk::rest,by rw [hstate, hpair],hlist,?_⟩
      rw [hstate, hn, hmade, hzero]
      rfl
    · rw [hstate, hp, hlist, hsend]
      rfl
    · rw [hlist, ← hheld]
      exact List.nodup_cons.mpr ⟨hnew,hc.held_nodup⟩
    · intro p hp
      rw [hlist] at hp
      rcases List.mem_cons.mp hp with rfl | hp
      · simp only [record, hdraws, if_true, List.map_cons]
        exact List.mem_cons_self
      · exact hdrawn p (hc.held_drawn p (by rw [hheld]; exact hp))
    · intro e he
      rw [hlist, ← hheld]
      exact List.mem_cons_of_mem _ (hc.header_held e he)
    · exact hc.header_counted

theorem counted_truthful {h : History PublicKey SecretKey Key} (hc : Counted h)
    (hinit : S.init = true) : NextTruthful S h := by
  intro plaintext ad nonce s header output he
  obtain ⟨pk,sk,rest,pair,hheld,hsend⟩ := hc.current
  cases chain : h.state.sendingChainKey with
  | none =>
    rw [encrypt_no_chain S chain] at he
    simp at he
  | some ck =>
    rw [encrypt_eq S chain pair hinit] at he
    obtain rfl : ⟨pk,h.state.previousChainLength,h.state.sendMessageNumber⟩ = header :=
      (Prod.mk.inj (Except.ok.inj (Prod.mk.inj he).2)).1
    refine ⟨hsend,hc.previous,fun e hmem heq => ?_⟩
    obtain ⟨hpk,hn⟩ := Prod.mk.inj heq
    have hlt := hc.header_counted e hmem
    rw [hpk, hn, hsend] at hlt
    exact Nat.lt_irrefl _ hlt

omit [DecidableEq PublicKey] in
/-- Without the library initialised no encryption returns anything. -/
theorem encrypt_uninitialised (hinit : S.init = false)
    (s s' : RatchetState PublicKey SecretKey Key) (plaintext ad : List UInt8) (nonce : Nonce)
    (r : MessageHeader PublicKey × List UInt8) :
    encrypt S s plaintext ad nonce ≠ (s', .ok r) := by
  unfold encrypt AesGcm.encrypt
  cases s.sendingChainKey with
  | none => simp
  | some ck => cases s.sendingKeypair <;> simp [hinit]

/-- In every run with fresh keypairs whose calls are all safe, the next header
is truthful wherever the run has got to. -/
theorem numbering_truthful {s : RatchetState PublicKey SecretKey Key} (hs : Started S s)
    (calls : List (Call PublicKey SecretKey))
    (hg : Runs.Guarded (record S) (fun h c => drawsFresh S h c ∧ numberingSafe S h.state c)
      (start s) calls) :
    NextTruthful S (Runs.run (record S) (start s) calls) := by
  cases hinit : S.init with
  | false =>
    intro plaintext ad nonce s' header output he
    exact absurd he (encrypt_uninitialised S hinit _ _ _ _ _ _)
  | true =>
    refine counted_truthful S (Runs.run_invariant _ ?_ (start_counted S hs) hg) hinit
    intro h c hc hguard
    cases c with
    | encrypt plaintext ad nonce =>
      exact record_encrypt_counted S hc hinit hguard.2 plaintext ad nonce
    | decrypt header ciphertext ad fresh => exact record_decrypt_counted S hc hguard.1 hguard.2

/-- A sender that encrypts, ratchets on a header from its peer and encrypts again. -/
theorem numbering_truthful_ratcheted :
    NextTruthful Symbolic.sample (Runs.run (record Symbolic.sample)
      (start (initReceiver (.secret 0) (1,1)))
      [.decrypt ⟨2,0,0⟩ [] [] (3,3), .encrypt [] [] Symbolic.zeroNonce,
        .decrypt ⟨4,0,0⟩ [] [] (5,5)]) :=
  numbering_truthful Symbolic.sample ⟨_,.receiver _⟩ _ (by decide)

/-- A sender encrypts, is handed a header with the low-order key 0, and numbers
its next message 0 again under the same key. -/
theorem numbering_not_truthful : ¬TruthfulNumbering Symbolic.sample := by
  intro h
  have hstart : initSender Symbolic.sample (.secret 0) 1 (2,2) = .ok _ := rfl
  have hnext := h _ ⟨_,.sender hstart⟩
    [.encrypt [] [] Symbolic.zeroNonce, .decrypt ⟨0,0,0⟩ [] [] (3,3)] (by decide)
    [] [] Symbolic.zeroNonce _ _ _ rfl
  exact absurd hnext.1 (by decide)

end Vaultex.DoubleRatchet
