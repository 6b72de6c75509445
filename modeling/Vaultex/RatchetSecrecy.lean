import Vaultex.Symbolic

/-!
# One-way keys of a session

With free keys the state of a session is a frontier of its key tree, in every
run: whatever the headers and wherever calls fail, the root key, the two chain
keys and the cached keys lie on different branches, and every key spent lies
above none of them. Single use and forward secrecy are read off that.
-/

set_option autoImplicit false

namespace Vaultex.RatchetSecrecy
open KeyTree Deduction DoubleRatchet Symbolic

inductive Slot where
  | root
  | sending
  | receiving
  | cached (id : ℕ × UInt32)

abbrev Cache := Finmap fun _ : ℕ × UInt32 => Term

def slots (root : Term) (sending receiving : Option Term) (skipped : Cache) :
    Slot → Option Term
  | .root => some root
  | .sending => sending
  | .receiving => receiving
  | .cached id => skipped.lookup id

/-- All keys stem from the shared secret `m`. -/
def Kept (m : ℕ) (root : Term) (sending receiving : Option Term) (skipped : Cache)
    (used : List Term) : Prop :=
  Frontier parent (· = .secret m) (slots root sending receiving skipped) used

def KeptState (m : ℕ) (s : RatchetState ℕ ℕ Term) (used : List Term) : Prop :=
  Kept m s.rootKey s.sendingChainKey s.receivingChainKey s.skippedKeys used

/-- The two chains change places. -/
def Slot.swap : Slot → Slot
  | .root => .root
  | .sending => .receiving
  | .receiving => .sending
  | .cached id => .cached id

theorem Slot.swap_involutive : Function.Involutive Slot.swap := by
  intro i
  cases i <;> rfl

section Steps
variable {m : ℕ} {root : Term} {sending receiving : Option Term} {skipped : Cache}
  {used : List Term}

/-- Nothing tells the sending chain from the receiving one. -/
theorem kept_swap (h : Kept m root sending receiving skipped used) :
    Kept m root receiving sending skipped used := by
  have hslots : slots root receiving sending skipped =
      fun i => slots root sending receiving skipped i.swap := by
    ext1 i
    cases i <;> rfl
  rw [Kept, hslots]
  exact Frontier.rename Slot.swap_involutive.injective h

theorem kept_cached {id : ℕ × UInt32} {key : Term}
    (h : Kept m root sending receiving skipped used) (hit : skipped.lookup id = some key) :
    Kept m root sending receiving (skipped.erase id) (key::used) := by
  have hslot : slots root sending receiving skipped (.cached id) = some key := hit
  apply Frontier.spend h hslot
  intro k y hk
  cases k with
  | root => exact ⟨by simp,hk⟩
  | sending => exact ⟨by simp,hk⟩
  | receiving => exact ⟨by simp,hk⟩
  | cached id' =>
    simp only [slots] at hk
    by_cases hid : id' = id
    · subst hid
      rw [Finmap.lookup_erase] at hk
      contradiction
    · rw [Finmap.lookup_erase_ne hid] at hk
      exact ⟨by simp [hid],hk⟩

theorem kept_skip {ck : Term} (h : Kept m root sending (some ck) skipped used)
    (id : ℕ × UInt32) :
    Kept m root sending (some (.mac ck CHAIN_KEY_SEED))
      (skipped.insert id (.mac ck MSG_KEY_SEED)) used := by
  apply Frontier.expand rank_parent h (i := .receiving) rfl
    [(.receiving,.mac ck CHAIN_KEY_SEED), (.cached id,.mac ck MSG_KEY_SEED)]
  · simp [parent]
  · simp [CHAIN_KEY_SEED, MSG_KEY_SEED]
  · intro k y hk
    cases k with
    | root => exact Or.inl ⟨by simp,hk⟩
    | sending => exact Or.inl ⟨by simp,hk⟩
    | receiving => exact Or.inr (by simp_all [slots])
    | cached id' =>
      simp only [slots] at hk
      by_cases hid : id' = id
      · subst hid
        rw [Finmap.lookup_insert] at hk
        exact Or.inr (by simp_all)
      · rw [Finmap.lookup_insert_of_ne _ hid] at hk
        exact Or.inl ⟨by simp,hk⟩

theorem kept_take {ck : Term} (h : Kept m root sending (some ck) skipped used) :
    Kept m root sending (some (.mac ck CHAIN_KEY_SEED)) skipped
      (.mac ck MSG_KEY_SEED::used) := by
  apply Frontier.derive rank_parent h (i := .receiving) rfl
    [(.receiving,.mac ck CHAIN_KEY_SEED)]
  · simp [parent]
  · rfl
  · simp [CHAIN_KEY_SEED, MSG_KEY_SEED]
  · intro k y hk
    cases k with
    | root => exact Or.inl ⟨by simp,hk⟩
    | sending => exact Or.inl ⟨by simp,hk⟩
    | receiving => exact Or.inr (by simp_all [slots])
    | cached id => exact Or.inl ⟨by simp,hk⟩

theorem kept_seal {ck : Term} (h : Kept m root (some ck) receiving skipped used) :
    Kept m root (some (.mac ck CHAIN_KEY_SEED)) receiving skipped
      (.mac ck MSG_KEY_SEED::used) := by
  apply kept_swap
  apply kept_take
  exact kept_swap h

theorem kept_recv_step (h : Kept m root sending receiving skipped used) (d : Term) :
    Kept m (.root root d RATCHET_INFO) sending (some (.chain root d RATCHET_INFO))
      skipped used := by
  apply Frontier.expand rank_parent h (i := .root) rfl
    [(.root,.root root d RATCHET_INFO), (.receiving,.chain root d RATCHET_INFO)]
  · simp [parent]
  · simp
  · intro k y hk
    cases k with
    | root => exact Or.inr (by simp_all [slots])
    | sending => exact Or.inl ⟨by simp,hk⟩
    | receiving => exact Or.inr (by simp_all [slots])
    | cached id => exact Or.inl ⟨by simp,hk⟩

theorem kept_send_step (h : Kept m root sending receiving skipped used) (d : Term) :
    Kept m (.root root d RATCHET_INFO) (some (.chain root d RATCHET_INFO)) receiving
      skipped used := by
  apply kept_swap
  apply kept_recv_step
  exact kept_swap h

variable {fails : ℕ → ℕ → Bool} {A : Aead Term}

theorem kept_loop {ck : Term} (h : Kept m root sending (some ck) skipped used) (pk : ℕ)
    (count : ℕ) (n : UInt32) :
    Kept m root sending (some (chainKey (suite fails A) ck count))
      (cacheSkipped (suite fails A) pk count n ck skipped).2 used := by
  rw [← cacheSkipped_fst (suite fails A) pk count n ck skipped]
  induction count generalizing n ck skipped with
  | zero => exact h
  | succ count ih => exact ih (kept_skip h (pk,n)) (n+1)

end Steps

section Calls
variable {fails : ℕ → ℕ → Bool} {A : Aead Term} {s : RatchetState ℕ ℕ Term} {used : List Term}
  {m : ℕ}

theorem kept_current {s1 : RatchetState ℕ ℕ Term} {n : UInt32} (h : KeptState m s used)
    (hs : CurrentSkipped (suite fails A) s n s1) : KeptState m s1 used := by
  cases hs with
  | nothing => exact h
  | skipped chain remote low high =>
    rw [KeptState, chain] at h
    exact kept_loop h _ _ _

theorem kept_advance {pk : ℕ} {ck : Term} {n : UInt32} (h : KeptState m s used)
    (chain : s.receivingChainKey = some ck)
    (low : s.recvMessageNumber.toNat ≤ n.toNat) :
    KeptState m (advance (suite fails A) s pk ck n)
      (messageKey (suite fails A) ck (n.toNat-s.recvMessageNumber.toNat)::used) := by
  rw [KeptState, chain] at h
  rw [← UInt32.toNat_sub_of_le _ _ (UInt32.le_iff_toNat_le.mpr low)]
  exact kept_take (kept_loop h pk (n-s.recvMessageNumber).toNat s.recvMessageNumber)

/-- One call of the receiving side, whatever the header and wherever it stops. -/
theorem select_kept (h : KeptState m s used) (header : MessageHeader ℕ) (fresh : ℕ × ℕ) :
    KeptState m (selectKey (suite fails A) s header fresh).1
      (match (selectKey (suite fails A) s header fresh).2 with
        | .ok key => key::used
        | .error _ => used) := by
  have hs := selection (suite fails A) s header fresh
  generalize selectKey (suite fails A) s header fresh = r at hs
  cases hs with
  | cached hit => exact kept_cached h hit
  | rejected => exact h
  | inChain miss same chain low high => exact kept_advance h chain low
  | noKeypair e miss need skipped noPair =>
    have hkept := kept_current h skipped
    exact hkept
  | dhRecvFailed e miss need skipped pair dh =>
    have hkept := kept_current h skipped
    exact hkept
  | dhSendFailed e miss need skipped pair dh dh' =>
    exact kept_recv_step (kept_current h skipped) _
  | tooFar e miss need skipped pair dh dh' far =>
    exact kept_send_step (kept_recv_step (kept_current h skipped) _) _
  | @ratcheted s1 pk sk d d' miss need skipped pair dh dh' near =>
    have hstep : KeptState m (sendStep (suite fails A)
        (recvStep (suite fails A) (relabel s1 header.ratchetPublicKey) d) fresh d') used :=
      kept_send_step (kept_recv_step (kept_current h skipped) d) d'
    exact kept_advance (n := header.messageNumber) hstep rfl (Nat.zero_le _)

/-- The message keys a run has used, for sealing or for opening. -/
def usedKeys (h : History ℕ ℕ Term) : List Term :=
  h.sealedLog.map Sealed.key++h.openedLog.map Opened.key

theorem record_kept {h : History ℕ ℕ Term} (hk : KeptState m h.state (usedKeys h))
    (c : Call ℕ ℕ) :
    KeptState m (record (suite fails A) h c).state (usedKeys (record (suite fails A) h c)) := by
  cases c with
  | encrypt plaintext ad nonce =>
    cases chain : h.state.sendingChainKey with
    | none =>
      rwa [record_no_chain _ chain]
    | some ck =>
      rw [KeptState, chain] at hk
      have hkept := kept_seal hk
      obtain ⟨hroot,hsend,hrecv,-,-,-,-,hskip⟩ :=
        encrypt_frame (suite fails A) h.state plaintext ad nonce
      simp only [record, usedKeys, chain, KeptState, hroot, hsend, hrecv, hskip, Option.map_some]
      exact hkept
  | decrypt header ciphertext ad fresh =>
    have hkept := @select_kept fails A _ _ _ hk header fresh
    simp only [record, usedKeys, decrypt_state] at hkept ⊢
    cases hsel : (selectKey (suite fails A) h.state header fresh).2 with
    | error e =>
      rw [hsel] at hkept
      exact hkept
    | ok key =>
      rw [hsel] at hkept
      exact Frontier.perm hkept List.perm_middle.symm

theorem kept_secret (n : ℕ) : Kept n (.secret n) none none ∅ [] where
  apart {i j x y} hi hj hij := by
    cases i <;> cases j <;> simp_all [slots]
  spent _ hu := absurd hu List.not_mem_nil
  once := List.nodup_nil
  seeded {i x} hi := by
    cases i with
    | root => exact ⟨_,rfl,Option.some.inj hi ▸ .refl⟩
    | sending => simp [slots] at hi
    | receiving => simp [slots] at hi
    | cached id => simp [slots] at hi
  seeded_used hu := absurd hu List.not_mem_nil

theorem start_kept {n : ℕ} (hs : StartedWith (suite fails A) (.secret n) s) :
    KeptState n s [] := by
  cases hs with
  | sender h =>
    obtain ⟨d,-,rfl⟩ := initSender_ok _ h
    exact kept_send_step (kept_secret n) d
  | receiver pair => exact kept_secret n

theorem run_kept {n : ℕ} (hs : StartedWith (suite fails A) (.secret n) s)
    (calls : List (Call ℕ ℕ)) :
    KeptState n (Runs.run (record (suite fails A)) (start s) calls).state
      (usedKeys (Runs.run (record (suite fails A)) (start s) calls)) :=
  Runs.run_invariant' (record (suite fails A)) (I := fun h => KeptState n h.state (usedKeys h))
    (fun _ c hk => record_kept hk c) (start_kept hs) calls

end Calls

section Results
variable (fails : ℕ → ℕ → Bool) (A : Aead Term)

/-- The log's results are those of `decryptWithKey`. -/
def OpenedAsLogged (h : History ℕ ℕ Term) : Prop :=
  ∀ e ∈ h.openedLog,
    e.result = decryptWithKey (suite fails A) e.key e.ciphertext e.associatedData

theorem record_opened {h : History ℕ ℕ Term} (ho : OpenedAsLogged fails A h)
    (c : Call ℕ ℕ) : OpenedAsLogged fails A (record (suite fails A) h c) := by
  cases c with
  | encrypt plaintext ad nonce => exact ho
  | decrypt header ciphertext ad fresh =>
    intro e he
    simp only [record, decrypt_result] at he
    cases hsel : (selectKey (suite fails A) h.state header fresh).2 with
    | error e' =>
      rw [hsel] at he
      exact ho e he
    | ok key =>
      rw [hsel] at he
      rcases List.mem_cons.mp he with rfl | he
      · rfl
      · exact ho e he

def accepted (e : Opened ℕ Term) : Bool :=
  match e.result with
  | .ok _ => true
  | .error _ => false

/-- A ciphertext opens under one key only. -/
def OpensUnderOwnKey : Prop :=
  ∀ body ad ad' nonce key key' p p', A.aeadOpen body ad nonce key = some p →
    A.aeadOpen body ad' nonce key' = some p' → key = key'

variable {A} in
theorem opens_under_own_key (hA : IdealAead A) : OpensUnderOwnKey A := by
  intro body ad ad' nonce key key' p p' h h'
  exact (hA.seal_inj ((hA.seal_of_open h).symm.trans (hA.seal_of_open h'))).2.2

/-- No message key is handed to `decryptWithKey` twice in a run, and so no
ciphertext is accepted twice. -/
theorem receive_keys_single_use {n : ℕ} {s : RatchetState ℕ ℕ Term}
    (hs : StartedWith (suite fails A) (.secret n) s) (calls : List (Call ℕ ℕ)) :
    let h := Runs.run (record (suite fails A)) (start s) calls
    (h.openedLog.map Opened.key).Nodup ∧
    (OpensUnderOwnKey A → ((h.openedLog.filter accepted).map Opened.ciphertext).Nodup) := by
  intro h
  have hkeys : (h.openedLog.map Opened.key).Nodup :=
    (List.nodup_append.mp (run_kept hs calls).once).2.1
  have hopened : OpenedAsLogged fails A h :=
    Runs.run_invariant' (record (suite fails A)) (I := OpenedAsLogged fails A)
      (fun _ c ho => record_opened fails A ho c) (by simp [OpenedAsLogged, start]) calls
  refine ⟨hkeys,fun hown => ?_⟩
  apply List.Nodup.map_on _ (hkeys.of_map.filter _)
  intro e he e' he' hct
  obtain ⟨hmem,hacc⟩ := List.mem_filter.mp he
  obtain ⟨hmem',hacc'⟩ := List.mem_filter.mp he'
  apply List.inj_on_of_nodup_map hkeys hmem hmem'
  cases hr : e.result with
  | error _ => simp [accepted, hr] at hacc
  | ok p =>
    cases hr' : e'.result with
    | error _ => simp [accepted, hr'] at hacc'
    | ok p' =>
      have hdec := (decryptWithKey_ok _).mp ((hopened e hmem).symm.trans hr)
      have hdec' := (decryptWithKey_ok _).mp ((hopened e' hmem').symm.trans hr')
      obtain ⟨nonce,body,heq,hopen⟩ := hdec
      obtain ⟨nonce',body',heq',hopen'⟩ := hdec'
      rw [hct, heq'] at heq
      obtain ⟨rfl,rfl⟩ := nonce_append_inj heq
      exact hown _ _ _ _ _ _ _ _ hopen hopen'

/-- A responder tries one forgery, then the same bytes under another number. -/
theorem receive_keys_single_use_forged :
    let h := Runs.run (record sample) (start (initReceiver (.secret 0) (1,1)))
      [.decrypt ⟨2,0,3⟩ [] [] (4,4), .decrypt ⟨2,0,1⟩ [] [] (6,6)]
    (h.openedLog.map Opened.key).Nodup ∧
      ((h.openedLog.filter accepted).map Opened.ciphertext).Nodup := by
  have h := receive_keys_single_use (n := 0) (fun _ b => b == 0) aead (.receiver (1,1))
    [.decrypt ⟨2,0,3⟩ [] [] (4,4), .decrypt ⟨2,0,1⟩ [] [] (6,6)]
  exact ⟨h.1,h.2 (opens_under_own_key aead_ideal)⟩

/-- A message key is never used for sealing again: those of any run differ, and
what the next encryption returns is sealed under a new one. -/
theorem send_keys_never_reused {n : ℕ} {s : RatchetState ℕ ℕ Term}
    (hs : StartedWith (suite fails A) (.secret n) s) (calls : List (Call ℕ ℕ)) :
    let h := Runs.run (record (suite fails A)) (start s) calls
    (h.sealedLog.map Sealed.key).Nodup ∧
    ∀ plaintext ad nonce header ciphertext,
      (encrypt (suite fails A) h.state plaintext ad nonce).2 = .ok (header,ciphertext) →
      ∃ key, key ∉ h.sealedLog.map Sealed.key ∧
        ciphertext = nonce.bytes++A.aeadSeal plaintext (some ad) nonce key ∧
        (record (suite fails A) h (.encrypt plaintext ad nonce)).sealedLog =
          ⟨key,plaintext,ad,.ok (header,ciphertext)⟩::h.sealedLog := by
  intro h
  have hkept : KeptState n h.state (usedKeys h) := run_kept hs calls
  refine ⟨(List.nodup_append.mp hkept.once).1,?_⟩
  intro plaintext ad nonce header ciphertext hok
  obtain ⟨ck,sk,chain,-,-,hct⟩ := encrypt_ok (suite fails A) hok
  have hlog : (record (suite fails A) h (.encrypt plaintext ad nonce)).sealedLog =
      ⟨messageKey (suite fails A) ck 0,plaintext,ad,.ok (header,ciphertext)⟩::h.sealedLog := by
    simp only [record, chain, hok]
  refine ⟨messageKey (suite fails A) ck 0,?_,hct,hlog⟩
  -- The log after the call has no key twice either.
  have hnext := @record_kept fails A n h hkept (.encrypt plaintext ad nonce)
  have honce := (List.nodup_append.mp hnext.once).1
  rw [hlog, List.map_cons] at honce
  exact (List.nodup_cons.mp honce).1

/-- A responder encrypts, fails a ratchet step towards a low-order key, encrypts
again, steps back to the key it had, and encrypts once more. -/
theorem send_keys_never_reused_ratcheted :
    ((Runs.run (record sample) (start (initReceiver (.secret 0) (1,1)))
      [.decrypt ⟨2,0,0⟩ [] [] (4,4), .encrypt [] [] zeroNonce, .decrypt ⟨0,0,0⟩ [] [] (6,6),
        .encrypt [] [] zeroNonce, .decrypt ⟨2,0,0⟩ [] [] (8,8), .encrypt [] [] zeroNonce
        ]).sealedLog.map Sealed.key).Nodup :=
  (send_keys_never_reused (n := 0) (fun _ b => b == 0) aead (.receiver (1,1))
    [.decrypt ⟨2,0,0⟩ [] [] (4,4), .encrypt [] [] zeroNonce, .decrypt ⟨0,0,0⟩ [] [] (6,6),
      .encrypt [] [] zeroNonce, .decrypt ⟨2,0,0⟩ [] [] (8,8), .encrypt [] [] zeroNonce]).1

/-- What a copy of the state gives away: its keys and the ratchet secret. -/
def knowledge (s : RatchetState ℕ ℕ Term) : Set Term :=
  {t | (∃ i, slots s.rootKey s.sendingChainKey s.receivingChainKey s.skippedKeys i = some t) ∨
    ∃ pk sk, s.sendingKeypair = some (pk,sk) ∧ t = .scalar sk}

def ForwardSecret (h : History ℕ ℕ Term) : Prop :=
  ∀ key ∈ usedKeys h, ¬Derivable Rule (knowledge h.state) key

/-- No message key used so far can be computed from the state. -/
theorem used_keys_underivable {n : ℕ} {s : RatchetState ℕ ℕ Term}
    (hs : StartedWith (suite fails A) (.secret n) s) (calls : List (Call ℕ ℕ)) :
    ForwardSecret (Runs.run (record (suite fails A)) (start s) calls) := by
  intro key hkey
  have hkept := run_kept hs calls
  obtain ⟨_,rfl,hseed⟩ := hkept.seeded_used hkey
  -- The blocked terms are those the key was computed through.
  apply not_derivable_of_blocked {t | Above parent t key} _
    (fun premises t hr ht => above_blocked key ⟨n,hseed⟩ premises t hr ht) .refl
  rintro t (⟨i,hi⟩ | ⟨pk,sk,-,rfl⟩) ht
  · exact hkept.spent hi hkey ht
  · rcases above_linear hseed ht with h | h
    · exact absurd (above_root rfl h) (by simp)
    · exact absurd (above_root rfl h) (by simp)

theorem used_keys_underivable_sent :
    ForwardSecret (Runs.run (record sample) (start (initReceiver (.secret 0) (1,1)))
      [.decrypt ⟨2,0,0⟩ [] [] (4,4), .encrypt [] [] zeroNonce]) :=
  used_keys_underivable (n := 0) (fun _ b => b == 0) aead (.receiver (1,1))
    [.decrypt ⟨2,0,0⟩ [] [] (4,4), .encrypt [] [] zeroNonce]

end Results
end Vaultex.RatchetSecrecy
