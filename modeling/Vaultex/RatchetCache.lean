import Vaultex.Symbolic

/-!
# The size of the skipped-key cache

Each skipping loop checks its own step against `MAX_SKIP`; nothing looks at
the entries already there. The labels a call adds are a function of the header
and the state before it, so the runs that stay within `MAX_SKIP` entries are
exactly those in which every call's labels still fit.
-/

set_option autoImplicit false

namespace Vaultex.DoubleRatchet
variable {PublicKey SecretKey Key : Type} (S : Suite PublicKey SecretKey Key)
variable [DecidableEq PublicKey]

def labels (pk : PublicKey) (n : UInt32) (count : ℕ) : Finset (PublicKey × UInt32) :=
  (Finset.range count).image fun i => (pk, n+UInt32.ofNat i)

theorem add_ofNat_succ (n : UInt32) (i : ℕ) :
    n+UInt32.ofNat (i+1) = n+1+UInt32.ofNat i := by
  rw [UInt32.ofNat_add]
  ac_rfl

theorem labels_succ (pk : PublicKey) (n : UInt32) (count : ℕ) :
    labels pk n (count+1) = insert (pk,n) (labels pk (n+1) count) := by
  ext ⟨p,x⟩
  simp only [labels, Finset.mem_image, Finset.mem_range, Finset.mem_insert, Prod.mk.injEq]
  constructor
  · rintro ⟨i,hi,rfl,rfl⟩
    cases i with
    | zero => exact Or.inl ⟨rfl,by simp⟩
    | succ i => exact Or.inr ⟨i,by omega,rfl,(add_ofNat_succ n i).symm⟩
  · rintro (⟨rfl,rfl⟩ | ⟨i,hi,rfl,rfl⟩)
    · exact ⟨0,by omega,rfl,by simp⟩
    · exact ⟨i+1,by omega,rfl,add_ofNat_succ n i⟩

theorem labels_card (pk : PublicKey) (n : UInt32) (count : ℕ) (h : count < 2^32) :
    (labels pk n count).card = count := by
  rw [labels, Finset.card_image_of_injOn, Finset.card_range]
  intro i hi j hj hij
  have hi := Finset.mem_range.mp hi
  have hj := Finset.mem_range.mp hj
  have heq := UInt32.add_right_inj n |>.mp (Prod.mk.inj hij).2
  have hnat := congrArg UInt32.toNat heq
  rw [UInt32.toNat_ofNat', UInt32.toNat_ofNat'] at hnat
  omega

theorem cacheSkipped_keys (pk : PublicKey) (count : ℕ) (n : UInt32) (ck : Key)
    (m : Finmap fun _ : PublicKey × UInt32 => Key) :
    (cacheSkipped S pk count n ck m).2.keys = m.keys ∪ labels pk n count := by
  induction count generalizing n ck m with
  | zero => simp [cacheSkipped, labels]
  | succ count ih =>
    rw [cacheSkipped, ih, labels_succ]
    ext id
    simp only [Finset.mem_union, Finset.mem_insert, Finmap.mem_keys, Finmap.mem_insert]
    tauto

/-- The labels cached from the chain about to be left. -/
def currentLabels (s : RatchetState PublicKey SecretKey Key) (n : UInt32) :
    Finset (PublicKey × UInt32) :=
  match s.receivingChainKey, s.remoteRatchetKey with
  | some _, some pk =>
    if n < s.recvMessageNumber then ∅
    else labels pk s.recvMessageNumber (n.toNat-s.recvMessageNumber.toNat)
  | _, _ => ∅

/-- The labels a call adds to the cache. -/
def skippedLabels (s : RatchetState PublicKey SecretKey Key) (header : MessageHeader PublicKey)
    (fresh : PublicKey × SecretKey) :
    Finset (PublicKey × UInt32) :=
  if s.skippedKeys.lookup (header.ratchetPublicKey,header.messageNumber) ≠ none ∨
    rejectsEarly s header then ∅
  else if needRatchet s header.ratchetPublicKey then
    currentLabels s header.previousChainLength ∪
      if exchangesSucceed S s header.ratchetPublicKey fresh ∧
        header.messageNumber.toNat ≤ 1000 then
        labels header.ratchetPublicKey 0 header.messageNumber.toNat
      else ∅
  else labels header.ratchetPublicKey s.recvMessageNumber
    (header.messageNumber.toNat-s.recvMessageNumber.toNat)

theorem CurrentSkipped.keys {s s1 : RatchetState PublicKey SecretKey Key} {n : UInt32}
    (h : CurrentSkipped S s n s1) :
    s1.skippedKeys.keys = s.skippedKeys.keys ∪ currentLabels s n := by
  cases h with
  | nothing h =>
    suffices hnone : currentLabels s n = ∅ by rw [hnone, Finset.union_empty]
    unfold currentLabels
    rcases h with h | h | h
    · rw [h]
    · rw [h]
      cases s.receivingChainKey <;> rfl
    · split
      · rw [if_pos (UInt32.lt_iff_toNat_lt.mpr h)]
      · rfl
  | skipped chain remote low high =>
    have hr : s.recvMessageNumber ≤ n := UInt32.le_iff_toNat_le.mpr low
    simp only [skipTo_skippedKeys, cacheSkipped_keys, currentLabels, chain, remote,
      if_neg (UInt32.not_lt.mpr hr), UInt32.toNat_sub_of_le _ _ hr]

/-- What a call keeps that reaches the ratchet step. -/
theorem CurrentSkipped.stepLabels {s s1 : RatchetState PublicKey SecretKey Key}
    {header : MessageHeader PublicKey} {fresh : PublicKey × SecretKey}
    (h : CurrentSkipped S s header.previousChainLength s1)
    (miss : s.skippedKeys.lookup (header.ratchetPublicKey,header.messageNumber) = none)
    (need : needRatchet s header.ratchetPublicKey = true) :
    s.skippedKeys.keys ∪ skippedLabels S s header fresh = s1.skippedKeys.keys ∪
      if exchangesSucceed S s header.ratchetPublicKey fresh ∧
        header.messageNumber.toNat ≤ 1000 then
        labels header.ratchetPublicKey 0 header.messageNumber.toNat
      else ∅ := by
  rw [skippedLabels, if_neg (by simp [miss, h.not_early need]), if_pos need, h.keys,
    Finset.union_assoc]

theorem advance_keys (s : RatchetState PublicKey SecretKey Key) (pk : PublicKey) (ck : Key)
    {n : UInt32} (low : s.recvMessageNumber.toNat ≤ n.toNat) :
    (advance S s pk ck n).skippedKeys.keys = s.skippedKeys.keys ∪
      labels pk s.recvMessageNumber (n.toNat-s.recvMessageNumber.toNat) := by
  have hr : s.recvMessageNumber ≤ n := UInt32.le_iff_toNat_le.mpr low
  simp only [advance_skippedKeys, skipTo_skippedKeys, cacheSkipped_keys,
    UInt32.toNat_sub_of_le _ _ hr]

/-- A call drops one label on a cache hit; otherwise it adds its labels, also
when it ends in an error. -/
theorem selectKey_keys (s : RatchetState PublicKey SecretKey Key)
    (header : MessageHeader PublicKey) (fresh : PublicKey × SecretKey) :
    (selectKey S s header fresh).1.skippedKeys.keys =
      if s.skippedKeys.lookup (header.ratchetPublicKey,header.messageNumber) = none then
        s.skippedKeys.keys ∪ skippedLabels S s header fresh
      else s.skippedKeys.keys.erase (header.ratchetPublicKey,header.messageNumber) := by
  have hs := selection S s header fresh
  generalize selectKey S s header fresh = r at hs
  cases hs with
  | cached hit => simp [hit]
  | rejected e miss early =>
    rw [if_pos miss, skippedLabels, if_pos (Or.inr early), Finset.union_empty]
  | inChain miss same chain low high =>
    have hneed : ¬needRatchet s header.ratchetPublicKey = true :=
      ne_true_of_eq_false (needRatchet_eq_false.mpr same)
    have hearly : ¬rejectsEarly s header :=
      (not_rejects_in_chain same).mpr ⟨low,high,by rw [chain]; rfl⟩
    rw [advance_keys S s _ _ low, if_pos miss, skippedLabels, if_neg (by simp [miss, hearly]),
      if_neg hneed]
  | noKeypair e miss need skipped noPair =>
    have hfail : exchangesSucceed S s header.ratchetPublicKey fresh = false :=
      skipped.no_keypair noPair
    rw [relabel_skippedKeys, if_pos miss, skipped.stepLabels S miss need,
      if_neg (by simp [hfail]), Finset.union_empty]
  | dhRecvFailed e miss need skipped pair dh =>
    have hfail : exchangesSucceed S s header.ratchetPublicKey fresh = false :=
      skipped.exchange_failed pair (Or.inl dh)
    rw [relabel_skippedKeys, if_pos miss, skipped.stepLabels S miss need,
      if_neg (by simp [hfail]), Finset.union_empty]
  | dhSendFailed e miss need skipped pair dh dh' =>
    have hfail : exchangesSucceed S s header.ratchetPublicKey fresh = false :=
      skipped.exchange_failed pair (Or.inr dh')
    rw [recvStep_skippedKeys, relabel_skippedKeys, if_pos miss, skipped.stepLabels S miss need,
      if_neg (by simp [hfail]), Finset.union_empty]
  | tooFar e miss need skipped pair dh dh' far =>
    rw [sendStep_skippedKeys, recvStep_skippedKeys, relabel_skippedKeys, if_pos miss,
      skipped.stepLabels S miss need, if_neg (by omega), Finset.union_empty]
  | ratcheted miss need skipped pair dh dh' near =>
    rw [advance_keys S _ _ _ (by simp), sendStep_skippedKeys, recvStep_skippedKeys,
      relabel_skippedKeys, if_pos miss, skipped.stepLabels S miss need,
      if_pos ⟨skipped.exchanges_done pair dh dh',near⟩]
    rfl

/-- The labels a call adds fit beside those held before it. -/
def cacheFits (s : RatchetState PublicKey SecretKey Key) :
    Call PublicKey SecretKey → Prop
  | .encrypt .. => True
  | .decrypt header _ _ fresh =>
    (s.skippedKeys.keys ∪ skippedLabels S s header fresh).card ≤ MAX_SKIP.toNat

instance (s : RatchetState PublicKey SecretKey Key) :
    ∀ c : Call PublicKey SecretKey, Decidable (cacheFits S s c)
  | .encrypt .. => isTrue trivial
  | .decrypt .. => inferInstanceAs (Decidable (_ ≤ _))

theorem call_fits_iff (s : RatchetState PublicKey SecretKey Key)
    (c : Call PublicKey SecretKey) (h : s.skippedKeys.keys.card ≤ MAX_SKIP.toNat) :
    (call S s c).skippedKeys.keys.card ≤ MAX_SKIP.toNat ↔ cacheFits S s c := by
  cases c with
  | encrypt plaintext ad nonce =>
    obtain ⟨-,-,-,-,-,-,-,hsame⟩ := encrypt_frame S s plaintext ad nonce
    simp only [call, cacheFits, hsame, h]
  | decrypt header ciphertext ad fresh =>
    rw [call, cacheFits, decrypt_state, selectKey_keys]
    by_cases miss :
        s.skippedKeys.lookup (header.ratchetPublicKey,header.messageNumber) = none
    · rw [if_pos miss]
    · rw [if_neg miss, skippedLabels, if_pos (Or.inl miss), Finset.union_empty]
      exact iff_of_true ((Finset.card_erase_le).trans h) h

/-- No session holds more than `MAX_SKIP` skipped keys. -/
def CacheBounded : Prop :=
  ∀ s, Reachable S s → s.skippedKeys.keys.card ≤ MAX_SKIP.toNat

omit [DecidableEq PublicKey] in
theorem started_cache_empty {s : RatchetState PublicKey SecretKey Key} (h : Started S s) :
    s.skippedKeys = ∅ := by
  obtain ⟨ss,h⟩ := h
  cases h with
  | sender h =>
    obtain ⟨d,-,rfl⟩ := initSender_ok S h
    rfl
  | receiver => rfl

/-- The bound holds wherever the calls are cut off. -/
def BoundedThroughout (s : RatchetState PublicKey SecretKey Key)
    (calls : List (Call PublicKey SecretKey)) : Prop :=
  ∀ pre suf, calls = pre++suf →
    (Runs.run (call S) s pre).skippedKeys.keys.card ≤ MAX_SKIP.toNat

/-- The sessions whose cache stays within `MAX_SKIP` entries throughout are
exactly those in which every call fits. -/
theorem cache_bounded_iff {s : RatchetState PublicKey SecretKey Key} (h : Started S s)
    (calls : List (Call PublicKey SecretKey)) :
    BoundedThroughout S s calls ↔ Runs.Guarded (call S) (cacheFits S) s calls := by
  apply Runs.guarded_iff_prefixes _ (call_fits_iff S)
  rw [started_cache_empty S h, Finmap.keys_empty, Finset.card_empty]
  exact Nat.zero_le _

/-- A responder of the sample suite that misses two messages of a chain at its start, two at
its end and three of the next, and has one of them later. -/
theorem cache_bounded_skipping :
    BoundedThroughout Symbolic.sample (initReceiver (.secret 0) (1,1))
      [.decrypt ⟨2,0,2⟩ [] [] (3,3), .decrypt ⟨4,5,3⟩ [] [] (5,5), .decrypt ⟨2,0,4⟩ [] [] (7,7)] :=
  (cache_bounded_iff Symbolic.sample ⟨_,.receiver _⟩ _).mpr
    ⟨by decide,by decide,by decide,trivial⟩

/-- Two forged headers. The first opens a chain; the second leaves it 999 keys
behind and skips 1000 more in its own. -/
theorem cache_not_bounded : ¬CacheBounded Symbolic.sample := by
  intro h
  have hrun := (cache_bounded_iff Symbolic.sample ⟨.secret 0,.receiver (1,1)⟩
    [.decrypt ⟨2,0,0⟩ [] [] (3,3), .decrypt ⟨4,1000,1000⟩ [] [] (5,5)]).mp
    (fun pre suf _ => h _ ⟨_,⟨_,.receiver _⟩,pre,rfl⟩)
  have hfits := hrun.2.1
  rw [cacheFits, skippedLabels, if_neg (by decide), if_pos (by decide), if_pos (by decide)] at hfits
  have hold : (2,1) ∈ currentLabels (call Symbolic.sample (initReceiver (.secret 0) (1,1))
      (.decrypt ⟨2,0,0⟩ [] [] (3,3))) 1000 := by
    change (2,1) ∈ labels 2 1 999
    exact Finset.mem_image.mpr ⟨0,by simp,rfl⟩
  have hnew : (2,1) ∉ labels 4 0 1000 := by simp [labels]
  have hcard : (insert ((2,1) : ℕ × UInt32) (labels 4 0 1000)).card = 1001 := by
    rw [Finset.card_insert_of_notMem hnew, labels_card _ _ _ (by decide)]
  have hle := (Finset.card_le_card (Finset.insert_subset
    (Finset.mem_union_right _ (Finset.mem_union_left _ hold))
    (Finset.subset_union_right.trans Finset.subset_union_right))).trans hfits
  exact absurd (hcard.symm.trans_le hle) (by decide)

end Vaultex.DoubleRatchet
