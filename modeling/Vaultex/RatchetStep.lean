import Vaultex.DoubleRatchet

/-!
# What one ratchet call can do

The loops in closed form, and one inversion theorem for the receiving side:
`Selection` lists every way a call can go up to the point where a message key
is handed to `decryptWithKey`. Every property of a run is derived from it.
-/

set_option autoImplicit false

namespace Vaultex.DoubleRatchet
variable {PublicKey SecretKey Key : Type} (S : Suite PublicKey SecretKey Key)

def chainKey (ck : Key) : ℕ → Key
  | 0 => ck
  | i+1 => (kdfCk S (chainKey ck i)).1

def messageKey (ck : Key) (i : ℕ) : Key := (kdfCk S (chainKey S ck i)).2

theorem chainKey_add (ck : Key) (i j : ℕ) :
    chainKey S (chainKey S ck i) j = chainKey S ck (i+j) := by
  induction j with
  | zero => rfl
  | succ j ih => simp only [chainKey, ih, Nat.add_eq]

theorem messageKey_add (ck : Key) (i j : ℕ) :
    messageKey S (chainKey S ck i) j = messageKey S ck (i+j) := by
  rw [messageKey, chainKey_add, messageKey]

theorem not_skip_too_far {r n : UInt32} (h : ¬n < r) :
    n-r > MAX_SKIP ↔ r.toNat+1000 < n.toNat := by
  have hr : r ≤ n := UInt32.not_lt.mp h
  rw [gt_iff_lt, UInt32.lt_iff_toNat_lt, UInt32.toNat_sub_of_le _ _ hr]
  rw [UInt32.le_iff_toNat_le] at hr
  change 1000 < _ ↔ _
  omega

/-- An encryption in a state with both a chain and a keypair. -/
theorem encrypt_eq {s : RatchetState PublicKey SecretKey Key} {ck : Key} {pk : PublicKey}
    {sk : SecretKey} (chain : s.sendingChainKey = some ck) (pair : s.sendingKeypair = some (pk,sk))
    (hinit : S.init = true) (plaintext ad : List UInt8) (nonce : Nonce) :
    encrypt S s plaintext ad nonce =
      ({ s with
          sendingChainKey := some (chainKey S ck 1)
          sendMessageNumber := s.sendMessageNumber+1 },
        .ok (⟨pk,s.previousChainLength,s.sendMessageNumber⟩,
          nonce.bytes++S.aeadSeal plaintext (some ad) nonce (messageKey S ck 0))) := by
  simp only [encrypt, chain, pair, AesGcm.encrypt, hinit, if_true, messageKey, chainKey]

theorem encrypt_no_chain {s : RatchetState PublicKey SecretKey Key}
    (chain : s.sendingChainKey = none) (plaintext ad : List UInt8) (nonce : Nonce) :
    encrypt S s plaintext ad nonce = (s, .error (.ratchetError "no sending chain key")) := by
  simp only [encrypt, chain]

/-- Encrypting, successfully or not, moves the sending chain on and touches no
other key. -/
theorem encrypt_frame (s : RatchetState PublicKey SecretKey Key) (plaintext ad : List UInt8)
    (nonce : Nonce) :
    let s' := (encrypt S s plaintext ad nonce).1
    s'.rootKey = s.rootKey ∧ s'.sendingChainKey = s.sendingChainKey.map (chainKey S · 1) ∧
    s'.receivingChainKey = s.receivingChainKey ∧ s'.sendingKeypair = s.sendingKeypair ∧
    s'.remoteRatchetKey = s.remoteRatchetKey ∧ s'.recvMessageNumber = s.recvMessageNumber ∧
    s'.previousChainLength = s.previousChainLength ∧ s'.skippedKeys = s.skippedKeys := by
  unfold encrypt
  cases chain : s.sendingChainKey with
  | none => exact ⟨rfl,chain,rfl,rfl,rfl,rfl,rfl,rfl⟩
  | some ck =>
    simp only
    cases s.sendingKeypair with
    | none => exact ⟨rfl,rfl,rfl,rfl,rfl,rfl,rfl,rfl⟩
    | some kp =>
      simp only
      split <;> exact ⟨rfl,rfl,rfl,rfl,rfl,rfl,rfl,rfl⟩

/-- What an encryption that returns was made from. -/
theorem encrypt_ok {s : RatchetState PublicKey SecretKey Key} {plaintext ad : List UInt8}
    {nonce : Nonce} {header : MessageHeader PublicKey} {ciphertext : List UInt8}
    (h : (encrypt S s plaintext ad nonce).2 = .ok (header,ciphertext)) :
    ∃ ck sk, s.sendingChainKey = some ck ∧
      s.sendingKeypair = some (header.ratchetPublicKey,sk) ∧
      header.messageNumber = s.sendMessageNumber ∧
      ciphertext = nonce.bytes++S.aeadSeal plaintext (some ad) nonce (messageKey S ck 0) := by
  unfold encrypt AesGcm.encrypt at h
  cases chain : s.sendingChainKey with
  | none => simp [chain] at h
  | some ck =>
    cases pair : s.sendingKeypair with
    | none => simp [chain, pair] at h
    | some kp =>
      cases hinit : S.init with
      | false => simp [chain, pair, hinit] at h
      | true =>
        simp only [chain, pair, hinit, if_true, Except.ok.injEq, Prod.mk.injEq] at h
        obtain ⟨rfl,rfl⟩ := h
        exact ⟨ck,kp.2,rfl,rfl,rfl,rfl⟩

/-- The number is used up, whether or not the sealing succeeds. -/
theorem encrypt_counts {s : RatchetState PublicKey SecretKey Key} {ck : Key}
    {pair : PublicKey × SecretKey} (chain : s.sendingChainKey = some ck)
    (hpair : s.sendingKeypair = some pair) (plaintext ad : List UInt8) (nonce : Nonce) :
    (encrypt S s plaintext ad nonce).1.sendMessageNumber = s.sendMessageNumber+1 := by
  simp only [encrypt, chain, hpair]
  split <;> rfl

/-- What opens is a nonce followed by a ciphertext that opens under it. -/
theorem decryptWithKey_ok {key : Key} {ciphertext ad plaintext : List UInt8} :
    decryptWithKey S key ciphertext ad = .ok plaintext ↔
      ∃ nonce : Nonce, ∃ body, ciphertext = nonce.bytes++body ∧
        S.aeadOpen body (some ad) nonce key = some plaintext := by
  unfold decryptWithKey AesGcm.decrypt
  constructor
  · intro h
    split at h
    · contradiction
    · split at h
      next hlen =>
        cases hopen : S.aeadOpen (ciphertext.drop NONCEBYTES) (some ad)
            ⟨ciphertext.take NONCEBYTES,hlen⟩ key with
        | none => simp [hopen] at h
        | some p =>
          simp only [hopen, Except.ok.injEq] at h
          exact ⟨_,_,(List.take_append_drop NONCEBYTES ciphertext).symm,hopen.trans (h ▸ rfl)⟩
      · contradiction
  · rintro ⟨nonce,body,rfl,hopen⟩
    have hlen := nonce.length_eq
    have htake : (nonce.bytes++body).take NONCEBYTES = nonce.bytes :=
      List.take_left' hlen
    have hdrop : (nonce.bytes++body).drop NONCEBYTES = body := List.drop_left' hlen
    rw [if_neg (by rw [List.length_append]; omega)]
    simp only [htake, hdrop, hlen, hopen, dite_true]

section Receiving
variable [DecidableEq PublicKey]

theorem cacheSkipped_fst (pk : PublicKey) (count : ℕ) (n : UInt32) (ck : Key)
    (m : Finmap fun _ : PublicKey × UInt32 => Key) :
    (cacheSkipped S pk count n ck m).1 = chainKey S ck count := by
  induction count generalizing n ck m with
  | zero => rfl
  | succ count ih =>
    rw [cacheSkipped, ih, Nat.add_comm]
    exact chainKey_add S ck 1 count

theorem succ_toNat {n : UInt32} {k : ℕ} (h : n.toNat+(k+1) < 2^32) :
    (n+1).toNat = n.toNat+1 := by
  rw [UInt32.toNat_add]
  simp only [UInt32.reduceToNat]
  omega

/-- The loop stores the message keys of the numbers it passes, and nothing else. -/
theorem cacheSkipped_lookup (pk : PublicKey) (count : ℕ) (n : UInt32) (ck : Key)
    (m : Finmap fun _ : PublicKey × UInt32 => Key) (h : n.toNat+count < 2^32)
    (p : PublicKey) (x : UInt32) :
    (cacheSkipped S pk count n ck m).2.lookup (p,x) =
      if p = pk ∧ n.toNat ≤ x.toNat ∧ x.toNat < n.toNat+count then
        some (messageKey S ck (x.toNat-n.toNat))
      else m.lookup (p,x) := by
  induction count generalizing n ck m with
  | zero =>
    rw [if_neg (by omega)]
    rfl
  | succ count ih =>
    have hn := succ_toNat h
    rw [cacheSkipped, ih (n+1) _ _ (by omega), hn]
    by_cases hp : p = pk
    · subst hp
      by_cases hx : x = n
      · subst hx
        rw [if_neg (by omega), if_pos ⟨rfl,by omega,by omega⟩, Finmap.lookup_insert, Nat.sub_self]
        rfl
      · have hne : x.toNat ≠ n.toNat := fun h => hx (UInt32.toNat_inj.mp h)
        rw [Finmap.lookup_insert_of_ne _ (by simp [hx])]
        by_cases hr : n.toNat ≤ x.toNat ∧ x.toNat < n.toNat+(count+1)
        · rw [if_pos ⟨rfl,by omega,by omega⟩, if_pos ⟨rfl,hr⟩]
          have hs : x.toNat-n.toNat = 1+(x.toNat-(n.toNat+1)) := by omega
          rw [hs, ← messageKey_add]
          rfl
        · rw [if_neg (by omega), if_neg (by simp [hr])]
    · rw [if_neg (by simp [hp]), if_neg (by simp [hp]),
        Finmap.lookup_insert_of_ne _ (by simp [hp])]

/-- The third part of `decrypt`, up to the derived key. -/
def takeFromChain (s : RatchetState PublicKey SecretKey Key) (n : UInt32) :
    RatchetState PublicKey SecretKey Key × Result Key :=
  andThen (skipMessageKeys S s n) fun s _ =>
  match s.receivingChainKey with
  | none => (s, .error (.ratchetError "no receiving chain key"))
  | some ck =>
    ({ s with receivingChainKey := some (kdfCk S ck).1, recvMessageNumber := n+1 },
      .ok (kdfCk S ck).2)

/-- A call up to the point where it hands a message key to `decryptWithKey`. -/
def selectKey (s : RatchetState PublicKey SecretKey Key) (header : MessageHeader PublicKey)
    (fresh : PublicKey × SecretKey) : RatchetState PublicKey SecretKey Key × Result Key :=
  let id := (header.ratchetPublicKey, header.messageNumber)
  match s.skippedKeys.lookup id with
  | some msgKey => ({ s with skippedKeys := s.skippedKeys.erase id }, .ok msgKey)
  | none =>
    let ratcheted :=
      if needRatchet s header.ratchetPublicKey then
        andThen (skipMessageKeysForCurrentChain S s header.previousChainLength)
          fun s _ => dhRatchetStep S s header.ratchetPublicKey fresh
      else (s, .ok ())
    andThen ratcheted fun s _ => takeFromChain S s header.messageNumber

/-- `decrypt` selects a key, stores everything, and only then tries the ciphertext. -/
theorem decrypt_eq_selectKey (s : RatchetState PublicKey SecretKey Key)
    (header : MessageHeader PublicKey) (ciphertext ad : List UInt8)
    (fresh : PublicKey × SecretKey) :
    decrypt S s header ciphertext ad fresh =
      andThen (selectKey S s header fresh)
        fun s key => (s, decryptWithKey S key ciphertext ad) := by
  cases hit : s.skippedKeys.lookup (header.ratchetPublicKey,header.messageNumber) with
  | some key => simp only [decrypt, selectKey, hit, andThen_ok]
  | none =>
    simp only [decrypt, selectKey, takeFromChain, hit, andThen_assoc]
    congr 1
    funext s1 _
    congr 1
    funext s2 _
    cases s2.receivingChainKey <;> rfl

/-- The cache without the key just taken out of it. -/
@[simps] def takeOut (s : RatchetState PublicKey SecretKey Key) (id : PublicKey × UInt32) :
    RatchetState PublicKey SecretKey Key :=
  { s with skippedKeys := s.skippedKeys.erase id }

/-- The loop together with the counter write that follows it. -/
@[simps] def skipTo (s : RatchetState PublicKey SecretKey Key) (pk : PublicKey) (ck : Key)
    (n : UInt32) : RatchetState PublicKey SecretKey Key :=
  let count := (n-s.recvMessageNumber).toNat
  { s with
    skippedKeys := (cacheSkipped S pk count s.recvMessageNumber ck s.skippedKeys).2
    receivingChainKey := some (chainKey S ck count)
    recvMessageNumber := n }

/-- The chain advanced past number `n`, its key taken out. -/
@[simps] def advance (s : RatchetState PublicKey SecretKey Key) (pk : PublicKey) (ck : Key)
    (n : UInt32) : RatchetState PublicKey SecretKey Key :=
  { skipTo S s pk ck n with
    receivingChainKey := some (chainKey S ck ((n-s.recvMessageNumber).toNat+1))
    recvMessageNumber := n+1 }

/-- The writes `dhRatchetStep` makes before anything can fail. -/
@[simps] def relabel (s : RatchetState PublicKey SecretKey Key) (pk : PublicKey) :
    RatchetState PublicKey SecretKey Key :=
  { s with
    previousChainLength := s.sendMessageNumber, sendMessageNumber := 0,
    recvMessageNumber := 0, remoteRatchetKey := some pk }

@[simps] def recvStep (s : RatchetState PublicKey SecretKey Key) (dhRecv : Key) :
    RatchetState PublicKey SecretKey Key :=
  { s with
    rootKey := (kdfRk S s.rootKey dhRecv).1
    receivingChainKey := some (kdfRk S s.rootKey dhRecv).2 }

@[simps] def sendStep (s : RatchetState PublicKey SecretKey Key) (fresh : PublicKey × SecretKey)
    (dhSend : Key) : RatchetState PublicKey SecretKey Key :=
  { s with
    rootKey := (kdfRk S s.rootKey dhSend).1
    sendingChainKey := some (kdfRk S s.rootKey dhSend).2
    sendingKeypair := some fresh }

/-- What skipping in the chain about to be left can come to, short of an error. -/
inductive CurrentSkipped (s : RatchetState PublicKey SecretKey Key) (n : UInt32) :
    RatchetState PublicKey SecretKey Key → Prop
  | nothing (h : s.receivingChainKey = none ∨ s.remoteRatchetKey = none ∨
      n.toNat < s.recvMessageNumber.toNat) : CurrentSkipped s n s
  | skipped {ck : Key} {pk : PublicKey} (chain : s.receivingChainKey = some ck)
      (remote : s.remoteRatchetKey = some pk)
      (low : s.recvMessageNumber.toNat ≤ n.toNat)
      (high : n.toNat ≤ s.recvMessageNumber.toNat+1000) :
      CurrentSkipped s n (skipTo S s pk ck n)

/-- The checks made before the first write of a call that misses the cache. -/
def rejectsEarly (s : RatchetState PublicKey SecretKey Key)
    (header : MessageHeader PublicKey) : Prop :=
  if needRatchet s header.ratchetPublicKey then
    s.receivingChainKey.isSome ∧ s.remoteRatchetKey.isSome ∧
      s.recvMessageNumber.toNat+1000 < header.previousChainLength.toNat
  else header.messageNumber.toNat < s.recvMessageNumber.toNat ∨
    s.recvMessageNumber.toNat+1000 < header.messageNumber.toNat ∨
    s.receivingChainKey = none

instance (s : RatchetState PublicKey SecretKey Key) (header : MessageHeader PublicKey) :
    Decidable (rejectsEarly s header) :=
  inferInstanceAs (Decidable (ite _ _ _))

/-- Both exponentiations of a ratchet step towards `theirPk` succeed. -/
def exchangesSucceed (s : RatchetState PublicKey SecretKey Key) (theirPk : PublicKey)
    (fresh : PublicKey × SecretKey) : Bool :=
  match s.sendingKeypair with
  | none => false
  | some (_, sk) => (S.scalarmult sk theirPk).isSome && (S.scalarmult fresh.2 theirPk).isSome

inductive Selection (s : RatchetState PublicKey SecretKey Key)
    (header : MessageHeader PublicKey) (fresh : PublicKey × SecretKey) :
    RatchetState PublicKey SecretKey Key × Result Key → Prop
  | cached {key : Key}
      (hit : s.skippedKeys.lookup (header.ratchetPublicKey,header.messageNumber) = some key) :
      Selection s header fresh
        (takeOut s (header.ratchetPublicKey,header.messageNumber), .ok key)
  | rejected (e : CryptoError)
      (miss : s.skippedKeys.lookup (header.ratchetPublicKey,header.messageNumber) = none)
      (early : rejectsEarly s header) : Selection s header fresh (s, .error e)
  | inChain {ck : Key}
      (miss : s.skippedKeys.lookup (header.ratchetPublicKey,header.messageNumber) = none)
      (same : s.remoteRatchetKey = some header.ratchetPublicKey)
      (chain : s.receivingChainKey = some ck)
      (low : s.recvMessageNumber.toNat ≤ header.messageNumber.toNat)
      (high : header.messageNumber.toNat ≤ s.recvMessageNumber.toNat+1000) :
      Selection s header fresh (advance S s header.ratchetPublicKey ck header.messageNumber,
        .ok (messageKey S ck (header.messageNumber.toNat-s.recvMessageNumber.toNat)))
  | noKeypair {s1 : RatchetState PublicKey SecretKey Key} (e : CryptoError)
      (miss : s.skippedKeys.lookup (header.ratchetPublicKey,header.messageNumber) = none)
      (need : needRatchet s header.ratchetPublicKey = true)
      (skipped : CurrentSkipped S s header.previousChainLength s1)
      (noPair : s1.sendingKeypair = none) :
      Selection s header fresh (relabel s1 header.ratchetPublicKey, .error e)
  | dhRecvFailed {s1 : RatchetState PublicKey SecretKey Key} {pk : PublicKey} {sk : SecretKey}
      (e : CryptoError)
      (miss : s.skippedKeys.lookup (header.ratchetPublicKey,header.messageNumber) = none)
      (need : needRatchet s header.ratchetPublicKey = true)
      (skipped : CurrentSkipped S s header.previousChainLength s1)
      (pair : s1.sendingKeypair = some (pk,sk))
      (dh : S.scalarmult sk header.ratchetPublicKey = none) :
      Selection s header fresh (relabel s1 header.ratchetPublicKey, .error e)
  | dhSendFailed {s1 : RatchetState PublicKey SecretKey Key} {pk : PublicKey} {sk : SecretKey}
      {d : Key} (e : CryptoError)
      (miss : s.skippedKeys.lookup (header.ratchetPublicKey,header.messageNumber) = none)
      (need : needRatchet s header.ratchetPublicKey = true)
      (skipped : CurrentSkipped S s header.previousChainLength s1)
      (pair : s1.sendingKeypair = some (pk,sk))
      (dh : S.scalarmult sk header.ratchetPublicKey = some d)
      (dh' : S.scalarmult fresh.2 header.ratchetPublicKey = none) :
      Selection s header fresh
        (recvStep S (relabel s1 header.ratchetPublicKey) d, .error e)
  | tooFar {s1 : RatchetState PublicKey SecretKey Key} {pk : PublicKey} {sk : SecretKey}
      {d d' : Key} (e : CryptoError)
      (miss : s.skippedKeys.lookup (header.ratchetPublicKey,header.messageNumber) = none)
      (need : needRatchet s header.ratchetPublicKey = true)
      (skipped : CurrentSkipped S s header.previousChainLength s1)
      (pair : s1.sendingKeypair = some (pk,sk))
      (dh : S.scalarmult sk header.ratchetPublicKey = some d)
      (dh' : S.scalarmult fresh.2 header.ratchetPublicKey = some d')
      (far : 1000 < header.messageNumber.toNat) :
      Selection s header fresh
        (sendStep S (recvStep S (relabel s1 header.ratchetPublicKey) d) fresh d', .error e)
  | ratcheted {s1 : RatchetState PublicKey SecretKey Key} {pk : PublicKey} {sk : SecretKey}
      {d d' : Key}
      (miss : s.skippedKeys.lookup (header.ratchetPublicKey,header.messageNumber) = none)
      (need : needRatchet s header.ratchetPublicKey = true)
      (skipped : CurrentSkipped S s header.previousChainLength s1)
      (pair : s1.sendingKeypair = some (pk,sk))
      (dh : S.scalarmult sk header.ratchetPublicKey = some d)
      (dh' : S.scalarmult fresh.2 header.ratchetPublicKey = some d')
      (near : header.messageNumber.toNat ≤ 1000) :
      Selection s header fresh
        (advance S (sendStep S (recvStep S (relabel s1 header.ratchetPublicKey) d) fresh d')
          header.ratchetPublicKey (kdfRk S s1.rootKey d).2 header.messageNumber,
        .ok (messageKey S (kdfRk S s1.rootKey d).2 header.messageNumber.toNat))

theorem skip_current_cases (s : RatchetState PublicKey SecretKey Key) (n : UInt32) :
    (∃ s1, CurrentSkipped S s n s1 ∧ skipMessageKeysForCurrentChain S s n = (s1, .ok ())) ∨
    (s.receivingChainKey.isSome ∧ s.remoteRatchetKey.isSome ∧
      s.recvMessageNumber.toNat+1000 < n.toNat ∧ skipMessageKeysForCurrentChain S s n =
        (s, .error (.ratchetError "too many skipped messages"))) := by
  unfold skipMessageKeysForCurrentChain
  cases hck : s.receivingChainKey with
  | none => exact Or.inl ⟨s,.nothing (Or.inl hck),rfl⟩
  | some ck =>
    cases hpk : s.remoteRatchetKey with
    | none => exact Or.inl ⟨s,.nothing (Or.inr (Or.inl hpk)),rfl⟩
    | some pk =>
      by_cases hn : n < s.recvMessageNumber
      · have hlt := UInt32.lt_iff_toNat_lt.mp hn
        exact Or.inl ⟨s,.nothing (Or.inr (Or.inr hlt)),by simp only [if_pos hn]⟩
      · have hle := UInt32.le_iff_toNat_le.mp (UInt32.not_lt.mp hn)
        simp only [if_neg hn]
        by_cases hfar : n-s.recvMessageNumber > MAX_SKIP
        · rw [if_pos hfar]
          exact Or.inr ⟨rfl,rfl,(not_skip_too_far hn).mp hfar,rfl⟩
        · rw [if_neg hfar]
          rw [not_skip_too_far hn] at hfar
          refine Or.inl ⟨_,.skipped hck hpk hle (by omega),?_⟩
          simp only [skipTo, cacheSkipped_fst, hpk]

theorem take_from_chain_cases (s : RatchetState PublicKey SecretKey Key) (n : UInt32)
    (pk : PublicKey) (remote : s.remoteRatchetKey = some pk) :
    (∃ ck, s.receivingChainKey = some ck ∧ s.recvMessageNumber.toNat ≤ n.toNat ∧
      n.toNat ≤ s.recvMessageNumber.toNat+1000 ∧ takeFromChain S s n =
        (advance S s pk ck n, .ok (messageKey S ck (n.toNat-s.recvMessageNumber.toNat)))) ∨
    (∃ e, (n.toNat < s.recvMessageNumber.toNat ∨ s.recvMessageNumber.toNat+1000 < n.toNat ∨
      s.receivingChainKey = none) ∧ takeFromChain S s n = (s, .error e)) := by
  unfold takeFromChain skipMessageKeys
  by_cases hn : n < s.recvMessageNumber
  · exact Or.inr ⟨_,Or.inl (UInt32.lt_iff_toNat_lt.mp hn),by rw [if_pos hn]; rfl⟩
  · have hr := UInt32.not_lt.mp hn
    have hle := UInt32.le_iff_toNat_le.mp hr
    rw [if_neg hn]
    by_cases hfar : n-s.recvMessageNumber > MAX_SKIP
    · rw [if_pos hfar]
      exact Or.inr ⟨_,Or.inr (Or.inl ((not_skip_too_far hn).mp hfar)),rfl⟩
    · rw [if_neg hfar, remote]
      rw [not_skip_too_far hn] at hfar
      cases hck : s.receivingChainKey with
      | none => exact Or.inr ⟨_,Or.inr (Or.inr rfl),rfl⟩
      | some ck =>
        refine Or.inl ⟨ck,rfl,hle,by omega,?_⟩
        simp only [andThen_ok, advance, skipTo, cacheSkipped_fst, messageKey, chainKey, remote,
          UInt32.toNat_sub_of_le _ _ hr]

omit [DecidableEq PublicKey] in
theorem dh_ratchet_step_done {s : RatchetState PublicKey SecretKey Key}
    {pair fresh : PublicKey × SecretKey} {theirPk : PublicKey} {d d' : Key}
    (hpair : s.sendingKeypair = some pair) (hdh : S.scalarmult pair.2 theirPk = some d)
    (hdh' : S.scalarmult fresh.2 theirPk = some d') :
    dhRatchetStep S s theirPk fresh =
      (sendStep S (recvStep S (relabel s theirPk) d) fresh d', .ok ()) := by
  simp only [dhRatchetStep, dhExchange, hpair, hdh, hdh', relabel, recvStep, sendStep]

omit [DecidableEq PublicKey] in
theorem dh_ratchet_step_cases (s : RatchetState PublicKey SecretKey Key)
    (theirPk : PublicKey) (fresh : PublicKey × SecretKey) :
    (∃ e, s.sendingKeypair = none ∧ dhRatchetStep S s theirPk fresh =
      (relabel s theirPk, .error e)) ∨
    (∃ pk sk e, s.sendingKeypair = some (pk,sk) ∧ S.scalarmult sk theirPk = none ∧
      dhRatchetStep S s theirPk fresh = (relabel s theirPk, .error e)) ∨
    (∃ pk sk d e, s.sendingKeypair = some (pk,sk) ∧ S.scalarmult sk theirPk = some d ∧
      S.scalarmult fresh.2 theirPk = none ∧ dhRatchetStep S s theirPk fresh =
        (recvStep S (relabel s theirPk) d, .error e)) ∨
    (∃ pk sk d d', s.sendingKeypair = some (pk,sk) ∧ S.scalarmult sk theirPk = some d ∧
      S.scalarmult fresh.2 theirPk = some d' ∧ dhRatchetStep S s theirPk fresh =
        (sendStep S (recvStep S (relabel s theirPk) d) fresh d', .ok ())) := by
  cases hpair : s.sendingKeypair with
  | none =>
    exact Or.inl ⟨.ratchetError "no sending keypair",rfl,
      by simp only [dhRatchetStep, hpair, relabel]⟩
  | some pair =>
    obtain ⟨pk,sk⟩ := pair
    cases hdh : S.scalarmult sk theirPk with
    | none =>
      exact Or.inr (Or.inl ⟨pk,sk,.ratchetError "DH failed",rfl,hdh,
        by simp only [dhRatchetStep, dhExchange, hpair, hdh, relabel]⟩)
    | some d =>
      cases hdh' : S.scalarmult fresh.2 theirPk with
      | none =>
        exact Or.inr (Or.inr (Or.inl ⟨pk,sk,d,.ratchetError "DH failed",rfl,hdh,rfl,
          by simp only [dhRatchetStep, dhExchange, hpair, hdh, hdh', relabel, recvStep]⟩))
      | some d' =>
        exact Or.inr (Or.inr (Or.inr ⟨pk,sk,d,d',rfl,hdh,rfl,
          dh_ratchet_step_done S hpair hdh hdh'⟩))

omit [DecidableEq PublicKey] in
theorem exchangesSucceed_iff {s : RatchetState PublicKey SecretKey Key} {pk : PublicKey}
    {sk : SecretKey} (pair : s.sendingKeypair = some (pk,sk)) (theirPk : PublicKey)
    (fresh : PublicKey × SecretKey) : exchangesSucceed S s theirPk fresh = true ↔
      (S.scalarmult sk theirPk).isSome ∧ (S.scalarmult fresh.2 theirPk).isSome := by
  simp only [exchangesSucceed, pair, Bool.and_eq_true]

theorem needRatchet_iff (s : RatchetState PublicKey SecretKey Key) (pk : PublicKey) :
    needRatchet s pk = true ↔ s.remoteRatchetKey ≠ some pk := by
  unfold needRatchet
  cases s.remoteRatchetKey <;> simp

theorem needRatchet_eq_false {s : RatchetState PublicKey SecretKey Key} {pk : PublicKey} :
    needRatchet s pk = false ↔ s.remoteRatchetKey = some pk := by
  rw [← Bool.not_eq_true, needRatchet_iff, not_not]

/-- What it takes to pass the checks under the key of the chain. -/
theorem not_rejects_in_chain {s : RatchetState PublicKey SecretKey Key}
    {header : MessageHeader PublicKey} (same : s.remoteRatchetKey = some header.ratchetPublicKey) :
    ¬rejectsEarly s header ↔ s.recvMessageNumber.toNat ≤ header.messageNumber.toNat ∧
      header.messageNumber.toNat ≤ s.recvMessageNumber.toNat+1000 ∧
      s.receivingChainKey.isSome := by
  rw [rejectsEarly, if_neg (fun h => (needRatchet_iff _ _).mp h same), not_or, not_or,
    Nat.not_lt, Nat.not_lt, Option.isSome_iff_ne_none]

variable {S}

/-- Skipping touches the cache and the receiving side of the chain only. -/
theorem CurrentSkipped.frame {s s1 : RatchetState PublicKey SecretKey Key} {n : UInt32}
    (h : CurrentSkipped S s n s1) :
    s1.rootKey = s.rootKey ∧ s1.sendingChainKey = s.sendingChainKey ∧
    s1.sendingKeypair = s.sendingKeypair ∧ s1.remoteRatchetKey = s.remoteRatchetKey ∧
    s1.sendMessageNumber = s.sendMessageNumber ∧
    s1.previousChainLength = s.previousChainLength := by
  cases h <;> exact ⟨rfl,rfl,rfl,rfl,rfl,rfl⟩

theorem CurrentSkipped.pair {s s1 : RatchetState PublicKey SecretKey Key} {n : UInt32}
    (h : CurrentSkipped S s n s1) : s1.sendingKeypair = s.sendingKeypair := h.frame.2.2.1

section Exchanges
variable {s s1 : RatchetState PublicKey SecretKey Key} {n : UInt32}
  (h : CurrentSkipped S s n s1) {pk : PublicKey} {sk : SecretKey} {theirPk : PublicKey}
  {fresh : PublicKey × SecretKey}
include h

theorem CurrentSkipped.no_keypair (noPair : s1.sendingKeypair = none) :
    exchangesSucceed S s theirPk fresh = false := by
  rw [exchangesSucceed, ← h.pair, noPair]

theorem CurrentSkipped.exchange_failed (pair : s1.sendingKeypair = some (pk,sk))
    (dh : S.scalarmult sk theirPk = none ∨ S.scalarmult fresh.2 theirPk = none) :
    exchangesSucceed S s theirPk fresh = false := by
  rw [← Bool.not_eq_true, exchangesSucceed_iff S (h.pair.symm.trans pair)]
  rcases dh with dh | dh <;> simp [dh]

theorem CurrentSkipped.exchanges_done {d d' : Key} (pair : s1.sendingKeypair = some (pk,sk))
    (dh : S.scalarmult sk theirPk = some d) (dh' : S.scalarmult fresh.2 theirPk = some d') :
    exchangesSucceed S s theirPk fresh = true := by
  rw [exchangesSucceed_iff S (h.pair.symm.trans pair), dh, dh']
  exact ⟨rfl,rfl⟩

end Exchanges

theorem CurrentSkipped.not_early {s s1 : RatchetState PublicKey SecretKey Key}
    {header : MessageHeader PublicKey} (need : needRatchet s header.ratchetPublicKey = true)
    (h : CurrentSkipped S s header.previousChainLength s1) : ¬rejectsEarly s header := by
  unfold rejectsEarly
  rw [if_pos need]
  rintro ⟨hck,hpk,hfar⟩
  cases h with
  | nothing h =>
    rcases h with h | h | h
    · simp [h] at hck
    · simp [h] at hpk
    · omega
  | skipped _ _ _ high => omega

variable (S)

/-- Everything a call can do before it tries a ciphertext. -/
theorem selection (s : RatchetState PublicKey SecretKey Key)
    (header : MessageHeader PublicKey) (fresh : PublicKey × SecretKey) :
    Selection S s header fresh (selectKey S s header fresh) := by
  cases hit : s.skippedKeys.lookup (header.ratchetPublicKey,header.messageNumber) with
  | some key =>
    simp only [selectKey, hit]
    exact .cached hit
  | none =>
    cases need : needRatchet s header.ratchetPublicKey with
    | false =>
      have same := needRatchet_eq_false.mp need
      simp only [selectKey, hit, need, Bool.false_eq_true, if_false, andThen_ok]
      rcases take_from_chain_cases S s header.messageNumber _ same with
        ⟨ck,hck,hle,hnear,heq⟩ | ⟨e,hearly,heq⟩ <;> rw [heq]
      · exact .inChain hit same hck hle hnear
      · exact .rejected e hit (by simpa only [rejectsEarly, need, Bool.false_eq_true, if_false])
    | true =>
      simp only [selectKey, hit, need, if_true]
      rcases skip_current_cases S s header.previousChainLength with
        ⟨s1,hs1,heq⟩ | ⟨hck,hpk,hfar,heq⟩ <;> rw [heq]
      · rw [andThen_ok]
        rcases dh_ratchet_step_cases S s1 header.ratchetPublicKey fresh with
          ⟨e,hpair,h⟩ | ⟨pk,sk,e,hpair,hdh,h⟩ | ⟨pk,sk,d,e,hpair,hdh,hdh',h⟩ |
          ⟨pk,sk,d,d',hpair,hdh,hdh',h⟩ <;> rw [h]
        · exact .noKeypair e hit need hs1 hpair
        · exact .dhRecvFailed e hit need hs1 hpair hdh
        · exact .dhSendFailed e hit need hs1 hpair hdh hdh'
        · rw [andThen_ok]
          rcases take_from_chain_cases S
            (sendStep S (recvStep S (relabel s1 header.ratchetPublicKey) d) fresh d')
            header.messageNumber header.ratchetPublicKey rfl with
            ⟨ck,hck,hle,hnear,heq⟩ | ⟨e,hearly,heq⟩ <;> rw [heq]
          · obtain rfl : (kdfRk S s1.rootKey d).2 = ck := Option.some.inj hck
            refine .ratcheted hit need hs1 hpair hdh hdh' ?_
            simpa using hnear
          · exact .tooFar e hit need hs1 hpair hdh hdh' (by simpa using hearly)
      · refine .rejected _ hit ?_
        simp only [rejectsEarly, need, if_true]
        exact ⟨hck,hpk,hfar⟩

end Receiving
end Vaultex.DoubleRatchet
