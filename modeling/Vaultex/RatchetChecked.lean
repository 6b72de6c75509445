import Vaultex.Checked
import Vaultex.RatchetTransparency

/-!
# The ratchet in a checked build

The calls once more, with the panics of a checked build: an addition or a
subtraction on `u32` that leaves its range is `none`. Both subtractions stand
behind a comparison; the two additions stand behind nothing.
-/

set_option autoImplicit false

namespace Vaultex.DoubleRatchet
variable {PublicKey SecretKey Key : Type} (S : Suite PublicKey SecretKey Key)

/-- The `?` operator, where the call before it may have panicked. -/
def andThenChecked {σ α β : Type} (r : Option (σ × Result α))
    (f : σ → α → Option (σ × Result β)) : Option (σ × Result β) :=
  match r with
  | none => none
  | some (s, .ok a) => f s a
  | some (s, .error e) => some (s, .error e)

def encryptChecked (s : RatchetState PublicKey SecretKey Key)
    (plaintext associatedData : List UInt8) (nonce : Nonce) :
    Option (RatchetState PublicKey SecretKey Key × Result (MessageHeader PublicKey × List UInt8)) :=
  match s.sendingChainKey with
  | none => some (s, .error (.ratchetError "no sending chain key"))
  | some ck =>
    let (newCk, msgKey) := kdfCk S ck
    let s := { s with sendingChainKey := some newCk }
    match s.sendingKeypair with
    | none => some (s, .error (.ratchetError "no sending keypair"))
    | some (sendingPk, _) =>
      let header : MessageHeader PublicKey := {
        ratchetPublicKey := sendingPk
        previousChainLength := s.previousChainLength
        messageNumber := s.sendMessageNumber }
      (Checked.add s.sendMessageNumber 1).map fun next =>
        let s := { s with sendMessageNumber := next }
        match AesGcm.encrypt S.toAead msgKey plaintext (some associatedData) nonce with
        | .error e => (s, .error e)
        | .ok (nonce, ciphertext) => (s, .ok (header, nonce++ciphertext))

section Receiving
variable [DecidableEq PublicKey]

def skipMessageKeysForCurrentChainChecked (s : RatchetState PublicKey SecretKey Key)
    (untilNumber : UInt32) : Option (RatchetState PublicKey SecretKey Key × Result Unit) :=
  match s.receivingChainKey with
  | none => some (s, .ok ())
  | some ck =>
    match s.remoteRatchetKey with
    | none => some (s, .ok ())
    | some remotePk =>
      if untilNumber < s.recvMessageNumber then some (s, .ok ())
      else (Checked.sub untilNumber s.recvMessageNumber).map fun skipCount =>
        if skipCount > MAX_SKIP then (s, .error (.ratchetError "too many skipped messages"))
        else
          let (currentCk, skippedKeys) := cacheSkipped S remotePk
            (untilNumber-s.recvMessageNumber).toNat s.recvMessageNumber ck s.skippedKeys
          ({ s with
              skippedKeys, receivingChainKey := some currentCk,
              recvMessageNumber := untilNumber }, .ok ())

def skipMessageKeysChecked (s : RatchetState PublicKey SecretKey Key) (untilNumber : UInt32) :
    Option (RatchetState PublicKey SecretKey Key × Result Unit) :=
  if untilNumber < s.recvMessageNumber then
    some (s, .error (.ratchetError "message number already consumed"))
  else (Checked.sub untilNumber s.recvMessageNumber).map fun skipCount =>
    if skipCount > MAX_SKIP then (s, .error (.ratchetError "too many skipped messages"))
    else
      match s.remoteRatchetKey with
      | none => (s, .error (.ratchetError "no remote ratchet key"))
      | some remotePk =>
        match s.receivingChainKey with
        | none => (s, .error (.ratchetError "no receiving chain key"))
        | some ck =>
          let (currentCk, skippedKeys) := cacheSkipped S remotePk
            (untilNumber-s.recvMessageNumber).toNat s.recvMessageNumber ck s.skippedKeys
          ({ s with skippedKeys, receivingChainKey := some currentCk }, .ok ())

def decryptChecked (s : RatchetState PublicKey SecretKey Key) (header : MessageHeader PublicKey)
    (ciphertext associatedData : List UInt8) (fresh : PublicKey × SecretKey) :
    Option (RatchetState PublicKey SecretKey Key × Result (List UInt8)) :=
  let id := (header.ratchetPublicKey, header.messageNumber)
  match s.skippedKeys.lookup id with
  | some msgKey =>
    some ({ s with skippedKeys := s.skippedKeys.erase id },
      decryptWithKey S msgKey ciphertext associatedData)
  | none =>
    let ratcheted :=
      if needRatchet s header.ratchetPublicKey then
        andThenChecked (skipMessageKeysForCurrentChainChecked S s header.previousChainLength)
          fun s _ => some (dhRatchetStep S s header.ratchetPublicKey fresh)
      else some (s, .ok ())
    andThenChecked ratcheted fun s _ =>
    andThenChecked (skipMessageKeysChecked S s header.messageNumber) fun s _ =>
    match s.receivingChainKey with
    | none => some (s, .error (.ratchetError "no receiving chain key"))
    | some ck =>
      let (newCk, msgKey) := kdfCk S ck
      (Checked.add header.messageNumber 1).map fun next =>
        ({ s with receivingChainKey := some newCk, recvMessageNumber := next },
          decryptWithKey S msgKey ciphertext associatedData)

def callChecked (s : RatchetState PublicKey SecretKey Key) :
    Call PublicKey SecretKey →
      Option (RatchetState PublicKey SecretKey Key × Outcome PublicKey)
  | .encrypt plaintext ad nonce =>
    (encryptChecked S s plaintext ad nonce).map fun r => (r.1,.sealed r.2)
  | .decrypt header ciphertext ad fresh =>
    (decryptChecked S s header ciphertext ad fresh).map fun r => (r.1,.opened r.2)

end Receiving

/-- The successor of a message number, where it has one. -/
theorem checked_succ (n : UInt32) :
    Checked.add n 1 = if n.toNat+1 < 2^32 then some (n+1) else none := by
  split
  next h => exact Checked.add_eq_some.mpr (succ_toNat h)
  next h => exact Checked.add_eq_none.mpr (Nat.le_of_not_lt h)

theorem checked_skip_count {n r : UInt32} (h : ¬n < r) : Checked.sub n r = some (n-r) := by
  have hle := UInt32.not_lt.mp h
  rw [Checked.sub_eq_some]
  show (n-r).toNat+r.toNat = n.toNat
  rw [UInt32.toNat_sub_of_le _ _ hle]
  exact Nat.sub_add_cancel (UInt32.le_iff_toNat_le.mp hle)

theorem andThenChecked_some {σ α β : Type} (r : σ × Result α)
    {f : σ → α → σ × Result β} {g : σ → α → Option (σ × Result β)}
    (h : ∀ s a, r = (s, .ok a) → g s a = some (f s a)) :
    andThenChecked (some r) g = some (andThen r f) := by
  obtain ⟨s,e | a⟩ := r
  · rfl
  · exact h s a rfl

/-- An encryption panics at the last number of its chain, and there only. -/
theorem encryptChecked_eq (s : RatchetState PublicKey SecretKey Key) (plaintext ad : List UInt8)
    (nonce : Nonce) :
    encryptChecked S s plaintext ad nonce =
      if s.sendingChainKey.isSome ∧ s.sendingKeypair.isSome → s.sendMessageNumber.toNat+1 < 2^32
      then some (encrypt S s plaintext ad nonce) else none := by
  cases chain : s.sendingChainKey with
  | none => simp [encryptChecked, encrypt, chain]
  | some ck =>
    cases pair : s.sendingKeypair with
    | none => simp [encryptChecked, encrypt, chain, pair]
    | some kp =>
      simp only [encryptChecked, encrypt, chain, pair, checked_succ, Option.isSome_some, and_self,
        true_imp_iff]
      by_cases hn : s.sendMessageNumber.toNat+1 < 2^32
      · rw [if_pos hn, if_pos hn]
        rfl
      · rw [if_neg hn, if_neg hn]
        rfl

section Receiving
variable [DecidableEq PublicKey] (s : RatchetState PublicKey SecretKey Key)

theorem skip_current_checked (n : UInt32) :
    skipMessageKeysForCurrentChainChecked S s n =
      some (skipMessageKeysForCurrentChain S s n) := by
  unfold skipMessageKeysForCurrentChainChecked skipMessageKeysForCurrentChain
  cases s.receivingChainKey with
  | none => rfl
  | some ck =>
    cases s.remoteRatchetKey with
    | none => rfl
    | some pk =>
      by_cases hn : n < s.recvMessageNumber
      · simp only [if_pos hn]
      · simp only [if_neg hn, checked_skip_count hn]
        rfl

theorem skip_checked (n : UInt32) :
    skipMessageKeysChecked S s n = some (skipMessageKeys S s n) := by
  unfold skipMessageKeysChecked skipMessageKeys
  by_cases hn : n < s.recvMessageNumber
  · simp only [if_pos hn]
  · rw [if_neg hn, if_neg hn, checked_skip_count hn]
    rfl

/-- What it takes for the skipping to succeed. -/
theorem skip_ok {s s1 : RatchetState PublicKey SecretKey Key} {n : UInt32}
    (h : skipMessageKeys S s n = (s1, .ok ())) :
    s.recvMessageNumber.toNat ≤ n.toNat ∧ n.toNat ≤ s.recvMessageNumber.toNat+1000 ∧
      s.receivingChainKey.isSome := by
  unfold skipMessageKeys at h
  by_cases hn : n < s.recvMessageNumber
  · simp [hn] at h
  · have hle := UInt32.le_iff_toNat_le.mp (UInt32.not_lt.mp hn)
    rw [if_neg hn] at h
    by_cases hfar : n-s.recvMessageNumber > MAX_SKIP
    · simp [hfar] at h
    · rw [if_neg hfar] at h
      rw [not_skip_too_far hn] at hfar
      cases hpk : s.remoteRatchetKey with
      | none => simp [hpk] at h
      | some pk =>
        cases hck : s.receivingChainKey with
        | none => simp [hpk, hck] at h
        | some ck => exact ⟨hle,by omega,rfl⟩

theorem skip_done {pk : PublicKey} {ck : Key} {n : UInt32} (remote : s.remoteRatchetKey = some pk)
    (chain : s.receivingChainKey = some ck) (low : s.recvMessageNumber.toNat ≤ n.toNat)
    (high : n.toNat ≤ s.recvMessageNumber.toNat+1000) :
    ∃ s1, skipMessageKeys S s n = (s1, .ok ()) ∧ s1.receivingChainKey.isSome := by
  have hn : ¬n < s.recvMessageNumber := UInt32.not_lt.mpr (UInt32.le_iff_toNat_le.mpr low)
  have hnear : ¬n-s.recvMessageNumber > MAX_SKIP := by
    rw [not_skip_too_far hn]
    omega
  simp only [skipMessageKeys, if_neg hn, if_neg hnear, remote, chain]
  exact ⟨_,rfl,rfl⟩

omit [DecidableEq PublicKey] in
/-- A ratchet step that succeeds has set the counter back. -/
theorem dh_ratchet_step_recv {theirPk : PublicKey} {fresh : PublicKey × SecretKey}
    {s s1 : RatchetState PublicKey SecretKey Key}
    (h : dhRatchetStep S s theirPk fresh = (s1, .ok ())) : s1.recvMessageNumber = 0 := by
  rcases dh_ratchet_step_cases S s theirPk fresh with
    ⟨e,-,heq⟩ | ⟨pk,sk,e,-,-,heq⟩ | ⟨pk,sk,d,e,-,-,-,heq⟩ | ⟨pk,sk,d,d',-,-,-,heq⟩ <;>
    rw [heq] at h
  · cases h
  · cases h
  · cases h
  · rw [← (Prod.mk.inj h).1]
    rfl

/-- The last part of `decrypt`, in the one build and in the other. -/
theorem take_checked {s : RatchetState PublicKey SecretKey Key} (n : UInt32)
    (ciphertext ad : List UInt8)
    (h : s.recvMessageNumber.toNat ≤ n.toNat → n.toNat ≤ s.recvMessageNumber.toNat+1000 →
      s.receivingChainKey.isSome → n.toNat+1 < 2^32) :
    (andThenChecked (skipMessageKeysChecked S s n) fun s _ =>
      match s.receivingChainKey with
      | none => some (s, .error (.ratchetError "no receiving chain key"))
      | some ck => (Checked.add n 1).map fun next =>
        ({ s with receivingChainKey := some (kdfCk S ck).1, recvMessageNumber := next },
          decryptWithKey S (kdfCk S ck).2 ciphertext ad)) =
    some (andThen (skipMessageKeys S s n) fun s _ =>
      match s.receivingChainKey with
      | none => (s, .error (.ratchetError "no receiving chain key"))
      | some ck =>
        ({ s with receivingChainKey := some (kdfCk S ck).1, recvMessageNumber := n+1 },
          decryptWithKey S (kdfCk S ck).2 ciphertext ad)) := by
  rw [skip_checked]
  apply andThenChecked_some
  intro s1 _ hskip
  obtain ⟨low,high,hchain⟩ := skip_ok S hskip
  cases s1.receivingChainKey with
  | none => rfl
  | some ck => simp only [checked_succ, if_pos (h low high hchain), Option.map_some]

/-- A call of the receiving side panics where it takes the last number there is
out of the chain it stands on, and nowhere else. -/
theorem decryptChecked_eq (header : MessageHeader PublicKey) (ciphertext ad : List UInt8)
    (fresh : PublicKey × SecretKey) :
    decryptChecked S s header ciphertext ad fresh =
      if takesFromChain s header → header.messageNumber.toNat+1 < 2^32
      then some (decrypt S s header ciphertext ad fresh) else none := by
  cases hit : s.skippedKeys.lookup (header.ratchetPublicKey,header.messageNumber) with
  | some key =>
    rw [if_pos (fun h => absurd (hit.symm.trans h.1) (Option.some_ne_none key))]
    simp only [decryptChecked, decrypt, hit]
  | none =>
    cases need : needRatchet s header.ratchetPublicKey with
    | true =>
      -- After a ratchet step the counter is 0, and 1000 its furthest target.
      rw [if_pos (fun h => absurd (needRatchet_eq_false.mp h.2.1) ((needRatchet_iff _ _).mp need))]
      simp only [decryptChecked, decrypt, hit, need, if_true, skip_current_checked]
      rw [andThenChecked_some (skipMessageKeysForCurrentChain S s header.previousChainLength)
        (fun _ _ _ => rfl)]
      apply andThenChecked_some
      intro s1 _ hratcheted
      rcases hskip : skipMessageKeysForCurrentChain S s header.previousChainLength with
        ⟨s0,e | _⟩ <;> rw [hskip] at hratcheted
      · cases hratcheted
      · have hrecv := dh_ratchet_step_recv S hratcheted
        apply take_checked S header.messageNumber ciphertext ad
        intro _ high _
        rw [hrecv] at high
        exact Nat.lt_of_le_of_lt (Nat.succ_le_succ high) (by decide)
    | false =>
      simp only [decryptChecked, decrypt, hit, need, Bool.false_eq_true, if_false]
      by_cases hfits : takesFromChain s header → header.messageNumber.toNat+1 < 2^32
      · rw [if_pos hfits]
        apply take_checked S header.messageNumber ciphertext ad
        intro low high chain
        exact hfits (takes_from_chain_iff.mpr
          ⟨hit,needRatchet_eq_false.mp need,low,high,chain⟩)
      · rw [if_neg hfits]
        obtain ⟨hfrom,hlast⟩ := Classical.not_imp.mp hfits
        obtain ⟨-,hremote,low,high,chain⟩ := takes_from_chain_iff.mp hfrom
        obtain ⟨ck,hck⟩ := Option.isSome_iff_exists.mp chain
        obtain ⟨s1,hskip,hchain⟩ := skip_done S s hremote hck low high
        obtain ⟨ck1,hck1⟩ := Option.isSome_iff_exists.mp hchain
        simp only [andThenChecked, skip_checked, hskip, hck1, checked_succ, if_neg hlast,
          Option.map_none]

end Receiving

end Vaultex.DoubleRatchet
