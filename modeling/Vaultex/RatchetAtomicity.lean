import Vaultex.Symbolic

/-!
# What a failed decryption leaves behind

`decrypt` stores as it goes and has no way back. A call that ends in an error
leaves the state alone exactly when one of the checks before the first write
stops it; from the first write on, only a ciphertext that opens is harmless.
-/

set_option autoImplicit false

namespace Vaultex.DoubleRatchet
variable {PublicKey SecretKey Key : Type} (S : Suite PublicKey SecretKey Key)
variable [DecidableEq PublicKey]

/-- The message key at the position a header names, read off the key schedule. -/
def headerKey (s : RatchetState PublicKey SecretKey Key) (header : MessageHeader PublicKey)
    (fresh : PublicKey × SecretKey) : Option Key :=
  match s.skippedKeys.lookup (header.ratchetPublicKey,header.messageNumber) with
  | some key => some key
  | none =>
    if needRatchet s header.ratchetPublicKey then
      match s.sendingKeypair with
      | none => none
      | some (_, sk) =>
        match S.scalarmult sk header.ratchetPublicKey,
            S.scalarmult fresh.2 header.ratchetPublicKey with
        | some d, some _ =>
          if header.messageNumber.toNat ≤ 1000 then
            some (messageKey S (kdfRk S s.rootKey d).2 header.messageNumber.toNat)
          else none
        | _, _ => none
    else s.receivingChainKey.map fun ck =>
      messageKey S ck (header.messageNumber.toNat-s.recvMessageNumber.toNat)

/-- A check fires before the first write. -/
def stopsInTime (s : RatchetState PublicKey SecretKey Key)
    (header : MessageHeader PublicKey) : Prop :=
  s.skippedKeys.lookup (header.ratchetPublicKey,header.messageNumber) = none ∧
    rejectsEarly s header

omit [DecidableEq PublicKey] in
theorem state_ne_of_remote {s s' : RatchetState PublicKey SecretKey Key} {pk : PublicKey}
    (h : s.remoteRatchetKey ≠ some pk) (h' : s'.remoteRatchetKey = some pk) : s' ≠ s := by
  rintro rfl
  exact h h'

theorem takeOut_ne {s : RatchetState PublicKey SecretKey Key} {id : PublicKey × UInt32}
    {key : Key} (hit : s.skippedKeys.lookup id = some key) : takeOut s id ≠ s := by
  intro h
  have hl := congrArg (fun t => t.skippedKeys.lookup id) h
  simp only [takeOut_skippedKeys, Finmap.lookup_erase, hit] at hl
  contradiction

/-- Taking a key out of the chain moves the counter, also where it wraps. -/
theorem advance_ne {s : RatchetState PublicKey SecretKey Key} {pk : PublicKey} {ck : Key}
    {n : UInt32} (low : s.recvMessageNumber.toNat ≤ n.toNat)
    (high : n.toNat ≤ s.recvMessageNumber.toNat+1000) : advance S s pk ck n ≠ s := by
  intro h
  have hn := congrArg (fun t => t.recvMessageNumber.toNat) h
  simp only [advance_recvMessageNumber, UInt32.toNat_add, UInt32.reduceToNat] at hn
  have hlt := n.toNat_lt
  omega

/-- A call stops in time, or writes: then the key schedule says whether it gets
as far as a message key, and which. -/
theorem selectKey_cases (s : RatchetState PublicKey SecretKey Key)
    (header : MessageHeader PublicKey) (fresh : PublicKey × SecretKey) :
    (stopsInTime s header ∧ (selectKey S s header fresh).1 = s ∧
      ∃ e, (selectKey S s header fresh).2 = .error e) ∨
    (¬stopsInTime s header ∧ (selectKey S s header fresh).1 ≠ s ∧
      ((∃ key, headerKey S s header fresh = some key ∧
        (selectKey S s header fresh).2 = .ok key) ∨
      (headerKey S s header fresh = none ∧ ∃ e, (selectKey S s header fresh).2 = .error e))) := by
  have hs := selection S s header fresh
  generalize selectKey S s header fresh = r at hs
  cases hs with
  | cached hit =>
    refine Or.inr ⟨fun h => ?_,takeOut_ne hit,Or.inl ⟨_,?_,rfl⟩⟩
    · rw [stopsInTime, hit] at h
      simp at h
    · simp only [headerKey, hit]
  | rejected e miss early => exact Or.inl ⟨⟨miss,early⟩,rfl,e,rfl⟩
  | inChain miss same chain low high =>
    have hneed := needRatchet_eq_false.mpr same
    refine Or.inr ⟨fun h => ?_,advance_ne S low high,Or.inl ⟨_,?_,rfl⟩⟩
    · exact (not_rejects_in_chain same).mpr ⟨low,high,by rw [chain]; rfl⟩ h.2
    · simp only [headerKey, miss, hneed, chain, Bool.false_eq_true, if_false, Option.map_some]
  | noKeypair e miss need skipped noPair =>
    have hpair := skipped.pair.symm.trans noPair
    refine Or.inr ⟨fun h => skipped.not_early need h.2,?_,Or.inr ⟨?_,e,rfl⟩⟩
    · exact state_ne_of_remote ((needRatchet_iff _ _).mp need) rfl
    · simp only [headerKey, miss, need, hpair, if_true]
  | dhRecvFailed e miss need skipped pair dh =>
    have hpair := skipped.pair.symm.trans pair
    refine Or.inr ⟨fun h => skipped.not_early need h.2,?_,Or.inr ⟨?_,e,rfl⟩⟩
    · exact state_ne_of_remote ((needRatchet_iff _ _).mp need) rfl
    · simp only [headerKey, miss, need, hpair, dh, if_true]
  | dhSendFailed e miss need skipped pair dh dh' =>
    have hpair := skipped.pair.symm.trans pair
    refine Or.inr ⟨fun h => skipped.not_early need h.2,?_,Or.inr ⟨?_,e,rfl⟩⟩
    · exact state_ne_of_remote ((needRatchet_iff _ _).mp need) rfl
    · simp only [headerKey, miss, need, hpair, dh, dh', if_true]
  | tooFar e miss need skipped pair dh dh' far =>
    have hpair := skipped.pair.symm.trans pair
    refine Or.inr ⟨fun h => skipped.not_early need h.2,?_,Or.inr ⟨?_,e,rfl⟩⟩
    · exact state_ne_of_remote ((needRatchet_iff _ _).mp need) rfl
    · simp only [headerKey, miss, need, hpair, dh, dh', if_true, if_neg (Nat.not_le.mpr far)]
  | ratcheted miss need skipped pair dh dh' near =>
    have hpair := skipped.pair.symm.trans pair
    refine Or.inr ⟨fun h => skipped.not_early need h.2,?_,Or.inl ⟨_,?_,rfl⟩⟩
    · exact state_ne_of_remote ((needRatchet_iff _ _).mp need) rfl
    · simp only [headerKey, miss, need, hpair, dh, dh', if_true, if_pos near, skipped.frame.1]

/-- Failure leaves every reachable state as it was. -/
def FailureAtomic : Prop :=
  ∀ s, Reachable S s → ∀ header ciphertext ad fresh e,
    (decrypt S s header ciphertext ad fresh).2 = .error e →
      (decrypt S s header ciphertext ad fresh).1 = s

/-- A call, in any state, leaves the state alone if it fails, exactly when it is
stopped in time or the ciphertext opens under the key its header names. -/
theorem decrypt_atomic_iff (s : RatchetState PublicKey SecretKey Key)
    (header : MessageHeader PublicKey) (ciphertext ad : List UInt8)
    (fresh : PublicKey × SecretKey) :
    (∀ e, (decrypt S s header ciphertext ad fresh).2 = .error e →
      (decrypt S s header ciphertext ad fresh).1 = s) ↔
    stopsInTime s header ∨ ∃ key plaintext, headerKey S s header fresh = some key ∧
      decryptWithKey S key ciphertext ad = .ok plaintext := by
  simp only [decrypt_state, decrypt_result]
  rcases selectKey_cases S s header fresh with
    ⟨hstop,hsame,-⟩ | ⟨hstop,hne,⟨key,hkey,hok⟩ | ⟨hnone,e,herr⟩⟩
  · exact iff_of_true (fun _ _ => hsame) (Or.inl hstop)
  · simp only [hok, hkey, hne, hstop, Except.bind, imp_false, false_or, Option.some.injEq]
    constructor
    · intro h
      cases hp : decryptWithKey S key ciphertext ad with
      | error e => exact absurd hp (h e)
      | ok p => exact ⟨key,p,rfl,hp⟩
    · rintro ⟨_,p,rfl,hp⟩ e he
      rw [hp] at he
      contradiction
  · refine iff_of_false (fun h => hne (h e ?_)) ?_
    · rw [herr]
      rfl
    · rintro (h | ⟨_,_,h,-⟩)
      · exact hstop h
      · rw [hnone] at h
        contradiction

/-- A responder that has received nothing yet takes an empty ciphertext under a
made-up ratchet key: the call fails and the session has ratcheted. -/
theorem failure_not_atomic : ¬FailureAtomic Symbolic.sample := by
  intro h
  have hs := h (initReceiver (.secret 0) (1,1)) ⟨_,⟨_,.receiver _⟩,[],rfl⟩ ⟨2,0,0⟩ [] [] (3,3)
    .decryptionFailed (by decide)
  exact absurd (congrArg RatchetState.remoteRatchetKey hs) (by decide)

end Vaultex.DoubleRatchet
