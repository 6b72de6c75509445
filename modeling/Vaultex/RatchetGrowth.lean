import Mathlib.Order.Bounds.Basic
import Vaultex.RatchetCache

/-!
# How fast the cache can grow

A `decrypt` call stores at most `MAX_SKIP` keys of the chain it leaves and as
many of the chain it comes to, whether or not the ciphertext then opens. Forged
headers, each under a key of its own, store that many every time.
-/

set_option autoImplicit false

namespace Vaultex.DoubleRatchet
variable {PublicKey SecretKey Key : Type} (S : Suite PublicKey SecretKey Key)

/-- How many of the calls are `decrypt` calls. -/
def decrypts (calls : List (Call PublicKey SecretKey)) : ℕ :=
  calls.countP fun
    | .encrypt .. => false
    | .decrypt .. => true

/-- How many keys the chain about to be left may yield. -/
def currentRoom (s : RatchetState PublicKey SecretKey Key) : ℕ :=
  if s.receivingChainKey.isSome then 1000 else 0

/-- A session after so many `decrypt` calls. -/
structure Grown (s : RatchetState PublicKey SecretKey Key) (calls : ℕ) : Prop where
  idle : calls = 0 → s.receivingChainKey = none
  empty : s.receivingChainKey = none → s.skippedKeys = ∅
  size : s.skippedKeys.keys.card ≤ 2000*calls-1000

variable [DecidableEq PublicKey]

section Bound
variable {s : RatchetState PublicKey SecretKey Key} {header : MessageHeader PublicKey}
  {fresh : PublicKey × SecretKey} {calls : ℕ}

theorem labels_card_le (pk : PublicKey) (n : UInt32) (count : ℕ) :
    (labels pk n count).card ≤ count :=
  Finset.card_image_le.trans (Finset.card_range count).le

/-- There is nothing to skip in a chain that is not there, and no more than the check lets. -/
theorem currentLabels_card (hneed : needRatchet s header.ratchetPublicKey = true)
    (hearly : ¬rejectsEarly s header) :
    (currentLabels s header.previousChainLength).card ≤ currentRoom s := by
  rw [rejectsEarly, if_pos hneed] at hearly
  rw [currentLabels, currentRoom]
  cases hchain : s.receivingChainKey with
  | none => exact Nat.le_refl 0
  | some ck =>
    cases hremote : s.remoteRatchetKey with
    | none => exact Nat.zero_le _
    | some pk =>
      have hfar : ¬s.recvMessageNumber.toNat+1000 < header.previousChainLength.toNat :=
        fun hfar => hearly ⟨by rw [hchain]; rfl,by rw [hremote]; rfl,hfar⟩
      simp only [Option.isSome_some, if_true]
      split
      · exact Nat.zero_le _
      · have hcard := labels_card_le pk s.recvMessageNumber
          (header.previousChainLength.toNat-s.recvMessageNumber.toNat)
        omega

/-- One call runs the two loops once each. -/
theorem skippedLabels_card (s : RatchetState PublicKey SecretKey Key)
    (header : MessageHeader PublicKey) (fresh : PublicKey × SecretKey) :
    (skippedLabels S s header fresh).card ≤ currentRoom s+1000 := by
  rw [skippedLabels]
  split
  next => exact Nat.zero_le _
  next hgo =>
    have hearly := fun h => hgo (Or.inr h)
    split
    next hneed =>
      refine (Finset.card_union_le _ _).trans (Nat.add_le_add (currentLabels_card hneed hearly) ?_)
      split
      next hnear => exact (labels_card_le _ _ _).trans hnear.2
      next => exact Nat.zero_le _
    next hsame =>
      rw [rejectsEarly, if_neg hsame] at hearly
      have hnear : ¬s.recvMessageNumber.toNat+1000 < header.messageNumber.toNat :=
        fun hfar => hearly (Or.inr (Or.inl hfar))
      have hcard := labels_card_le header.ratchetPublicKey s.recvMessageNumber
        (header.messageNumber.toNat-s.recvMessageNumber.toNat)
      omega

/-- A call that leaves no receiving chain found none and stored nothing. -/
theorem no_chain_before (hempty : s.receivingChainKey = none → s.skippedKeys = ∅)
    (hnone : (selectKey S s header fresh).1.receivingChainKey = none) :
    (selectKey S s header fresh).1.skippedKeys = ∅ := by
  have hcurrent {s1 : RatchetState PublicKey SecretKey Key} {n : UInt32}
      (hs1 : CurrentSkipped S s n s1) (h : s1.receivingChainKey = none) : s1.skippedKeys = ∅ := by
    cases hs1 with
    | nothing => exact hempty h
    | skipped chain => cases h
  have hs := selection S s header fresh
  generalize selectKey S s header fresh = r at hs hnone
  cases hs with
  | cached hit =>
    rw [hempty hnone, Finmap.lookup_empty] at hit
    contradiction
  | rejected => exact hempty hnone
  | noKeypair e miss need skipped | dhRecvFailed e miss need skipped =>
    have hkept := hcurrent skipped hnone
    exact hkept
  | inChain | dhSendFailed | tooFar | ratcheted => cases hnone

theorem select_grows (h : Grown s calls) :
    Grown (selectKey S s header fresh).1 (calls+1) where
  idle hzero := absurd hzero (Nat.succ_ne_zero calls)
  empty := no_chain_before S h.empty
  size := by
    have hadded := skippedLabels_card S s header fresh
    have hsize := h.size
    have hbound : s.skippedKeys.keys.card+(currentRoom s+1000) ≤ 2000*(calls+1)-1000 := by
      rw [currentRoom]
      cases hchain : s.receivingChainKey with
      | none =>
        rw [h.empty hchain, Finmap.keys_empty, Finset.card_empty]
        simp only [Option.isSome_none, Bool.false_eq_true, if_false]
        omega
      | some ck =>
        have hsome : calls ≠ 0 := by
          intro hzero
          rw [h.idle hzero] at hchain
          cases hchain
        simp only [Option.isSome_some, if_true]
        omega
    rw [selectKey_keys]
    split
    · exact (Finset.card_union_le _ _).trans ((Nat.add_le_add_left hadded _).trans hbound)
    · exact Finset.card_erase_le.trans ((Nat.le_add_right _ _).trans hbound)

theorem run_grows (h : Grown s calls) (more : List (Call PublicKey SecretKey)) :
    Grown (Runs.run (call S) s more) (calls+decrypts more) := by
  induction more generalizing s calls with
  | nil => exact h
  | cons c more ih =>
    cases c with
    | encrypt plaintext ad nonce =>
      obtain ⟨-,-,hchain,-,-,-,-,hcache⟩ := encrypt_frame S s plaintext ad nonce
      exact ih (s := (encrypt S s plaintext ad nonce).1)
        ⟨hchain ▸ h.idle,hchain ▸ hcache ▸ h.empty,hcache ▸ h.size⟩
    | decrypt header ciphertext ad fresh =>
      have hcount : calls+decrypts (.decrypt header ciphertext ad fresh::more) =
          calls+1+decrypts more := by
        rw [decrypts, List.countP_cons_of_pos rfl, ← decrypts]
        omega
      rw [hcount]
      apply ih
      rw [call, decrypt_state]
      exact select_grows S h

omit [DecidableEq PublicKey] in
variable {S} in
theorem started_grown (hs : Started S s) : Grown s 0 := by
  refine ⟨fun _ => ?_,fun _ => started_cache_empty S hs,?_⟩
  · obtain ⟨sharedSecret,hs⟩ := hs
    cases hs with
    | sender hinit =>
      obtain ⟨d,-,rfl⟩ := initSender_ok S hinit
      rfl
    | receiver pair => rfl
  · rw [started_cache_empty S hs, Finmap.keys_empty, Finset.card_empty]

end Bound

section Attack
variable (keys : ℕ → PublicKey)

/-- Headers that skip 1000 keys of the chain before and 1000 of their own. Each call draws
its own keypair. -/
def flood (fresh : ℕ → PublicKey × SecretKey) (n : ℕ) : List (Call PublicKey SecretKey) :=
  (List.range n).map fun i => .decrypt ⟨keys i,2001,1000⟩ [] [] (fresh i)

/-- A session that has taken the header of the key `n`. -/
structure Flooded (s : RatchetState PublicKey SecretKey Key) (n : ℕ) : Prop where
  remote : s.remoteRatchetKey = some (keys n)
  chain : s.receivingChainKey.isSome
  next : s.recvMessageNumber = 1001
  pair : s.sendingKeypair.isSome
  held : ∀ pk x, (pk,x) ∈ s.skippedKeys.keys → ∃ i ≤ n, pk = keys i ∧ (i = n → x.toNat < 1000)
  size : s.skippedKeys.keys.card = 2000*n+1000

variable {S keys} {s : RatchetState PublicKey SecretKey Key} {fresh : PublicKey × SecretKey} {n : ℕ}

theorem labels_number {pk pk' : PublicKey} {m x : UInt32} {count : ℕ}
    (hfits : m.toNat+count < 2^32) (h : (pk',x) ∈ labels pk m count) :
    pk' = pk ∧ m.toNat ≤ x.toNat ∧ x.toNat < m.toNat+count := by
  obtain ⟨i,hi,heq⟩ := Finset.mem_image.mp h
  obtain ⟨rfl,rfl⟩ := Prod.mk.inj heq
  have hi := Finset.mem_range.mp hi
  have hnat : (UInt32.ofNat i).toNat = i := UInt32.toNat_ofNat_of_lt' (show i < 2^32 by omega)
  refine ⟨rfl,?_⟩
  rw [UInt32.toNat_add, hnat, Nat.mod_eq_of_lt (by omega)]
  omega

/-- A header of the attack, in a session that has taken none or one before. -/
theorem flood_step {pk : PublicKey} (fresh : PublicKey × SecretKey) (hpair : s.sendingKeypair.isSome)
    (htakes : takesRatchetStep s ⟨pk,2001,1000⟩) (hdh : ∀ sk, (S.scalarmult sk pk).isSome) :
    let s' := call S s (.decrypt ⟨pk,2001,1000⟩ [] [] fresh)
    s'.remoteRatchetKey = some pk ∧ s'.receivingChainKey.isSome ∧ s'.recvMessageNumber = 1001 ∧
      s'.sendingKeypair.isSome ∧
      s'.skippedKeys.keys = s.skippedKeys.keys ∪ (currentLabels s 2001 ∪ labels pk 0 1000) := by
  obtain ⟨⟨own,sk⟩,hown⟩ := Option.isSome_iff_exists.mp hpair
  obtain ⟨d,hd⟩ := Option.isSome_iff_exists.mp (hdh sk)
  obtain ⟨d',hd'⟩ := Option.isSome_iff_exists.mp (hdh fresh.2)
  obtain ⟨s1,hs1,hsel⟩ := select_after_step S htakes hown hd hd' (le_refl 1000)
  intro s'
  have hs' : s' = (selectKey S s ⟨pk,2001,1000⟩ fresh).1 := decrypt_state ..
  have hexchanges : exchangesSucceed S s pk fresh = true :=
    (exchangesSucceed_iff S hown pk fresh).mpr ⟨hdh sk,hdh fresh.2⟩
  have hkeys : s'.skippedKeys.keys =
      s.skippedKeys.keys ∪ (currentLabels s 2001 ∪ labels pk 0 1000) := by
    rw [hs', selectKey_keys, if_pos htakes.1, skippedLabels, if_neg, if_pos htakes.2.1, if_pos]
    · rfl
    · exact ⟨hexchanges,le_refl 1000⟩
    · exact not_or.mpr ⟨not_not.mpr htakes.1,htakes.2.2⟩
  rw [hsel] at hs'
  clear_value s'
  subst hs'
  exact ⟨rfl,rfl,rfl,rfl,hkeys⟩

theorem flooded_first {sharedSecret : Key} {pair : PublicKey × SecretKey}
    (hdh : ∀ sk, (S.scalarmult sk (keys 0)).isSome) :
    Flooded keys (call S (initReceiver sharedSecret pair)
      (.decrypt ⟨keys 0,2001,1000⟩ [] [] fresh)) 0 := by
  have htakes : takesRatchetStep (initReceiver sharedSecret pair) ⟨keys 0,2001,1000⟩ :=
    ⟨Finmap.lookup_empty _,rfl,by rw [rejectsEarly]; simp [initReceiver, needRatchet]⟩
  obtain ⟨hremote,hchain,hnext,hpair,hkeys⟩ := flood_step fresh rfl htakes hdh
  have hall : (call S (initReceiver sharedSecret pair)
      (.decrypt ⟨keys 0,2001,1000⟩ [] [] fresh)).skippedKeys.keys = labels (keys 0) 0 1000 := by
    rw [hkeys]
    simp [initReceiver, currentLabels]
  refine ⟨hremote,hchain,hnext,hpair,?_,?_⟩
  · intro pk x hmem
    rw [hall] at hmem
    obtain ⟨rfl,-,hlt⟩ := labels_number (by decide) hmem
    exact ⟨0,le_refl 0,rfl,fun _ => by simpa using hlt⟩
  · rw [hall, labels_card _ _ _ (by decide)]

/-- Each further header adds what two loops can. -/
theorem flooded_next (h : Flooded keys s n) (hinj : Set.InjOn keys (Set.Iic (n+1)))
    (hdh : ∀ sk, (S.scalarmult sk (keys (n+1))).isSome) :
    Flooded keys (call S s (.decrypt ⟨keys (n+1),2001,1000⟩ [] [] fresh)) (n+1) := by
  have hnew {i : ℕ} (hi : i ≤ n) : keys i ≠ keys (n+1) := fun heq =>
    absurd (hinj (Nat.le_succ_of_le hi) (le_refl (n+1)) heq) (by omega)
  have hmiss : s.skippedKeys.lookup (keys (n+1),1000) = none := by
    rw [Finmap.lookup_eq_none, ← Finmap.mem_keys]
    intro hmem
    obtain ⟨i,hi,heq,-⟩ := h.held _ _ hmem
    exact hnew hi heq.symm
  have htakes : takesRatchetStep s ⟨keys (n+1),2001,1000⟩ := by
    have hneed : needRatchet s (keys (n+1)) = true := by
      rw [needRatchet_iff, h.remote]
      exact fun heq => hnew (le_refl n) (Option.some.inj heq)
    refine ⟨hmiss,hneed,?_⟩
    rw [rejectsEarly, if_pos hneed, h.next]
    exact fun hearly => absurd hearly.2.2 (Nat.lt_irrefl 2001)
  obtain ⟨ck,hck⟩ := Option.isSome_iff_exists.mp h.chain
  have hcurrent : currentLabels s 2001 = labels (keys n) 1001 1000 := by
    rw [currentLabels, hck, h.remote, h.next]
    rfl
  obtain ⟨hremote,hchain,hnext,hpair,hkeys⟩ := flood_step fresh h.pair htakes hdh
  rw [hcurrent] at hkeys
  refine ⟨hremote,hchain,hnext,hpair,?_,?_⟩
  · intro pk x hmem
    rw [hkeys, Finset.mem_union, Finset.mem_union] at hmem
    rcases hmem with hold | hmid | hlast
    · obtain ⟨i,hi,heq,-⟩ := h.held pk x hold
      exact ⟨i,by omega,heq,by omega⟩
    · obtain ⟨rfl,-⟩ := labels_number (by decide) hmid
      exact ⟨n,by omega,rfl,by omega⟩
    · obtain ⟨rfl,-,hlt⟩ := labels_number (by decide) hlast
      exact ⟨n+1,le_refl _,rfl,fun _ => by simpa using hlt⟩
  · have hapart : Disjoint (labels (keys n) 1001 1000) (labels (keys (n+1)) 0 1000) := by
      rw [Finset.disjoint_left]
      rintro ⟨pk,x⟩ hmid hlast
      obtain ⟨rfl,-⟩ := labels_number (by decide) hmid
      obtain ⟨heq,-⟩ := labels_number (by decide) hlast
      exact hnew (le_refl n) heq
    have hfresh : Disjoint s.skippedKeys.keys
        (labels (keys n) 1001 1000 ∪ labels (keys (n+1)) 0 1000) := by
      rw [Finset.disjoint_left]
      rintro ⟨pk,x⟩ hold hadded
      obtain ⟨i,hi,heq,hlow⟩ := h.held pk x hold
      rcases Finset.mem_union.mp hadded with hmid | hlast
      · obtain ⟨hkey,hge,-⟩ := labels_number (by decide) hmid
        have hlast : i = n := hinj (Nat.le_succ_of_le hi) (Nat.le_succ n) (heq.symm.trans hkey)
        have hge' : 1001 ≤ x.toNat := hge
        have hlt := hlow hlast
        omega
      · obtain ⟨hkey,-⟩ := labels_number (by decide) hlast
        exact hnew hi (heq.symm.trans hkey)
    rw [hkeys, Finset.card_union_of_disjoint hfresh, Finset.card_union_of_disjoint hapart,
      labels_card _ _ _ (by decide), labels_card _ _ _ (by decide), h.size]
    omega

omit [DecidableEq PublicKey] in
theorem flood_succ (fresh : ℕ → PublicKey × SecretKey) (n : ℕ) : flood keys fresh (n+1) =
    flood keys fresh n++[.decrypt ⟨keys n,2001,1000⟩ [] [] (fresh n)] := by
  rw [flood, flood, List.range_succ, List.map_append]
  rfl

omit [DecidableEq PublicKey] in
theorem decrypts_flood (fresh : ℕ → PublicKey × SecretKey) (n : ℕ) :
    decrypts (flood keys fresh n) = n := by
  induction n with
  | zero => rfl
  | succ n ih =>
    rw [decrypts] at ih
    rw [flood_succ, decrypts, List.countP_append, ih]
    rfl

theorem run_flooded {sharedSecret : Key} {pair : PublicKey × SecretKey}
    {fresh : ℕ → PublicKey × SecretKey} (hinj : Set.InjOn keys (Set.Iic n))
    (hdh : ∀ i ≤ n, ∀ sk, (S.scalarmult sk (keys i)).isSome) :
    Flooded keys (Runs.run (call S) (initReceiver sharedSecret pair)
      (flood keys fresh (n+1))) n := by
  induction n with
  | zero => exact flooded_first (hdh 0 (le_refl 0))
  | succ n ih =>
    rw [flood_succ, Runs.run_append]
    exact flooded_next (ih (hinj.mono (Set.Iic_subset_Iic.mpr (Nat.le_succ n)))
      fun i hi => hdh i (Nat.le_succ_of_le hi)) hinj (hdh (n+1) (le_refl _))

end Attack

/-- What can be made of `n` calls of `decrypt`, with as many encryptions between them as one
likes, is a cache of `2000*n-1000` keys and no more; forged headers under `n` keys of the
attacker make it, whatever keypairs the calls draw, and no ciphertext of theirs need open. -/
theorem cache_growth_exact {keys : ℕ → PublicKey} {n : ℕ} (hinj : Set.InjOn keys (Set.Iio n))
    (hdh : ∀ i < n, ∀ sk, (S.scalarmult sk (keys i)).isSome) (sharedSecret : Key)
    (pair : PublicKey × SecretKey) (fresh : ℕ → PublicKey × SecretKey) :
    (∀ s calls, Started S s → decrypts calls = n →
      (Runs.run (call S) s calls).skippedKeys.keys.card ≤ 2000*n-1000) ∧
    decrypts (flood keys fresh n) = n ∧ (Runs.run (call S) (initReceiver sharedSecret pair)
      (flood keys fresh n)).skippedKeys.keys.card = 2000*n-1000 := by
  refine ⟨?_,?_,?_⟩
  · rintro s calls hs rfl
    have hsize := (run_grows S (started_grown hs) calls).size
    rwa [Nat.zero_add] at hsize
  · exact decrypts_flood fresh n
  · cases n with
    | zero => rfl
    | succ n =>
      have hle {i : ℕ} (hi : i ≤ n) : i < n+1 := Nat.lt_succ_of_le hi
      have hflooded : Flooded keys (Runs.run (call S) (initReceiver sharedSecret pair)
          (flood keys fresh (n+1))) n :=
        run_flooded (hinj.mono fun _ hi => hle hi) fun i hi => hdh i (hle hi)
      rw [hflooded.size]
      omega

section Sample
open Symbolic

/-- Three headers fill the cache with 5000 keys. -/
theorem cache_growth_exact_sample :
    (Runs.run (call sample) (initReceiver (.secret 0) (1,1))
      (flood (·+2) (fun i => (i+7,i+7)) 3)).skippedKeys.keys.card = 5000 := by
  refine (cache_growth_exact sample ?_ ?_ (.secret 0) (1,1) fun i => (i+7,i+7)).2.2
  · exact fun _ _ _ _ heq => Nat.add_right_cancel heq
  · intro i _ sk
    rfl

end Sample
end Vaultex.DoubleRatchet
