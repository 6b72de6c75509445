import Mathlib.Algebra.BigOperators.Group.List.Basic
import Mathlib.Algebra.GroupWithZero.Nat
import Vaultex.Checked
import Vaultex.IdentityKeys

/-!
# Prekeys

`prekeys.rs`. The keypairs `gen_keypair` draws and the clock are arguments. Ids
are `u32`; the sum that makes them wraps in a release build, and
`generateOneTimePrekeysChecked` is a debug build.
-/

set_option autoImplicit false

namespace Vaultex

namespace Prekeys

def saturatingSub (a b : UInt64) : UInt64 := if b ≤ a then a-b else 0

def needsRotation (now createdAt maxAgeSecs : UInt64) : Bool :=
  maxAgeSecs ≤ saturatingSub now createdAt

/-- A key is due from its age on; one from the future only if every key is. -/
theorem needsRotation_iff {now createdAt maxAgeSecs : UInt64} :
    needsRotation now createdAt maxAgeSecs = true ↔
      maxAgeSecs = 0 ∨ createdAt.toNat+maxAgeSecs.toNat ≤ now.toNat := by
  rw [needsRotation, decide_eq_true_iff, saturatingSub, UInt64.le_iff_toNat_le,
    ← UInt64.toNat_inj]
  by_cases hle : createdAt ≤ now
  · rw [if_pos hle, UInt64.toNat_sub_of_le _ _ hle]
    rw [UInt64.le_iff_toNat_le] at hle
    simp only [UInt64.toNat_zero]
    omega
  · rw [if_neg hle]
    rw [UInt64.le_iff_toNat_le] at hle
    simp only [UInt64.toNat_zero]
    omega

end Prekeys

variable {SignPublicKey SignSecretKey Signature PublicKey SecretKey : Type}

structure SignedPreKey (Signature PublicKey SecretKey : Type) where
  prekeyId : UInt32
  publicKey : PublicKey
  secretKey : SecretKey
  signature : Signature

structure OneTimePreKey (PublicKey SecretKey : Type) where
  prekeyId : UInt32
  publicKey : PublicKey
  secretKey : SecretKey

namespace SignedPreKey
variable (L : Sodium SignPublicKey SignSecretKey Signature PublicKey SecretKey)

def generate (identity : IdentityKeyPair SignPublicKey SignSecretKey) (prekeyId : UInt32)
    (fresh : PublicKey × SecretKey) : Result (SignedPreKey Signature PublicKey SecretKey) :=
  if L.init then
    .ok ⟨prekeyId,fresh.1,fresh.2,identity.sign L (L.publicKeyBytes fresh.1)⟩
  else .error .initFailed

def verify (prekey : SignedPreKey Signature PublicKey SecretKey) (identityKey : SignPublicKey) :
    Bool := L.verifyDetached prekey.signature (L.publicKeyBytes prekey.publicKey) identityKey

def publicKeyHex (prekey : SignedPreKey Signature PublicKey SecretKey) : String :=
  Hex.encode (L.publicKeyBytes prekey.publicKey)

def signatureHex (prekey : SignedPreKey Signature PublicKey SecretKey) : String :=
  Hex.encode (L.signatureBytes prekey.signature)

end SignedPreKey

namespace OneTimePreKey
variable (L : Sodium SignPublicKey SignSecretKey Signature PublicKey SecretKey)

def generate (prekeyId : UInt32) (fresh : PublicKey × SecretKey) :
    Result (OneTimePreKey PublicKey SecretKey) :=
  if L.init then .ok ⟨prekeyId,fresh.1,fresh.2⟩ else .error .initFailed

def publicKeyHex (prekey : OneTimePreKey PublicKey SecretKey) : String :=
  Hex.encode (L.publicKeyBytes prekey.publicKey)

end OneTimePreKey

namespace Prekeys
section
variable (L : Sodium SignPublicKey SignSecretKey Signature PublicKey SecretKey)
  (fresh : UInt32 → PublicKey × SecretKey)

/-- The `for` loop: `remaining` turns from `i` on, turn `i` drawing `fresh i`. -/
def generateLoop (startingId : UInt32) :
    ℕ → UInt32 → Result (List (OneTimePreKey PublicKey SecretKey))
  | 0, _ => .ok []
  | remaining+1, i => do
    let prekey ← OneTimePreKey.generate L (startingId+i) (fresh i)
    let prekeys ← generateLoop startingId remaining (i+1)
    pure (prekey::prekeys)

def generateOneTimePrekeys (count startingId : UInt32) :
    Result (List (OneTimePreKey PublicKey SecretKey)) :=
  generateLoop L fresh startingId count.toNat 0

/-- The loop of a debug build; `none` is a panic. -/
def generateLoopChecked (startingId : UInt32) :
    ℕ → UInt32 → Option (Result (List (OneTimePreKey PublicKey SecretKey)))
  | 0, _ => some (.ok [])
  | remaining+1, i => do
    let id ← Checked.add startingId i
    match OneTimePreKey.generate L id (fresh i) with
    | .error e => some (.error e)
    | .ok prekey =>
      match ← generateLoopChecked startingId remaining (i+1) with
      | .error e => some (.error e)
      | .ok prekeys => some (.ok (prekey::prekeys))

def generateOneTimePrekeysChecked (count startingId : UInt32) :
    Option (Result (List (OneTimePreKey PublicKey SecretKey))) :=
  generateLoopChecked L fresh startingId count.toNat 0

end

section Batches
variable {L : Sodium SignPublicKey SignSecretKey Signature PublicKey SecretKey}
  {fresh : UInt32 → PublicKey × SecretKey} {startingId count : UInt32}

theorem generateLoop_ids (remaining : ℕ) (i : UInt32)
    {keys : List (OneTimePreKey PublicKey SecretKey)}
    (h : generateLoop L fresh startingId remaining i = .ok keys) :
    keys.map OneTimePreKey.prekeyId =
      (List.range remaining).map fun k => startingId+i+UInt32.ofNat k := by
  induction remaining generalizing i keys with
  | zero =>
    obtain rfl := Except.ok.inj h
    rfl
  | succ remaining ih =>
    obtain ⟨prekey,hprekey,h⟩ := bind_eq_ok.mp h
    obtain ⟨rest,hrest,h⟩ := bind_eq_ok.mp h
    obtain rfl := Except.ok.inj h
    have hid : prekey.prekeyId = startingId+i := by
      unfold OneTimePreKey.generate at hprekey
      split at hprekey
      · obtain rfl := Except.ok.inj hprekey
        rfl
      · contradiction
    rw [List.map_cons, ih (i+1) hrest, hid, List.range_succ_eq_map, List.map_cons, List.map_map]
    congr 1
    · exact (UInt32.add_zero _).symm
    · apply List.map_congr_left
      intro k _
      show startingId+(i+1)+UInt32.ofNat k = startingId+i+UInt32.ofNat (k+1)
      rw [UInt32.ofNat_add, UInt32.add_comm (UInt32.ofNat k), ← UInt32.add_assoc,
        ← UInt32.add_assoc]
      rfl

/-- Batches one after another, each from the id after the last of the one before. -/
def Replenished (L : Sodium SignPublicKey SignSecretKey Signature PublicKey SecretKey) :
    UInt32 → List (UInt32 × (UInt32 → PublicKey × SecretKey)) →
      List (OneTimePreKey PublicKey SecretKey) → Prop
  | _, [], keys => keys = []
  | startingId, (count, fresh)::batches, keys => ∃ batch rest,
    generateOneTimePrekeys L fresh count startingId = .ok batch ∧
    Replenished L (startingId+count) batches rest ∧ keys = batch++rest

variable {batches : List (UInt32 × (UInt32 → PublicKey × SecretKey))}
  {keys : List (OneTimePreKey PublicKey SecretKey)}

/-- Ids are counted on across batches, modulo 2^32. -/
theorem replenished_ids (h : Replenished L startingId batches keys) :
    keys.map OneTimePreKey.prekeyId =
      (List.range (batches.map fun b => b.1.toNat).sum).map fun k => startingId+UInt32.ofNat k := by
  induction batches generalizing startingId keys with
  | nil =>
    obtain rfl : keys = [] := h
    rfl
  | cons b batches ih =>
    obtain ⟨count,fresh⟩ := b
    obtain ⟨batch,rest,hbatch,hrest,rfl⟩ := h
    rw [List.map_append, generateLoop_ids _ _ hbatch, ih hrest, List.map_cons, List.sum_cons,
      List.range_add, List.map_append, List.map_map]
    congr 1
    · apply List.map_congr_left
      intro k _
      rw [UInt32.add_zero]
    · apply List.map_congr_left
      intro k _
      show startingId+count+UInt32.ofNat k = startingId+UInt32.ofNat (count.toNat+k)
      rw [UInt32.ofNat_add, UInt32.ofNat_toNat, ← UInt32.add_assoc]

theorem counted_nodup (startingId : UInt32) (n : ℕ) :
    ((List.range n).map fun k => startingId+UInt32.ofNat k).Nodup ↔ n ≤ 2^32 := by
  constructor
  · intro h
    by_contra hmany
    have hwrap := List.inj_on_of_nodup_map h (List.mem_range.mpr (by omega : 0 < n))
      (List.mem_range.mpr (by omega : 2^32 < n)) rfl
    contradiction
  · intro hn
    apply List.Nodup.map_on _ List.nodup_range
    intro k hk k' hk' heq
    rw [List.mem_range] at hk hk'
    have hofNat := congrArg UInt32.toNat (UInt32.add_right_inj startingId |>.mp heq)
    rw [UInt32.toNat_ofNat', UInt32.toNat_ofNat', Nat.mod_eq_of_lt (by omega),
      Nat.mod_eq_of_lt (by omega)] at hofNat
    exact hofNat

/-- No id is given twice exactly as long as at most 2^32 are given, wherever the
counting starts and however it is cut into batches. -/
theorem replenished_ids_distinct_iff (h : Replenished L startingId batches keys) :
    (keys.map OneTimePreKey.prekeyId).Nodup ↔ (batches.map fun b => b.1.toNat).sum ≤ 2^32 := by
  rw [replenished_ids h, counted_nodup]

theorem replenished_ids_distinct_iff_sample : ∃ keys,
    Replenished Sodium.sample 4294967294 [(3,fun _ => (1,1)), (2,fun _ => (2,2))] keys ∧
      (keys.map OneTimePreKey.prekeyId).Nodup := by
  obtain ⟨keys,h⟩ : ∃ keys, Replenished Sodium.sample 4294967294
      [(3,fun _ => (1,1)), (2,fun _ => (2,2))] keys := ⟨_,_,_,rfl,⟨_,_,rfl,rfl,rfl⟩,rfl⟩
  exact ⟨keys,h,(replenished_ids_distinct_iff h).mpr (by decide)⟩

theorem generateLoopChecked_eq (hinit : L.init = true) (remaining : ℕ) (i : UInt32)
    (hi : i.toNat+remaining < 2^32) (hstart : startingId.toNat+i.toNat ≤ 2^32) :
    generateLoopChecked L fresh startingId remaining i =
      if startingId.toNat+i.toNat+remaining ≤ 2^32 then
        some (generateLoop L fresh startingId remaining i) else none := by
  induction remaining generalizing i with
  | zero => rw [if_pos (by omega)]; rfl
  | succ remaining ih =>
    have hsucc : (i+1).toNat = i.toNat+1 := by
      rw [UInt32.toNat_add]
      simp only [UInt32.reduceToNat]
      omega
    rw [generateLoopChecked]
    by_cases hover : startingId.toNat+i.toNat = 2^32
    · have hnone : Checked.add startingId i = none :=
        Checked.add_eq_none.mpr (Nat.le_of_eq hover.symm)
      rw [hnone, if_neg (by omega)]
      rfl
    · have hsome : Checked.add startingId i = some (startingId+i) := by
        rw [Checked.add_eq_some]
        show (startingId+i).toNat = startingId.toNat+i.toNat
        rw [UInt32.toNat_add, Nat.mod_eq_of_lt (by omega)]
      have hkey : OneTimePreKey.generate L (startingId+i) (fresh i) =
          .ok ⟨startingId+i,(fresh i).1,(fresh i).2⟩ := if_pos hinit
      simp only [hsome, hkey, Option.bind_eq_bind, Option.bind_some]
      rw [ih (i+1) (by omega) (by omega), hsucc]
      by_cases hfits : startingId.toNat+(i.toNat+1)+remaining ≤ 2^32
      · rw [if_pos hfits, if_pos (by omega), generateLoop, hkey]
        cases generateLoop L fresh startingId remaining (i+1) <;> rfl
      · rw [if_neg hfits, if_neg (by omega)]
        rfl

/-- A debug build panics exactly on a batch whose last id is not a `u32`, and otherwise
does what a release build does. -/
theorem generate_checked_eq (L : Sodium SignPublicKey SignSecretKey Signature PublicKey SecretKey)
    (fresh : UInt32 → PublicKey × SecretKey) (count startingId : UInt32) :
    generateOneTimePrekeysChecked L fresh count startingId =
      if L.init = true ∧ 2^32 < startingId.toNat+count.toNat then none
      else some (generateOneTimePrekeys L fresh count startingId) := by
  have hstart := startingId.toNat_lt
  have hcount := count.toNat_lt
  rw [generateOneTimePrekeysChecked, generateOneTimePrekeys]
  by_cases hinit : L.init = true
  · rw [generateLoopChecked_eq hinit _ _ (by simpa using hcount) (by simpa using hstart.le)]
    by_cases hover : 2^32 < startingId.toNat+count.toNat
    · rw [if_neg (by simpa using hover), if_pos ⟨hinit,hover⟩]
    · rw [if_pos (by simpa using Nat.not_lt.mp hover), if_neg (fun h => hover h.2)]
  · rw [if_neg (fun h => hinit h.1)]
    cases count.toNat with
    | zero => rfl
    | succ remaining =>
      have hzero : Checked.add startingId 0 = some startingId := by
        rw [Checked.add_eq_some]
        rfl
      have hkey : ∀ id, OneTimePreKey.generate L id (fresh 0) = .error .initFailed :=
        fun _ => if_neg hinit
      rw [generateLoopChecked, generateLoop]
      simp only [hzero, hkey, Option.bind_eq_bind, Option.bind_some, error_bind]

end Batches

section Stored
variable {Signature : Type} (signatureOf : List UInt8 → Option Signature)

/-- `Signature::from_bytes`, with the error its caller turns a failure into. -/
def signatureFromBytes (bytes : List UInt8) : Result Signature :=
  match signatureOf bytes with
  | some signature => .ok signature
  | none => .error (.invalidKeyLength 64 bytes.length)

end Stored
end Prekeys

def SignedPreKey.fromBytes {Signature : Type} (signatureOf : List UInt8 → Option Signature)
    (prekeyId : UInt32) (publicKey secretKey signature : List UInt8) :
    Result (SignedPreKey Signature Bytes32 Bytes32) := do
  let pk ← Sodium.fromSlice 32 publicKey
  let sk ← Sodium.fromSlice 32 secretKey
  let sig ← Prekeys.signatureFromBytes signatureOf signature
  pure ⟨prekeyId,pk,sk,sig⟩

theorem SignedPreKey.fromBytes_ok {Signature : Type} {signatureOf : List UInt8 → Option Signature}
    {prekeyId : UInt32} {publicKey secretKey signature : List UInt8}
    {prekey : SignedPreKey Signature Bytes32 Bytes32} :
    SignedPreKey.fromBytes signatureOf prekeyId publicKey secretKey signature = .ok prekey ↔
      prekey.prekeyId = prekeyId ∧ prekey.publicKey.toList = publicKey ∧
        prekey.secretKey.toList = secretKey ∧ signatureOf signature = some prekey.signature := by
  have hsig {sig : Signature} : Prekeys.signatureFromBytes signatureOf signature = .ok sig ↔
      signatureOf signature = some sig := by
    rw [Prekeys.signatureFromBytes]
    cases signatureOf signature <;> simp
  rw [fromBytes, bind_eq_ok]
  simp only [bind_eq_ok, Sodium.fromSlice_ok, hsig, pure, Except.pure, Except.ok.injEq]
  constructor
  · rintro ⟨pk,hpk,sk,hsk,sig,hsig,rfl⟩
    exact ⟨rfl,hpk,hsk,hsig⟩
  · rintro ⟨rfl,hpk,hsk,hsig⟩
    exact ⟨_,hpk,_,hsk,_,hsig,rfl⟩

def OneTimePreKey.fromBytes (prekeyId : UInt32) (publicKey secretKey : List UInt8) :
    Result (OneTimePreKey Bytes32 Bytes32) := do
  let pk ← Sodium.fromSlice 32 publicKey
  let sk ← Sodium.fromSlice 32 secretKey
  pure ⟨prekeyId,pk,sk⟩

/-- An error names the length of the first key that is not 32 bytes long. -/
theorem OneTimePreKey.fromBytes_error {prekeyId : UInt32} {publicKey secretKey : List UInt8}
    {e : CryptoError} : OneTimePreKey.fromBytes prekeyId publicKey secretKey = .error e ↔
      (publicKey.length ≠ 32 ∧ e = .invalidKeyLength 32 publicKey.length) ∨
      (publicKey.length = 32 ∧ secretKey.length ≠ 32 ∧
        e = .invalidKeyLength 32 secretKey.length) := by
  rw [fromBytes, bind_eq_error, Sodium.fromSlice_error]
  refine or_congr_right ?_
  simp only [bind_eq_error, Sodium.fromSlice_error, pure, Except.pure, reduceCtorEq, and_false,
    exists_const, or_false, exists_and_right, Sodium.fromSlice_exists]

end Vaultex
