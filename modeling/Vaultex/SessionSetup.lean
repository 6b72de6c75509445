import Vaultex.ConversationDelivery
import Vaultex.Handshake
import Vaultex.Prekeys

/-!
# From prekeys to a conversation

What two clients do before the first message: one generates its prekeys and
publishes their public halves, the other runs X3DH against them, and each starts
its ratchet from the secret, the signed prekey being the responder's first
ratchet key. With keys as the library generates them, no step of it fails and
every message of the conversation opens.
-/

set_option autoImplicit false

namespace Vaultex.SessionSetup
open X3dh DoubleRatchet Conversation

variable {SignPublicKey SignSecretKey Signature PublicKey SecretKey Key : Type}

/-- What the setup needs of libsodium and HKDF. The pairs are those `gen_keypair` may
return; the Curve25519 scalar of an identity is as good as any other. -/
structure HonestSodium (L : Sodium SignPublicKey SignSecretKey Signature PublicKey SecretKey)
    (hkdf : Hkdf Key) (generated : PublicKey × SecretKey → Prop)
    (identities : SignPublicKey × SignSecretKey → Prop) : Prop where
  init : L.init = true
  lawful : L.Lawful
  verify_sign (message : List UInt8) (sk : SignSecretKey) :
    L.verifyDetached (L.signDetached message sk) message (L.signPublicOf sk) = true
  pair {pair : PublicKey × SecretKey} : generated pair → pair.1 = L.publicOf pair.2
  identity {pair : SignPublicKey × SignSecretKey} : identities pair →
    pair.1 = L.signPublicOf pair.2
  converts {pair : SignPublicKey × SignSecretKey} : identities pair →
    ∃ scalar, L.ed25519SkToCurve25519 pair.2 = some scalar ∧ generated (L.publicOf scalar,scalar)
  succeeds {a b : PublicKey × SecretKey} : generated a → generated b →
    (L.scalarmult a.2 b.1).isSome
  expands (ikm : List UInt8) : (hkdf ikm X3DH_INFO).isSome

variable {L : Sodium SignPublicKey SignSecretKey Signature PublicKey SecretKey} {hkdf : Hkdf Key}
  {generated : PublicKey × SecretKey → Prop} {identities : SignPublicKey × SignSecretKey → Prop}

/-- The public half of a responder's prekeys. -/
def bundleOf (bobKey : SignPublicKey) (spk : SignedPreKey Signature PublicKey SecretKey)
    (otpk : Option (OneTimePreKey PublicKey SecretKey)) :
    RecipientPreKeyBundle SignPublicKey Signature PublicKey where
  identityKey := bobKey
  signedPrekey := spk.publicKey
  signedPrekeySignature := spk.signature
  oneTimePrekey := otpk.map fun o => (o.prekeyId,o.publicKey)

theorem identity_generated {pair : SignPublicKey × SignSecretKey}
    {identity : IdentityKeyPair SignPublicKey SignSecretKey}
    (h : IdentityKeyPair.generate L pair = .ok identity) : identity = ⟨pair.1,pair.2⟩ := by
  unfold IdentityKeyPair.generate at h
  split at h
  · exact (Except.ok.inj h).symm
  · contradiction

theorem signed_prekey_generated {identity : IdentityKeyPair SignPublicKey SignSecretKey}
    {id : UInt32} {pair : PublicKey × SecretKey} {spk : SignedPreKey Signature PublicKey SecretKey}
    (h : SignedPreKey.generate L identity id pair = .ok spk) :
    spk = ⟨id,pair.1,pair.2,identity.sign L (L.publicKeyBytes pair.1)⟩ := by
  unfold SignedPreKey.generate at h
  split at h
  · exact (Except.ok.inj h).symm
  · contradiction

/-- A generated prekey carries a signature that verifies. -/
theorem generated_verifies (hL : HonestSodium L hkdf generated identities)
    {identity : IdentityKeyPair SignPublicKey SignSecretKey} (hi : identity.Matched L)
    {id : UInt32} {pair : PublicKey × SecretKey} {spk : SignedPreKey Signature PublicKey SecretKey}
    (h : SignedPreKey.generate L identity id pair = .ok spk) :
    spk.verify L identity.publicKey = true := by
  rw [signed_prekey_generated h, hi]
  exact hL.verify_sign _ _

/-- Every keypair of a batch is one that was drawn for it. -/
theorem batch_drawn {fresh : UInt32 → PublicKey × SecretKey} {startingId : UInt32} {remaining : ℕ}
    {i : UInt32} {batch : List (OneTimePreKey PublicKey SecretKey)}
    (h : Prekeys.generateLoop L fresh startingId remaining i = .ok batch)
    {o : OneTimePreKey PublicKey SecretKey} (ho : o ∈ batch) :
    ∃ j, (o.publicKey,o.secretKey) = fresh j := by
  induction remaining generalizing i batch with
  | zero =>
    obtain rfl := Except.ok.inj h
    contradiction
  | succ remaining ih =>
    obtain ⟨prekey,hprekey,h⟩ := bind_eq_ok.mp h
    obtain ⟨rest,hrest,h⟩ := bind_eq_ok.mp h
    obtain rfl := Except.ok.inj h
    rcases List.mem_cons.mp ho with rfl | ho
    · unfold OneTimePreKey.generate at hprekey
      split at hprekey
      · obtain rfl := Except.ok.inj hprekey
        exact ⟨i,rfl⟩
      · contradiction
    · exact ih hrest ho

/-- A key comes of any four exchanges that go through. -/
theorem agreed_of_some (hL : HonestSodium L hkdf generated identities)
    {dh1 dh2 dh3 : Option Bytes32} {dh4 : Option (Option Bytes32)} (h1 : dh1.isSome) (h2 : dh2.isSome) (h3 : dh3.isSome)
    (h4 : ∀ b ∈ dh4, b.isSome) : ∃ key, Agreed hkdf dh1 dh2 dh3 dh4 key := by
  obtain ⟨b1,rfl⟩ := Option.isSome_iff_exists.mp h1
  obtain ⟨b2,rfl⟩ := Option.isSome_iff_exists.mp h2
  obtain ⟨b3,rfl⟩ := Option.isSome_iff_exists.mp h3
  obtain ⟨b4,rfl⟩ : ∃ b4 : Option Bytes32, dh4 = b4.map some := by
    cases dh4 with
    | none => exact ⟨none,rfl⟩
    | some b =>
      obtain ⟨b4,rfl⟩ := Option.isSome_iff_exists.mp (h4 b rfl)
      exact ⟨some b4,rfl⟩
  obtain ⟨key,hkey⟩ := Option.isSome_iff_exists.mp (hL.expands (dhConcat b1 b2 b3 b4))
  exact ⟨key,b1,b2,b3,b4,rfl,rfl,rfl,rfl,hkey⟩

section Setup
variable (hL : HonestSodium L hkdf generated identities)
  {alicePair bobPair : SignPublicKey × SignSecretKey} (ha : identities alicePair)
  (hb : identities bobPair) {id : UInt32} {spkPair ek : PublicKey × SecretKey}
  (hspk : generated spkPair) (hek : generated ek)
  {spk : SignedPreKey Signature PublicKey SecretKey}
  (h : SignedPreKey.generate L ⟨bobPair.1,bobPair.2⟩ id spkPair = .ok spk)
  {otpk : Option (OneTimePreKey PublicKey SecretKey)}
  (hotpk : ∀ o ∈ otpk, generated (o.publicKey,o.secretKey))
include hL ha hb hspk hek h hotpk

/-- Both sides come to the end, with one secret. -/
theorem both_agree : ∃ r : X3DHInitResult PublicKey Key,
    initiateX3dh L hkdf ⟨alicePair.1,alicePair.2⟩ (bundleOf bobPair.1 spk otpk) ek = .ok r ∧
    r.usedOneTimePrekeyId = otpk.map OneTimePreKey.prekeyId ∧
    acceptX3dh L hkdf ⟨bobPair.1,bobPair.2⟩ spk.secretKey (otpk.map OneTimePreKey.secretKey)
      alicePair.1 r.ephemeralPublicKey = .ok r.sharedSecret := by
  have halice : IdentityKeyPair.Matched L ⟨alicePair.1,alicePair.2⟩ := hL.identity ha
  have hbob : IdentityKeyPair.Matched L ⟨bobPair.1,bobPair.2⟩ := hL.identity hb
  have hverify := generated_verifies hL hbob h
  obtain rfl := signed_prekey_generated h
  obtain ⟨ikA,hikA,hgenA⟩ := hL.converts ha
  obtain ⟨ikB,hikB,hgenB⟩ := hL.converts hb
  have hikA' := hL.lawful.converted halice
  have hikB' := hL.lawful.converted hbob
  simp only [hikA, hikB, Option.map_some] at hikA' hikB'
  have hsome : ∀ b ∈ otpk.map fun o => L.scalarmult ek.2 o.publicKey, b.isSome := by
    intro b hmem
    obtain ⟨o,ho,rfl⟩ := Option.map_eq_some_iff.mp hmem
    exact hL.succeeds hek (hotpk o ho)
  obtain ⟨key,hagreed⟩ := agreed_of_some hL (hL.succeeds hgenA hspk) (hL.succeeds hek hgenB)
    (hL.succeeds hek hspk) hsome
  refine ⟨⟨key,ek.1,otpk.map OneTimePreKey.prekeyId⟩,?_,rfl,?_⟩
  · refine initiateX3dh_ok.mpr ⟨hL.init,hverify,ikA,hikA,_,hikB',?_,rfl,?_⟩
    · simp only [bundleOf, Option.map_map, Function.comp_def]
      exact hagreed
    · simp only [bundleOf, Option.map_map, Function.comp_def]
  · refine acceptX3dh_ok.mpr ⟨hL.init,ikB,hikB,_,hikA',?_⟩
    have hswap : ∀ {a b : PublicKey × SecretKey}, generated a → generated b →
        L.scalarmult a.2 b.1 = L.scalarmult b.2 a.1 := fun hga hgb => by
      rw [hL.pair hga, hL.pair hgb, hL.lawful.scalarmult_comm]
    have hfourth : ((otpk.map OneTimePreKey.secretKey).map fun sk => L.scalarmult sk ek.1) =
        otpk.map fun o => L.scalarmult ek.2 o.publicKey := by
      rw [Option.map_map]
      apply Option.map_congr
      intro o ho
      exact hswap (hotpk o ho) hek
    rw [hfourth, hswap hspk hgenA, hswap hgenB hek, hswap hspk hek]
    exact hagreed

end Setup

section Results
variable [DecidableEq PublicKey] {S : Suite PublicKey SecretKey Key}
  {tape : ℕ → PublicKey × SecretKey}

/-- From identities, prekeys and an ephemeral key as the library draws them, with a one-time
prekey of any batch or with none, the setup comes to an end on both sides with one
secret. In every honest conversation on it whose first deliveries skip at most `MAX_SKIP`
keys in either chain, and whose send counters stay off their end, each of them opens what
was sent. -/
theorem session_established (hL : HonestSodium L hkdf generated identities)
    (hS : HonestLibrary S generated) (hd : Dealt generated tape 2)
    {alicePair bobPair : SignPublicKey × SignSecretKey} (ha : identities alicePair)
    (hb : identities bobPair) {aliceId bobId : IdentityKeyPair SignPublicKey SignSecretKey}
    (hAliceId : IdentityKeyPair.generate L alicePair = .ok aliceId)
    (hBobId : IdentityKeyPair.generate L bobPair = .ok bobId) {id : UInt32}
    {spk : SignedPreKey Signature PublicKey SecretKey}
    (hspk : SignedPreKey.generate L bobId id (tape 0) = .ok spk)
    {fresh : UInt32 → PublicKey × SecretKey} (hfresh : ∀ i, generated (fresh i))
    {count startingId : UInt32} {batch : List (OneTimePreKey PublicKey SecretKey)}
    (hbatch : Prekeys.generateOneTimePrekeys L fresh count startingId = .ok batch)
    {otpk : Option (OneTimePreKey PublicKey SecretKey)} (hotpk : ∀ o ∈ otpk, o ∈ batch)
    {ek : PublicKey × SecretKey} (hek : generated ek) :
    ∃ (r : X3DHInitResult PublicKey Key) (alice : RatchetState PublicKey SecretKey Key),
      initiateX3dh L hkdf aliceId (bundleOf bobId.publicKey spk otpk) ek = .ok r ∧
      r.usedOneTimePrekeyId = otpk.map OneTimePreKey.prekeyId ∧
      acceptX3dh L hkdf bobId spk.secretKey (otpk.map OneTimePreKey.secretKey)
        aliceId.publicKey r.ephemeralPublicKey = .ok r.sharedSecret ∧
      initSender S r.sharedSecret spk.publicKey (tape 1) = .ok alice ∧
      ∀ as, Runs.Guarded (step S tape) (allowed S tape generated rejectsReplay)
          (opening alice (initReceiver r.sharedSecret (spk.publicKey,spk.secretKey))) as →
        AllHarmless (Runs.run (step S tape)
          (opening alice (initReceiver r.sharedSecret (spk.publicKey,spk.secretKey))) as) := by
  obtain rfl := identity_generated hAliceId
  obtain rfl := identity_generated hBobId
  have hgen0 := hd.honest 0 (by omega)
  have hgen1 := hd.honest 1 (by omega)
  have hotpk' : ∀ o ∈ otpk, generated (o.publicKey,o.secretKey) := by
    intro o ho
    obtain ⟨j,hj⟩ := batch_drawn hbatch (hotpk o ho)
    rw [hj]
    exact hfresh j
  obtain ⟨r,hinitiate,hused,haccept⟩ := both_agree hL ha hb hgen0 hek hspk hotpk'
  obtain rfl := signed_prekey_generated hspk
  obtain ⟨d,hdh⟩ := Option.isSome_iff_exists.mp (hS.succeeds hgen1 hgen0)
  obtain ⟨alice,halice⟩ : ∃ alice,
      initSender S r.sharedSecret (tape 0).1 (tape 1) = .ok alice := by
    simp only [initSender, hS.init, dhExchange, hdh, if_true]
    exact ⟨_,rfl⟩
  refine ⟨r,alice,hinitiate,hused,haccept,halice,fun as hg => ?_⟩
  exact run_harmless hS (opening_refines halice hS hd) (fun o ho => absurd ho List.not_mem_nil) hg

end Results

section Sample
open Symbolic

/-- Keys are numbers, a secret key is its own public key, and 0 is a key of low order. -/
def natSodium : Sodium ℕ ℕ (List UInt8 × ℕ) ℕ ℕ where
  init := true
  signPublicOf := id
  signDetached message sk := (message,sk)
  verifyDetached signature message pk := signature = (message,pk)
  signPublicKeyBytes pk := List.replicate 32 (UInt8.ofNat pk)
  signatureBytes signature := UInt8.ofNat signature.2::signature.1
  publicOf := id
  publicKeyBytes pk := List.replicate 32 (UInt8.ofNat pk)
  ed25519PkToCurve25519 := some
  ed25519SkToCurve25519 := some
  scalarmult a p :=
    if a = 0 ∨ p = 0 then none else some (Vector.ofFn fun i => UInt8.ofNat (a*p+i.val))

/-- A secret named by its input, read as a number. -/
def termHkdf : Hkdf Term := fun ikm _ =>
  some (.secret (ikm.foldl (fun n b => 256*n+b.toNat) 1))

theorem natSodium_honest : HonestSodium natSodium termHkdf namedPair namedPair where
  init := rfl
  lawful := {
    scalarmult_comm := fun a b => by
      simp only [natSodium, id, or_comm (a := a = 0), Nat.mul_comm a b]
    conversions_agree := fun _ => rfl }
  verify_sign message sk := decide_eq_true rfl
  pair h := h.1
  identity h := h.1
  converts {pair} h := ⟨pair.2,rfl,rfl,h.1 ▸ h.2⟩
  succeeds {a b} ha hb := by
    have hzero : a.2 ≠ 0 := ha.1 ▸ ha.2
    simp [natSodium, hzero, hb.2]
  expands ikm := rfl

/-- Out of order, with an answer, and with one message delivered twice. -/
def firstWords : List Action :=
  [.send .alice [7] [] zeroNonce, .send .alice [8] [] zeroNonce, .deliver .bob 1,
    .send .bob [9] [] zeroNonce, .deliver .bob 0, .deliver .alice 0, .deliver .bob 1]

theorem first_words_guarded :
    ∀ spk ∈ (SignedPreKey.generate natSodium ⟨8,8⟩ 1 (1,1)).toOption,
    ∀ batch ∈ (Prekeys.generateOneTimePrekeys natSodium
      (fun i => (i.toNat+10,i.toNat+10)) 2 100).toOption,
    ∀ r ∈ (initiateX3dh natSodium termHkdf ⟨7,7⟩ (bundleOf 8 spk batch.head?) (5,5)).toOption,
    ∀ alice ∈ (initSender sample r.sharedSecret 1 (2,2)).toOption,
      let start := opening alice (initReceiver r.sharedSecret (1,1))
      Runs.Guarded (step sample sampleTape) (allowed sample sampleTape namedPair rejectsReplay)
        start firstWords ∧
        (Runs.run (step sample sampleTape) start firstWords).outcomes.length = 4 := by
  decide

/-- Identities 7 and 8, the signed prekey 1, two one-time prekeys from the id 100 on and the
ephemeral key 5. -/
theorem session_established_sample : ∃ spk batch r alice,
    SignedPreKey.generate natSodium ⟨8,8⟩ 1 (1,1) = .ok spk ∧
    Prekeys.generateOneTimePrekeys natSodium (fun i => (i.toNat+10,i.toNat+10)) 2 100 =
      .ok batch ∧
    initiateX3dh natSodium termHkdf ⟨7,7⟩ (bundleOf 8 spk batch.head?) (5,5) = .ok r ∧
    initSender sample r.sharedSecret 1 (2,2) = .ok alice ∧
    let net := Runs.run (step sample sampleTape)
      (opening alice (initReceiver r.sharedSecret (1,1))) firstWords
    net.outcomes.length = 4 ∧ AllHarmless net := by
  obtain ⟨spk,hspk⟩ : ∃ spk, SignedPreKey.generate natSodium ⟨8,8⟩ 1 (1,1) = .ok spk := ⟨_,rfl⟩
  obtain ⟨batch,hbatch⟩ : ∃ batch, Prekeys.generateOneTimePrekeys natSodium
      (fun i => (i.toNat+10,i.toNat+10)) 2 100 = .ok batch := ⟨_,rfl⟩
  have halice : IdentityKeyPair.generate natSodium (7,7) = .ok ⟨7,7⟩ := rfl
  have hbob : IdentityKeyPair.generate natSodium (8,8) = .ok ⟨8,8⟩ := rfl
  have hspk1 : (spk.publicKey,spk.secretKey) = (1,1) := by
    rw [signed_prekey_generated hspk]
  obtain ⟨r,alice,hinitiate,-,-,hsender,hruns⟩ := session_established natSodium_honest
    sample_honest (sample_dealt 2) ⟨rfl,by decide⟩ ⟨rfl,by decide⟩ halice hbob hspk
    (fun i => ⟨rfl,Nat.succ_ne_zero _⟩) hbatch (fun o => List.mem_of_mem_head?)
    (⟨rfl,by decide⟩ : namedPair (5,5))
  obtain ⟨hpk,hsk⟩ := Prod.mk.inj hspk1
  rw [hpk] at hsender
  rw [hpk, hsk] at hruns
  obtain ⟨hguarded,hlength⟩ := first_words_guarded spk (congrArg Except.toOption hspk) batch
    (congrArg Except.toOption hbatch) r (congrArg Except.toOption hinitiate) alice
    (congrArg Except.toOption hsender)
  exact ⟨spk,batch,r,alice,hspk,hbatch,hinitiate,hsender,hlength,hruns _ hguarded⟩

end Sample

end Vaultex.SessionSetup
