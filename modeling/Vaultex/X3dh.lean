import Vaultex.Identity

/-!
# The key agreement that starts a session

`x3dh.rs`. The ephemeral keypair that `gen_keypair` draws is an argument;
`from_slice` on arrays of 32 bytes never fails, so keys need no conversion
between the types of `box_` and `curve25519`.
-/

set_option autoImplicit false

namespace Vaultex

/-- HKDF-SHA256 without a salt, expanded to the 32 bytes of a key. -/
abbrev Hkdf (Key : Type) := (ikm info : List UInt8) → Option Key

namespace X3dh

/-- The ASCII bytes of `VAULTEX_X3DH`. -/
def X3DH_INFO : List UInt8 :=
  [0x56, 0x41, 0x55, 0x4c, 0x54, 0x45, 0x58, 0x5f, 0x58, 0x33, 0x44, 0x48]

variable {SignPublicKey SignSecretKey Signature PublicKey SecretKey Key : Type}

structure RecipientPreKeyBundle (SignPublicKey Signature PublicKey : Type) where
  identityKey : SignPublicKey
  signedPrekey : PublicKey
  signedPrekeySignature : Signature
  oneTimePrekey : Option (UInt32 × PublicKey)

structure X3DHInitResult (PublicKey Key : Type) where
  sharedSecret : Key
  ephemeralPublicKey : PublicKey
  usedOneTimePrekeyId : Option UInt32

section
variable (L : Sodium SignPublicKey SignSecretKey Signature PublicKey SecretKey) (hkdf : Hkdf Key)

def ed25519PkToCurve25519 (pk : SignPublicKey) : Result PublicKey :=
  match L.ed25519PkToCurve25519 pk with
  | some curvePk => .ok curvePk
  | none => .error (.invalidKeyLength 32 0)

def ed25519SkToCurve25519 (sk : SignSecretKey) : Result SecretKey :=
  match L.ed25519SkToCurve25519 sk with
  | some scalar => .ok scalar
  | none => .error (.invalidKeyLength 32 0)

def dh (ourSecret : SecretKey) (theirPublic : PublicKey) : Result (List UInt8) :=
  match L.scalarmult ourSecret theirPublic with
  | some shared => .ok shared.toList
  | none => .error .hkdfExpandFailed

def kdf (dhConcat : List UInt8) : Result Key :=
  match hkdf dhConcat X3DH_INFO with
  | some output => .ok output
  | none => .error .hkdfExpandFailed

def initiateX3dh (senderIdentity : IdentityKeyPair SignPublicKey SignSecretKey)
    (bundle : RecipientPreKeyBundle SignPublicKey Signature PublicKey)
    (ek : PublicKey × SecretKey) : Result (X3DHInitResult PublicKey Key) := do
  if !L.init then throw .initFailed
  if !L.verifyDetached bundle.signedPrekeySignature (L.publicKeyBytes bundle.signedPrekey)
      bundle.identityKey then throw .invalidPreKeySignature
  let ikACurveSk ← ed25519SkToCurve25519 L senderIdentity.secretKey
  let ikBCurvePk ← ed25519PkToCurve25519 L bundle.identityKey
  let dh1 ← dh L ikACurveSk bundle.signedPrekey
  let dh2 ← dh L ek.2 ikBCurvePk
  let dh3 ← dh L ek.2 bundle.signedPrekey
  let (dhConcat, usedOtpkId) ← match bundle.oneTimePrekey with
    | none => pure (dh1++dh2++dh3, none)
    | some (otpkId, otpkPk) => do
      let dh4 ← dh L ek.2 otpkPk
      pure (dh1++dh2++dh3++dh4, some otpkId)
  let sharedSecret ← kdf hkdf dhConcat
  pure ⟨sharedSecret, ek.1, usedOtpkId⟩

def acceptX3dh (receiverIdentity : IdentityKeyPair SignPublicKey SignSecretKey)
    (signedPrekeySecret : SecretKey) (oneTimePrekeySecret : Option SecretKey)
    (senderIdentityKey : SignPublicKey) (senderEphemeralKey : PublicKey) : Result Key := do
  if !L.init then throw .initFailed
  let ikBCurveSk ← ed25519SkToCurve25519 L receiverIdentity.secretKey
  let ikACurvePk ← ed25519PkToCurve25519 L senderIdentityKey
  let dh1 ← dh L signedPrekeySecret ikACurvePk
  let dh2 ← dh L ikBCurveSk senderEphemeralKey
  let dh3 ← dh L signedPrekeySecret senderEphemeralKey
  let dhConcat ← match oneTimePrekeySecret with
    | none => pure (dh1++dh2++dh3)
    | some otpkSk => do
      let dh4 ← dh L otpkSk senderEphemeralKey
      pure (dh1++dh2++dh3++dh4)
  kdf hkdf dhConcat

end

variable {L : Sodium SignPublicKey SignSecretKey Signature PublicKey SecretKey} {hkdf : Hkdf Key}

theorem ed25519PkToCurve25519_ok {pk : SignPublicKey} {curvePk : PublicKey} :
    ed25519PkToCurve25519 L pk = .ok curvePk ↔ L.ed25519PkToCurve25519 pk = some curvePk := by
  rw [ed25519PkToCurve25519]
  split <;> simp [*]

theorem ed25519SkToCurve25519_ok {sk : SignSecretKey} {scalar : SecretKey} :
    ed25519SkToCurve25519 L sk = .ok scalar ↔ L.ed25519SkToCurve25519 sk = some scalar := by
  rw [ed25519SkToCurve25519]
  split <;> simp [*]

theorem dh_ok {sk : SecretKey} {pk : PublicKey} {bytes : List UInt8} :
    dh L sk pk = .ok bytes ↔
      ∃ shared, L.scalarmult sk pk = some shared ∧ shared.toList = bytes := by
  rw [dh]
  split <;> simp [*]

theorem kdf_ok {dhConcat : List UInt8} {key : Key} :
    kdf hkdf dhConcat = .ok key ↔ hkdf dhConcat X3DH_INFO = some key := by
  rw [kdf]
  split <;> simp [*]

/-- The input of the KDF, with the optional fourth exchange at its end. -/
def dhConcat (dh1 dh2 dh3 : Bytes32) (dh4 : Option Bytes32) : List UInt8 :=
  dh1.toList++dh2.toList++dh3.toList++(dh4.map Vector.toList).getD []

theorem toList_append_inj {a b : Bytes32} {as bs : List UInt8}
    (h : a.toList++as = b.toList++bs) : a = b ∧ as = bs := by
  obtain ⟨hhead,htail⟩ := List.append_inj h (by simp)
  exact ⟨Vector.toList_inj.mp hhead,htail⟩

/-- Blocks of 32 bytes, of which only the last may be missing, are read back
from their concatenation. -/
theorem dhConcat_inj {dh1 dh2 dh3 dh1' dh2' dh3' : Bytes32} {dh4 dh4' : Option Bytes32}
    (h : dhConcat dh1 dh2 dh3 dh4 = dhConcat dh1' dh2' dh3' dh4') :
    dh1 = dh1' ∧ dh2 = dh2' ∧ dh3 = dh3' ∧ dh4 = dh4' := by
  simp only [dhConcat, List.append_assoc] at h
  obtain ⟨h1,h⟩ := toList_append_inj h
  obtain ⟨h2,h⟩ := toList_append_inj h
  obtain ⟨h3,h⟩ := toList_append_inj h
  refine ⟨h1,h2,h3,?_⟩
  have hlen := congrArg List.length h
  cases dh4 with
  | none =>
    cases dh4' with
    | none => rfl
    | some b => simp at hlen
  | some a =>
    cases dh4' with
    | none => simp at hlen
    | some b => exact congrArg some (Vector.toList_inj.mp (by simpa using h))

/-- Three exchanges and an optional fourth went through and give this key. -/
def Agreed (hkdf : Hkdf Key) (dh1 dh2 dh3 : Option Bytes32) (dh4 : Option (Option Bytes32))
    (key : Key) : Prop :=
  ∃ b1 b2 b3 b4, dh1 = some b1 ∧ dh2 = some b2 ∧ dh3 = some b3 ∧ dh4 = b4.map some ∧
    hkdf (dhConcat b1 b2 b3 b4) X3DH_INFO = some key

theorem agreed_none {dh1 dh2 dh3 : Option Bytes32} {key : Key} :
    Agreed hkdf dh1 dh2 dh3 none key ↔ ∃ b1, dh1 = some b1 ∧ ∃ b2, dh2 = some b2 ∧
      ∃ b3, dh3 = some b3 ∧ kdf hkdf (b1.toList++b2.toList++b3.toList) = .ok key := by
  simp only [Agreed, kdf_ok]
  constructor
  · rintro ⟨b1,b2,b3,b4,h1,h2,h3,h4,hkey⟩
    cases b4 with
    | none => exact ⟨b1,h1,b2,h2,b3,h3,by simpa [dhConcat] using hkey⟩
    | some b4 => simp at h4
  · rintro ⟨b1,h1,b2,h2,b3,h3,hkey⟩
    exact ⟨b1,b2,b3,none,h1,h2,h3,rfl,by simpa [dhConcat] using hkey⟩

theorem agreed_some {dh1 dh2 dh3 dh4 : Option Bytes32} {key : Key} :
    Agreed hkdf dh1 dh2 dh3 (some dh4) key ↔ ∃ b1, dh1 = some b1 ∧ ∃ b2, dh2 = some b2 ∧
      ∃ b3, dh3 = some b3 ∧ ∃ b4, dh4 = some b4 ∧
        kdf hkdf (b1.toList++b2.toList++b3.toList++b4.toList) = .ok key := by
  simp only [Agreed, kdf_ok]
  constructor
  · rintro ⟨b1,b2,b3,b4,h1,h2,h3,h4,hkey⟩
    cases b4 with
    | none => simp at h4
    | some b4 =>
      exact ⟨b1,h1,b2,h2,b3,h3,b4,Option.some.inj h4,by simpa [dhConcat] using hkey⟩
  · rintro ⟨b1,h1,b2,h2,b3,h3,b4,h4,hkey⟩
    exact ⟨b1,b2,b3,some b4,h1,h2,h3,congrArg some h4,by simpa [dhConcat] using hkey⟩

def CollisionFree (hkdf : Hkdf Key) : Prop :=
  ∀ {x y : List UInt8} {key : Key}, hkdf x X3DH_INFO = some key → hkdf y X3DH_INFO = some key →
    x = y

/-- One key comes from one list of exchanges. -/
theorem Agreed.exchanges {dh1 dh2 dh3 dh1' dh2' dh3' : Option Bytes32}
    {dh4 dh4' : Option (Option Bytes32)} {key : Key} (hk : CollisionFree hkdf)
    (h : Agreed hkdf dh1 dh2 dh3 dh4 key) (h' : Agreed hkdf dh1' dh2' dh3' dh4' key) :
    (∃ b, dh3 = some b ∧ dh3' = some b) ∧
      ∃ b : Option Bytes32, dh4 = b.map some ∧ dh4' = b.map some := by
  obtain ⟨b1,b2,b3,b4,-,-,h3,h4,hkey⟩ := h
  obtain ⟨b1',b2',b3',b4',-,-,h3',h4',hkey'⟩ := h'
  obtain ⟨-,-,rfl,rfl⟩ := dhConcat_inj (hk hkey hkey')
  exact ⟨⟨b3,h3,h3'⟩,⟨b4,h4,h4'⟩⟩

variable {bundle : RecipientPreKeyBundle SignPublicKey Signature PublicKey}

theorem initResult_ok {dhConcat : List UInt8} {ekPk : PublicKey} {id : Option UInt32}
    {r : X3DHInitResult PublicKey Key} :
    (kdf hkdf dhConcat >>= fun sharedSecret => pure ⟨sharedSecret,ekPk,id⟩) = .ok r ↔
      kdf hkdf dhConcat = .ok r.sharedSecret ∧ r.ephemeralPublicKey = ekPk ∧
        r.usedOneTimePrekeyId = id := by
  obtain ⟨secret,pk,used⟩ := r
  rw [bind_eq_ok]
  constructor
  · rintro ⟨key,hkey,⟨⟩⟩
    exact ⟨hkey,rfl,rfl⟩
  · rintro ⟨hkey,rfl,rfl⟩
    exact ⟨secret,hkey,rfl⟩

theorem initiateX3dh_ok {alice : IdentityKeyPair SignPublicKey SignSecretKey}
    {ek : PublicKey × SecretKey} {r : X3DHInitResult PublicKey Key} :
    initiateX3dh L hkdf alice bundle ek = .ok r ↔
      L.init = true ∧ L.verifyDetached bundle.signedPrekeySignature
        (L.publicKeyBytes bundle.signedPrekey) bundle.identityKey = true ∧
      ∃ ikA, L.ed25519SkToCurve25519 alice.secretKey = some ikA ∧
      ∃ ikB, L.ed25519PkToCurve25519 bundle.identityKey = some ikB ∧
        Agreed hkdf (L.scalarmult ikA bundle.signedPrekey) (L.scalarmult ek.2 ikB)
          (L.scalarmult ek.2 bundle.signedPrekey)
          (bundle.oneTimePrekey.map fun otpk => L.scalarmult ek.2 otpk.2) r.sharedSecret ∧
        r.ephemeralPublicKey = ek.1 ∧
        r.usedOneTimePrekeyId = bundle.oneTimePrekey.map Prod.fst := by
  rw [initiateX3dh]
  by_cases hinit : L.init
  · by_cases hverify : L.verifyDetached bundle.signedPrekeySignature
        (L.publicKeyBytes bundle.signedPrekey) bundle.identityKey
    · simp only [hinit, hverify, Bool.not_true, Bool.false_eq_true, if_false, bind_eq_ok,
        ed25519SkToCurve25519_ok, ed25519PkToCurve25519_ok, dh_ok, true_and, pure_bind,
        exists_exists_and_eq_and]
      cases hotpk : bundle.oneTimePrekey with
      | none =>
        simp only [initResult_ok, Option.map_none, agreed_none, ← and_assoc, exists_and_right]
      | some otpk =>
        simp only [bind_eq_ok (f := fun dh4 => kdf hkdf _ >>= _), initResult_ok, dh_ok,
          exists_exists_and_eq_and, Option.map_some, agreed_some, ← and_assoc, exists_and_right]
    · simp [hinit, hverify]
  · simp [hinit]

theorem acceptX3dh_ok {bob : IdentityKeyPair SignPublicKey SignSecretKey} {spkSk : SecretKey}
    {otpkSk : Option SecretKey} {senderKey : SignPublicKey} {ekPk : PublicKey} {key : Key} :
    acceptX3dh L hkdf bob spkSk otpkSk senderKey ekPk = .ok key ↔
      L.init = true ∧
      ∃ ikB, L.ed25519SkToCurve25519 bob.secretKey = some ikB ∧
      ∃ ikA, L.ed25519PkToCurve25519 senderKey = some ikA ∧
        Agreed hkdf (L.scalarmult spkSk ikA) (L.scalarmult ikB ekPk) (L.scalarmult spkSk ekPk)
          (otpkSk.map fun sk => L.scalarmult sk ekPk) key := by
  rw [acceptX3dh]
  by_cases hinit : L.init
  · simp only [hinit, Bool.not_true, Bool.false_eq_true, if_false, bind_eq_ok,
      ed25519SkToCurve25519_ok, ed25519PkToCurve25519_ok, dh_ok, true_and, pure_bind,
      exists_exists_and_eq_and]
    cases otpkSk with
    | none => simp only [Option.map_none, agreed_none]
    | some sk =>
      simp only [bind_eq_ok, dh_ok, exists_exists_and_eq_and, Option.map_some, agreed_some]
  · simp [hinit]

/-- One shared secret in two exchanges on one ephemeral key: the other keys are the same. -/
theorem other_key_eq (hS : L.SharedInjective) {ek : PublicKey × SecretKey}
    (hek : ek.1 = L.publicOf ek.2) {pk : PublicKey} {sk : SecretKey} {b : Bytes32}
    (h : L.scalarmult ek.2 pk = some b) (h' : L.scalarmult sk ek.1 = some b) :
    L.publicOf sk = pk := by
  rcases hS h h' with ⟨hsame,hpk⟩ | ⟨-,hpk⟩
  · rw [hpk, hek, hsame]
  · exact hpk.symm

/-- The same for the optional fourth exchange, present on both sides or on neither. -/
theorem other_otpk_eq (hS : L.SharedInjective) {ek : PublicKey × SecretKey}
    (hek : ek.1 = L.publicOf ek.2) {otpk : Option (UInt32 × PublicKey)}
    {otpkSk : Option SecretKey} {b : Option Bytes32}
    (h : (otpk.map fun o => L.scalarmult ek.2 o.2) = b.map some)
    (h' : (otpkSk.map fun sk => L.scalarmult sk ek.1) = b.map some) :
    otpkSk.map L.publicOf = otpk.map Prod.snd := by
  cases b with
  | none =>
    rw [Option.map_none, Option.map_eq_none_iff] at h h'
    rw [h, h', Option.map_none, Option.map_none]
  | some b =>
    obtain ⟨o,rfl,ho⟩ := Option.map_eq_some_iff.mp h
    obtain ⟨sk,rfl,hsk⟩ := Option.map_eq_some_iff.mp h'
    exact congrArg some (other_key_eq hS hek ho hsk)

/-- A completed initiation names a verified prekey and the one-time prekey it
used. The responder with the matching secrets derives the same key, and a
responder with any other prekeys derives another. -/
theorem x3dh_agreement (hL : L.Lawful) (hS : L.SharedInjective) (hfree : CollisionFree hkdf)
    {alice bob : IdentityKeyPair SignPublicKey SignSecretKey} (ha : alice.Matched L)
    (hb : bob.Matched L) (hbundle : bundle.identityKey = bob.publicKey)
    {ek : PublicKey × SecretKey} (hek : ek.1 = L.publicOf ek.2)
    {r : X3DHInitResult PublicKey Key} (h : initiateX3dh L hkdf alice bundle ek = .ok r) :
    L.verifyDetached bundle.signedPrekeySignature (L.publicKeyBytes bundle.signedPrekey)
      bundle.identityKey = true ∧
    r.usedOneTimePrekeyId = bundle.oneTimePrekey.map Prod.fst ∧
    (∀ spkSk otpkSk, L.publicOf spkSk = bundle.signedPrekey →
      otpkSk.map L.publicOf = bundle.oneTimePrekey.map Prod.snd →
      acceptX3dh L hkdf bob spkSk otpkSk alice.publicKey r.ephemeralPublicKey =
        .ok r.sharedSecret) ∧
    ∀ spkSk otpkSk key,
      L.publicOf spkSk ≠ bundle.signedPrekey ∨
        otpkSk.map L.publicOf ≠ bundle.oneTimePrekey.map Prod.snd →
      acceptX3dh L hkdf bob spkSk otpkSk alice.publicKey r.ephemeralPublicKey = .ok key →
      key ≠ r.sharedSecret := by
  obtain ⟨hinit,hverify,ikA,hikA,ikB,hikB,hagreed,hephemeral,hused⟩ := initiateX3dh_ok.mp h
  have hikA' : L.ed25519PkToCurve25519 alice.publicKey = some (L.publicOf ikA) := by
    rw [hL.converted ha, hikA, Option.map_some]
  refine ⟨hverify,hused,?_,?_⟩
  · intro spkSk otpkSk hspk hotpk
    rw [hbundle, hL.converted hb, Option.map_eq_some_iff] at hikB
    obtain ⟨ikBSk,hikBSk,rfl⟩ := hikB
    refine acceptX3dh_ok.mpr ⟨hinit,ikBSk,hikBSk,_,hikA',?_⟩
    have hfourth : (otpkSk.map fun sk => L.scalarmult sk r.ephemeralPublicKey) =
        bundle.oneTimePrekey.map fun otpk => L.scalarmult ek.2 otpk.2 := by
      have hmap := congrArg (Option.map (L.scalarmult ek.2)) hotpk
      simp only [Option.map_map, Function.comp_def] at hmap
      rw [← hmap, hephemeral, hek]
      congr 1
      funext sk
      exact hL.scalarmult_comm sk ek.2
    rw [hfourth, hephemeral, hek, hL.scalarmult_comm spkSk, hL.scalarmult_comm ikBSk,
      hL.scalarmult_comm spkSk, hspk]
    exact hagreed
  · rintro spkSk otpkSk key hother haccept rfl
    obtain ⟨-,ikBSk,-,ikA',-,hagreed'⟩ := acceptX3dh_ok.mp haccept
    obtain ⟨⟨b3,h3,h3'⟩,⟨b4,h4,h4'⟩⟩ := hagreed.exchanges hfree hagreed'
    rw [hephemeral] at h3' h4'
    have hspk : L.publicOf spkSk = bundle.signedPrekey := other_key_eq hS hek h3 h3'
    have hotpk : otpkSk.map L.publicOf = bundle.oneTimePrekey.map Prod.snd :=
      other_otpk_eq hS hek h4 h4'
    rcases hother with hother | hother
    · exact hother hspk
    · exact hother hotpk

/-- A key that is its own input: nothing collides. -/
def sampleHkdf : Hkdf (List UInt8) := fun ikm _ => some ikm

theorem sampleHkdf_collisionFree : CollisionFree sampleHkdf := by
  intro x y key hx hy
  exact (Option.some.inj hx).trans (Option.some.inj hy).symm

/-- Identity keys 2 and 3, signed prekey 4, one-time prekey 5 under the id 9, ephemeral key 6. -/
def sampleBundle : RecipientPreKeyBundle UInt8 (List UInt8 × UInt8) UInt8 where
  identityKey := 3
  signedPrekey := 4
  signedPrekeySignature := (List.replicate 32 4,3)
  oneTimePrekey := some (9,5)

theorem x3dh_agreement_sample : ∃ r,
    initiateX3dh Sodium.sample sampleHkdf ⟨2,2⟩ sampleBundle (6,6) = .ok r ∧
    r.usedOneTimePrekeyId = some 9 ∧
    acceptX3dh Sodium.sample sampleHkdf ⟨3,3⟩ 4 (some 5) 2 6 = .ok r.sharedSecret ∧
    ∀ key, acceptX3dh Sodium.sample sampleHkdf ⟨3,3⟩ 4 none 2 6 = .ok key →
      key ≠ r.sharedSecret := by
  obtain ⟨r,h⟩ : ∃ r, initiateX3dh Sodium.sample sampleHkdf ⟨2,2⟩ sampleBundle (6,6) = .ok r :=
    ⟨_,rfl⟩
  have halice : IdentityKeyPair.Matched Sodium.sample ⟨2,2⟩ := rfl
  have hbob : IdentityKeyPair.Matched Sodium.sample ⟨3,3⟩ := rfl
  obtain ⟨-,hused,haccept,hother⟩ := x3dh_agreement Sodium.sample_lawful
    Sodium.sample_sharedInjective sampleHkdf_collisionFree halice hbob rfl rfl h
  have hephemeral : r.ephemeralPublicKey = 6 := by
    cases h
    rfl
  rw [hephemeral] at haccept hother
  exact ⟨r,h,hused,haccept 4 (some 5) rfl rfl,fun key => hother 4 none key (.inr (by decide))⟩

end X3dh
end Vaultex
