import Mathlib.Data.Sym.Sym2
import Vaultex.Deduction
import Vaultex.X3dh

/-!
# What a shared secret says about its handshake

A handshake is named by the public keys that took part in it, an exchange by
the unordered pair of its two keys: the two sides of a handshake run the same
list of exchanges, one from each end. The secret stands for that list, so it
names the keys, and whoever computes it has to run every exchange of the list.
-/

set_option autoImplicit false

namespace Vaultex.Handshake
open X3dh

variable {SignPublicKey SignSecretKey Signature PublicKey SecretKey Key : Type}

/-- The public keys of a handshake, those of the identities as Curve25519 keys. -/
structure Keys (PublicKey : Type) where
  initiator : PublicKey
  responder : PublicKey
  signedPrekey : PublicKey
  ephemeral : PublicKey
  oneTimePrekey : Option PublicKey

/-- DH1 to DH4, in this order. -/
def exchanges (hs : Keys PublicKey) : List (Sym2 PublicKey) :=
  [s(hs.initiator,hs.signedPrekey), s(hs.ephemeral,hs.responder), s(hs.ephemeral,hs.signedPrekey)]++
    (hs.oneTimePrekey.map fun otpk => s(hs.ephemeral,otpk)).toList

/-- The list names every key, unless the ephemeral key of one handshake is the
signed prekey of the other. -/
theorem exchanges_inj {hs hs' : Keys PublicKey} (hfresh : hs.ephemeral ≠ hs'.signedPrekey)
    (h : exchanges hs = exchanges hs') : hs = hs' := by
  obtain ⟨ikA,ikB,spk,ek,otpk⟩ := hs
  obtain ⟨ikA',ikB',spk',ek',otpk'⟩ := hs'
  simp only [exchanges, List.cons_append, List.nil_append, List.cons.injEq] at h
  obtain ⟨h1,h2,h3,h4⟩ := h
  obtain ⟨rfl,rfl⟩ : ek = ek' ∧ spk = spk' :=
    (Sym2.eq_iff.mp h3).resolve_right fun hswap => hfresh hswap.1
  obtain rfl := Sym2.congr_left.mp h1
  obtain rfl := Sym2.congr_right.mp h2
  have hfourth : otpk = otpk' := by
    cases otpk with
    | none =>
      cases otpk' with
      | none => rfl
      | some pk' => simp at h4
    | some pk =>
      cases otpk' with
      | none => simp at h4
      | some pk' =>
        simp only [Option.map_some, Option.toList_some, List.cons.injEq, and_true] at h4
        exact congrArg some (Sym2.congr_right.mp h4)
  rw [hfourth]

section
variable (L : Sodium SignPublicKey SignSecretKey Signature PublicKey SecretKey) (hkdf : Hkdf Key)

/-- The output of an exchange, computed from either end. -/
def BlockOf (p : Sym2 PublicKey) (b : Bytes32) : Prop :=
  ∃ sk pk, L.scalarmult sk pk = some b ∧ s(L.publicOf sk,pk) = p

/-- The key derived from the outputs of the exchanges. -/
def Yields (hs : Keys PublicKey) (key : Key) : Prop :=
  ∃ blocks, List.Forall₂ (BlockOf L) (exchanges hs) blocks ∧
    hkdf (blocks.flatMap Vector.toList) X3DH_INFO = some key

end

variable {L : Sodium SignPublicKey SignSecretKey Signature PublicKey SecretKey} {hkdf : Hkdf Key}

theorem dhConcat_flatMap (b1 b2 b3 : Bytes32) (b4 : Option Bytes32) :
    dhConcat b1 b2 b3 b4 = ([b1, b2, b3]++b4.toList).flatMap Vector.toList := by
  cases b4 <;> simp [dhConcat]

/-- Blocks of 32 bytes are read back from their concatenation. -/
theorem blocks_inj {blocks blocks' : List Bytes32}
    (h : blocks.flatMap Vector.toList = blocks'.flatMap Vector.toList) : blocks = blocks' := by
  induction blocks generalizing blocks' with
  | nil =>
    cases blocks' with
    | nil => rfl
    | cons b' blocks' =>
      have hlen := congrArg List.length h
      simp at hlen
      omega
  | cons b blocks ih =>
    cases blocks' with
    | nil =>
      have hlen := congrArg List.length h
      simp at hlen
    | cons b' blocks' =>
      obtain ⟨rfl,htail⟩ := toList_append_inj h
      rw [ih htail]

/-- An exchange has one name. -/
theorem block_name (hS : L.SharedInjective) {p p' : Sym2 PublicKey} {b : Bytes32}
    (h : BlockOf L p b) (h' : BlockOf L p' b) : p = p' := by
  obtain ⟨sk,pk,hb,rfl⟩ := h
  obtain ⟨sk',pk',hb',rfl⟩ := h'
  exact Sym2.eq_iff.mpr (hS hb hb')

theorem blocks_names (hS : L.SharedInjective) {ps ps' : List (Sym2 PublicKey)}
    {blocks : List Bytes32} (h : List.Forall₂ (BlockOf L) ps blocks)
    (h' : List.Forall₂ (BlockOf L) ps' blocks) : ps = ps' := by
  induction h generalizing ps' with
  | nil =>
    cases h'
    rfl
  | cons hp _ ih =>
    cases h' with
    | cons hp' htail => rw [block_name hS hp hp', ih htail]

theorem yields_unique (hS : L.SharedInjective) (hfree : CollisionFree hkdf)
    {hs hs' : Keys PublicKey} {key : Key} (h : Yields L hkdf hs key) (h' : Yields L hkdf hs' key) :
    exchanges hs = exchanges hs' := by
  obtain ⟨blocks,hblocks,hkey⟩ := h
  obtain ⟨blocks',hblocks',hkey'⟩ := h'
  obtain rfl := blocks_inj (hfree hkey hkey')
  exact blocks_names hS hblocks hblocks'

/-- What the code computes is the key of the handshake whose exchanges it ran. -/
theorem agreed_yields {hs : Keys PublicKey} {dh1 dh2 dh3 : Option Bytes32}
    {dh4 : Option (Option Bytes32)} {key : Key} (h : Agreed hkdf dh1 dh2 dh3 dh4 key)
    (h1 : ∀ {b}, dh1 = some b → BlockOf L s(hs.initiator,hs.signedPrekey) b)
    (h2 : ∀ {b}, dh2 = some b → BlockOf L s(hs.ephemeral,hs.responder) b)
    (h3 : ∀ {b}, dh3 = some b → BlockOf L s(hs.ephemeral,hs.signedPrekey) b)
    (h4 : ∀ {b : Option Bytes32}, dh4 = b.map some → List.Forall₂ (BlockOf L)
      (hs.oneTimePrekey.map fun otpk => s(hs.ephemeral,otpk)).toList b.toList) :
    Yields L hkdf hs key := by
  obtain ⟨b1,b2,b3,b4,hb1,hb2,hb3,hb4,hkey⟩ := h
  rw [dhConcat_flatMap] at hkey
  exact ⟨_,.cons (h1 hb1) (.cons (h2 hb2) (.cons (h3 hb3) (h4 hb4))),hkey⟩

/-- The fourth exchange, present or not. -/
theorem fourth_block {Other : Type} {ekPk : PublicKey} {other : Option Other}
    {otpk : Other → PublicKey} {run : Other → Option Bytes32} {b : Option Bytes32}
    (hrun : ∀ {x b}, run x = some b → BlockOf L s(ekPk,otpk x) b)
    (h : other.map run = b.map some) : List.Forall₂ (BlockOf L)
      ((other.map otpk).map fun otpk => s(ekPk,otpk)).toList b.toList := by
  cases b with
  | none =>
    rw [Option.map_none, Option.map_eq_none_iff] at h
    rw [h]
    exact .nil
  | some b =>
    obtain ⟨x,rfl,hx⟩ := Option.map_eq_some_iff.mp h
    exact .cons (hrun hx) .nil

theorem block_forward {sk : SecretKey} {pk : PublicKey} {b : Bytes32}
    (h : L.scalarmult sk pk = some b) : BlockOf L s(L.publicOf sk,pk) b := ⟨sk,pk,h,rfl⟩

theorem block_backward {sk : SecretKey} {pk : PublicKey} {b : Bytes32}
    (h : L.scalarmult sk pk = some b) : BlockOf L s(pk,L.publicOf sk) b :=
  ⟨sk,pk,h,Sym2.eq_swap⟩

variable (L hkdf) in
/-- A run of either side that came to an end, with the keys it was run on. -/
inductive Ran : Keys PublicKey → Key → Prop
  | initiated {alice : IdentityKeyPair SignPublicKey SignSecretKey}
      {bundle : RecipientPreKeyBundle SignPublicKey Signature PublicKey}
      {ek : PublicKey × SecretKey} {r : X3DHInitResult PublicKey Key} {ikA ikB : PublicKey}
      (matched : alice.Matched L) (pair : ek.1 = L.publicOf ek.2)
      (initiator : L.ed25519PkToCurve25519 alice.publicKey = some ikA)
      (responder : L.ed25519PkToCurve25519 bundle.identityKey = some ikB)
      (h : initiateX3dh L hkdf alice bundle ek = .ok r) :
      Ran ⟨ikA,ikB,bundle.signedPrekey,ek.1,bundle.oneTimePrekey.map Prod.snd⟩ r.sharedSecret
  | accepted {bob : IdentityKeyPair SignPublicKey SignSecretKey} {spkSk : SecretKey}
      {otpkSk : Option SecretKey} {senderKey : SignPublicKey} {ekPk ikA ikB : PublicKey}
      {key : Key} (matched : bob.Matched L)
      (initiator : L.ed25519PkToCurve25519 senderKey = some ikA)
      (responder : L.ed25519PkToCurve25519 bob.publicKey = some ikB)
      (h : acceptX3dh L hkdf bob spkSk otpkSk senderKey ekPk = .ok key) :
      Ran ⟨ikA,ikB,L.publicOf spkSk,ekPk,otpkSk.map L.publicOf⟩ key

theorem ran_yields (hL : L.Lawful) {hs : Keys PublicKey} {key : Key} (h : Ran L hkdf hs key) :
    Yields L hkdf hs key := by
  cases h with
  | initiated matched pair initiator responder h =>
    obtain ⟨-,-,ikASk,hikA,ikB,hikB,hagreed,-⟩ := initiateX3dh_ok.mp h
    rw [hL.converted matched, hikA, Option.map_some, Option.some.injEq] at initiator
    rw [hikB, Option.some.injEq] at responder
    subst initiator responder
    apply agreed_yields hagreed block_forward
    · rw [pair]
      exact block_forward
    · rw [pair]
      exact block_forward
    · rw [pair]
      exact fourth_block block_forward
  | accepted matched initiator responder h =>
    obtain ⟨-,ikBSk,hikB,ikA,hikA,hagreed⟩ := acceptX3dh_ok.mp h
    rw [hL.converted matched, hikB, Option.map_some, Option.some.injEq] at responder
    rw [hikA, Option.some.injEq] at initiator
    subst initiator responder
    exact agreed_yields hagreed block_backward block_backward block_backward
      (fourth_block block_backward)

/-- Whoever holds one secret ran one handshake: two runs that end with the same
key, of either side each, were run on the same five public keys, the identities
taken as the Curve25519 keys they convert to. -/
theorem secret_names_handshake (hL : L.Lawful) (hS : L.SharedInjective)
    (hfree : CollisionFree hkdf) {hs hs' : Keys PublicKey} {key : Key} (h : Ran L hkdf hs key)
    (h' : Ran L hkdf hs' key) (hfresh : hs.ephemeral ≠ hs'.signedPrekey) : hs = hs' :=
  exchanges_inj hfresh (yields_unique hS hfree (ran_yields hL h) (ran_yields hL h'))

/-- Alice initiates towards identity 3; whoever accepts with her secret has her for
the sender, is that identity and took the one-time prekey 5. -/
theorem secret_names_handshake_sample : ∃ r,
    initiateX3dh Sodium.sample sampleHkdf ⟨2,2⟩ sampleBundle (6,6) = .ok r ∧
    ∀ bob otpkSk senderKey ekPk,
      acceptX3dh Sodium.sample sampleHkdf ⟨bob,bob⟩ 4 otpkSk senderKey ekPk =
        .ok r.sharedSecret →
      senderKey = 2 ∧ bob = 3 ∧ otpkSk = some 5 ∧ ekPk = 6 := by
  obtain ⟨r,h⟩ : ∃ r, initiateX3dh Sodium.sample sampleHkdf ⟨2,2⟩ sampleBundle (6,6) = .ok r :=
    ⟨_,rfl⟩
  refine ⟨r,h,fun bob otpkSk senderKey ekPk h' => ?_⟩
  have halice : IdentityKeyPair.Matched Sodium.sample ⟨2,2⟩ := rfl
  have hbob : IdentityKeyPair.Matched Sodium.sample ⟨bob,bob⟩ := rfl
  have heq := secret_names_handshake Sodium.sample_lawful Sodium.sample_sharedInjective
    sampleHkdf_collisionFree (.initiated halice rfl rfl rfl h) (.accepted hbob rfl rfl h')
    (by decide : (6 : UInt8) ≠ 4)
  simp only [Keys.mk.injEq] at heq
  obtain ⟨hsender,hbob,-,hek,hotpk⟩ := heq
  have hsame : otpkSk.map Sodium.sample.publicOf = otpkSk := congrFun Option.map_id otpkSk
  exact ⟨hsender.symm,hbob.symm,hsame.symm.trans hotpk.symm,hek.symm⟩

end Vaultex.Handshake
