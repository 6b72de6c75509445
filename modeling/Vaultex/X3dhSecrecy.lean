import Vaultex.Handshake
import Vaultex.Runs

/-!
# Whose keys give the shared secret away

An attacker holds scalars, outputs of exchanges and secrets, and computes with
them: an exchange from a scalar of one of its ends, a secret from the outputs
of all exchanges. The secret of a handshake is out of reach exactly as long as
one exchange has both scalars out of reach.
-/

set_option autoImplicit false

namespace Vaultex.X3dhSecrecy
open X3dh Deduction Handshake

inductive Datum (SecretKey Key : Type) where
  | scalar (sk : SecretKey)
  | block (b : Bytes32)
  | key (key : Key)

variable {SignPublicKey SignSecretKey Signature PublicKey SecretKey Key : Type}

section
variable (L : Sodium SignPublicKey SignSecretKey Signature PublicKey SecretKey) (hkdf : Hkdf Key)

inductive Rule : List (Datum SecretKey Key) → Datum SecretKey Key → Prop
  | dh {sk : SecretKey} {pk : PublicKey} {b : Bytes32} (h : L.scalarmult sk pk = some b) :
      Rule [.scalar sk] (.block b)
  | kdf {blocks : List Bytes32} {key : Key}
      (h : hkdf (blocks.flatMap Vector.toList) X3DH_INFO = some key) :
      Rule (blocks.map .block) (.key key)

/-- Somebody holds the scalar of the public key. -/
def Held (pk : PublicKey) : Prop := ∃ sk, L.publicOf sk = pk

/-- All five keys of a handshake are keys somebody holds. -/
structure Generated (hs : Keys PublicKey) : Prop where
  initiator : Held L hs.initiator
  responder : Held L hs.responder
  signedPrekey : Held L hs.signedPrekey
  ephemeral : Held L hs.ephemeral
  oneTimePrekey : ∀ otpk ∈ hs.oneTimePrekey, Held L otpk

/-- The attacker got nothing of this handshake but scalars. -/
structure OnlyScalars (hs : Keys PublicKey) (key : Key) (known : Set (Datum SecretKey Key)) :
    Prop where
  noKey : .key key ∉ known
  noBlock : ∀ p ∈ exchanges hs, ∀ b, BlockOf L p b → .block b ∉ known

/-- A known scalar belongs to one of the two keys. -/
def Broken (known : Set (Datum SecretKey Key)) (p : Sym2 PublicKey) : Prop :=
  ∃ sk, .scalar sk ∈ known ∧ L.publicOf sk ∈ p

end

variable {L : Sodium SignPublicKey SignSecretKey Signature PublicKey SecretKey} {hkdf : Hkdf Key}
  {known : Set (Datum SecretKey Key)} {hs : Keys PublicKey} {key : Key}

theorem Generated.held (hg : Generated L hs) {p : Sym2 PublicKey} (hp : p ∈ exchanges hs)
    {pk : PublicKey} (hpk : pk ∈ p) : Held L pk := by
  simp only [exchanges, List.cons_append, List.nil_append, List.mem_cons] at hp
  rcases hp with rfl | rfl | rfl | hp
  · rcases Sym2.mem_iff.mp hpk with rfl | rfl
    · exact hg.initiator
    · exact hg.signedPrekey
  · rcases Sym2.mem_iff.mp hpk with rfl | rfl
    · exact hg.ephemeral
    · exact hg.responder
  · rcases Sym2.mem_iff.mp hpk with rfl | rfl
    · exact hg.ephemeral
    · exact hg.signedPrekey
  · cases hotpk : hs.oneTimePrekey with
    | none => simp [hotpk] at hp
    | some otpk =>
      simp only [hotpk, Option.map_some, Option.toList_some, List.mem_singleton] at hp
      subst hp
      rcases Sym2.mem_iff.mp hpk with rfl | rfl
      · exact hg.ephemeral
      · exact hg.oneTimePrekey pk hotpk

/-- No rule gives a scalar. -/
theorem scalar_derivable {sk : SecretKey} :
    Derivable (Rule L hkdf) known (.scalar sk) ↔ .scalar sk ∈ known := by
  rw [derivable_iff]
  constructor
  · rintro (h | ⟨premises,hr,-⟩)
    · exact h
    · cases hr
  · exact Or.inl

/-- An output is within reach when one of the two scalars is. -/
theorem block_derivable (hS : L.SharedInjective) {p : Sym2 PublicKey} {b : Bytes32}
    (hb : BlockOf L p b) (hno : .block b ∉ known)
    (h : Derivable (Rule L hkdf) known (.block b)) : Broken L known p := by
  rcases derivable_iff.mp h with h | ⟨premises,hr,hall⟩
  · exact absurd h hno
  · cases hr with
    | @dh sk pk _ hdh =>
      have hsk := scalar_derivable.mp (hall (.scalar sk) List.mem_cons_self)
      refine ⟨sk,hsk,?_⟩
      rw [block_name hS hb (block_forward hdh)]
      exact Sym2.mem_mk_left _ _

/-- The holder of one of the two scalars runs the exchange. -/
theorem broken_derivable (hL : L.Lawful) {p : Sym2 PublicKey} {b : Bytes32}
    (hheld : ∀ pk ∈ p, Held L pk) (hb : BlockOf L p b) (h : Broken L known p) :
    Derivable (Rule L hkdf) known (.block b) := by
  obtain ⟨sk,hsk,hmem⟩ := h
  obtain ⟨sk0,pk0,hdh,rfl⟩ := hb
  obtain ⟨sk1,rfl⟩ := hheld pk0 (Sym2.mem_mk_right _ _)
  have hrun : ∃ pk, L.scalarmult sk pk = some b := by
    rcases Sym2.mem_iff.mp hmem with heq | heq
    · refine ⟨L.publicOf sk1,?_⟩
      rw [hL.scalarmult_comm, heq, hL.scalarmult_comm]
      exact hdh
    · refine ⟨L.publicOf sk0,?_⟩
      rw [hL.scalarmult_comm, heq]
      exact hdh
  obtain ⟨pk,hpk⟩ := hrun
  apply Derivable.rule (.dh hpk)
  intro d hd
  obtain rfl := List.mem_singleton.mp hd
  exact .known hsk

/-- Who holds a scalar of every exchange computes the secret, whatever else they know. -/
theorem secret_of_broken (hL : L.Lawful) (h : Ran L hkdf hs key) (hg : Generated L hs)
    (hbroken : ∀ p ∈ exchanges hs, Broken L known p) :
    Derivable (Rule L hkdf) known (.key key) := by
  obtain ⟨blocks,hblocks,hkey⟩ := ran_yields hL h
  apply Derivable.rule (.kdf hkey)
  intro d hd
  obtain ⟨b,hb,rfl⟩ := List.mem_map.mp hd
  obtain ⟨p,hp,hblock⟩ := Runs.forall₂_mem hblocks.flip hb
  exact broken_derivable hL (fun _ => hg.held hp) hblock (hbroken p hp)

/-- The handshake of `sampleBundle`, with a one-time prekey or without. -/
def sampleKeys (otpk : Option UInt8) : Keys UInt8 := ⟨2,3,4,6,otpk⟩

theorem sample_generated (hs : Keys UInt8) : Generated Sodium.sample hs where
  initiator := ⟨_,rfl⟩
  responder := ⟨_,rfl⟩
  signedPrekey := ⟨_,rfl⟩
  ephemeral := ⟨_,rfl⟩
  oneTimePrekey _ _ := ⟨_,rfl⟩

theorem sample_accepted (otpk : Option UInt8) (h : otpk = none ∨ otpk = some 5) :
    ∃ key, Ran Sodium.sample sampleHkdf (sampleKeys otpk) key := by
  have hbob : IdentityKeyPair.Matched Sodium.sample ⟨3,3⟩ := rfl
  rcases h with rfl | rfl
  · obtain ⟨key,haccept⟩ : ∃ key,
        acceptX3dh Sodium.sample sampleHkdf ⟨3,3⟩ 4 none 2 6 = .ok key := ⟨_,rfl⟩
    exact ⟨key,.accepted hbob rfl rfl haccept⟩
  · obtain ⟨key,haccept⟩ : ∃ key,
        acceptX3dh Sodium.sample sampleHkdf ⟨3,3⟩ 4 (some 5) 2 6 = .ok key := ⟨_,rfl⟩
    exact ⟨key,.accepted hbob rfl rfl haccept⟩

/-- The secret of a handshake can be computed exactly by those who hold, for each of
its exchanges, the scalar of one end. -/
theorem secret_derivable_iff (hL : L.Lawful) (hS : L.SharedInjective) (hfree : CollisionFree hkdf)
    (h : Ran L hkdf hs key) (hg : Generated L hs) (hknown : OnlyScalars L hs key known) :
    Derivable (Rule L hkdf) known (.key key) ↔ ∀ p ∈ exchanges hs, Broken L known p := by
  constructor
  · intro hder p hp
    obtain ⟨blocks,hblocks,hkey⟩ := ran_yields hL h
    rcases derivable_iff.mp hder with hmem | ⟨premises,hr,hall⟩
    · exact absurd hmem hknown.noKey
    · cases hr with
      | @kdf blocks' _ hkey' =>
        obtain rfl := blocks_inj (hfree hkey hkey')
        obtain ⟨b,hmem,hb⟩ := Runs.forall₂_mem hblocks hp
        exact block_derivable hS hb (hknown.noBlock p hp b hb)
          (hall _ (List.mem_map_of_mem hmem))
  · exact secret_of_broken hL h hg

/-- The responder's long-term scalars do not give away a secret made with a one-time prekey. -/
theorem secret_derivable_iff_sample : ∃ key,
    Ran Sodium.sample sampleHkdf (sampleKeys (some 5)) key ∧
      ¬Derivable (Rule Sodium.sample sampleHkdf) {.scalar 3, .scalar 4} (.key key) := by
  obtain ⟨key,h⟩ := sample_accepted (some 5) (Or.inr rfl)
  refine ⟨key,h,fun hder => ?_⟩
  have hknown : OnlyScalars Sodium.sample (sampleKeys (some 5)) key {.scalar 3, .scalar 4} := by
    constructor <;> simp
  have hall := (secret_derivable_iff Sodium.sample_lawful Sodium.sample_sharedInjective
    sampleHkdf_collisionFree h (sample_generated _) hknown).mp hder
  obtain ⟨sk,hsk,heq⟩ := hall s(6,5) (by simp [exchanges, sampleKeys])
  simp only [Set.mem_insert_iff, Set.mem_singleton_iff, Datum.scalar.injEq] at hsk
  rcases hsk with rfl | rfl <;> exact absurd heq (by decide)

theorem broken_pair {p q : PublicKey} :
    Broken L known s(p,q) ↔
      ∃ sk, .scalar sk ∈ known ∧ (L.publicOf sk = p ∨ L.publicOf sk = q) := by
  simp only [Broken, Sym2.mem_iff]

/-- Every scalar there is, but for those of the ephemeral key and the one-time prekey. -/
def longTerm (L : Sodium SignPublicKey SignSecretKey Signature PublicKey SecretKey)
    (Key : Type) (hs : Keys PublicKey) : Set (Datum SecretKey Key) :=
  {d | ∃ sk, d = .scalar sk ∧ L.publicOf sk ≠ hs.ephemeral ∧
    some (L.publicOf sk) ≠ hs.oneTimePrekey}

theorem longTerm_scalar {sk : SecretKey} :
    .scalar sk ∈ longTerm L Key hs ↔
      L.publicOf sk ≠ hs.ephemeral ∧ some (L.publicOf sk) ≠ hs.oneTimePrekey := by
  simp [longTerm]

theorem longTerm_onlyScalars : OnlyScalars L hs key (longTerm L Key hs) where
  noKey h := by
    obtain ⟨sk,heq,-⟩ := h
    contradiction
  noBlock p _ b _ h := by
    obtain ⟨sk,heq,-⟩ := h
    contradiction

/-- Without a one-time prekey each exchange ends in a long-term key of the responder. -/
theorem broken_by_responder (hotpk : hs.oneTimePrekey = none) {skB spkSk : SecretKey}
    (hskB : L.publicOf skB = hs.responder) (hspkSk : L.publicOf spkSk = hs.signedPrekey)
    (hresponder : .scalar skB ∈ known) (hspk : .scalar spkSk ∈ known) :
    ∀ p ∈ exchanges hs, Broken L known p := by
  intro p hp
  simp only [exchanges, hotpk, Option.map_none, Option.toList_none, List.append_nil,
    List.mem_cons, List.not_mem_nil, or_false] at hp
  rcases hp with rfl | rfl | rfl
  · exact broken_pair.mpr ⟨spkSk,hspk,Or.inr hspkSk⟩
  · exact broken_pair.mpr ⟨skB,hresponder,Or.inr hskB⟩
  · exact broken_pair.mpr ⟨spkSk,hspk,Or.inr hspkSk⟩

/-- When every other scalar becomes known, the identities' and the signed prekey's among
them, the secret stays safe if and only if the handshake used a one-time prekey. Where it
used none, those of the responder's identity and signed prekey are enough to compute it. -/
theorem outlives_long_term_iff (hL : L.Lawful) (hS : L.SharedInjective)
    (hfree : CollisionFree hkdf) (h : Ran L hkdf hs key) (hg : Generated L hs)
    (hresponder : hs.responder ≠ hs.ephemeral) (hspk : hs.signedPrekey ≠ hs.ephemeral) :
    (¬Derivable (Rule L hkdf) (longTerm L Key hs) (.key key) ↔ hs.oneTimePrekey.isSome) ∧
    (hs.oneTimePrekey = none → ∀ (known : Set (Datum SecretKey Key)) (skB spkSk : SecretKey),
      L.publicOf skB = hs.responder → L.publicOf spkSk = hs.signedPrekey →
      .scalar skB ∈ known → .scalar spkSk ∈ known →
      Derivable (Rule L hkdf) known (.key key)) := by
  constructor
  · rw [secret_derivable_iff hL hS hfree h hg longTerm_onlyScalars]
    cases hotpk : hs.oneTimePrekey with
    | some otpk =>
      refine iff_of_true (fun hall => ?_) rfl
      have hfourth : s(hs.ephemeral,otpk) ∈ exchanges hs := by simp [exchanges, hotpk]
      obtain ⟨sk,hsk,heq⟩ := broken_pair.mp (hall _ hfourth)
      rw [longTerm_scalar, hotpk] at hsk
      rcases heq with heq | heq
      · exact hsk.1 heq
      · exact hsk.2 (congrArg some heq)
    | none =>
      obtain ⟨skB,hskB⟩ := hg.responder
      obtain ⟨spkSk,hspkSk⟩ := hg.signedPrekey
      have hskBKnown : .scalar skB ∈ longTerm L Key hs := by
        rw [longTerm_scalar, hskB, hotpk]
        exact ⟨hresponder,Option.some_ne_none _⟩
      have hspkKnown : .scalar spkSk ∈ longTerm L Key hs := by
        rw [longTerm_scalar, hspkSk, hotpk]
        exact ⟨hspk,Option.some_ne_none _⟩
      exact iff_of_false
        (not_not_intro (broken_by_responder hotpk hskB hspkSk hskBKnown hspkKnown)) (by simp)
  · intro hotpk known skB spkSk hskB hspkSk hskBKnown hspkKnown
    exact secret_of_broken hL h hg (broken_by_responder hotpk hskB hspkSk hskBKnown hspkKnown)

/-- Without a one-time prekey, the scalars 3 of the responder's identity and 4 of its signed
prekey give the secret away. -/
theorem outlives_long_term_iff_sample : ∃ key,
    Ran Sodium.sample sampleHkdf (sampleKeys none) key ∧
      Derivable (Rule Sodium.sample sampleHkdf) (longTerm Sodium.sample _ (sampleKeys none))
        (.key key) ∧
      Derivable (Rule Sodium.sample sampleHkdf) {.scalar 3, .scalar 4} (.key key) := by
  obtain ⟨key,h⟩ := sample_accepted none (Or.inl rfl)
  obtain ⟨hiff,htwo⟩ := outlives_long_term_iff Sodium.sample_lawful Sodium.sample_sharedInjective
    sampleHkdf_collisionFree h (sample_generated _) (by decide) (by decide)
  exact ⟨key,h,Classical.not_not.mp fun hnot => absurd (hiff.mp hnot) (by decide),
    htwo rfl _ 3 4 rfl rfl (by simp) (by simp)⟩

/-- Whoever made up the ephemeral key shares the secret of a responder exactly by holding the
scalar of the identity named as the sender's or that of the signed prekey: nothing else
speaks for the sender. -/
theorem impersonation_iff (hL : L.Lawful) (hS : L.SharedInjective) (hfree : CollisionFree hkdf)
    (h : Ran L hkdf hs key) (hg : Generated L hs) (hknown : OnlyScalars L hs key known)
    {ekSk : SecretKey} (hek : L.publicOf ekSk = hs.ephemeral) (hmade : .scalar ekSk ∈ known) :
    Derivable (Rule L hkdf) known (.key key) ↔
      ∃ sk, .scalar sk ∈ known ∧
        (L.publicOf sk = hs.initiator ∨ L.publicOf sk = hs.signedPrekey) := by
  rw [secret_derivable_iff hL hS hfree h hg hknown, ← broken_pair]
  constructor
  · intro hall
    exact hall _ (by simp [exchanges])
  · intro hfirst p hp
    simp only [exchanges, List.cons_append, List.nil_append, List.mem_cons] at hp
    rcases hp with rfl | rfl | rfl | hp
    · exact hfirst
    · exact broken_pair.mpr ⟨ekSk,hmade,Or.inl hek⟩
    · exact broken_pair.mpr ⟨ekSk,hmade,Or.inl hek⟩
    · rw [Option.mem_toList, Option.map_eq_some_iff] at hp
      obtain ⟨otpk,-,rfl⟩ := hp
      exact broken_pair.mpr ⟨ekSk,hmade,Or.inl hek⟩

theorem impersonation_iff_sample : ∃ key,
    Ran Sodium.sample sampleHkdf (sampleKeys (some 5)) key ∧
      Derivable (Rule Sodium.sample sampleHkdf) {.scalar 6, .scalar 2} (.key key) := by
  obtain ⟨key,h⟩ := sample_accepted (some 5) (Or.inr rfl)
  have hknown : OnlyScalars Sodium.sample (sampleKeys (some 5)) key {.scalar 6, .scalar 2} := by
    constructor <;> simp
  have hek : Sodium.sample.publicOf 6 = (sampleKeys (some 5)).ephemeral := rfl
  exact ⟨key,h,(impersonation_iff Sodium.sample_lawful Sodium.sample_sharedInjective
    sampleHkdf_collisionFree h (sample_generated _) hknown hek (by simp)).mpr
    ⟨2,by simp,Or.inl rfl⟩⟩

end Vaultex.X3dhSecrecy
