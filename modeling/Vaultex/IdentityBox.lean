import Vaultex.Identity
import Vaultex.Symbolic

/-!
# The identity-authenticated box

The second half of `sealed_sender.rs`, used for call signaling. The nonce
that `gen_nonce` draws is an argument.
-/

set_option autoImplicit false

namespace Vaultex

/-- `box_::seal` and `box_::open`. -/
structure CryptoBox (PublicKey SecretKey : Type) where
  boxSeal (plaintext : List UInt8) (nonce : Nonce) (pk : PublicKey) (sk : SecretKey) : List UInt8
  boxOpen (ciphertext : List UInt8) (nonce : Nonce) (pk : PublicKey) (sk : SecretKey) :
    Option (List UInt8)

namespace IdentityBox
variable {SignPublicKey SignSecretKey Signature PublicKey SecretKey : Type}

section
variable (L : Sodium SignPublicKey SignSecretKey Signature PublicKey SecretKey)
  (C : CryptoBox PublicKey SecretKey)

def ed25519PkToBox (pk : SignPublicKey) : Result PublicKey :=
  match L.ed25519PkToCurve25519 pk with
  | some curve => .ok curve
  | none => .error (.sealedSenderError "ed25519->x25519 public key conversion failed")

def ed25519SkToBox (sk : SignSecretKey) : Result SecretKey :=
  match L.ed25519SkToCurve25519 sk with
  | some curve => .ok curve
  | none => .error (.sealedSenderError "ed25519->x25519 secret key conversion failed")

def encryptToIdentity (senderIdentity : IdentityKeyPair SignPublicKey SignSecretKey)
    (recipientIdentityPk : SignPublicKey) (plaintext : List UInt8) (nonce : Nonce) :
    Result (List UInt8) := do
  if !L.init then throw .initFailed
  let senderSk ← ed25519SkToBox L senderIdentity.secretKey
  let recipientPk ← ed25519PkToBox L recipientIdentityPk
  pure (nonce.bytes++C.boxSeal plaintext nonce recipientPk senderSk)

def decryptFromIdentity (recipientIdentity : IdentityKeyPair SignPublicKey SignSecretKey)
    (senderIdentityPk : SignPublicKey) (sealedPayload : List UInt8) : Result (List UInt8) := do
  if !L.init then throw .initFailed
  if sealedPayload.length < NONCEBYTES then
    throw (.sealedSenderError "sealed call payload too short for nonce")
  if h : (sealedPayload.take NONCEBYTES).length = NONCEBYTES then
    let senderPk ← ed25519PkToBox L senderIdentityPk
    let recipientSk ← ed25519SkToBox L recipientIdentity.secretKey
    match C.boxOpen (sealedPayload.drop NONCEBYTES) ⟨sealedPayload.take NONCEBYTES,h⟩ senderPk
        recipientSk with
    | some plaintext => pure plaintext
    | none => throw (.sealedSenderError "failed to authenticate/decrypt call payload")
  else throw (.sealedSenderError "invalid nonce")

end

variable {L : Sodium SignPublicKey SignSecretKey Signature PublicKey SecretKey}
  {C : CryptoBox PublicKey SecretKey}

theorem ed25519PkToBox_ok {pk : SignPublicKey} {curve : PublicKey} :
    ed25519PkToBox L pk = .ok curve ↔ L.ed25519PkToCurve25519 pk = some curve := by
  rw [ed25519PkToBox]
  split <;> simp [*]

theorem ed25519SkToBox_ok {sk : SignSecretKey} {curve : SecretKey} :
    ed25519SkToBox L sk = .ok curve ↔ L.ed25519SkToCurve25519 sk = some curve := by
  rw [ed25519SkToBox]
  split <;> simp [*]

theorem encryptToIdentity_ok {sender : IdentityKeyPair SignPublicKey SignSecretKey}
    {recipientPk : SignPublicKey} {plaintext : List UInt8} {nonce : Nonce}
    {sealedPayload : List UInt8} :
    encryptToIdentity L C sender recipientPk plaintext nonce = .ok sealedPayload ↔
      L.init = true ∧ ∃ sk, L.ed25519SkToCurve25519 sender.secretKey = some sk ∧
        ∃ pk, L.ed25519PkToCurve25519 recipientPk = some pk ∧
          nonce.bytes++C.boxSeal plaintext nonce pk sk = sealedPayload := by
  rw [encryptToIdentity]
  by_cases hinit : L.init
  · simp only [hinit, Bool.not_true, Bool.false_eq_true, if_false, bind_eq_ok,
      ed25519SkToBox_ok, ed25519PkToBox_ok, true_and]
    simp only [pure, Except.pure, Except.ok.injEq]
  · simp [hinit]

theorem exists_nonce_append {bytes : List UInt8}
    (h : (bytes.take NONCEBYTES).length = NONCEBYTES) {P : Nonce → List UInt8 → Prop} :
    (∃ nonce : Nonce, ∃ body, bytes = nonce.bytes++body ∧ P nonce body) ↔
      P ⟨bytes.take NONCEBYTES,h⟩ (bytes.drop NONCEBYTES) := by
  constructor
  · rintro ⟨nonce,body,rfl,hP⟩
    have htake : (nonce.bytes++body).take NONCEBYTES = nonce.bytes :=
      List.take_left' nonce.length_eq
    have hdrop : (nonce.bytes++body).drop NONCEBYTES = body := List.drop_left' nonce.length_eq
    simp only [htake, hdrop]
    exact hP
  · intro hP
    exact ⟨_,_,(List.take_append_drop NONCEBYTES bytes).symm,hP⟩

theorem decryptFromIdentity_ok {recipient : IdentityKeyPair SignPublicKey SignSecretKey}
    {senderPk : SignPublicKey} {sealedPayload plaintext : List UInt8} :
    decryptFromIdentity L C recipient senderPk sealedPayload = .ok plaintext ↔
      L.init = true ∧ ∃ nonce : Nonce, ∃ body, sealedPayload = nonce.bytes++body ∧
        ∃ pk, L.ed25519PkToCurve25519 senderPk = some pk ∧
        ∃ sk, L.ed25519SkToCurve25519 recipient.secretKey = some sk ∧
          C.boxOpen body nonce pk sk = some plaintext := by
  rw [decryptFromIdentity]
  by_cases hinit : L.init
  · by_cases hlen : sealedPayload.length < NONCEBYTES
    · simp only [hinit, hlen, Bool.not_true, Bool.false_eq_true, if_false, if_true, throw_eq_error,
        error_bind, reduceCtorEq, true_and, false_iff, not_exists]
      rintro nonce body ⟨rfl,-⟩
      rw [List.length_append, nonce.length_eq] at hlen
      omega
    · have htake : (sealedPayload.take NONCEBYTES).length = NONCEBYTES := by
        rw [List.length_take]
        omega
      simp only [hinit, hlen, htake, Bool.not_true, Bool.false_eq_true, if_false, dite_true,
        bind_eq_ok, ed25519PkToBox_ok, ed25519SkToBox_ok, true_and, exists_nonce_append htake]
      constructor
      · rintro ⟨pk,hpk,sk,hsk,hopen⟩
        split at hopen
        · rename_i plaintext' hplain
          exact ⟨pk,hpk,sk,hsk,hplain.trans (congrArg some (Except.ok.inj hopen))⟩
        · cases hopen
      · rintro ⟨pk,hpk,sk,hsk,hopen⟩
        exact ⟨pk,hpk,sk,hsk,by rw [hopen]; rfl⟩
  · simp [hinit]

/-- `crypto_box` is authenticated encryption under the shared secret of the two keys. -/
structure BoxOver (L : Sodium SignPublicKey SignSecretKey Signature PublicKey SecretKey)
    (C : CryptoBox PublicKey SecretKey) (A : Aead Bytes32) : Prop where
  boxSeal_eq {pk : PublicKey} {sk : SecretKey} {k : Bytes32} (plaintext : List UInt8)
    (nonce : Nonce) : L.scalarmult sk pk = some k →
      C.boxSeal plaintext nonce pk sk = A.aeadSeal plaintext none nonce k
  boxOpen_eq {pk : PublicKey} {sk : SecretKey} {k : Bytes32} (ciphertext : List UInt8)
    (nonce : Nonce) : L.scalarmult sk pk = some k →
      C.boxOpen ciphertext nonce pk sk = A.aeadOpen ciphertext none nonce k

/-- Parties with genuine keypairs, pairwise different after conversion; none of
their exchanges fails. -/
structure Parties (L : Sodium SignPublicKey SignSecretKey Signature PublicKey SecretKey)
    (I : Type) where
  identity : I → IdentityKeyPair SignPublicKey SignSecretKey
  matched (i : I) : (identity i).Matched L
  distinct {i j : I} {a b : SecretKey} :
    L.ed25519SkToCurve25519 (identity i).secretKey = some a →
    L.ed25519SkToCurve25519 (identity j).secretKey = some b →
    L.publicOf a = L.publicOf b → i = j
  exchanges {i j : I} {a b : SecretKey} :
    L.ed25519SkToCurve25519 (identity i).secretKey = some a →
    L.ed25519SkToCurve25519 (identity j).secretKey = some b →
    (L.scalarmult a (L.publicOf b)).isSome

/-- One call of `encrypt_to_identity` between two parties. -/
structure BoxCall (I : Type) where
  sender : I
  recipient : I
  plaintext : List UInt8
  nonce : Nonce

variable {I : Type}

def BoxCall.output (P : Parties L I) (C : CryptoBox PublicKey SecretKey) (c : BoxCall I) :
    Result (List UInt8) :=
  encryptToIdentity L C (P.identity c.sender) (P.identity c.recipient).publicKey c.plaintext c.nonce

namespace Parties

/-- The shared secret of two parties, seen from the first. -/
def Shares (P : Parties L I) (i j : I) (k : Bytes32) : Prop :=
  ∃ a b, L.ed25519SkToCurve25519 (P.identity i).secretKey = some a ∧
    L.ed25519SkToCurve25519 (P.identity j).secretKey = some b ∧
    L.scalarmult a (L.publicOf b) = some k

variable {P : Parties L I} {i j i' j' : I} {k : Bytes32}

theorem Shares.symm (hL : L.Lawful) (h : P.Shares i j k) : P.Shares j i k := by
  obtain ⟨a,b,ha,hb,hk⟩ := h
  exact ⟨b,a,hb,ha,by rw [hL.scalarmult_comm, hk]⟩

/-- A shared secret belongs to one pair of parties. -/
theorem Shares.parties (hS : L.SharedInjective) (h : P.Shares i j k) (h' : P.Shares i' j' k) :
    i = i' ∧ j = j' ∨ i = j' ∧ j = i' := by
  obtain ⟨a,b,ha,hb,hk⟩ := h
  obtain ⟨a',b',ha',hb',hk'⟩ := h'
  rcases hS hk hk' with ⟨hfst,hsnd⟩ | ⟨hfst,hsnd⟩
  · exact .inl ⟨P.distinct ha ha' hfst,P.distinct hb hb' hsnd⟩
  · exact .inr ⟨P.distinct ha hb' hfst,P.distinct hb ha' hsnd⟩

theorem converted_iff (hL : L.Lawful) {pk : PublicKey} :
    L.ed25519PkToCurve25519 (P.identity j).publicKey = some pk ↔
      ∃ b, L.ed25519SkToCurve25519 (P.identity j).secretKey = some b ∧ L.publicOf b = pk := by
  rw [hL.converted (P.matched j), Option.map_eq_some_iff]

end Parties

variable {A : Aead Bytes32} {P : Parties L I} (hL : L.Lawful) (hS : L.SharedInjective)
  (hC : BoxOver L C A) (hA : IdealAead A)

include hL hC in
theorem output_ok {c : BoxCall I} {payload : List UInt8} (h : c.output P C = .ok payload) :
    ∃ k, P.Shares c.sender c.recipient k ∧
      payload = c.nonce.bytes++A.aeadSeal c.plaintext none c.nonce k := by
  obtain ⟨-,a,ha,pk,hpk,hpayload⟩ := encryptToIdentity_ok.mp h
  obtain ⟨b,hb,rfl⟩ := (Parties.converted_iff hL).mp hpk
  obtain ⟨k,hk⟩ := Option.isSome_iff_exists.mp (P.exchanges ha hb)
  rw [hC.boxSeal_eq _ _ hk] at hpayload
  exact ⟨k,⟨a,b,ha,hb,hk⟩,hpayload.symm⟩

include hL hC in
theorem decrypted_iff {recipient sender : I} {payload plaintext : List UInt8} :
    decryptFromIdentity L C (P.identity recipient) (P.identity sender).publicKey payload =
        .ok plaintext ↔
      L.init = true ∧ ∃ nonce : Nonce, ∃ body, payload = nonce.bytes++body ∧
        ∃ k, P.Shares recipient sender k ∧ A.aeadOpen body none nonce k = some plaintext := by
  rw [decryptFromIdentity_ok]
  constructor
  · rintro ⟨hinit,nonce,body,hpayload,pk,hpk,a,ha,hopen⟩
    obtain ⟨b,hb,rfl⟩ := (Parties.converted_iff hL).mp hpk
    obtain ⟨k,hk⟩ := Option.isSome_iff_exists.mp (P.exchanges ha hb)
    rw [hC.boxOpen_eq _ _ hk] at hopen
    exact ⟨hinit,nonce,body,hpayload,k,⟨a,b,ha,hb,hk⟩,hopen⟩
  · rintro ⟨hinit,nonce,body,hpayload,k,⟨a,b,ha,hb,hk⟩,hopen⟩
    rw [← hC.boxOpen_eq _ _ hk] at hopen
    exact ⟨hinit,nonce,body,hpayload,_,(Parties.converted_iff hL).mpr ⟨b,hb,rfl⟩,a,ha,hopen⟩

include hL hS hC hA in
/-- A payload opens for the two parties of the call that made it, in either
direction, and to that call's plaintext. -/
theorem opened_call {c : BoxCall I} {recipient sender : I} {payload plaintext : List UInt8}
    (hc : c.output P C = .ok payload)
    (h : decryptFromIdentity L C (P.identity recipient) (P.identity sender).publicKey payload =
      .ok plaintext) :
    c.plaintext = plaintext ∧
      (c.sender = sender ∧ c.recipient = recipient ∨ c.sender = recipient ∧ c.recipient = sender) := by
  obtain ⟨k,hk,hpayload⟩ := output_ok hL hC hc
  obtain ⟨-,nonce,body,hsplit,k',hk',hopen⟩ := (decrypted_iff hL hC).mp h
  obtain ⟨rfl,hbody⟩ := nonce_append_inj (hpayload.symm.trans hsplit)
  obtain ⟨hplain,-,rfl⟩ := hA.seal_inj (hbody.trans (hA.seal_of_open hopen))
  refine ⟨hplain,?_⟩
  rcases hk.parties hS hk' with ⟨hs,hr⟩ | ⟨hs,hr⟩
  · exact .inr ⟨hs,hr⟩
  · exact .inl ⟨hs,hr⟩

include hL hC hA in
/-- Both parties of a call can open what it returned. -/
theorem reflected_opens {c : BoxCall I} {payload : List UInt8} (hc : c.output P C = .ok payload) :
    decryptFromIdentity L C (P.identity c.sender) (P.identity c.recipient).publicKey payload =
      .ok c.plaintext := by
  obtain ⟨hinit,-⟩ := encryptToIdentity_ok.mp hc
  obtain ⟨k,hk,hpayload⟩ := output_ok hL hC hc
  exact (decrypted_iff hL hC).mpr ⟨hinit,c.nonce,_,hpayload,k,hk,hA.open_seal _ _ _ _⟩

variable {log : List (BoxCall I)}

/-- The calls of the log from one party to another that returned this payload. -/
def SealedFor (P : Parties L I) (C : CryptoBox PublicKey SecretKey) (log : List (BoxCall I))
    (sender recipient : I) (payload : List UInt8) (c : BoxCall I) : Prop :=
  c ∈ log ∧ c.sender = sender ∧ c.recipient = recipient ∧ c.output P C = .ok payload

/-- Whoever opens a payload of these calls learns that the expected sender
sealed it for them, unless they sealed it for the expected sender themselves. -/
theorem directional_iff_not_reflected (hL : L.Lawful) (hS : L.SharedInjective)
    (hC : BoxOver L C A) (hA : IdealAead A) {payload : List UInt8}
    (hpayload : ∃ c ∈ log, c.output P C = .ok payload) (recipient sender : I) :
    (∀ plaintext, decryptFromIdentity L C (P.identity recipient) (P.identity sender).publicKey
        payload = .ok plaintext →
      ∃ c, SealedFor P C log sender recipient payload c ∧ c.plaintext = plaintext) ↔
    ((∃ c, SealedFor P C log recipient sender payload c) →
      ∃ c, SealedFor P C log sender recipient payload c) := by
  constructor
  · rintro h ⟨c,-,rfl,rfl,houtput⟩
    obtain ⟨c',hc',-⟩ := h _ (reflected_opens hL hC hA houtput)
    exact ⟨c',hc'⟩
  · intro h plaintext hopen
    obtain ⟨c,hc,houtput⟩ := hpayload
    obtain ⟨hplain,⟨hs,hr⟩ | ⟨hs,hr⟩⟩ := opened_call hL hS hC hA houtput hopen
    · exact ⟨c,⟨hc,hs,hr,houtput⟩,hplain⟩
    · obtain ⟨c',hc'⟩ := h ⟨c,hc,hs,hr,houtput⟩
      exact ⟨c',hc',(opened_call hL hS hC hA hc'.2.2.2 hopen).1⟩

/-- Encryption under the image of a key. -/
def comap {Key Key' : Type} (A : Aead Key') (f : Key → Key') : Aead Key where
  init := A.init
  aeadSeal p ad n k := A.aeadSeal p ad n (f k)
  aeadOpen c ad n k := A.aeadOpen c ad n (f k)

theorem comap_ideal {Key Key' : Type} {A : Aead Key'} {f : Key → Key'} (hA : IdealAead A)
    (hf : Function.Injective f) : IdealAead (comap A f) where
  open_seal _ _ _ _ := hA.open_seal _ _ _ _
  seal_of_open h := hA.seal_of_open h
  seal_inj h := by
    obtain ⟨hp,had,hk⟩ := hA.seal_inj h
    exact ⟨hp,had,hf hk⟩

def sampleAead : Aead Bytes32 := comap Symbolic.aead fun k => .mac (.secret 0) k.toList

theorem sampleAead_ideal : IdealAead sampleAead :=
  comap_ideal Symbolic.aead_ideal fun _ _ h => Vector.toList_inj.mp (Term.mac.inj h).2

def sampleCryptoBox : CryptoBox UInt8 UInt8 where
  boxSeal plaintext nonce pk sk := match Sodium.sample.scalarmult sk pk with
    | some k => sampleAead.aeadSeal plaintext none nonce k
    | none => []
  boxOpen ciphertext nonce pk sk := match Sodium.sample.scalarmult sk pk with
    | some k => sampleAead.aeadOpen ciphertext none nonce k
    | none => none

theorem sampleCryptoBox_over : BoxOver Sodium.sample sampleCryptoBox sampleAead where
  boxSeal_eq plaintext nonce h := by simp only [sampleCryptoBox, h]
  boxOpen_eq ciphertext nonce h := by simp only [sampleCryptoBox, h]

theorem sampleParties_matched (i : Bool) :
    (bif i then ⟨2,2⟩ else ⟨3,3⟩ : IdentityKeyPair UInt8 UInt8).Matched Sodium.sample := by
  cases i <;> rfl

theorem sampleParties_distinct {i j : Bool}
    (h : (bif i then ⟨2,2⟩ else ⟨3,3⟩ : IdentityKeyPair UInt8 UInt8).secretKey =
      (bif j then ⟨2,2⟩ else ⟨3,3⟩ : IdentityKeyPair UInt8 UInt8).secretKey) : i = j := by
  cases i <;> cases j <;> simp_all

theorem sampleParties_exchanges (i j : Bool) :
    (Sodium.sample.scalarmult
      (bif i then ⟨2,2⟩ else ⟨3,3⟩ : IdentityKeyPair UInt8 UInt8).secretKey
      (bif j then ⟨2,2⟩ else ⟨3,3⟩ : IdentityKeyPair UInt8 UInt8).secretKey).isSome := by
  cases i <;> cases j <;> rfl

/-- Two parties with the keys 2 and 3. -/
def sampleParties : Parties Sodium.sample Bool where
  identity i := bif i then ⟨2,2⟩ else ⟨3,3⟩
  matched := sampleParties_matched
  distinct {i j a b} ha hb h :=
    sampleParties_distinct ((Option.some.inj ha).trans (h.trans (Option.some.inj hb).symm))
  exchanges {i j a b} ha hb := by
    rw [← Option.some.inj ha, ← Option.some.inj hb]
    exact sampleParties_exchanges i j

def sampleCall : BoxCall Bool := ⟨true,false,[1],Symbolic.zeroNonce⟩

theorem sampleCall_output :
    ∃ payload, sampleCall.output sampleParties sampleCryptoBox = .ok payload :=
  ⟨_,encryptToIdentity_ok.mpr ⟨rfl,_,rfl,_,rfl,rfl⟩⟩

theorem directional_received : ∃ payload,
    sampleCall.output sampleParties sampleCryptoBox = .ok payload ∧
    ∀ plaintext, decryptFromIdentity Sodium.sample sampleCryptoBox (sampleParties.identity false)
        (sampleParties.identity true).publicKey payload = .ok plaintext →
      ∃ c, SealedFor sampleParties sampleCryptoBox [sampleCall] true false payload c ∧
        c.plaintext = plaintext := by
  obtain ⟨payload,h⟩ := sampleCall_output
  refine ⟨payload,h,?_⟩
  apply (directional_iff_not_reflected Sodium.sample_lawful Sodium.sample_sharedInjective
    sampleCryptoBox_over sampleAead_ideal ⟨sampleCall,by simp,h⟩ false true).mpr
  rintro ⟨c,hc,hsender,-⟩
  rw [List.mem_singleton.mp hc] at hsender
  cases hsender

/-- Its own payload handed back to the sender is accepted as the other party's. -/
theorem directional_reflected : ∃ payload,
    sampleCall.output sampleParties sampleCryptoBox = .ok payload ∧
    decryptFromIdentity Sodium.sample sampleCryptoBox (sampleParties.identity true)
      (sampleParties.identity false).publicKey payload = .ok [1] ∧
    ¬∃ c, SealedFor sampleParties sampleCryptoBox [sampleCall] false true payload c := by
  obtain ⟨payload,h⟩ := sampleCall_output
  refine ⟨payload,h,?_,?_⟩
  · exact reflected_opens Sodium.sample_lawful sampleCryptoBox_over sampleAead_ideal h
  · rintro ⟨c,hc,hsender,-⟩
    rw [List.mem_singleton.mp hc] at hsender
    cases hsender

end IdentityBox
end Vaultex
