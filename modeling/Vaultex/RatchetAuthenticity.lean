import Vaultex.Conversation
import Vaultex.RatchetLabels
import Vaultex.RatchetSecrecy

/-!
# What an accepted message says about its sender

Two parties with one shared secret and an attacker between them, who decides
what each is asked to do and hands over any header and any bytes. Whatever is
accepted was encrypted by the peer as it stands; of the header, the AEAD
covers nothing, and the choice of the key covers two fields of three.
-/

set_option autoImplicit false

namespace Vaultex.RatchetAuthenticity
open KeyTree Deduction DoubleRatchet Symbolic RatchetSecrecy

abbrev World := Party → History ℕ ℕ Term

def opening (alice bob : RatchetState ℕ ℕ Term) : World
  | .alice => start alice
  | .bob => start bob

variable (fails : ℕ → ℕ → Bool) (A : Aead Term)

/-- The attacker lets one party make one call. -/
def step (w : World) (a : Party × Call ℕ ℕ) : World :=
  Function.update w a.1 (record (suite fails A) (w a.1) a.2)

/-- Some encryption of either party returned these bytes. -/
def Returned (w : World) (ciphertext : List UInt8) : Prop :=
  ∃ q, ∃ e ∈ (w q).sealedLog, ∃ header, e.result = .ok (header,ciphertext)

/-- Bytes that open under a key were returned by an encryption, or their maker
could derive the key with no key of the session in hand. -/
def Unforged (m : ℕ) (w : World) (ciphertext ad : List UInt8) : Prop :=
  ∀ nonce body key plaintext, ciphertext = Nonce.bytes nonce++body →
    A.aeadOpen body (some ad) nonce key = some plaintext →
    Returned w ciphertext ∨ Derivable Rule (outside m) key

/-- The keypair drawn is one nobody has drawn, and the bytes are no forgery. -/
def permitted (m : ℕ) (w : World) : Party × Call ℕ ℕ → Prop
  | (_, .encrypt ..) => True
  | (p, .decrypt header ciphertext ad fresh) =>
    (drawsKeypair (suite fails A) (w p).state header = true →
      fresh.1 = fresh.2 ∧ ∀ q, fresh ∉ (w q).drawn) ∧
    Unforged A m w ciphertext ad

/-- A ratchet step, if the call takes one, completes. -/
def completed (w : World) (a : Party × Call ℕ ℕ) : Prop :=
  stepsComplete (suite fails A) (w a.1).state a.2

def Sent (w : World) (p : Party) (header : MessageHeader ℕ)
    (ciphertext ad plaintext : List UInt8) : Prop :=
  ∃ e ∈ (w p).sealedLog, e.plaintext = plaintext ∧ e.associatedData = ad ∧
    e.result = .ok (header,ciphertext)

/-- What a party accepts is what its peer sent, up to what `same` allows of the header. -/
def AcceptedAsSent (same : MessageHeader ℕ → MessageHeader ℕ → Prop) : Prop :=
  ∀ m a b alice, a ≠ b → initSender (suite fails A) (.secret m) b (a,a) = .ok alice →
  ∀ calls, Runs.Guarded (step fails A) (permitted fails A m)
    (opening alice (initReceiver (.secret m) (b,b))) calls →
  let w := Runs.run (step fails A) (opening alice (initReceiver (.secret m) (b,b))) calls
  ∀ p header ciphertext ad fresh plaintext,
    permitted fails A m w (p,.decrypt header ciphertext ad fresh) →
    (decrypt (suite fails A) (w p).state header ciphertext ad fresh).2 = .ok plaintext →
    ∃ header', same header' header ∧ Sent w p.peer header' ciphertext ad plaintext

/-- The headers name one key of one chain. -/
def SameLabel (header header' : MessageHeader ℕ) : Prop :=
  header.ratchetPublicKey = header'.ratchetPublicKey ∧ header.messageNumber = header'.messageNumber

/-- The results in the log of encryptions are those of the AEAD. -/
def SealedAsLogged (h : History ℕ ℕ Term) : Prop :=
  ∀ e ∈ h.sealedLog, ∀ header ciphertext, e.result = .ok (header,ciphertext) →
    ∃ nonce, ciphertext =
      Nonce.bytes nonce++A.aeadSeal e.plaintext (some e.associatedData) nonce e.key

/-- The keys of each party lie in its own tree, and no keypair is drawn twice. -/
structure Apart (m : ℕ) (w : World) : Prop where
  kept : ∀ q, KeptState m (w q).state (usedKeys (w q))
  logged : ∀ q, SealedAsLogged A (w q)
  named : ∀ q, ∀ pair ∈ (w q).drawn, pair.1 = pair.2
  drawnOnce : ∀ q, ∀ pair ∈ (w q).drawn, pair ∉ (w q.peer).drawn

section Runs
variable {fails A} {m : ℕ} {w : World}

theorem step_same (p : Party) (c : Call ℕ ℕ) :
    step fails A w (p,c) p = record (suite fails A) (w p) c :=
  Function.update_self p _ w

theorem step_other {p q : Party} (h : q ≠ p) (c : Call ℕ ℕ) :
    step fails A w (p,c) q = w q :=
  Function.update_of_ne h _ w

/-- What every call of a party keeps, every step keeps of both. -/
theorem step_each {I : History ℕ ℕ Term → Prop} {p : Party} {c : Call ℕ ℕ}
    (hrec : I (w p) → I (record (suite fails A) (w p) c)) (h : ∀ q, I (w q)) (q : Party) :
    I (step fails A w (p,c) q) := by
  by_cases hq : q = p
  · subst hq
    rw [step_same]
    exact hrec (h q)
  · rw [step_other hq]
    exact h q

theorem record_logged {h : History ℕ ℕ Term} (hl : SealedAsLogged A h) (c : Call ℕ ℕ) :
    SealedAsLogged A (record (suite fails A) h c) := by
  cases c with
  | decrypt header ciphertext ad fresh => exact hl
  | encrypt plaintext ad nonce =>
    cases chain : h.state.sendingChainKey with
    | none =>
      simp only [SealedAsLogged, record, chain]
      exact hl
    | some ck =>
      intro e he header ciphertext hresult
      simp only [record, chain] at he
      rcases List.mem_cons.mp he with rfl | he
      · obtain ⟨ck',sk,hck,-,-,hct⟩ := encrypt_ok (suite fails A) hresult
        obtain rfl : ck = ck' := Option.some.inj (chain.symm.trans hck)
        exact ⟨nonce,hct⟩
      · exact hl e he header ciphertext hresult

/-- A permitted call draws nothing, or a keypair of one name nobody has. -/
theorem drawn_cases {p : Party} {c : Call ℕ ℕ} (hp : permitted fails A m w (p,c))
    {pair : ℕ × ℕ} (hmem : pair ∈ (record (suite fails A) (w p) c).drawn) :
    pair ∈ (w p).drawn ∨ (pair.1 = pair.2 ∧ ∀ q, pair ∉ (w q).drawn) := by
  cases c with
  | encrypt plaintext ad nonce => exact Or.inl hmem
  | decrypt header ciphertext ad fresh =>
    simp only [record] at hmem
    split at hmem
    next hd =>
      rcases List.mem_cons.mp hmem with rfl | hmem
      · exact Or.inr (hp.1 hd)
      · exact Or.inl hmem
    · exact Or.inl hmem

theorem step_apart (ha : Apart A m w) {a : Party × Call ℕ ℕ}
    (hp : permitted fails A m w a) : Apart A m (step fails A w a) := by
  obtain ⟨p,c⟩ := a
  constructor
  · exact step_each (I := fun h => KeptState m h.state (usedKeys h))
      (fun hk => record_kept hk c) ha.kept
  · exact step_each (I := SealedAsLogged A) (fun hl => record_logged hl c) ha.logged
  · intro q pair hmem
    by_cases hq : q = p
    · subst hq
      rw [step_same] at hmem
      rcases drawn_cases hp hmem with hmem | ⟨hname,-⟩
      · exact ha.named q pair hmem
      · exact hname
    · rw [step_other hq] at hmem
      exact ha.named q pair hmem
  · intro q pair hmem hmem'
    by_cases hq : q = p
    · subst hq
      rw [step_same] at hmem
      rw [step_other q.peer_ne] at hmem'
      rcases drawn_cases hp hmem with hmem | ⟨-,hnew⟩
      · exact ha.drawnOnce q pair hmem hmem'
      · exact hnew q.peer hmem'
    · obtain rfl : p = q.peer := (q.eq_or_eq_peer p).resolve_left (Ne.symm hq)
      rw [step_other hq] at hmem
      rw [step_same] at hmem'
      rcases drawn_cases hp hmem' with hmem' | ⟨-,hnew⟩
      · exact ha.drawnOnce q pair hmem hmem'
      · exact hnew q hmem

theorem opening_apart {a b : ℕ} {alice : RatchetState ℕ ℕ Term} (hab : a ≠ b)
    (halice : initSender (suite fails A) (.secret m) b (a,a) = .ok alice) :
    Apart A m (opening alice (initReceiver (.secret m) (b,b))) := by
  have hdrawn : (start alice).drawn = [(a,a)] := by
    obtain ⟨d,-,rfl⟩ := initSender_ok _ halice
    rfl
  constructor
  · intro q
    cases q with
    | alice => exact start_kept (.sender halice)
    | bob => exact @start_kept fails A _ _ (.receiver (b,b))
  · intro q e he
    cases q <;> cases he
  · intro q pair hmem
    cases q with
    | alice =>
      rw [opening, hdrawn, List.mem_singleton] at hmem
      rw [hmem]
    | bob =>
      obtain rfl := List.mem_singleton.mp hmem
      rfl
  · intro q pair hmem hmem'
    cases q with
    | alice =>
      rw [opening, hdrawn, List.mem_singleton] at hmem
      obtain rfl := List.mem_singleton.mp hmem'
      exact hab (Prod.mk.inj hmem).1.symm
    | bob =>
      obtain rfl := List.mem_singleton.mp hmem
      rw [Party.peer, opening, hdrawn, List.mem_singleton] at hmem'
      exact hab (Prod.mk.inj hmem').1.symm

theorem step_labelled (hl : ∀ q, RunLabelled (suite fails A) (w q)) {a : Party × Call ℕ ℕ}
    (hdone : stepsComplete (suite fails A) (w a.1).state a.2) (q : Party) :
    RunLabelled (suite fails A) (step fails A w a q) :=
  step_each (I := RunLabelled (suite fails A)) (fun h => record_labelled h hdone) hl q

theorem opens_sealed (hA : IdealAead A) {s : RatchetState ℕ ℕ Term} {header : MessageHeader ℕ}
    {fresh : ℕ × ℕ} {key : Term} (hkey : (selectKey (suite fails A) s header fresh).2 = .ok key)
    (plaintext ad : List UInt8) (nonce : Nonce) :
    (decrypt (suite fails A) s header (nonce.bytes++A.aeadSeal plaintext (some ad) nonce key) ad
      fresh).2 = .ok plaintext := by
  rw [decrypt_result, hkey]
  exact (decryptWithKey_ok _).mpr ⟨nonce,_,rfl,hA.open_seal _ _ _ _⟩

theorem opened_logged {h : History ℕ ℕ Term} {header : MessageHeader ℕ} {fresh : ℕ × ℕ}
    {key : Term} (hkey : (selectKey (suite fails A) h.state header fresh).2 = .ok key)
    (ciphertext ad : List UInt8) :
    ∃ e ∈ (record (suite fails A) h (.decrypt header ciphertext ad fresh)).openedLog,
      e.key = key ∧ e.header = header := by
  simp only [record, hkey]
  exact ⟨_,List.mem_cons_self,rfl,rfl⟩

/-- The bytes accepted are those of an encryption of the peer, under the key they
were accepted with. -/
theorem accepted_sealed (hA : IdealAead A) (ha : Apart A m w) {p : Party}
    {header : MessageHeader ℕ} {ciphertext ad plaintext : List UInt8} {fresh : ℕ × ℕ}
    (hp : permitted fails A m w (p,.decrypt header ciphertext ad fresh))
    (hok : (decrypt (suite fails A) (w p).state header ciphertext ad fresh).2 = .ok plaintext) :
    ∃ key e header', (selectKey (suite fails A) (w p).state header fresh).2 = .ok key ∧
      e ∈ (w p.peer).sealedLog ∧ e.key = key ∧ e.plaintext = plaintext ∧
      e.associatedData = ad ∧ e.result = .ok (header',ciphertext) := by
  obtain ⟨key,hkey,hdec⟩ := decrypt_ok _ hok
  obtain ⟨nonce,body,hct,hopen⟩ := (decryptWithKey_ok _).mp hdec
  have hkept := (step_apart ha hp).kept p
  rw [step_same] at hkept
  obtain ⟨opened,hmem,hused,-⟩ := opened_logged hkey ciphertext ad
  have hopened : opened.key ∈ _ := List.mem_map_of_mem hmem
  rw [hused] at hopened
  -- The key stems from the session secret, so whoever made the bytes had it from encrypting.
  obtain ⟨_,rfl,hseed⟩ := hkept.seeded_used (List.mem_append_right _ hopened)
  obtain ⟨q,e,he,header',hresult⟩ :=
    (hp.2 nonce body key plaintext hct hopen).resolve_right (underivable_outside hseed)
  obtain ⟨nonce',hsealed⟩ := ha.logged q e he header' ciphertext hresult
  obtain ⟨rfl,rfl⟩ := nonce_append_inj (hct.symm.trans hsealed)
  obtain ⟨hplain,had,hsame⟩ := hA.seal_inj (hA.seal_of_open hopen)
  rcases p.eq_or_eq_peer q with rfl | rfl
  · -- A party's own bytes, sent back: it would use one key twice.
    have hdisjoint := (List.nodup_append.mp hkept.once).2.2
    exact absurd hsame (hdisjoint _ (List.mem_map_of_mem he) _ hopened)
  · exact ⟨key,e,header',hkey,he,hsame,hplain,Option.some.inj had,hresult⟩

/-- One key under two labels: the exchanges behind the chains agree. -/
theorem labelled_shared {pairs pairs' : List (ℕ × ℕ)} {pk pk' : ℕ} {n n' : UInt32} {key : Term}
    (h : Labelled (suite fails A) pairs pk n key)
    (h' : Labelled (suite fails A) pairs' pk' n' key) :
    n = n' ∧ ∃ pair ∈ pairs, ∃ pair' ∈ pairs', shared pair.2 pk = shared pair'.2 pk' := by
  obtain ⟨c,j,⟨pair,hmem,root,d,dh,rfl⟩,rfl,rfl⟩ := h
  obtain ⟨c',j',⟨pair',hmem',root',d',dh',rfl⟩,rfl,hkey⟩ := h'
  obtain ⟨hchain,rfl⟩ := chainKey_inj (Term.mac.inj hkey).1
  have hd : d = d' := (Term.chain.inj hchain).2.1
  rw [scalarmult_some dh, scalarmult_some dh'] at hd
  exact ⟨rfl,pair,hmem,pair',hmem',hd⟩

/-- A key both parties used names the sender's keypair and the place on its chain. -/
theorem label_of_key (ha : Apart A m w) (hl : ∀ q, RunLabelled (suite fails A) (w q))
    {p : Party} {header header' : MessageHeader ℕ} {ciphertext : List UInt8}
    {e : Opened ℕ Term} {e' : Sealed ℕ Term} (he : e ∈ (w p).openedLog)
    (hheader : e.header = header) (he' : e' ∈ (w p.peer).sealedLog) (hkey : e'.key = e.key)
    (hresult : e'.result = .ok (header',ciphertext)) : SameLabel header' header := by
  subst hheader
  have hopened := (hl p).opened e he
  obtain ⟨sk,remote,hown,hsealed⟩ := (hl p.peer).sealedUnder e' he' header' ciphertext hresult
  rw [hkey] at hsealed
  obtain ⟨hn,pair,hmem,pair',hmem',hshared⟩ := labelled_shared hsealed hopened
  obtain rfl := List.mem_singleton.mp hmem
  refine ⟨?_,hn⟩
  have hname : header'.ratchetPublicKey = sk := ha.named _ _ hown
  rcases shared_inj hshared with ⟨hsk,-⟩ | ⟨hsk,-⟩
  · -- The same keypair on both sides.
    have hname' : pair'.1 = pair'.2 := ha.named _ _ hmem'
    have hpair : pair' = (header'.ratchetPublicKey,sk) :=
      Prod.ext (hname'.trans (hsk.symm.trans hname.symm)) hsk.symm
    rw [hpair] at hmem'
    exact absurd hown (ha.drawnOnce p _ hmem')
  · exact hname.trans hsk

theorem opening_labelled {a b : ℕ} {alice : RatchetState ℕ ℕ Term}
    (halice : initSender (suite fails A) (.secret m) b (a,a) = .ok alice) (q : Party) :
    RunLabelled (suite fails A) (opening alice (initReceiver (.secret m) (b,b)) q) := by
  cases q with
  | alice => exact start_labelled ⟨_,.sender halice⟩
  | bob => exact start_labelled ⟨_,.receiver _⟩

end Runs

section Results
variable {fails A}

/-- Whatever a party accepts is what its peer encrypted, bytes, text and
associated data; and where no ratchet step has stopped halfway, the ratchet key
and the number in the header are those it was sent under. -/
theorem accepted_as_sent (hA : IdealAead A) {m a b : ℕ} {alice : RatchetState ℕ ℕ Term}
    (hab : a ≠ b) (halice : initSender (suite fails A) (.secret m) b (a,a) = .ok alice)
    (calls : List (Party × Call ℕ ℕ)) (hg : Runs.Guarded (step fails A) (permitted fails A m)
      (opening alice (initReceiver (.secret m) (b,b))) calls) {p : Party}
    {header : MessageHeader ℕ} {ciphertext ad plaintext : List UInt8} {fresh : ℕ × ℕ} :
    let w := Runs.run (step fails A) (opening alice (initReceiver (.secret m) (b,b))) calls
    permitted fails A m w (p,.decrypt header ciphertext ad fresh) →
    (decrypt (suite fails A) (w p).state header ciphertext ad fresh).2 = .ok plaintext →
    ∃ header', Sent w p.peer header' ciphertext ad plaintext ∧
      (Runs.Guarded (step fails A) (completed fails A)
        (opening alice (initReceiver (.secret m) (b,b))) calls → SameLabel header' header) := by
  intro w hp hok
  have ha : Apart A m w := Runs.run_invariant (step fails A) (I := Apart A m)
    (fun _ _ h hp => step_apart h hp) (opening_apart hab halice) hg
  obtain ⟨key,e,header',hkey,he,hsame,hplain,had,hresult⟩ := accepted_sealed hA ha hp hok
  refine ⟨header',⟨e,he,hplain,had,hresult⟩,fun hc => ?_⟩
  have hl : ∀ q, RunLabelled (suite fails A) (w q) :=
    Runs.run_invariant (step fails A) (I := fun w => ∀ q, RunLabelled (suite fails A) (w q))
      (fun _ _ h hdone => step_labelled h hdone) (opening_labelled halice) hc
  have hnext := step_labelled (a := (p,.decrypt header ciphertext ad fresh)) hl
    (fun htakes => completes_of_key _ hkey htakes)
  obtain ⟨opened,hmem,rfl,hheader⟩ := opened_logged hkey ciphertext ad
  rw [← step_same (w := w)] at hmem
  apply label_of_key (step_apart ha hp) hnext hmem hheader _ hsame hresult
  rw [step_other p.peer_ne]
  exact he

/-- The key of Alice's message `j`, her keypair being 2 and Bob's 1. -/
def sampleKey (j : ℕ) : Term :=
  messageKey sample (.chain (.secret 0) (.dh 1 2) RATCHET_INFO) j

def sampleBytes (j : ℕ) : List UInt8 :=
  zeroNonce.bytes++sample.aeadSeal [] (some []) zeroNonce (sampleKey j)

def sampleWorld (calls : List (Party × Call ℕ ℕ)) : World :=
  Runs.run (step (fun _ b => b == 0) aead)
    (opening sampleAlice (initReceiver (.secret 0) (1,1))) calls

/-- Alice's first message is on the network. -/
def sentOnce : List (Party × Call ℕ ℕ) := [(.alice,.encrypt [] [] zeroNonce)]

theorem sent_once : (sampleWorld sentOnce .alice).sealedLog =
    [⟨sampleKey 0,[],[],.ok (⟨2,0,0⟩,sampleBytes 0)⟩] := rfl

theorem first_permitted (length : UInt32) :
    permitted (fun _ b => b == 0) aead 0 (sampleWorld sentOnce)
      (.bob,.decrypt ⟨2,length,0⟩ (sampleBytes 0) [] (3,3)) := by
  refine ⟨fun _ => ⟨rfl,fun q => ?_⟩,
    fun _ _ _ _ _ _ => Or.inl ⟨.alice,_,List.mem_cons_self,_,rfl⟩⟩
  cases q with
  | alice => exact (by decide : (3,3) ∉ [(2,2)])
  | bob => exact (by decide : (3,3) ∉ [(1,1)])

/-- An attacker rewrites the previous length of a message that Bob then accepts. -/
theorem accepted_as_sent_rewritten : ∃ header',
    Sent (sampleWorld sentOnce) .alice header' (sampleBytes 0) [] [] ∧
      SameLabel header' ⟨2,7,0⟩ := by
  obtain ⟨header',hsent,hlabel⟩ := accepted_as_sent (p := .bob) aead_ideal (by decide)
    sample_starts sentOnce ⟨trivial,trivial⟩ (first_permitted 7)
    (opens_sealed aead_ideal rfl [] [] zeroNonce)
  exact ⟨header',hsent,hlabel ⟨trivial,trivial⟩⟩

/-- Bob has the first message, then a header with the low-order key 0; Alice's
second message is on the network. -/
def strayed : List (Party × Call ℕ ℕ) :=
  sentOnce++[(.bob,.decrypt ⟨2,0,0⟩ (sampleBytes 0) [] (3,3)), (.alice,.encrypt [] [] zeroNonce),
    (.bob,.decrypt ⟨0,0,0⟩ [] [] (5,5))]

theorem strayed_sent : (sampleWorld strayed .alice).sealedLog =
    [⟨sampleKey 1,[],[],.ok (⟨2,0,1⟩,sampleBytes 1)⟩,
      ⟨sampleKey 0,[],[],.ok (⟨2,0,0⟩,sampleBytes 0)⟩] := rfl

theorem nothing_unforged {m : ℕ} {w : World} {ad : List UInt8} : Unforged aead m w [] ad := by
  intro nonce body key plaintext hct
  have hlen := congrArg List.length hct
  rw [List.length_append, nonce.length_eq, List.length_nil, NONCEBYTES] at hlen
  omega

theorem strayed_permitted : Runs.Guarded (step (fun _ b => b == 0) aead)
    (permitted (fun _ b => b == 0) aead 0)
    (opening sampleAlice (initReceiver (.secret 0) (1,1))) strayed := by
  refine ⟨trivial,first_permitted 0,trivial,⟨fun h => ?_,nothing_unforged⟩,trivial⟩
  contradiction

theorem second_permitted : permitted (fun _ b => b == 0) aead 0 (sampleWorld strayed)
    (.bob,.decrypt ⟨0,0,0⟩ (sampleBytes 1) [] (5,5)) := by
  refine ⟨fun h => ?_,fun _ _ _ _ _ _ => Or.inl ⟨.alice,_,List.mem_cons_self,_,rfl⟩⟩
  contradiction

/-- The previous length is nowhere checked, so it need not be the one sent; and
once a failed ratchet step has put a low-order key on a chain, the attacker may
use that key and count from 0. -/
theorem header_not_authentic :
    (¬∀ fails A, IdealAead A → AcceptedAsSent fails A Eq) ∧
    ¬∀ fails A, IdealAead A → AcceptedAsSent fails A SameLabel := by
  constructor
  · intro h
    obtain ⟨header',rfl,e,he,-,-,hresult⟩ := h (fun _ b => b == 0) aead aead_ideal 0 2 1 sampleAlice
      (by decide) sample_starts sentOnce ⟨trivial,trivial⟩ .bob ⟨2,7,0⟩ _ [] (3,3) _
      (first_permitted 7) (opens_sealed aead_ideal rfl [] [] zeroNonce)
    change e ∈ (sampleWorld sentOnce .alice).sealedLog at he
    rw [sent_once, List.mem_singleton] at he
    rw [he, Except.ok.injEq, Prod.mk.injEq] at hresult
    exact absurd (congrArg MessageHeader.previousChainLength hresult.1) (by decide)
  · intro h
    obtain ⟨header',hlabel,e,he,-,-,hresult⟩ := h (fun _ b => b == 0) aead aead_ideal 0 2 1
      sampleAlice (by decide) sample_starts strayed strayed_permitted .bob ⟨0,0,0⟩ _ [] (5,5) _
      second_permitted (opens_sealed aead_ideal rfl [] [] zeroNonce)
    change e ∈ (sampleWorld strayed .alice).sealedLog at he
    have hsame : header'.ratchetPublicKey = 2 := by
      rw [strayed_sent, List.mem_cons, List.mem_singleton] at he
      rcases he with rfl | rfl
      · exact congrArg MessageHeader.ratchetPublicKey (Prod.mk.inj (Except.ok.inj hresult)).1.symm
      · exact congrArg MessageHeader.ratchetPublicKey (Prod.mk.inj (Except.ok.inj hresult)).1.symm
    exact absurd (hlabel.1.symm.trans hsame) (by decide)

end Results
end Vaultex.RatchetAuthenticity
