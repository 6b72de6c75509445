import Vaultex.RatchetPersistence
import Vaultex.Symbolic

/-!
# When a session can send

The optional fields of a session depend on each other. Whatever the network
hands over and however a ratchet step ends, the own keypair is there, a
receiving chain has its remote key beside it, and a sending chain is only ever
replaced, so the one party that cannot send yet is a responder before its
first completed ratchet step.
-/

set_option autoImplicit false

namespace Vaultex.DoubleRatchet
variable {PublicKey SecretKey Key : Type} (S : Suite PublicKey SecretKey Key)

structure WellFormed (s : RatchetState PublicKey SecretKey Key) : Prop where
  keypair : s.sendingKeypair.isSome
  remote : s.receivingChainKey.isSome → s.remoteRatchetKey.isSome

variable [DecidableEq PublicKey]

/-- Whether a `decrypt` call runs `dh_ratchet_step` to its end. -/
def completesStep (s : RatchetState PublicKey SecretKey Key) (header : MessageHeader PublicKey)
    (fresh : PublicKey × SecretKey) : Bool :=
  (s.skippedKeys.lookup (header.ratchetPublicKey,header.messageNumber)).isNone &&
  needRatchet s header.ratchetPublicKey &&
  match skipMessageKeysForCurrentChain S s header.previousChainLength with
  | (_, .error _) => false
  | (s, .ok ()) => (dhRatchetStep S s header.ratchetPublicKey fresh).2.isOk

/-- A session, on which side it began, and whether it has completed a ratchet step. -/
structure Session (PublicKey SecretKey Key : Type) where
  state : RatchetState PublicKey SecretKey Key
  responder : Bool
  completed : Bool

inductive Begun : Session PublicKey SecretKey Key → Prop
  | sender {sharedSecret : Key} {remote : PublicKey} {fresh : PublicKey × SecretKey}
      {s : RatchetState PublicKey SecretKey Key}
      (h : initSender S sharedSecret remote fresh = .ok s) : Begun ⟨s,false,false⟩
  | receiver (sharedSecret : Key) (pair : PublicKey × SecretKey) :
      Begun ⟨initReceiver sharedSecret pair,true,false⟩

/-- A call, or saving the session and loading what was saved; `iter` is what
the iterator of the map yields. -/
inductive Operation (PublicKey SecretKey Key : Type) where
  | call (c : Call PublicKey SecretKey)
  | saveRestore (iter : List (PublicKey × UInt32 × Key))

def completes (s : RatchetState PublicKey SecretKey Key) : Call PublicKey SecretKey → Bool
  | .encrypt .. => false
  | .decrypt header _ _ fresh => completesStep S s header fresh

variable (J : Serde (RatchetStateSer PublicKey SecretKey Key))

def operate (h : Session PublicKey SecretKey Key) :
    Operation PublicKey SecretKey Key → Session PublicKey SecretKey Key
  | .call c => { h with state := call S h.state c, completed := h.completed || completes S h.state c }
  | .saveRestore iter => { h with state := saveRestore J h.state iter }

/-- Saving goes over the whole map. -/
def iteratesMap (h : Session PublicKey SecretKey Key) :
    Operation PublicKey SecretKey Key → Prop
  | .call _ => True
  | .saveRestore iter => Iterates iter h.state.skippedKeys

theorem completesStep_iff {s : RatchetState PublicKey SecretKey Key}
    {header : MessageHeader PublicKey} {fresh : PublicKey × SecretKey} :
    completesStep S s header fresh = true ↔ takesRatchetStep s header ∧
      exchangesSucceed S s header.ratchetPublicKey fresh = true := by
  simp only [completesStep, takesRatchetStep, Bool.and_eq_true, Option.isNone_iff_eq_none]
  rcases skip_current_cases S s header.previousChainLength with
    ⟨s1,hs1,heq⟩ | ⟨-,-,-,heq⟩ <;> simp only [heq]
  · have hstep : (dhRatchetStep S s1 header.ratchetPublicKey fresh).2.isOk =
        exchangesSucceed S s header.ratchetPublicKey fresh := by
      rcases dh_ratchet_step_cases S s1 header.ratchetPublicKey fresh with
        ⟨e,hpair,h⟩ | ⟨pk,sk,e,hpair,hdh,h⟩ | ⟨pk,sk,d,e,hpair,hdh,hdh',h⟩ |
        ⟨pk,sk,d,d',hpair,hdh,hdh',h⟩ <;> rw [h]
      · exact (hs1.no_keypair hpair).symm
      · exact (hs1.exchange_failed hpair (Or.inl hdh)).symm
      · exact (hs1.exchange_failed hpair (Or.inr hdh')).symm
      · exact (hs1.exchanges_done hpair hdh hdh').symm
    rw [hstep]
    constructor
    · rintro ⟨⟨miss,need⟩,hok⟩
      exact ⟨hs1.takes miss need,hok⟩
    · rintro ⟨⟨miss,need,-⟩,hok⟩
      exact ⟨⟨miss,need⟩,hok⟩
  · refine iff_of_false (fun h => by simp at h) ?_
    rintro ⟨htakes,-⟩
    obtain ⟨s1,-,hok⟩ := skipped_of_takes S htakes
    rw [heq] at hok
    cases hok

variable {S} {s : RatchetState PublicKey SecretKey Key}

theorem selectKey_wellFormed (h : WellFormed s) (header : MessageHeader PublicKey)
    (fresh : PublicKey × SecretKey) : WellFormed (selectKey S s header fresh).1 := by
  have hs := selection S s header fresh
  generalize selectKey S s header fresh = r at hs
  cases hs with
  | cached | rejected => exact ⟨h.keypair,h.remote⟩
  | inChain miss same chain low high =>
    exact ⟨h.keypair,fun _ => Option.isSome_iff_exists.mpr ⟨_,same⟩⟩
  | noKeypair e miss need skipped noPair =>
    have hpair := h.keypair
    rw [← skipped.pair, noPair] at hpair
    contradiction
  | dhRecvFailed e miss need skipped pair dh =>
    exact ⟨Option.isSome_iff_exists.mpr ⟨_,pair⟩,fun _ => rfl⟩
  | dhSendFailed e miss need skipped pair dh dh' =>
    exact ⟨Option.isSome_iff_exists.mpr ⟨_,pair⟩,fun _ => rfl⟩
  | tooFar | ratcheted => exact ⟨rfl,fun _ => rfl⟩

/-- A sending chain is missing only where it was missing and no ratchet step made one. -/
theorem selectKey_sendingChain (header : MessageHeader PublicKey) (fresh : PublicKey × SecretKey) :
    (selectKey S s header fresh).1.sendingChainKey = none ↔
      s.sendingChainKey = none ∧ completesStep S s header fresh = false := by
  rw [← Bool.not_eq_true, completesStep_iff]
  rcases selectKey_sending S s header fresh with
    ⟨hidle,-,-,-,hchain⟩ | ⟨-,hfailed,-,-,-,hchain⟩ | ⟨htakes,hdone,-,-,-,-,hchain⟩
  · rw [hchain]
    exact (and_iff_left fun h => hidle h.1).symm
  · rw [hchain, hfailed]
    simp
  · rw [Option.isSome_iff_ne_none] at hchain
    exact iff_of_false hchain fun h => h.2 ⟨htakes,hdone⟩

theorem call_wellFormed (h : WellFormed s) (c : Call PublicKey SecretKey) :
    WellFormed (call S s c) := by
  cases c with
  | encrypt plaintext ad nonce =>
    obtain ⟨-,-,hrecv,hpair,hremote,-⟩ := encrypt_frame S s plaintext ad nonce
    rw [call]
    constructor
    · rw [hpair]
      exact h.keypair
    · rw [hrecv, hremote]
      exact h.remote
  | decrypt header ciphertext ad fresh =>
    rw [call, decrypt_state]
    exact selectKey_wellFormed h header fresh

theorem call_sendingChain (c : Call PublicKey SecretKey) :
    (call S s c).sendingChainKey = none ↔ s.sendingChainKey = none ∧ completes S s c = false := by
  cases c with
  | encrypt plaintext ad nonce =>
    obtain ⟨-,hsend,-⟩ := encrypt_frame S s plaintext ad nonce
    rw [call, hsend, Option.map_eq_none_iff, completes]
    simp
  | decrypt header ciphertext ad fresh =>
    rw [call, decrypt_state]
    exact selectKey_sendingChain header fresh

omit [DecidableEq PublicKey] in
/-- In a well-formed session only a missing sending chain stops an encryption. -/
theorem encrypt_fails_iff (hinit : S.init = true) (h : WellFormed s)
    (plaintext ad : List UInt8) (nonce : Nonce) :
    (∃ e, (encrypt S s plaintext ad nonce).2 = .error e) ↔ s.sendingChainKey = none := by
  constructor
  · rintro ⟨e,he⟩
    by_contra hchain
    obtain ⟨ck,chain⟩ := Option.ne_none_iff_exists'.mp hchain
    obtain ⟨⟨pk,sk⟩,pair⟩ := Option.isSome_iff_exists.mp h.keypair
    rw [encrypt_eq S chain pair hinit] at he
    contradiction
  · intro chain
    rw [encrypt_no_chain S chain]
    exact ⟨_,rfl⟩

/-- A well-formed session lacks a sending chain before its first ratchet step only. -/
structure Available (h : Session PublicKey SecretKey Key) : Prop where
  wellFormed : WellFormed h.state
  sending : h.state.sendingChainKey = none ↔ h.responder = true ∧ h.completed = false

variable {J} {h : Session PublicKey SecretKey Key}

omit [DecidableEq PublicKey] in
theorem begun_available (hbegun : Begun S h) : Available h := by
  cases hbegun with
  | sender hinit =>
    obtain ⟨d,-,rfl⟩ := initSender_ok S hinit
    exact ⟨⟨rfl,fun _ => rfl⟩,by simp⟩
  | receiver sharedSecret pair => exact ⟨⟨rfl,fun h => by cases h⟩,by simp [initReceiver]⟩

theorem operate_available (hJ : J.Lossless) (hh : Available h)
    {op : Operation PublicKey SecretKey Key} (hop : iteratesMap h op) :
    Available (operate S J h op) := by
  cases op with
  | call c =>
    refine ⟨call_wellFormed hh.wellFormed c,?_⟩
    rw [operate, call_sendingChain, hh.sending, Bool.or_eq_false_iff, and_assoc]
  | saveRestore iter =>
    rw [operate, saveRestore_eq hJ hop]
    exact hh

theorem operate_keeps_sending (hJ : J.Lossless) {op : Operation PublicKey SecretKey Key}
    (hop : iteratesMap h op) (hsend : h.state.sendingChainKey.isSome) :
    (operate S J h op).state.sendingChainKey.isSome := by
  cases op with
  | call c =>
    rw [Option.isSome_iff_ne_none] at hsend ⊢
    exact fun hnone => hsend (call_sendingChain c |>.mp hnone).1
  | saveRestore iter =>
    rw [operate, saveRestore_eq hJ hop]
    exact hsend

/-- In every state a session can come to: the keypair is there, a receiving
chain has its remote key, a sending chain stays, and an encryption fails exactly
for a responder before its first completed ratchet step, changing nothing. -/
theorem session_available (hinit : S.init = true) (hJ : J.Lossless) (hbegun : Begun S h)
    {ops : List (Operation PublicKey SecretKey Key)}
    (hops : Runs.Guarded (operate S J) iteratesMap h ops) :
    let h' := Runs.run (operate S J) h ops
    h'.state.sendingKeypair.isSome ∧
    (h'.state.receivingChainKey.isSome → h'.state.remoteRatchetKey.isSome) ∧
    (∀ ops', Runs.Guarded (operate S J) iteratesMap h' ops' → h'.state.sendingChainKey.isSome →
      (Runs.run (operate S J) h' ops').state.sendingChainKey.isSome) ∧
    ∀ plaintext ad nonce,
      ((∃ e, (encrypt S h'.state plaintext ad nonce).2 = .error e) ↔
        h'.responder = true ∧ h'.completed = false) ∧
      ∀ e, (encrypt S h'.state plaintext ad nonce).2 = .error e →
        (encrypt S h'.state plaintext ad nonce).1 = h'.state := by
  have havailable : Available (Runs.run (operate S J) h ops) :=
    Runs.run_invariant (operate S J) (I := Available)
      (fun _ _ hh hop => operate_available hJ hh hop) (begun_available hbegun) hops
  have hfails := fun plaintext ad nonce =>
    encrypt_fails_iff hinit havailable.wellFormed plaintext ad nonce
  refine ⟨havailable.wellFormed.keypair,havailable.wellFormed.remote,?_,?_⟩
  · intro ops' hops' hsend
    exact Runs.run_invariant (operate S J) (I := fun h => h.state.sendingChainKey.isSome)
      (fun _ _ hh hop => operate_keeps_sending hJ hop hh) hsend hops'
  · intro plaintext ad nonce
    refine ⟨(hfails plaintext ad nonce).trans havailable.sending,fun e he => ?_⟩
    rw [encrypt_no_chain S ((hfails plaintext ad nonce).mp ⟨e,he⟩)]

def sampleResponder : Session ℕ ℕ Term := ⟨initReceiver (.secret 0) (1,1),true,false⟩

def sampleJson : Serde (RatchetStateSer ℕ ℕ Term) := .table
  [(snapshot sampleResponder.state [],"\x7b\"root_key\":\"s0\",\"sending_chain_key\":null," ++
    "\"receiving_chain_key\":null,\"sending_public_key\":1,\"sending_secret_key\":1," ++
    "\"remote_ratchet_key\":null,\"send_message_number\":0,\"recv_message_number\":0," ++
    "\"previous_chain_length\":0,\"skipped_keys\":[]\x7d")]

theorem sample_json_lossless : sampleJson.Lossless := Serde.table_lossless (List.nodup_singleton _)

theorem sample_iterates : Iterates [] sampleResponder.state.skippedKeys :=
  ⟨List.nodup_nil,by simp [sampleResponder, initReceiver]⟩

/-- Saved and restored before its first message, the responder cannot send; once
it has taken the initiator's ratchet key, it can. -/
theorem session_available_responder :
    (∃ e, (encrypt Symbolic.sample (Runs.run (operate Symbolic.sample sampleJson) sampleResponder
      [.saveRestore []]).state [] [] Symbolic.zeroNonce).2 = .error e) ∧
    ¬∃ e, (encrypt Symbolic.sample (Runs.run (operate Symbolic.sample sampleJson) sampleResponder
      [.saveRestore [],.call (.decrypt ⟨2,0,0⟩ [] [] (3,3))]).state [] []
        Symbolic.zeroNonce).2 = .error e := by
  have hbegun : Begun Symbolic.sample sampleResponder := .receiver _ _
  have hsaved : Runs.Guarded (operate Symbolic.sample sampleJson) iteratesMap sampleResponder
      [.saveRestore []] := ⟨sample_iterates,trivial⟩
  have hratcheted : Runs.Guarded (operate Symbolic.sample sampleJson) iteratesMap sampleResponder
      [.saveRestore [],.call (.decrypt ⟨2,0,0⟩ [] [] (3,3))] := ⟨sample_iterates,trivial,trivial⟩
  have hbefore := session_available rfl sample_json_lossless hbegun hsaved
  have hafter := session_available rfl sample_json_lossless hbegun hratcheted
  refine ⟨(hbefore.2.2.2 [] [] Symbolic.zeroNonce).1.mpr ⟨rfl,rfl⟩,fun h => ?_⟩
  have hcompleted := ((hafter.2.2.2 [] [] Symbolic.zeroNonce).1.mp h).2
  simp only [Runs.run, operate, saveRestore_eq sample_json_lossless sample_iterates] at hcompleted
  revert hcompleted
  decide

end Vaultex.DoubleRatchet
