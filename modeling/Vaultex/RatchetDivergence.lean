import Vaultex.RatchetInheritance
import Vaultex.RatchetIsolation

/-!
# What one forged header does to a session

The state moves on before the ciphertext is tried, so a header with a ratchet
key of the attacker's own drives a party through a whole ratchet step, whatever
bytes come with it. From then on each of the party's keys was computed with an
exchange its peer never makes, and the two have nothing left to say to each other.
-/

set_option autoImplicit false

namespace Vaultex.RatchetDivergence
open KeyTree DoubleRatchet Symbolic RatchetSecrecy RatchetAuthenticity RatchetIsolation

variable {fails : ℕ → ℕ → Bool} {A : Aead Term} {g : Term}

/-- What was computed with an exchange stays so. -/
theorem uses_inherited : Inherited (suite fails A) (Uses g) (fun _ => True) where
  hmac h _ := h
  root h _ := Or.inr h
  chain h _ := Or.inr h

/-- Without the exchange, nothing is computed with it. -/
theorem free_inherited : Inherited (suite fails A) (fun t => ¬Uses g t) (· ≠ g) where
  hmac h _ := h
  root h hd hu := hu.elim hd h
  chain h hd hu := hu.elim hd h

/-- Exchanges of other keypairs. -/
theorem exchanges_other {own x : ℕ} {drawn : List (ℕ × ℕ)}
    (h : ∀ pair ∈ drawn, pair.2 ≠ own ∧ pair.2 ≠ x) :
    Exchanging (suite fails A) (· ≠ shared own x) drawn := by
  intro pair hmem pk d hdh heq
  obtain ⟨hown,hx⟩ := h pair hmem
  rw [scalarmult_some hdh] at heq
  rcases shared_inj heq with ⟨hsame,-⟩ | ⟨hsame,-⟩
  · exact hown hsame
  · exact hx hsame

/-- The keys of a completed ratchet step were computed with its first exchange. -/
theorem forged_all {s : RatchetState ℕ ℕ Term} {header : MessageHeader ℕ} {fresh : ℕ × ℕ}
    {pk own : ℕ} (hpair : s.sendingKeypair = some (pk,own)) (htakes : takesRatchetStep s header)
    (hdone : exchangesSucceed (suite fails A) s header.ratchetPublicKey fresh = true) :
    let s' := (selectKey (suite fails A) s header fresh).1
    AllKeys (Uses (shared own header.ratchetPublicKey))
      (fun key => ∃ id, s'.skippedKeys.lookup id = some key) s' := by
  have hs := selection (suite fails A) s header fresh
  generalize selectKey (suite fails A) s header fresh = r at hs
  cases hs with
  | cached hit => exact absurd (hit.symm.trans htakes.1) (Option.some_ne_none _)
  | rejected e miss early => exact absurd early htakes.2.2
  | inChain miss same => exact absurd same ((needRatchet_iff _ _).mp htakes.2.1)
  | noKeypair e miss need skipped noPair =>
    rw [skipped.no_keypair noPair] at hdone
    contradiction
  | dhRecvFailed e miss need skipped pair dh =>
    rw [skipped.exchange_failed pair (Or.inl dh)] at hdone
    contradiction
  | dhSendFailed e miss need skipped pair dh dh' =>
    rw [skipped.exchange_failed pair (Or.inr dh')] at hdone
    contradiction
  | @tooFar s1 _ _ d d' e miss need skipped pair dh dh' far =>
    obtain rfl :=
      (Prod.mk.inj (Option.some.inj (hpair.symm.trans (skipped.pair.symm.trans pair)))).2
    have hd := scalarmult_some dh
    refine ⟨?_,?_,?_,fun id key hkey => Or.inr ⟨id,hkey⟩⟩
    · exact Or.inr (Or.inl hd)
    · intro ck hck
      obtain rfl := Option.some.inj hck
      exact Or.inr (Or.inl hd)
    · intro ck hck
      obtain rfl := Option.some.inj hck
      exact Or.inl hd
  | @ratcheted s1 _ _ d d' miss need skipped pair dh dh' near =>
    obtain rfl :=
      (Prod.mk.inj (Option.some.inj (hpair.symm.trans (skipped.pair.symm.trans pair)))).2
    have hd := scalarmult_some dh
    refine ⟨?_,?_,?_,fun id key hkey => Or.inr ⟨id,hkey⟩⟩
    · exact Or.inr (Or.inl hd)
    · intro ck hck
      obtain rfl := Option.some.inj hck
      exact Or.inr (Or.inl hd)
    · intro ck hck
      obtain rfl := Option.some.inj hck
      exact (uses_chainKey _ _).mpr (Or.inl hd)

/-- All a party computes and seals with after such a step. -/
theorem struck_all (before : History ℕ ℕ Term) (hheld : HoldsDrawn before)
    {header : MessageHeader ℕ} {fresh : ℕ × ℕ} {pk own : ℕ}
    (hpair : before.state.sendingKeypair = some (pk,own))
    (htakes : takesRatchetStep before.state header)
    (hdone : exchangesSucceed (suite fails A) before.state header.ratchetPublicKey fresh = true)
    (bytes ad : List UInt8) (more : List (Call ℕ ℕ)) :
    let struck := record (suite fails A) before (.decrypt header bytes ad fresh)
    AllSince (Uses (shared own header.ratchetPublicKey))
      (fun key => ∃ id, struck.state.skippedKeys.lookup id = some key) before.sealedLog
      (Runs.run (record (suite fails A)) struck more) := by
  intro struck
  have hany : Exchanging (suite fails A) (fun _ => True)
      (Runs.run (record (suite fails A)) struck more).drawn := fun _ _ _ _ _ => trivial
  apply run_all uses_inherited (record_holds hheld _) _ more hany
  refine ⟨?_,[],rfl,fun e he => absurd he List.not_mem_nil⟩
  have hforged := forged_all hpair htakes hdone
  rw [← record_decrypt_state _ _ _ bytes ad] at hforged
  exact hforged

/-- All that a party computes and seals with who draws neither of the two keypairs. -/
theorem peer_free {m : ℕ} {s : RatchetState ℕ ℕ Term}
    (hs : StartedWith (suite fails A) (.secret m) s) (calls : List (Call ℕ ℕ)) {own x : ℕ}
    (hapart : ∀ pair ∈ (Runs.run (record (suite fails A)) (start s) calls).drawn,
      pair.2 ≠ own ∧ pair.2 ≠ x) :
    AllSince (fun t => ¬Uses (shared own x) t) (fun _ => False) []
      (Runs.run (record (suite fails A)) (start s) calls) := by
  have hexchanging := @exchanges_other fails A _ _ _ hapart
  apply run_all free_inherited (start_holds s) _ calls hexchanging
  apply start_all free_inherited id hs
  exact fun pair hmem => hexchanging pair (run_drawn_subset _ calls hmem)

/-- A header with a key the peer never draws, once it has taken a party through a
ratchet step, ends the session whatever its ciphertext: in every further run the party
opens nothing of its peer's but under keys cached by then, and the peer nothing of the
party's at all. -/
theorem forged_header_fatal (hA : IdealAead A) {m : ℕ} (s : RatchetState ℕ ℕ Term)
    {s' : RatchetState ℕ ℕ Term} (hs' : StartedWith (suite fails A) (.secret m) s')
    (calls more peerCalls : List (Call ℕ ℕ)) (header : MessageHeader ℕ) (bytes ad : List UInt8)
    (fresh : ℕ × ℕ) {pk own : ℕ} :
    let before := Runs.run (record (suite fails A)) (start s) calls
    let struck := record (suite fails A) before (.decrypt header bytes ad fresh)
    let after := Runs.run (record (suite fails A)) struck more
    let peer := Runs.run (record (suite fails A)) (start s') peerCalls
    before.state.sendingKeypair = some (pk,own) → takesRatchetStep before.state header →
    exchangesSucceed (suite fails A) before.state header.ratchetPublicKey fresh = true →
    (∀ pair ∈ peer.drawn, pair.2 ≠ own ∧ pair.2 ≠ header.ratchetPublicKey) →
    (∀ e ∈ peer.sealedLog, ∀ sent ciphertext, e.result = .ok (sent,ciphertext) →
      ∀ header ad fresh plaintext,
        (decrypt (suite fails A) after.state header ciphertext ad fresh).2 = .ok plaintext →
        ∃ id, struck.state.skippedKeys.lookup id = some e.key) ∧
    ∃ new, after.sealedLog = new++before.sealedLog ∧
      ∀ e ∈ new, ∀ sent ciphertext, e.result = .ok (sent,ciphertext) →
        ∀ header ad fresh plaintext,
          (decrypt (suite fails A) peer.state header ciphertext ad fresh).2 ≠ .ok plaintext := by
  intro before struck after peer hpair htakes hdone hapart
  have hafter : AllSince _ _ _ after :=
    struck_all before (run_holds (start_holds s) calls) hpair htakes hdone bytes ad more
  have hpeer : AllSince _ _ _ peer := peer_free hs' peerCalls hapart
  obtain ⟨new,hnew,hused⟩ := hafter.sealed
  constructor
  · intro e he sent ciphertext hresult header' ad' fresh' plaintext hok
    have hkey := selected_sealed hA (run_logged s' peerCalls) he hresult hok
    obtain ⟨all,hall,hfree⟩ := hpeer.sealed
    rw [List.append_nil] at hall
    rcases selected_all uses_inherited hafter.state (fun _ _ _ _ => trivial) hkey with huse | hold
    · exact absurd huse (hfree e (hall ▸ he))
    · exact hold
  · refine ⟨new,hnew,fun e he sent ciphertext hresult header' ad' fresh' plaintext hok => ?_⟩
    have hlog : SealedAsLogged A after :=
      Runs.run_invariant' (record (suite fails A)) (I := SealedAsLogged A)
        (fun _ c hl => record_logged hl c) (record_logged (run_logged s calls) _) more
    have hkey := selected_sealed hA hlog (hnew ▸ List.mem_append_left _ he) hresult hok
    have hown : ∀ pair ∈ peer.state.sendingKeypair, ∀ d,
        (suite fails A).scalarmult pair.2 header'.ratchetPublicKey = some d →
        d ≠ shared own header.ratchetPublicKey := fun pair hp d hd =>
      exchanges_other hapart pair (run_holds (start_holds s') peerCalls pair hp) _ d hd
    rcases selected_all free_inherited hpeer.state hown hkey with hfree | hfalse
    · exact hfree (hused e he)
    · exact hfalse

/-- Bob is handed the key 9 of an attacker, and no longer reads what Alice sent him. -/
def struckBob : History ℕ ℕ Term :=
  record sample (start (initReceiver (.secret 0) (1,1))) (.decrypt ⟨9,0,0⟩ [] [] (4,4))

theorem forged_header_fatal_sample :
    aliceSent.sealedLog = [⟨sampleKey 0,[],[],.ok (⟨2,0,0⟩,sampleBytes 0)⟩] ∧
      (decrypt sample struckBob.state ⟨2,0,0⟩ (sampleBytes 0) [] (5,5)).2 ≠ .ok [] := by
  refine ⟨alice_sent,fun hok => ?_⟩
  have hfatal := forged_header_fatal aead_ideal (initReceiver (.secret 0) (1,1))
    (.sender sample_starts) [] [] [.encrypt [] [] zeroNonce] ⟨9,0,0⟩ [] [] (4,4) rfl (by decide)
    rfl (by decide)
  obtain ⟨id,hid⟩ := hfatal.1 _ List.mem_cons_self _ _ rfl _ _ _ _ hok
  have hempty : struckBob.state.skippedKeys = ∅ := rfl
  change struckBob.state.skippedKeys.lookup id = _ at hid
  rw [hempty, Finmap.lookup_empty] at hid
  exact Option.some_ne_none _ hid.symm

end Vaultex.RatchetDivergence
