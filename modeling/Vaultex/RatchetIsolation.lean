import Vaultex.RatchetAuthenticity

/-!
# Sessions that share nothing

Each session's keys form a tree of their own under its shared secret, and within
a session no key serves both directions. So whatever a party is handed, from
another session or back from its own, it finds no key to open it with; and all
that is outside a session's tree gives none of its keys away.
-/

set_option autoImplicit false

namespace Vaultex.RatchetIsolation
open KeyTree Deduction DoubleRatchet Symbolic RatchetSecrecy RatchetAuthenticity

variable {fails : ℕ → ℕ → Bool} {A : Aead Term} {m : ℕ}

/-- Secrets of different names have no key in common. -/
theorem trees_apart {m' : ℕ} {t : Term} (h : Above parent (.secret m) t)
    (h' : Above parent (.secret m') t) : m = m' := by
  rcases above_linear h h' with h | h
  · exact Term.secret.inj (above_root rfl h)
  · exact (Term.secret.inj (above_root rfl h)).symm

/-- The key a call selects lies in the session's tree and was never used. -/
theorem selected_new {s : RatchetState ℕ ℕ Term} {used : List Term} (h : KeptState m s used)
    {header : MessageHeader ℕ} {fresh : ℕ × ℕ} {key : Term}
    (hkey : (selectKey (suite fails A) s header fresh).2 = .ok key) :
    Above parent (.secret m) key ∧ key ∉ used := by
  have hkept := @select_kept fails A _ _ _ h header fresh
  rw [hkey] at hkept
  obtain ⟨_,rfl,hseed⟩ := hkept.seeded_used List.mem_cons_self
  exact ⟨hseed,(List.nodup_cons.mp hkept.once).1⟩

theorem run_logged (s : RatchetState ℕ ℕ Term) (calls : List (Call ℕ ℕ)) :
    SealedAsLogged A (Runs.run (record (suite fails A)) (start s) calls) := by
  apply Runs.run_invariant' (record (suite fails A)) (I := SealedAsLogged A)
    (fun _ c hl => record_logged hl c)
  intro e he
  contradiction

/-- Bytes that open were sealed under the key selected for them. -/
theorem selected_sealed (hA : IdealAead A) {h : History ℕ ℕ Term} (hl : SealedAsLogged A h)
    {e : Sealed ℕ Term} (he : e ∈ h.sealedLog) {sent : MessageHeader ℕ} {ciphertext : List UInt8}
    (hresult : e.result = .ok (sent,ciphertext)) {s : RatchetState ℕ ℕ Term}
    {header : MessageHeader ℕ} {ad plaintext : List UInt8} {fresh : ℕ × ℕ}
    (hok : (decrypt (suite fails A) s header ciphertext ad fresh).2 = .ok plaintext) :
    (selectKey (suite fails A) s header fresh).2 = .ok e.key := by
  obtain ⟨key,hkey,hdec⟩ := decrypt_ok _ hok
  obtain ⟨nonce,hct⟩ := hl e he sent ciphertext hresult
  rw [hct] at hdec
  have hsame : key = e.key := opened_key (S := suite fails A) hA hdec
  rw [← hsame]
  exact hkey

/-- A ciphertext of one session opens in no state of another, under whatever header,
associated data and calls in between. -/
theorem sessions_isolated (hA : IdealAead A) {m' : ℕ} (hne : m ≠ m')
    {s s' : RatchetState ℕ ℕ Term} (hs : StartedWith (suite fails A) (.secret m) s)
    (hs' : StartedWith (suite fails A) (.secret m') s') (calls calls' : List (Call ℕ ℕ)) :
    ∀ e ∈ (Runs.run (record (suite fails A)) (start s) calls).sealedLog,
      ∀ sent ciphertext, e.result = .ok (sent,ciphertext) →
      ∀ header ad fresh plaintext,
        (decrypt (suite fails A) (Runs.run (record (suite fails A)) (start s') calls').state
          header ciphertext ad fresh).2 ≠ .ok plaintext := by
  intro e he sent ciphertext hresult header ad fresh plaintext hok
  have hkey := selected_sealed hA (run_logged s calls) he hresult hok
  have hthere := (selected_new (run_kept hs' calls') hkey).1
  have hused : e.key ∈ usedKeys (Runs.run (record (suite fails A)) (start s) calls) :=
    List.mem_append_left _ (List.mem_map_of_mem he)
  obtain ⟨_,rfl,hhere⟩ := (run_kept hs calls).seeded_used hused
  exact hne (trees_apart hhere hthere)

/-- Alice's first message, handed to a responder with another secret. -/
def aliceSent : History ℕ ℕ Term :=
  Runs.run (record sample) (start sampleAlice) [.encrypt [] [] zeroNonce]

theorem alice_sent :
    aliceSent.sealedLog = [⟨sampleKey 0,[],[],.ok (⟨2,0,0⟩,sampleBytes 0)⟩] := rfl

theorem sessions_isolated_sample :
    aliceSent.sealedLog = [⟨sampleKey 0,[],[],.ok (⟨2,0,0⟩,sampleBytes 0)⟩] ∧
      (decrypt sample (initReceiver (.secret 1) (1,1)) ⟨2,0,0⟩ (sampleBytes 0) [] (3,3)).2 ≠
        .ok [] :=
  ⟨alice_sent,sessions_isolated (m := 0) aead_ideal (by decide) (.sender sample_starts)
    (.receiver (1,1)) [.encrypt [] [] zeroNonce] [] _ List.mem_cons_self _ _ rfl _ _ _ _⟩

/-- A party never accepts what it sealed itself, however it is handed back. -/
theorem own_messages_rejected (hA : IdealAead A) {s : RatchetState ℕ ℕ Term}
    (hs : StartedWith (suite fails A) (.secret m) s) (calls : List (Call ℕ ℕ)) :
    let h := Runs.run (record (suite fails A)) (start s) calls
    ∀ e ∈ h.sealedLog, ∀ sent ciphertext, e.result = .ok (sent,ciphertext) →
      ∀ header ad fresh plaintext,
        (decrypt (suite fails A) h.state header ciphertext ad fresh).2 ≠ .ok plaintext := by
  intro h e he sent ciphertext hresult header ad fresh plaintext hok
  have hkey := selected_sealed hA (run_logged s calls) he hresult hok
  have hnew := (selected_new (run_kept hs calls) hkey).2
  exact hnew (List.mem_append_left _ (List.mem_map_of_mem he))

theorem own_messages_rejected_sample :
    aliceSent.sealedLog = [⟨sampleKey 0,[],[],.ok (⟨2,0,0⟩,sampleBytes 0)⟩] ∧
      (decrypt sample aliceSent.state ⟨2,0,0⟩ (sampleBytes 0) [] (3,3)).2 ≠ .ok [] :=
  ⟨alice_sent,own_messages_rejected (m := 0) aead_ideal (.sender sample_starts)
    [.encrypt [] [] zeroNonce] _ List.mem_cons_self _ _ rfl _ _ _ _⟩

/-- The keys of a party: those it keeps and those it has used. -/
def Holds (h : History ℕ ℕ Term) (key : Term) : Prop :=
  key ∈ usedKeys h ∨
    ∃ i, slots h.state.rootKey h.state.sendingChainKey h.state.receivingChainKey
      h.state.skippedKeys i = some key

/-- Whatever the attacker made a party do: with every ratchet scalar, every exchange and
all the keys of all other sessions it computes none of the keys of this one. -/
theorem session_keys_underivable {s : RatchetState ℕ ℕ Term}
    (hs : StartedWith (suite fails A) (.secret m) s) (calls : List (Call ℕ ℕ)) {key : Term}
    (hkey : Holds (Runs.run (record (suite fails A)) (start s) calls) key) :
    ¬Derivable Rule (outside m) key := by
  apply underivable_outside
  rcases hkey with hused | ⟨i,hi⟩
  · obtain ⟨_,rfl,hseed⟩ := (run_kept hs calls).seeded_used hused
    exact hseed
  · obtain ⟨_,rfl,hseed⟩ := (run_kept hs calls).seeded hi
    exact hseed

theorem session_keys_underivable_sample :
    Holds aliceSent (sampleKey 0) ∧ ¬Derivable Rule (outside 0) (sampleKey 0) := by
  have hkey : Holds aliceSent (sampleKey 0) := Or.inl List.mem_cons_self
  exact ⟨hkey,session_keys_underivable (.sender sample_starts) [.encrypt [] [] zeroNonce] hkey⟩

end Vaultex.RatchetIsolation
