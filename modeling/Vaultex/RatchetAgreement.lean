import Vaultex.RatchetAuthenticity

/-!
# The messages accepted are among those sent, one for one

The attacker of the session may copy a message as often as it likes. Counted
with their repetitions, the messages a party has accepted are still among
those its peer has encrypted: each acceptance has an encryption of its own.
-/

set_option autoImplicit false

namespace Vaultex.RatchetAuthenticity
open KeyTree Deduction DoubleRatchet Symbolic RatchetSecrecy

/-- A message as both ends know it. -/
structure Message where
  ciphertext : List UInt8
  associatedData : List UInt8
  plaintext : List UInt8
  deriving DecidableEq

def sentEntry (e : Sealed ℕ Term) : Option (Term × Message) :=
  match e.result with
  | .ok (_, ciphertext) => some (e.key,⟨ciphertext,e.associatedData,e.plaintext⟩)
  | .error _ => none

def acceptedEntry (e : Opened ℕ Term) : Option (Term × Message) :=
  match e.result with
  | .ok plaintext => some (e.key,⟨e.ciphertext,e.associatedData,plaintext⟩)
  | .error _ => none

def sentMessages (h : History ℕ ℕ Term) : List Message :=
  (h.sealedLog.filterMap sentEntry).map Prod.snd

def acceptedMessages (h : History ℕ ℕ Term) : List Message :=
  (h.openedLog.filterMap acceptedEntry).map Prod.snd

/-- What a party accepted its peer has sealed, under the same key. -/
def Answered (w : World) : Prop :=
  ∀ p, ∀ e ∈ (w p).openedLog, ∀ entry, acceptedEntry e = some entry →
    entry ∈ (w p.peer).sealedLog.filterMap sentEntry

section Runs
variable {fails : ℕ → ℕ → Bool} {A : Aead Term} {m : ℕ} {w : World}

theorem accepted_keys (log : List (Opened ℕ Term)) :
    ((log.filterMap acceptedEntry).map Prod.fst).Sublist (log.map Opened.key) := by
  induction log with
  | nil => exact .slnil
  | cons e log ih =>
    cases hresult : e.result with
    | ok plaintext =>
      have hentry : acceptedEntry e = some (e.key,⟨e.ciphertext,e.associatedData,plaintext⟩) := by
        rw [acceptedEntry, hresult]
      rw [List.filterMap_cons_some hentry]
      exact ih.cons_cons _
    | error x =>
      have hentry : acceptedEntry e = none := by
        rw [acceptedEntry, hresult]
      rw [List.filterMap_cons_none hentry]
      exact ih.cons _

theorem record_sealed (h : History ℕ ℕ Term) (c : Call ℕ ℕ) {e : Sealed ℕ Term}
    (he : e ∈ h.sealedLog) : e ∈ (record (suite fails A) h c).sealedLog := by
  cases c with
  | decrypt header ciphertext ad fresh => exact he
  | encrypt plaintext ad nonce =>
    simp only [record]
    split
    · exact he
    · exact List.mem_cons_of_mem _ he

theorem step_sealed (a : Party × Call ℕ ℕ) (q : Party) {e : Sealed ℕ Term}
    (he : e ∈ (w q).sealedLog) : e ∈ (step fails A w a q).sealedLog := by
  by_cases hq : q = a.1
  · subst hq
    rw [step_same]
    exact record_sealed _ _ he
  · rw [step_other hq]
    exact he

/-- The entry a `decrypt` call adds, if it accepts, answers one of the peer. -/
theorem record_answered (hA : IdealAead A) (ha : Apart A m w) {p : Party} {c : Call ℕ ℕ}
    (hp : permitted fails A m w (p,c)) {e : Opened ℕ Term}
    (he : e ∈ (record (suite fails A) (w p) c).openedLog) {entry : Term × Message}
    (hentry : acceptedEntry e = some entry) :
    e ∈ (w p).openedLog ∨ entry ∈ (w p.peer).sealedLog.filterMap sentEntry := by
  cases c with
  | encrypt plaintext ad nonce => exact Or.inl he
  | decrypt header ciphertext ad fresh =>
    simp only [record] at he
    cases hkey : (selectKey (suite fails A) (w p).state header fresh).2 with
    | error x =>
      rw [hkey] at he
      exact Or.inl he
    | ok key =>
      rw [hkey] at he
      rcases List.mem_cons.mp he with rfl | he
      · cases hresult : (decrypt (suite fails A) (w p).state header ciphertext ad fresh).2 with
        | error x =>
          simp only [acceptedEntry, hresult] at hentry
          cases hentry
        | ok plaintext =>
          simp only [acceptedEntry, hresult, Option.some.injEq] at hentry
          obtain ⟨key',sent,header',hkey',hmem,hsame,hplain,had,hsent⟩ :=
            accepted_sealed hA ha hp hresult
          obtain rfl : key = key' := Except.ok.inj (hkey.symm.trans hkey')
          refine Or.inr (List.mem_filterMap.mpr ⟨sent,hmem,?_⟩)
          rw [sentEntry, hsent, hsame, hplain, had]
          exact congrArg some hentry
      · exact Or.inl he

theorem step_answered (hA : IdealAead A) (ha : Apart A m w) (h : Answered w)
    {a : Party × Call ℕ ℕ} (hp : permitted fails A m w a) : Answered (step fails A w a) := by
  obtain ⟨p,c⟩ := a
  intro q e he entry hentry
  have hgrows {q : Party} (hmem : entry ∈ (w q).sealedLog.filterMap sentEntry) :
      entry ∈ (step fails A w (p,c) q).sealedLog.filterMap sentEntry := by
    obtain ⟨sent,hsent,heq⟩ := List.mem_filterMap.mp hmem
    exact List.mem_filterMap.mpr ⟨sent,step_sealed (p,c) q hsent,heq⟩
  by_cases hq : q = p
  · subst hq
    rw [step_same] at he
    rcases record_answered hA ha hp he hentry with hold | hnew
    · exact hgrows (h q e hold entry hentry)
    · exact hgrows hnew
  · rw [step_other hq] at he
    exact hgrows (h q e he entry hentry)

/-- Counted with repetitions, what a party accepts is part of what its peer sent: in no run
does an attacker get one message accepted twice, or one that was not sent. -/
theorem accepted_within_sent (hA : IdealAead A) {a b : ℕ} {alice : RatchetState ℕ ℕ Term}
    (hab : a ≠ b) (halice : initSender (suite fails A) (.secret m) b (a,a) = .ok alice)
    (calls : List (Party × Call ℕ ℕ)) (hg : Runs.Guarded (step fails A) (permitted fails A m)
      (opening alice (initReceiver (.secret m) (b,b))) calls) (p : Party) :
    let w := Runs.run (step fails A) (opening alice (initReceiver (.secret m) (b,b))) calls
    (acceptedMessages (w p)).Subperm (sentMessages (w p.peer)) := by
  intro w
  have hopening : Answered (opening alice (initReceiver (.secret m) (b,b))) := by
    intro q e he
    cases q <;> cases he
  obtain ⟨ha,hw⟩ : Apart A m w ∧ Answered w :=
    Runs.run_invariant (step fails A) (I := fun w => Apart A m w ∧ Answered w)
      (fun _ _ h hp => ⟨step_apart h.1 hp,step_answered hA h.1 h.2 hp⟩)
      ⟨opening_apart hab halice,hopening⟩ hg
  have honce : ((w p).openedLog.map Opened.key).Nodup :=
    (List.nodup_append.mp (ha.kept p).once).2.1
  -- Each acceptance has a key of its own, so that no two of them share an encryption.
  have hnodup : ((w p).openedLog.filterMap acceptedEntry).Nodup :=
    (honce.sublist (accepted_keys _)).of_map
  have hsubset : (w p).openedLog.filterMap acceptedEntry ⊆
      (w p.peer).sealedLog.filterMap sentEntry := by
    intro entry hmem
    obtain ⟨e,he,hentry⟩ := List.mem_filterMap.mp hmem
    exact hw p e he entry hentry
  obtain ⟨l,hperm,hsub⟩ := List.subperm_of_subset hnodup hsubset
  exact ⟨l.map Prod.snd,hperm.map _,hsub.map _⟩

/-- Bob is handed Alice's first message twice. -/
def handedTwice : List (Party × Call ℕ ℕ) :=
  sentOnce++[(.bob,.decrypt ⟨2,0,0⟩ (sampleBytes 0) [] (3,3)),
    (.bob,.decrypt ⟨2,0,0⟩ (sampleBytes 0) [] (5,5))]

theorem handed_twice_permitted : Runs.Guarded (step (fun _ b => b == 0) aead)
    (permitted (fun _ b => b == 0) aead 0)
    (opening sampleAlice (initReceiver (.secret 0) (1,1))) handedTwice := by
  refine ⟨trivial,first_permitted 0,⟨fun h => ?_,fun _ _ _ _ _ _ =>
    Or.inl ⟨.alice,_,List.mem_cons_self,_,rfl⟩⟩,trivial⟩
  contradiction

theorem accepted_within_sent_sample :
    (acceptedMessages (sampleWorld handedTwice .bob)).Subperm
      (sentMessages (sampleWorld handedTwice .alice)) :=
  accepted_within_sent (m := 0) aead_ideal (by decide) sample_starts handedTwice
    handed_twice_permitted .bob

end Runs
end Vaultex.RatchetAuthenticity
