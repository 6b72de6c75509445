import Vaultex.RatchetAvailability

/-!
# Saving a session changes nothing

A session that is saved and loaded between calls, at any points and with the
map listed in any order, goes through the states and returns the results of
one that stays in memory. A save or a load that fails ends the run.
-/

set_option autoImplicit false

namespace Vaultex

instance encodableUInt32 : Encodable UInt32 :=
  Encodable.ofLeftInverse UInt32.toNat UInt32.ofNat (fun x => by simp)

deriving instance Encodable for RatchetStateSer

namespace DoubleRatchet
variable {PublicKey SecretKey Key : Type} [DecidableEq PublicKey]

/-- Every map can be iterated over. -/
theorem exists_iterates (m : Finmap fun _ : PublicKey × UInt32 => Key) :
    ∃ iter, Iterates iter m := by
  induction m using Finmap.induction_on with
  | _ m =>
    refine ⟨m.entries.map fun e => (e.1.1,e.1.2,e.2),?_,?_⟩
    · rw [List.map_map]
      exact m.nodupKeys
    · intro pk n mk
      rw [Finmap.lookup_toFinmap, ← Option.mem_def, AList.mem_lookup_iff, List.mem_map]
      constructor
      · rintro ⟨⟨⟨pk',n'⟩,mk'⟩,hmem,heq⟩
        obtain ⟨rfl,rfl,rfl⟩ : pk' = pk ∧ n' = n ∧ mk' = mk := by simpa using heq
        exact hmem
      · intro hmem
        exact ⟨_,hmem,rfl⟩

theorem iterates_singleton (pk : PublicKey) (n : UInt32) (mk : Key) :
    Iterates [(pk,n,mk)] (Finmap.insert (pk,n) mk ∅) where
  nodup := List.nodup_singleton _
  mem pk' n' mk' := by
    by_cases h : (pk',n') = (pk,n)
    · obtain ⟨rfl,rfl⟩ := Prod.mk.inj h
      rw [Finmap.lookup_insert]
      simp [eq_comm]
    · rw [Finmap.lookup_insert_of_ne _ h, Finmap.lookup_empty]
      simp only [Prod.mk.injEq] at h
      simp only [List.mem_singleton, Prod.mk.injEq, reduceCtorEq, iff_false]
      exact fun heq => h ⟨heq.1,heq.2.1⟩

/-- What a call returns. -/
inductive Outcome (PublicKey : Type) where
  | sealed (result : Result (MessageHeader PublicKey × List UInt8))
  | opened (result : Result (List UInt8))

/-- A session and the results of its calls, newest first. -/
structure Trace (PublicKey SecretKey Key : Type) where
  state : RatchetState PublicKey SecretKey Key
  outcomes : List (Outcome PublicKey)

variable (S : Suite PublicKey SecretKey Key) (J : Serde (RatchetStateSer PublicKey SecretKey Key))

def outcome (s : RatchetState PublicKey SecretKey Key) :
    Call PublicKey SecretKey → Outcome PublicKey
  | .encrypt plaintext ad nonce => .sealed (encrypt S s plaintext ad nonce).2
  | .decrypt header ciphertext ad fresh => .opened (decrypt S s header ciphertext ad fresh).2

def perform (t : Trace PublicKey SecretKey Key) (c : Call PublicKey SecretKey) :
    Trace PublicKey SecretKey Key :=
  ⟨call S t.state c,outcome S t.state c::t.outcomes⟩

/-- One operation of a session that is kept on disk. -/
def performSaved (t : Result (Trace PublicKey SecretKey Key)) :
    Operation PublicKey SecretKey Key → Result (Trace PublicKey SecretKey Key)
  | .call c => t.map (perform S · c)
  | .saveRestore iter => t.bind fun t =>
    (toBytes J t.state iter).bind fun bytes =>
      (fromBytes J bytes).map fun restored => { t with state := restored }

/-- Saving goes over the whole map. -/
def savesMap (t : Result (Trace PublicKey SecretKey Key)) : Operation PublicKey SecretKey Key → Prop
  | .call _ => True
  | .saveRestore iter => ∀ t', t = .ok t' → Iterates iter t'.state.skippedKeys

def Operation.call? : Operation PublicKey SecretKey Key → Option (Call PublicKey SecretKey)
  | .call c => some c
  | .saveRestore _ => none

variable {S J}

/-- What is saved can be read, and reads as it was. -/
theorem save_restores (hJ : J.Faithful) {s : RatchetState PublicKey SecretKey Key}
    {iter : List (PublicKey × UInt32 × Key)} (hiter : Iterates iter s.skippedKeys) :
    ∃ bytes, toBytes J s iter = .ok bytes ∧ fromBytes J bytes = .ok s := by
  obtain ⟨bytes,hto,-⟩ := hJ (snapshot s iter)
  have hsaved : toBytes J s iter = .ok bytes := by rw [toBytes, hto]
  exact ⟨bytes,hsaved,fromBytes_toBytes hJ.lossless hiter hsaved⟩

theorem performSaved_saveRestore (hJ : J.Faithful) {t : Trace PublicKey SecretKey Key}
    {iter : List (PublicKey × UInt32 × Key)} (hiter : Iterates iter t.state.skippedKeys) :
    performSaved S J (.ok t) (.saveRestore iter) = .ok t := by
  obtain ⟨bytes,hto,hfrom⟩ := save_restores hJ hiter
  simp only [performSaved, Except.bind, Except.map, hto, hfrom]

/-- Whatever the state and the order its map is listed in, saving succeeds and
loading gives the state back; and calls with saves in between return what the
calls alone return. -/
theorem persistence_transparent (hJ : J.Faithful) (s : RatchetState PublicKey SecretKey Key) :
    ((∃ iter, Iterates iter s.skippedKeys) ∧ ∀ iter, Iterates iter s.skippedKeys →
      ∃ bytes, toBytes J s iter = .ok bytes ∧ fromBytes J bytes = .ok s) ∧
    ∀ ops, Runs.Guarded (performSaved S J) savesMap (.ok ⟨s,[]⟩) ops →
      Runs.run (performSaved S J) (.ok ⟨s,[]⟩) ops =
        .ok (Runs.run (perform S) ⟨s,[]⟩ (ops.filterMap Operation.call?)) := by
  refine ⟨⟨exists_iterates s.skippedKeys,fun iter hiter => save_restores hJ hiter⟩,?_⟩
  intro ops hops
  apply Runs.run_stutter (performSaved S J) _ _ hops
  · intro t op c hop
    cases op with
    | call c' =>
      obtain rfl : c' = c := Option.some.inj hop
      rfl
    | saveRestore iter => contradiction
  · intro t op hop hsaves
    cases op with
    | call c => contradiction
    | saveRestore iter => exact performSaved_saveRestore hJ (hsaves t rfl)

open Symbolic

/-- The responder has had Alice's second message and keeps the key of the first. -/
def sampleWaiting : RatchetState ℕ ℕ Term :=
  call sample (initReceiver (.secret 0) (1,1)) (.decrypt ⟨2,0,1⟩ [] [] (3,3))

def sampleWaitingKey : Term := messageKey sample (.chain (.secret 0) (shared 1 2) RATCHET_INFO) 0

def sampleDocs : List (RatchetStateSer ℕ ℕ Term × String) :=
  [(snapshot sampleWaiting [(2,0,sampleWaitingKey)],"\x7b"++("\"root_key\":\"r2\","++
    "\"sending_chain_key\":\"c2\",\"receiving_chain_key\":\"c1.2\",\"sending_public_key\":3,"++
    "\"sending_secret_key\":3,\"remote_ratchet_key\":2,\"send_message_number\":0,"++
    "\"recv_message_number\":2,\"previous_chain_length\":0,"++
    "\"skipped_keys\":[[2,0,\"m1.0\"]]\x7d"))]

/-- Saved with a key in its cache, the session still takes the message out of order. -/
theorem persistence_transparent_waiting :
    Runs.run (performSaved sample (Serde.catalogue sampleDocs))
      (.ok ⟨initReceiver (.secret 0) (1,1),[]⟩) [.call (.decrypt ⟨2,0,1⟩ [] [] (3,3)),
        .saveRestore [(2,0,sampleWaitingKey)], .call (.decrypt ⟨2,0,0⟩ [] [] (5,5))] =
      .ok (Runs.run (perform sample) ⟨initReceiver (.secret 0) (1,1),[]⟩
        [.decrypt ⟨2,0,1⟩ [] [] (3,3), .decrypt ⟨2,0,0⟩ [] [] (5,5)]) := by
  have hfaithful : (Serde.catalogue sampleDocs).Faithful := by
    apply Serde.catalogue_faithful (by simp [sampleDocs])
    intro d hd
    obtain rfl := List.mem_singleton.mp hd
    exact ⟨_,rfl⟩
  apply (persistence_transparent hfaithful _).2
  refine ⟨trivial,?_,trivial,trivial⟩
  intro t ht
  obtain rfl := Except.ok.inj ht
  exact iterates_singleton _ _ _

end DoubleRatchet
end Vaultex
