import Vaultex.RatchetRun
import Vaultex.Serde

/-!
# Saving and restoring a session

`to_bytes` lists the skipped-key map in whatever order the iterator yields
it, and `from_bytes` inserts the list again. A public or secret key stands
for the array it wraps, so the `from_slice` conversions, which look at the
length only, are the identity here.
-/

set_option autoImplicit false

namespace Vaultex

structure RatchetStateSer (PublicKey SecretKey Key : Type) where
  rootKey : Key
  sendingChainKey : Option Key
  receivingChainKey : Option Key
  sendingPublicKey : Option PublicKey
  sendingSecretKey : Option SecretKey
  remoteRatchetKey : Option PublicKey
  sendMessageNumber : UInt32
  recvMessageNumber : UInt32
  previousChainLength : UInt32
  skippedKeys : List (PublicKey × UInt32 × Key)
  deriving DecidableEq

namespace DoubleRatchet
variable {PublicKey SecretKey Key : Type}

/-- An order in which the iterator of the map can yield its entries. -/
structure Iterates (iter : List (PublicKey × UInt32 × Key))
    (m : Finmap fun _ : PublicKey × UInt32 => Key) [DecidableEq PublicKey] : Prop where
  nodup : (iter.map fun e => (e.1,e.2.1)).Nodup
  mem (pk : PublicKey) (n : UInt32) (mk : Key) : (pk,n,mk) ∈ iter ↔ m.lookup (pk,n) = some mk

/-- The snapshot of a state whose map the iterator yields as `iter`. -/
def snapshot (s : RatchetState PublicKey SecretKey Key)
    (iter : List (PublicKey × UInt32 × Key)) : RatchetStateSer PublicKey SecretKey Key where
  rootKey := s.rootKey
  sendingChainKey := s.sendingChainKey
  receivingChainKey := s.receivingChainKey
  sendingPublicKey := s.sendingKeypair.map Prod.fst
  sendingSecretKey := s.sendingKeypair.map Prod.snd
  remoteRatchetKey := s.remoteRatchetKey
  sendMessageNumber := s.sendMessageNumber
  recvMessageNumber := s.recvMessageNumber
  previousChainLength := s.previousChainLength
  skippedKeys := iter

variable (J : Serde (RatchetStateSer PublicKey SecretKey Key))

def toBytes (s : RatchetState PublicKey SecretKey Key)
    (iter : List (PublicKey × UInt32 × Key)) : Result (List UInt8) :=
  match J.toVec (snapshot s iter) with
  | .error e => .error (.serializationError e)
  | .ok bytes => .ok bytes

variable [DecidableEq PublicKey]

/-- The loop that fills the map; a label listed twice keeps its last key. -/
def insertAll (m : Finmap fun _ : PublicKey × UInt32 => Key) :
    List (PublicKey × UInt32 × Key) → Finmap fun _ : PublicKey × UInt32 => Key
  | [] => m
  | (rpk,mn,mk)::iter => insertAll (m.insert (rpk,mn) mk) iter

def fromBytes (bytes : List UInt8) : Result (RatchetState PublicKey SecretKey Key) :=
  match J.fromSlice bytes with
  | .error e => .error (.serializationError e)
  | .ok ser =>
    let sendingKeypair :=
      match ser.sendingPublicKey, ser.sendingSecretKey with
      | some pk, some sk => some (pk, sk)
      | _, _ => none
    .ok {
      rootKey := ser.rootKey
      sendingChainKey := ser.sendingChainKey
      receivingChainKey := ser.receivingChainKey
      sendingKeypair
      remoteRatchetKey := ser.remoteRatchetKey
      sendMessageNumber := ser.sendMessageNumber
      recvMessageNumber := ser.recvMessageNumber
      previousChainLength := ser.previousChainLength
      skippedKeys := insertAll ∅ ser.skippedKeys }

/-- What is not listed keeps its entry. -/
theorem insertAll_lookup_of_notMem {iter : List (PublicKey × UInt32 × Key)}
    {id : PublicKey × UInt32} (h : id ∉ iter.map fun e => (e.1,e.2.1)) (m : Finmap fun _ : PublicKey × UInt32 => Key) :
    (insertAll m iter).lookup id = m.lookup id := by
  induction iter generalizing m with
  | nil => rfl
  | cons e iter ih =>
    rw [List.map_cons, List.mem_cons, not_or] at h
    rw [insertAll, ih h.2, Finmap.lookup_insert_of_ne _ h.1]

theorem insertAll_lookup_of_mem {iter : List (PublicKey × UInt32 × Key)}
    (hnodup : (iter.map fun e => (e.1,e.2.1)).Nodup) {pk : PublicKey} {n : UInt32} {mk : Key}
    (h : (pk,n,mk) ∈ iter) (m : Finmap fun _ : PublicKey × UInt32 => Key) :
    (insertAll m iter).lookup (pk,n) = some mk := by
  induction iter generalizing m with
  | nil => cases h
  | cons e iter ih =>
    rw [List.map_cons, List.nodup_cons] at hnodup
    rw [insertAll]
    by_cases he : (pk,n,mk) = e
    · subst he
      rw [insertAll_lookup_of_notMem hnodup.1, Finmap.lookup_insert]
    · exact ih hnodup.2 ((List.mem_cons.mp h).resolve_left he) _

/-- Inserting what the iterator yielded gives the map back, in any order. -/
theorem insertAll_iterates {iter : List (PublicKey × UInt32 × Key)}
    {m : Finmap fun _ : PublicKey × UInt32 => Key} (h : Iterates iter m) :
    insertAll ∅ iter = m := by
  apply Finmap.ext_lookup
  rintro ⟨pk,n⟩
  cases hm : m.lookup (pk,n) with
  | some mk => exact insertAll_lookup_of_mem h.nodup ((h.mem pk n mk).mpr hm) ∅
  | none =>
    rw [insertAll_lookup_of_notMem, Finmap.lookup_empty]
    intro hmem
    obtain ⟨⟨pk',n',mk⟩,he,heq⟩ := List.mem_map.mp hmem
    obtain ⟨rfl,rfl⟩ := Prod.mk.inj heq
    rw [(h.mem _ _ mk).mp he] at hm
    contradiction

variable {J} {s : RatchetState PublicKey SecretKey Key} {iter : List (PublicKey × UInt32 × Key)}

/-- What was saved is restored, field by field. -/
theorem fromBytes_toBytes (hJ : J.Lossless) (hiter : Iterates iter s.skippedKeys)
    {bytes : List UInt8} (h : toBytes J s iter = .ok bytes) : fromBytes J bytes = .ok s := by
  cases hto : J.toVec (snapshot s iter) with
  | error e =>
    rw [toBytes, hto] at h
    cases h
  | ok written =>
    rw [toBytes, hto] at h
    obtain rfl := Except.ok.inj h
    rw [fromBytes, hJ _ _ hto]
    obtain ⟨rootKey,sending,receiving,pair,remote,send,recv,previous,skipped⟩ := s
    simp only [snapshot, insertAll_iterates hiter]
    cases pair <;> rfl

variable (J)

/-- A session saved and loaded again; one that cannot be stays in memory. -/
def saveRestore (s : RatchetState PublicKey SecretKey Key)
    (iter : List (PublicKey × UInt32 × Key)) : RatchetState PublicKey SecretKey Key :=
  match toBytes J s iter with
  | .error _ => s
  | .ok bytes =>
    match fromBytes J bytes with
    | .error _ => s
    | .ok restored => restored

variable {J}

theorem saveRestore_eq (hJ : J.Lossless) (hiter : Iterates iter s.skippedKeys) :
    saveRestore J s iter = s := by
  cases h : toBytes J s iter with
  | error e => rw [saveRestore, h]
  | ok bytes => simp only [saveRestore, h, fromBytes_toBytes hJ hiter h]

end DoubleRatchet
end Vaultex
