import Mathlib.Data.Finset.Dedup
import Vaultex.Hex
import Vaultex.Identity
import Vaultex.Runs

/-!
# Groups

`group.rs`. The member list of a group stands for a finite set: adding looks
before it appends and removing takes out every copy, so a list without
repetitions stays one. The constructor takes the caller's list as it is.
-/

set_option autoImplicit false

namespace Vaultex

structure GroupId where
  bytes : Bytes32
  deriving DecidableEq

namespace GroupId

/-- `random` is what `randombytes(32)` yields. -/
def generate (init : Bool) (random : Bytes32) : Result GroupId :=
  if init then .ok ⟨random⟩ else .error .initFailed

def toHex (id : GroupId) : String := Hex.encode id.bytes.toList

def fromHex (hexStr : String) : Result GroupId :=
  match Hex.decode hexStr with
  | none => .error (.ratchetError "invalid hex for group ID")
  | some bytes =>
    if h : bytes.length = 32 then .ok ⟨⟨bytes.toArray,h⟩⟩
    else .error (.ratchetError "group ID must be 32 bytes")

theorem toHex_inj {id id' : GroupId} (h : id.toHex = id'.toHex) : id = id' := by
  obtain ⟨bytes⟩ := id
  obtain ⟨bytes'⟩ := id'
  exact congrArg mk (Vector.toList_inj.mp (Hex.encode_inj h))

/-- Any 64 hex digits are an identifier, printed with its letters in lower case. -/
theorem fromHex_hexdigits {text : String} (h : text.toList.all Text.isAsciiHexdigit)
    (hlen : text.length = 64) :
    ∃ id, fromHex text = .ok id ∧ id.toHex = Text.toAsciiLowercase text := by
  obtain ⟨bytes,hdecode,hlength,hencode⟩ := Hex.decode_hexdigits h (n := 32) hlen
  refine ⟨⟨⟨bytes.toArray,hlength⟩⟩,?_,hencode⟩
  simp only [fromHex, hdecode]
  rw [dif_pos hlength]

end GroupId

structure GroupInfo where
  groupId : GroupId
  name : String
  members : List String
  createdAt : UInt64
  createdBy : String

namespace GroupInfo

/-- `now` is the clock in seconds since the epoch. -/
def new (init : Bool) (random : Bytes32) (now : UInt64) (name creatorIdentityHex : String)
    (memberIdentityHexes : List String) : Result GroupInfo :=
  match GroupId.generate init random with
  | .error e => .error e
  | .ok groupId =>
    let members :=
      if memberIdentityHexes.contains creatorIdentityHex then memberIdentityHexes
      else memberIdentityHexes++[creatorIdentityHex]
    .ok { groupId, name, members, createdAt := now, createdBy := creatorIdentityHex }

def addMember (g : GroupInfo) (identityKeyHex : String) : GroupInfo × Bool :=
  if g.members.contains identityKeyHex then (g,false)
  else ({ g with members := g.members++[identityKeyHex] },true)

def removeMember (g : GroupInfo) (identityKeyHex : String) : GroupInfo × Bool :=
  let kept := g.members.filter fun m => m != identityKeyHex
  ({ g with members := kept },kept.length < g.members.length)

def isMember (g : GroupInfo) (identityKeyHex : String) : Bool :=
  g.members.any fun m => m == identityKeyHex

def otherMembers (g : GroupInfo) (selfIdentityHex : String) : List String :=
  g.members.filter fun m => m != selfIdentityHex

end GroupInfo

inductive MemberOp where
  | add (identityKeyHex : String)
  | remove (identityKeyHex : String)

namespace GroupInfo

def perform (g : GroupInfo) : MemberOp → GroupInfo × Bool
  | .add id => g.addMember id
  | .remove id => g.removeMember id

/-- What an operation makes of a set of members. -/
def onSet (s : Finset String) : MemberOp → Finset String
  | .add id => insert id s
  | .remove id => s.erase id

/-- The group answers as the set does: what it returns tells whether the set
changes, and every member other than oneself is listed once. -/
structure Refines (g : GroupInfo) (s : Finset String) : Prop where
  nodup : g.members.Nodup
  members : g.members.toFinset = s
  changes : ∀ op, (g.perform op).2 = true ↔ onSet s op ≠ s
  isMember : ∀ id, g.isMember id = true ↔ id ∈ s
  others : ∀ self m, (g.otherMembers self).count m = if m ∈ s ∧ m ≠ self then 1 else 0

section
variable (g : GroupInfo)

/-- The list changes as the set does, with repetitions or without. -/
theorem perform_toFinset (op : MemberOp) :
    (g.perform op).1.members.toFinset = onSet g.members.toFinset op := by
  cases op with
  | add id =>
    rw [perform, addMember, onSet]
    split
    · rename_i hmem
      rw [Finset.insert_eq_self.mpr]
      simpa using hmem
    · rw [List.toFinset_append, Finset.union_comm]
      rfl
  | remove id =>
    rw [perform, removeMember, onSet]
    ext m
    simp [and_comm]

theorem perform_changes (op : MemberOp) :
    (g.perform op).2 = true ↔ onSet g.members.toFinset op ≠ g.members.toFinset := by
  cases op with
  | add id =>
    rw [perform, addMember, onSet, Ne, Finset.insert_eq_self, List.mem_toFinset]
    split <;> simp_all
  | remove id =>
    rw [perform, removeMember, onSet, Ne, Finset.erase_eq_self, List.mem_toFinset, not_not]
    simp

theorem perform_nodup (h : g.members.Nodup) (op : MemberOp) :
    (g.perform op).1.members.Nodup := by
  cases op with
  | add id =>
    rw [perform, addMember]
    split
    · exact h
    · rename_i hnew
      apply List.nodup_append.mpr ⟨h,List.nodup_singleton _,?_⟩
      rintro m hm _ hid rfl
      rw [List.mem_singleton.mp hid] at hm
      exact hnew (List.contains_iff_mem.mpr hm)
  | remove id => exact h.filter _

theorem otherMembers_count (h : g.members.Nodup) (self m : String) :
    (g.otherMembers self).count m = if m ∈ g.members.toFinset ∧ m ≠ self then 1 else 0 := by
  simp only [otherMembers, (h.filter _).count, List.mem_filter, List.mem_toFinset, bne_iff_ne]

theorem refines_of_nodup (h : g.members.Nodup) : Refines g g.members.toFinset where
  nodup := h
  members := rfl
  changes := g.perform_changes
  isMember id := by simp [isMember]
  others := g.otherMembers_count h

end

/-- The list and the set a sequence of operations leaves. -/
def performAll (g : GroupInfo) (ops : List MemberOp) : GroupInfo :=
  Runs.run (fun g op => (perform g op).1) g ops

def setAfter (s : Finset String) (ops : List MemberOp) : Finset String := Runs.run onSet s ops

theorem performAll_toFinset (g : GroupInfo) (ops : List MemberOp) :
    (g.performAll ops).members.toFinset = setAfter g.members.toFinset ops :=
  Runs.run_map (fun g op => (perform g op).1) (f := fun g => g.members.toFinset)
    perform_toFinset g ops

theorem performAll_nodup {g : GroupInfo} (h : g.members.Nodup) (ops : List MemberOp) :
    (g.performAll ops).members.Nodup :=
  Runs.run_invariant' (fun g op => (perform g op).1) (I := fun g => g.members.Nodup)
    (fun g op h => g.perform_nodup h op) h ops

section
variable {init : Bool} {random : Bytes32} {now : UInt64} {name creator : String}
  {initial : List String} {g : GroupInfo}

/-- The creator is put in as `add_member` would put it in. -/
theorem new_members (h : new init random now name creator initial = .ok g) :
    g.members = ({ g with members := initial }.perform (.add creator)).1.members := by
  unfold new at h
  split at h
  · contradiction
  · rw [← Except.ok.inj h]
    simp only [perform, addMember]
    split <;> rfl

theorem new_toFinset (h : new init random now name creator initial = .ok g) :
    g.members.toFinset = insert creator initial.toFinset := by
  rw [new_members h]
  exact perform_toFinset { g with members := initial } (.add creator)

theorem new_nodup_iff (h : new init random now name creator initial = .ok g) :
    g.members.Nodup ↔ initial.Nodup := by
  rw [new_members h]
  constructor
  · simp only [perform, addMember]
    split
    · exact id
    · exact fun hnodup => hnodup.of_append_left
  · exact fun hnodup => perform_nodup { g with members := initial } hnodup (.add creator)

/-- A group stands for the set of its creator and the initial members, and goes
on standing for what a set would be after the same operations, exactly when the
initial list names nobody twice. -/
theorem group_refines_iff (h : new init random now name creator initial = .ok g) :
    (∀ ops, Refines (g.performAll ops) (setAfter (insert creator initial.toFinset) ops)) ↔
      initial.Nodup := by
  rw [← new_toFinset h, ← new_nodup_iff h]
  constructor
  · exact fun hall => (hall []).nodup
  · intro hnodup ops
    rw [← performAll_toFinset]
    exact refines_of_nodup _ (performAll_nodup hnodup ops)

end

def zeroId : Bytes32 := Vector.replicate 32 0

/-- A group of two, one of whom leaves and is added again. -/
theorem group_refines_rejoined :
    ∃ g, new true zeroId 0 "trip" "aa" ["bb"] = .ok g ∧
      Refines (g.performAll [.remove "bb",.add "bb"]) {"aa","bb"} := by
  obtain ⟨g,hg⟩ : ∃ g, new true zeroId 0 "trip" "aa" ["bb"] = .ok g := ⟨_,rfl⟩
  refine ⟨g,hg,?_⟩
  have h := (group_refines_iff hg).mpr (List.nodup_singleton _) [.remove "bb",.add "bb"]
  exact (by decide : setAfter (insert "aa" ["bb"].toFinset) [.remove "bb",.add "bb"] =
    {"aa","bb"}) ▸ h

/-- Every group stands for a set, whatever its creator starts it with. -/
def GroupsRefine : Prop :=
  ∀ init random now name creator initial g, new init random now name creator initial = .ok g →
    ∀ ops, Refines (g.performAll ops) (setAfter (insert creator initial.toFinset) ops)

/-- A member named twice is written to twice. -/
theorem groups_not_refine : ¬GroupsRefine := by
  intro h
  have hrefines := h true zeroId 0 "trip" "aa" ["bb","bb"] _ rfl []
  exact absurd (hrefines.others "aa" "bb") (by decide)

end GroupInfo
end Vaultex
