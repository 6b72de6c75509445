import Vaultex.RatchetRun

/-!
# What the names in a state stand for

A ratchet key names a chain and a number names a place in it. Which chains and
which places is a parameter here; the operations of the receiving side carry
the names along in the same way whatever they stand for.
-/

set_option autoImplicit false

namespace Vaultex.DoubleRatchet
variable {PublicKey SecretKey Key : Type}

/-- The chains made with a ratchet key, the one of them in use, and the places
a number can stand for; counting up from a place reaches the next ones. -/
structure Naming (PublicKey Key : Type) where
  made : PublicKey → Key → Prop
  current : PublicKey → Key → Prop
  place : UInt32 → ℕ → Prop
  made_of_current {pk : PublicKey} {c : Key} : current pk c → made pk c
  place_add {r n : UInt32} {j : ℕ} : place r j → r.toNat ≤ n.toNat → place n (j+(n.toNat-r.toNat))

variable (S : Suite PublicKey SecretKey Key) (N : Naming PublicKey Key)

/-- `key` is a message key that `pk` and `n` name. -/
def Naming.Names (pk : PublicKey) (n : UInt32) (key : Key) : Prop :=
  ∃ c j, N.made pk c ∧ N.place n j ∧ key = messageKey S c j

variable [DecidableEq PublicKey]

structure Named (s : RatchetState PublicKey SecretKey Key) : Prop where
  chain : ∀ ck, s.receivingChainKey = some ck → ∃ pk c j, s.remoteRatchetKey = some pk ∧
    N.current pk c ∧ ck = chainKey S c j ∧ N.place s.recvMessageNumber j
  cached : ∀ pk n key, s.skippedKeys.lookup (pk,n) = some key → N.Names S pk n key

variable {S N} {s : RatchetState PublicKey SecretKey Key} {pk : PublicKey} {ck : Key} {n : UInt32}

section
variable (h : Named S N s) (remote : s.remoteRatchetKey = some pk)
  (chain : s.receivingChainKey = some ck) (low : s.recvMessageNumber.toNat ≤ n.toNat)
include h remote chain low

/-- The chain moved on to number `n`. -/
theorem Named.place_of_chain : ∃ c j, N.current pk c ∧ N.place n j ∧
    ∀ i, chainKey S ck ((n-s.recvMessageNumber).toNat+i) = chainKey S c (j+i) := by
  obtain ⟨pk',c,j,remote',hc,rfl,hj⟩ := h.chain ck chain
  obtain rfl : pk' = pk := Option.some.inj (remote'.symm.trans remote)
  refine ⟨c,_,hc,N.place_add hj low,fun i => ?_⟩
  rw [chainKey_add, UInt32.toNat_sub_of_le _ _ (UInt32.le_iff_toNat_le.mpr low), Nat.add_assoc]

theorem Named.skipTo : Named S N (skipTo S s pk ck n) := by
  constructor
  · intro ck' hck'
    obtain rfl := Option.some.inj hck'
    obtain ⟨c,j,hc,hj,hkey⟩ := h.place_of_chain remote chain low
    exact ⟨pk,c,j,remote,hc,hkey 0,hj⟩
  · intro p x key hkey
    have hn := n.toNat_lt
    rw [skipTo_skippedKeys, UInt32.toNat_sub_of_le _ _ (UInt32.le_iff_toNat_le.mpr low),
      cacheSkipped_lookup S _ _ _ _ _ (by omega)] at hkey
    split at hkey
    next hin =>
      obtain ⟨rfl,hx,-⟩ := hin
      obtain rfl := Option.some.inj hkey
      obtain ⟨pk',c,j,remote',hc,rfl,hj⟩ := h.chain ck chain
      obtain rfl : pk' = p := Option.some.inj (remote'.symm.trans remote)
      exact ⟨c,_,N.made_of_current hc,N.place_add hj hx,messageKey_add S c j _⟩
    · exact h.cached p x key hkey

/-- The key taken out of the chain bears the number asked for. -/
theorem Named.taken : N.Names S pk n (messageKey S ck (n.toNat-s.recvMessageNumber.toNat)) := by
  obtain ⟨c,j,hc,hj,hkey⟩ := h.place_of_chain remote chain low
  refine ⟨c,j,N.made_of_current hc,hj,?_⟩
  rw [← UInt32.toNat_sub_of_le _ _ (UInt32.le_iff_toNat_le.mpr low)]
  exact congrArg (fun ck => (kdfCk S ck).2) (hkey 0)

theorem Named.advance (hsucc : ∀ j, N.place n j → N.place (n+1) (j+1)) :
    Named S N (advance S s pk ck n) := by
  refine ⟨fun ck' hck' => ?_,(h.skipTo remote chain low).cached⟩
  obtain rfl := Option.some.inj hck'
  obtain ⟨c,j,hc,hj,hkey⟩ := h.place_of_chain remote chain low
  exact ⟨pk,c,j+1,remote,hc,hkey 1,hsucc j hj⟩

end

theorem Named.current_skipped {s1 : RatchetState PublicKey SecretKey Key} (h : Named S N s)
    (hs : CurrentSkipped S s n s1) : Named S N s1 := by
  cases hs with
  | nothing => exact h
  | skipped chain remote low high => exact h.skipTo remote chain low

theorem Named.takeOut (h : Named S N s) (id : PublicKey × UInt32) : Named S N (takeOut s id) := by
  refine ⟨h.chain,fun pk n key hkey => h.cached pk n key ?_⟩
  rw [takeOut_skippedKeys] at hkey
  by_cases hid : (pk,n) = id
  · rw [hid, Finmap.lookup_erase] at hkey
    contradiction
  · rwa [Finmap.lookup_erase_ne hid] at hkey

/-- A new chain, in a naming that keeps the old names. -/
theorem Named.recvStep {N' : Naming PublicKey Key} (h : Named S N s)
    (hmade : ∀ pk n key, N.Names S pk n key → N'.Names S pk n key) {d : Key}
    (hcurrent : N'.current pk (kdfRk S s.rootKey d).2) (hzero : N'.place 0 0) :
    Named S N' (recvStep S (relabel s pk) d) := by
  refine ⟨fun ck hck => ?_,fun pk n key hkey => hmade pk n key (h.cached pk n key hkey)⟩
  obtain rfl := Option.some.inj hck
  exact ⟨pk,_,0,rfl,hcurrent,rfl,hzero⟩

theorem Named.sendStep (h : Named S N s) (fresh : PublicKey × SecretKey) (d : Key) :
    Named S N (sendStep S s fresh d) := ⟨h.chain,h.cached⟩

end Vaultex.DoubleRatchet
