import Vaultex.Transcript

/-!
# The keys of a conversation

Both parties climb one ladder: each exchange of two neighbouring keypairs
gives the next root key and the next chain. A transcript then fixes every
field of both states.
-/

set_option autoImplicit false

namespace Vaultex.Conversation
open DoubleRatchet Mailbox
variable {PublicKey SecretKey Key : Type} (S : Suite PublicKey SecretKey Key)

section Ladder
variable (sharedSecret : Key) (tape : ℕ → PublicKey × SecretKey)

/-- Root key and chain key `i`; chain 0 does not exist. -/
def rung : ℕ → Key × Key
  | 0 => (sharedSecret, sharedSecret)
  | i+1 => kdfRk S (rung i).1 ((S.scalarmult (tape i).2 (tape (i+1)).1).getD sharedSecret)

def rootAt (i : ℕ) : Key := (rung S sharedSecret tape i).1

def chainAt (i : ℕ) : Key := (rung S sharedSecret tape i).2

/-- The key of the message with this label. -/
def keyAt (l : Label) : Key := messageKey S (chainAt S sharedSecret tape l.chain) l.number

end Ladder

/-- The first `n` keypairs of the tape are honest and have distinct public keys. -/
structure Dealt (generated : PublicKey × SecretKey → Prop) (tape : ℕ → PublicKey × SecretKey)
    (n : ℕ) : Prop where
  honest : ∀ i, i < n → generated (tape i)
  distinct : ∀ i j, i < n → j < n → (tape i).1 = (tape j).1 → i = j

variable {S} {generated : PublicKey × SecretKey → Prop} {sharedSecret : Key}
  {tape : ℕ → PublicKey × SecretKey} {n : ℕ}

theorem Dealt.succ (h : Dealt generated tape n) (hgen : generated (tape n))
    (hnew : ∀ i < n, (tape i).1 ≠ (tape n).1) : Dealt generated tape (n+1) where
  honest i hi := by
    rcases Nat.lt_succ_iff_lt_or_eq.mp hi with hi | rfl
    · exact h.honest i hi
    · exact hgen
  distinct i j hi hj heq := by
    rcases Nat.lt_succ_iff_lt_or_eq.mp hi with hi | rfl <;>
      rcases Nat.lt_succ_iff_lt_or_eq.mp hj with hj | rfl
    · exact h.distinct i j hi hj heq
    · exact absurd heq (hnew i hi)
    · exact absurd heq.symm (hnew j hj)
    · rfl

/-- Both holders of neighbouring keypairs find the next rung. -/
theorem exchange (hS : HonestLibrary S generated) (sharedSecret : Key) {i : ℕ}
    (hi : generated (tape i)) (hi' : generated (tape (i+1))) :
    ∃ d, S.scalarmult (tape i).2 (tape (i+1)).1 = some d ∧
      S.scalarmult (tape (i+1)).2 (tape i).1 = some d ∧
      kdfRk S (rootAt S sharedSecret tape i) d =
        (rootAt S sharedSecret tape (i+1),chainAt S sharedSecret tape (i+1)) := by
  obtain ⟨d,hd⟩ := Option.isSome_iff_exists.mp (hS.succeeds hi hi')
  refine ⟨d,hd,(hS.commutes hi' hi).trans hd,?_⟩
  simp only [rootAt, chainAt, rung, hd, Option.getD_some]

section Cache
variable [DecidableEq PublicKey]

abbrev SkippedKeys (PublicKey Key : Type) := Finmap fun _ : PublicKey × UInt32 => Key

/-- The cache holds the keys of these labels. -/
def Caches (S : Suite PublicKey SecretKey Key) (sharedSecret : Key)
    (tape : ℕ → PublicKey × SecretKey) (P : Label → Prop) (m : SkippedKeys PublicKey Key) : Prop :=
  ∀ pk x key, m.lookup (pk,x) = some key ↔
    ∃ i, pk = (tape i).1 ∧ P ⟨i,x.toNat⟩ ∧ key = keyAt S sharedSecret tape ⟨i,x.toNat⟩

variable {P Q : Label → Prop} {m m' : SkippedKeys PublicKey Key}

theorem Caches.congr (h : Caches S sharedSecret tape P m) (hPQ : ∀ l, P l ↔ Q l) :
    Caches S sharedSecret tape Q m := by
  intro pk x key
  rw [h pk x key]
  simp only [hPQ]

/-- A cache is determined by what it holds. -/
theorem Caches.unique (h : Caches S sharedSecret tape P m) (h' : Caches S sharedSecret tape P m') :
    m = m' := by
  apply Finmap.ext_lookup
  rintro ⟨pk,x⟩
  apply Option.ext
  intro key
  exact (h pk x key).trans (h' pk x key).symm

variable (hd : Dealt generated tape n) (hP : ∀ l, P l → l.chain < n)
include hd hP

theorem Caches.lookup (h : Caches S sharedSecret tape P m) {l : Label} (hl : l.chain < n)
    {x : UInt32} (hx : x.toNat = l.number) (key : Key) :
    m.lookup ((tape l.chain).1,x) = some key ↔ P l ∧ key = keyAt S sharedSecret tape l := by
  rw [h]
  constructor
  · rintro ⟨i,hpk,hp,rfl⟩
    obtain rfl := hd.distinct _ _ hl (hP _ hp) hpk
    rw [hx] at hp ⊢
    exact ⟨hp,rfl⟩
  · rintro ⟨hp,rfl⟩
    refine ⟨l.chain,rfl,?_⟩
    rw [hx]
    exact ⟨hp,rfl⟩

theorem Caches.lookup_none (h : Caches S sharedSecret tape P m) {l : Label} (hl : l.chain < n)
    {x : UInt32} (hx : x.toNat = l.number) :
    m.lookup ((tape l.chain).1,x) = none ↔ ¬P l := by
  rw [Option.eq_none_iff_forall_ne_some]
  constructor
  · intro hno hp
    exact hno _ ((h.lookup hd hP hl hx _).mpr ⟨hp,rfl⟩)
  · intro hp key hkey
    exact hp ((h.lookup hd hP hl hx key).mp hkey).1

theorem Caches.erase (h : Caches S sharedSecret tape P m) {l : Label} (hl : l.chain < n)
    {x : UInt32} (hx : x.toNat = l.number) :
    Caches S sharedSecret tape (fun l' => l' ≠ l ∧ P l') (m.erase ((tape l.chain).1,x)) := by
  intro pk y key
  by_cases hid : (pk,y) = ((tape l.chain).1,x)
  · rw [hid, Finmap.lookup_erase]
    obtain ⟨rfl,rfl⟩ := Prod.mk.inj hid
    refine iff_of_false (by simp) ?_
    rintro ⟨i,hpk,⟨hne,hp⟩,-⟩
    have hi := hd.distinct _ _ hl (hP _ hp) hpk
    exact hne (Label.ext hi.symm hx)
  · rw [Finmap.lookup_erase_ne hid, h]
    refine exists_congr fun i => and_congr_right fun hpk => ?_
    have hne : (⟨i,y.toNat⟩ : Label) ≠ l := by
      rintro rfl
      exact hid (by rw [hpk, UInt32.toNat_inj.mp hx])
    simp only [hne, ne_eq, not_false_eq_true, true_and]

/-- The loop adds the labels it passes. -/
theorem Caches.skip (h : Caches S sharedSecret tape P m) {c : ℕ} (hc : c < n) {a : UInt32}
    {count : ℕ} (hcount : a.toNat+count < 2^32) {ck : Key}
    (hck : ck = chainKey S (chainAt S sharedSecret tape c) a.toNat) :
    Caches S sharedSecret tape
      (fun l => P l ∨ (l.chain = c ∧ a.toNat ≤ l.number ∧ l.number < a.toNat+count))
      (cacheSkipped S (tape c).1 count a ck m).2 := by
  intro pk x key
  rw [cacheSkipped_lookup S _ _ _ _ _ hcount]
  by_cases hr : pk = (tape c).1 ∧ a.toNat ≤ x.toNat ∧ x.toNat < a.toNat+count
  · obtain ⟨rfl,hlow,hhigh⟩ := hr
    rw [if_pos ⟨rfl,hlow,hhigh⟩, hck, messageKey_add, Nat.add_sub_cancel' hlow]
    constructor
    · intro heq
      exact ⟨c,rfl,Or.inr ⟨rfl,hlow,hhigh⟩,(Option.some.inj heq).symm⟩
    · rintro ⟨i,hpk,hp | ⟨hi,-⟩,rfl⟩
      · obtain rfl := hd.distinct _ _ hc (hP _ hp) hpk
        rfl
      · simp only at hi
        rw [hi]
        rfl
  · rw [if_neg hr, h]
    refine exists_congr fun i => and_congr_right fun hpk => and_congr_left fun _ => ?_
    refine (or_iff_left ?_).symm
    rintro ⟨rfl,hin⟩
    exact hr ⟨hpk,hin⟩

end Cache
end Vaultex.Conversation
