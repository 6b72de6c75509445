import Mathlib.Data.Finset.Insert
import Mathlib.Order.SuccPred.Basic

/-!
# Messages out of order

A receiver of messages whose labels are linearly ordered, each sent in order
and arriving in any order. What lies below its horizon has been passed; what
has been passed and has not arrived is awaited.
-/

set_option autoImplicit false

namespace Vaultex.Mailbox
variable {L : Type*} [LinearOrder L]

/-- Sent, passed over and not received. -/
def Pending (sent : L → Prop) (horizon : L) (received : Finset L) (l : L) : Prop :=
  sent l ∧ l < horizon ∧ l ∉ received

/-- Nothing is passed but by an arrival at or beyond it. -/
def Reached (horizon : L) (received : Finset L) : Prop :=
  ∀ l, l < horizon → ∃ r ∈ received, l ≤ r

variable {sent sent' : L → Prop} {horizon horizon' : L} {received : Finset L} {l l' : L}

/-- A passed label arrives: nothing else changes. -/
theorem pending_take :
    Pending sent horizon (insert l received) l' ↔ l' ≠ l ∧ Pending sent horizon received l' := by
  rw [Pending, Finset.mem_insert, Pending]
  tauto

/-- The horizon moves: what it moves past is pending. -/
theorem pending_move (hbelow : ∀ r ∈ received, r < horizon) (hle : horizon ≤ horizon') :
    Pending sent horizon' received l ↔
      Pending sent horizon received l ∨ (sent l ∧ horizon ≤ l ∧ l < horizon') := by
  rw [Pending, Pending]
  by_cases hl : l < horizon
  · have hfar := hl.trans_le hle
    have hnot := not_le.mpr hl
    tauto
  · have hmem : l ∉ received := fun hm => hl (hbelow l hm)
    have hge := not_lt.mp hl
    tauto

theorem pending_congr (h : l < horizon → (sent l ↔ sent' l)) :
    Pending sent horizon received l ↔ Pending sent' horizon received l := by
  simp only [Pending]
  tauto

section Successor
variable [SuccOrder L] [NoMaxOrder L]

/-- A label beyond the horizon arrives: what it passes over is pending. -/
theorem pending_advance (hbelow : ∀ r ∈ received, r < horizon) (hle : horizon ≤ l) :
    Pending sent (Order.succ l) (insert l received) l' ↔
      Pending sent horizon received l' ∨ (sent l' ∧ horizon ≤ l' ∧ l' < l) := by
  rw [pending_take, pending_move hbelow (hle.trans (Order.le_succ l)), Order.lt_succ_iff,
    lt_iff_le_and_ne (a := l')]
  constructor
  · rintro ⟨hne,h | h⟩
    · exact Or.inl h
    · exact Or.inr ⟨h.1,h.2.1,h.2.2,hne⟩
  · rintro (h | h)
    · exact ⟨(h.2.1.trans_le hle).ne,Or.inl h⟩
    · exact ⟨h.2.2.2,Or.inr ⟨h.1,h.2.1,h.2.2.1⟩⟩

theorem reached_receive (h : Reached horizon received) :
    Reached (max horizon (Order.succ l)) (insert l received) := by
  intro l' hlt
  rcases lt_max_iff.mp hlt with hlt | hlt
  · obtain ⟨r,hr,hle⟩ := h l' hlt
    exact ⟨r,Finset.mem_insert_of_mem hr,hle⟩
  · exact ⟨l,Finset.mem_insert_self _ _,Order.lt_succ_iff.mp hlt⟩

end Successor

end Vaultex.Mailbox
