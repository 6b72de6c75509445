import Mathlib.Data.List.Basic
import Mathlib.Data.List.Perm.Basic

/-!
# Runs of a deterministic machine

A machine is a step function on states; a schedule is a list of actions. A
schedule is guarded when each action meets a condition on the state it is
taken in. What a guarded step keeps, a guarded schedule keeps.
-/

set_option autoImplicit false

namespace Vaultex.Runs
variable {σ α : Type*} (step : σ → α → σ)

def run : σ → List α → σ
  | s, [] => s
  | s, a::as => run (step s a) as

def Guarded (guard : σ → α → Prop) : σ → List α → Prop
  | _, [] => True
  | s, a::as => guard s a ∧ Guarded guard (step s a) as

instance Guarded.decidable (guard : σ → α → Prop) [∀ s a, Decidable (guard s a)] :
    ∀ (s : σ) (as : List α), Decidable (Guarded step guard s as)
  | _, [] => isTrue trivial
  | s, a::as => @instDecidableAnd _ _ _ (Guarded.decidable guard (step s a) as)

theorem run_append (s : σ) (as bs : List α) :
    run step s (as++bs) = run step (run step s as) bs := by
  induction as generalizing s with
  | nil => rfl
  | cons a as ih => exact ih _

/-- What a machine does to a part of its state that it reads nothing beside. -/
theorem run_map {τ : Type*} {step' : τ → α → τ} {f : σ → τ}
    (hf : ∀ s a, f (step s a) = step' (f s) a) (s : σ) (as : List α) :
    f (run step s as) = run step' (f s) as := by
  induction as generalizing s with
  | nil => rfl
  | cons a as ih => rw [run, ih, hf, run]

theorem guarded_append {guard : σ → α → Prop} {s : σ} {as bs : List α} :
    Guarded step guard s (as++bs) ↔
      Guarded step guard s as ∧ Guarded step guard (run step s as) bs := by
  induction as generalizing s with
  | nil => exact ⟨fun h => ⟨trivial,h⟩,fun h => h.2⟩
  | cons a as ih =>
    rw [List.cons_append, Guarded, ih, ← and_assoc]
    rfl

theorem guarded_mono {guard guard' : σ → α → Prop} (himp : ∀ s a, guard s a → guard' s a)
    {s : σ} {as : List α} (hg : Guarded step guard s as) : Guarded step guard' s as := by
  induction as generalizing s with
  | nil => trivial
  | cons a as ih => exact ⟨himp s a hg.1,ih hg.2⟩

theorem guarded_and {guard guard' : σ → α → Prop} {s : σ} {as : List α} :
    Guarded step (fun s a => guard s a ∧ guard' s a) s as ↔
      Guarded step guard s as ∧ Guarded step guard' s as := by
  induction as generalizing s with
  | nil => exact ⟨fun h => ⟨h,h⟩,fun h => h.1⟩
  | cons a as ih =>
    rw [Guarded, Guarded, Guarded, ih]
    exact and_and_and_comm

/-- A schedule is guarded when every action meets the guard where its turn comes. -/
theorem guarded_iff_forall {guard : σ → α → Prop} {s : σ} {as : List α} :
    Guarded step guard s as ↔ ∀ pre a suf, as = pre++a::suf → guard (run step s pre) a := by
  induction as generalizing s with
  | nil => simp [Guarded]
  | cons a as ih =>
    rw [Guarded, ih]
    constructor
    · rintro ⟨ha,has⟩ pre b suf hps
      cases pre with
      | nil =>
        obtain ⟨rfl,-⟩ := List.cons.inj hps
        exact ha
      | cons c pre =>
        obtain ⟨rfl,htail⟩ := List.cons.inj hps
        exact has pre b suf htail
    · intro h
      exact ⟨h [] a as rfl,fun pre b suf hps => h (a::pre) b suf (by rw [hps]; rfl)⟩

/-- Two guards that agree as long as an invariant holds, which the second one keeps. -/
theorem guarded_congr {guard guard' : σ → α → Prop} {I : σ → Prop}
    (hiff : ∀ s a, I s → (guard s a ↔ guard' s a))
    (hstep : ∀ s a, I s → guard' s a → I (step s a)) {s : σ} (h : I s) (as : List α) :
    Guarded step guard s as ↔ Guarded step guard' s as := by
  induction as generalizing s with
  | nil => exact Iff.rfl
  | cons a as ih =>
    rw [Guarded, Guarded, hiff s a h]
    exact and_congr_right fun hg => ih (hstep s a h hg)

/-- Where the steps commute, the schedule is a multiset. -/
theorem run_perm {as bs : List α}
    (hcomm : ∀ s, ∀ a ∈ as, ∀ b ∈ as, step (step s a) b = step (step s b) a)
    (hp : as.Perm bs) (s : σ) : run step s as = run step s bs := by
  induction hp generalizing s with
  | nil => rfl
  | cons a _ ih => exact ih (fun s b hb c hc =>
      hcomm s b (List.mem_cons_of_mem _ hb) c (List.mem_cons_of_mem _ hc)) (step s a)
  | swap a b as =>
    rw [run, run, run, run, hcomm s b (by simp) a (by simp)]
  | trans hp _ ih ih' =>
    rw [ih hcomm s]
    exact ih' (fun s b hb c hc => hcomm s b (hp.mem_iff.mpr hb) c (hp.mem_iff.mpr hc)) s

/-- The run rule: an invariant of the guarded step is one of the guarded run. -/
theorem run_invariant {guard : σ → α → Prop} {I : σ → Prop}
    (hstep : ∀ s a, I s → guard s a → I (step s a)) {s : σ} (h : I s)
    {as : List α} (hg : Guarded step guard s as) : I (run step s as) := by
  induction as generalizing s with
  | nil => exact h
  | cons a as ih => exact ih (hstep s a h hg.1) hg.2

theorem run_invariant' {I : σ → Prop} (hstep : ∀ s a, I s → I (step s a))
    {s : σ} (h : I s) (as : List α) : I (run step s as) := by
  induction as generalizing s with
  | nil => exact h
  | cons a as ih => exact ih (hstep s a h)

theorem forall₂_mem {α β : Type*} {R : α → β → Prop} {as : List α} {bs : List β}
    (h : List.Forall₂ R as bs) {a : α} (ha : a ∈ as) : ∃ b ∈ bs, R a b := by
  induction h with
  | nil => contradiction
  | @cons a' b' as bs hhead _ ih =>
    rcases List.mem_cons.mp ha with rfl | ha
    · exact ⟨b',List.mem_cons_self,hhead⟩
    · obtain ⟨b,hb,hr⟩ := ih ha
      exact ⟨b,List.mem_cons_of_mem _ hb,hr⟩

/-- The lockstep rule: what two machines keep between them over two alike
actions, they keep over two alike schedules. -/
theorem run_related {τ β : Type*} {step' : τ → β → τ} {alike : α → β → Prop} {R : σ → τ → Prop}
    (hstep : ∀ s t a b, R s t → alike a b → R (step s a) (step' t b)) {s : σ} {t : τ}
    (h : R s t) {as : List α} {bs : List β} (halike : List.Forall₂ alike as bs) :
    R (run step s as) (run step' t bs) := by
  induction halike generalizing s t with
  | nil => exact h
  | cons hab _ ih => exact ih (hstep _ _ _ _ h hab)

/-- The stuttering rule: a machine that, through `f`, takes on some actions the
steps of another and stays put on the rest. -/
theorem run_stutter {τ β : Type*} {step' : τ → β → τ} {f : τ → σ} {g : α → Option β}
    {guard : σ → α → Prop}
    (hmove : ∀ t a b, g a = some b → step (f t) a = f (step' t b))
    (hstay : ∀ t a, g a = none → guard (f t) a → step (f t) a = f t) {t : τ} {as : List α}
    (hg : Guarded step guard (f t) as) : run step (f t) as = f (run step' t (as.filterMap g)) := by
  induction as generalizing t with
  | nil => rfl
  | cons a as ih =>
    cases ha : g a with
    | some b =>
      rw [run, List.filterMap_cons_some ha, hmove t a b ha]
      exact ih (hmove t a b ha ▸ hg.2)
    | none =>
      rw [run, List.filterMap_cons_none ha, hstay t a ha hg.1]
      exact ih (hstay t a ha hg.1 ▸ hg.2)

/-- A bound that each step keeps exactly when it meets its guard is kept
throughout exactly the guarded runs. -/
theorem guarded_iff_prefixes {guard : σ → α → Prop} {B : σ → Prop}
    (hstep : ∀ s a, B s → (B (step s a) ↔ guard s a)) {s : σ} (hb : B s) (as : List α) :
    (∀ pre suf, as = pre++suf → B (run step s pre)) ↔ Guarded step guard s as := by
  induction as generalizing s with
  | nil =>
    refine ⟨fun _ => trivial,fun _ pre suf h => ?_⟩
    obtain ⟨rfl,-⟩ := List.append_eq_nil_iff.mp h.symm
    exact hb
  | cons a as ih =>
    constructor
    · intro h
      have h1 : B (step s a) := h [a] as rfl
      refine ⟨(hstep s a hb).mp h1,(ih h1).mp ?_⟩
      intro pre suf hps
      exact h (a::pre) suf (by rw [hps]; rfl)
    · rintro ⟨hg,hgs⟩ pre suf hps
      cases pre with
      | nil => exact hb
      | cons b pre =>
        obtain ⟨rfl,rfl⟩ := List.cons.inj hps
        exact (ih ((hstep s a hb).mpr hg)).mpr hgs pre suf rfl

end Vaultex.Runs
