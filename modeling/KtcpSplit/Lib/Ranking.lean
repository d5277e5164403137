import KtcpSplit.Lib.Transition
import Mathlib.Algebra.Group.Defs
import Mathlib.Algebra.Ring.Nat

/-!
# Runs that come to an end

A rank that falls with every step bounds the length of every run.
-/

namespace KtcpSplit.Transition.Machine

variable {State Label : Type*} {M : Machine State Label} {guard : State → Label → Prop}
  {P : State → Prop} {rank : State → ℕ}

/-- As long as `P` holds, every admitted step keeps it and lowers the rank. -/
def Ranked (M : Machine State Label) (guard : State → Label → Prop) (P : State → Prop)
    (rank : State → ℕ) : Prop :=
  ∀ before label after, P before → guard before label → M.next before label = some after →
    P after ∧ rank after < rank before

/-- No admitted step is left. -/
def Stuck (M : Machine State Label) (guard : State → Label → Prop) (state : State) : Prop :=
  ∀ label, guard state label → M.next state label = none

variable [∀ before label, Decidable (guard before label)]

/-- A rank that no step raises and that the counted steps lower bounds the number of
those in every run. -/
theorem countP_add_le (counted : Label → Bool) (rank : State → ℕ)
    (hstep : ∀ before label after, P before → guard before label →
      M.next before label = some after →
      P after ∧ (if counted label then 1 else 0) + rank after ≤ rank before)
    {state final : State} (hstate : P state) {labels : List Label}
    (hrun : M.runUnder guard state labels = some final) :
    P final ∧ labels.countP counted + rank final ≤ rank state := by
  induction labels generalizing state with
  | nil =>
      simp only [runUnder, Option.some.injEq] at hrun
      subst hrun
      exact ⟨hstate, Nat.le_of_eq (Nat.zero_add _)⟩
  | cons label labels ih =>
      simp only [runUnder, Option.ite_none_right_eq_some] at hrun
      obtain ⟨hguard, hrest⟩ := hrun
      obtain ⟨after, hnext, hrest⟩ := Option.bind_eq_some_iff.mp hrest
      obtain ⟨hafter, hless⟩ := hstep _ _ _ hstate hguard hnext
      obtain ⟨hfinal, hle⟩ := ih hafter hrest
      refine ⟨hfinal, ?_⟩
      rw [List.countP_cons]
      omega

/-- A run takes no more steps than the rank. -/
theorem Ranked.length_add_le (hranked : M.Ranked guard P rank) {state final : State}
    (hstate : P state) {labels : List Label}
    (hrun : M.runUnder guard state labels = some final) :
    P final ∧ labels.length + rank final ≤ rank state := by
  have hle := countP_add_le (fun _ => true) rank (P := P) ?_ hstate hrun
  · rwa [List.countP_true] at hle
  · intro before label after hbefore hguard hnext
    obtain ⟨hafter, hless⟩ := hranked _ _ _ hbefore hguard hnext
    refine ⟨hafter, ?_⟩
    rw [if_pos rfl]
    omega

section Total

variable {Cost : Type*} [AddMonoid Cost]

/-- What the steps of a run cost together. -/
def total (M : Machine State Label) (cost : State → Label → Cost) : State → List Label → Cost
  | _, [] => 0
  | state, label :: labels =>
      cost state label + ((M.next state label).map fun after => M.total cost after labels).getD 0

omit [∀ before label, Decidable (guard before label)] in
theorem total_cons (cost : State → Label → Cost) {state after : State} {label : Label}
    (hnext : M.next state label = some after) (labels : List Label) :
    M.total cost state (label :: labels) = cost state label + M.total cost after labels := by
  rw [total, hnext]
  rfl

/-- An invariant that allows for what a step costs allows for what a run costs. -/
theorem invariant_total {cost : State → Label → Cost} {Q : Cost → State → Prop}
    (hstep : ∀ paid before label after, Q paid before → guard before label →
      M.next before label = some after → Q (paid + cost before label) after)
    {state final : State} {labels : List Label}
    (hrun : M.runUnder guard state labels = some final) {paid : Cost} (hstate : Q paid state) :
    Q (paid + M.total cost state labels) final := by
  induction labels generalizing state paid with
  | nil =>
      simp only [runUnder, Option.some.injEq] at hrun
      subst hrun
      rw [total, add_zero]
      exact hstate
  | cons label labels ih =>
      simp only [runUnder, Option.ite_none_right_eq_some] at hrun
      obtain ⟨hguard, hrest⟩ := hrun
      obtain ⟨after, hnext, hrest⟩ := Option.bind_eq_some_iff.mp hrest
      rw [total_cons cost hnext, ← add_assoc]
      exact ih hrest (hstep paid _ _ _ hstate hguard hnext)

end Total

end KtcpSplit.Transition.Machine
