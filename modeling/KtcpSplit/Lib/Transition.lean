import Mathlib.Tactic.Common

/-!
# Labelled machines and their runs

A machine is an initial state and a partial transition function whose labels
carry every choice that the scheduler or the environment makes.  Runs can
therefore be executed, and a property of all runs is an induction over
`ReachableUnder`, where the guard says which steps a run may take.
-/

namespace KtcpSplit.Transition

structure Machine (State Label : Type*) where
  init : State
  next : State → Label → Option State

variable {State Label : Type*}

namespace Machine

/-- States reached by runs all of whose steps satisfy `guard` in the state
before the step. -/
inductive ReachableUnder (M : Machine State Label)
    (guard : State → Label → Prop) : State → Prop
  | init : ReachableUnder M guard M.init
  | next {before after : State} {label : Label} :
      ReachableUnder M guard before → guard before label →
      M.next before label = some after → ReachableUnder M guard after

/-- States reached by any run. -/
abbrev Reachable (M : Machine State Label) : State → Prop :=
  M.ReachableUnder fun _ _ => True

/-- One more step, by its label. -/
theorem ReachableUnder.take {M : Machine State Label} {guard : State → Label → Prop}
    {before after : State} (hreach : M.ReachableUnder guard before) (label : Label)
    (hlabel : guard before label) (hnext : M.next before label = some after) :
    M.ReachableUnder guard after :=
  .next hreach hlabel hnext

/-- A weaker guard admits more runs. -/
theorem ReachableUnder.mono {M : Machine State Label}
    {guard guard' : State → Label → Prop}
    (hguard : ∀ before label, guard before label → guard' before label)
    {state : State} (hreach : M.ReachableUnder guard state) :
    M.ReachableUnder guard' state := by
  induction hreach with
  | init => exact .init
  | next _ hlabel hnext ih => exact .next ih (hguard _ _ hlabel) hnext

theorem ReachableUnder.reachable {M : Machine State Label}
    {guard : State → Label → Prop} {state : State}
    (hreach : M.ReachableUnder guard state) : M.Reachable state :=
  hreach.mono fun _ _ _ => trivial

/-- The invariant rule: what holds initially and is kept by every admitted
step of a reachable state holds along every admitted run. -/
theorem ReachableUnder.invariant {M : Machine State Label}
    {guard : State → Label → Prop} {P : State → Prop} (hinit : P M.init)
    (hstep : ∀ before label after, M.ReachableUnder guard before → P before →
      guard before label → M.next before label = some after → P after)
    {state : State} (hreach : M.ReachableUnder guard state) : P state := by
  induction hreach with
  | init => exact hinit
  | next hbefore hlabel hnext ih =>
      exact hstep _ _ _ hbefore ih hlabel hnext

/-- The simulation rule: a relation that holds initially and that every admitted
step of `M` keeps by an admitted step of `N` relates every state that `M` reaches
to one that `N` reaches. -/
theorem ReachableUnder.simulate {State' Label' : Type*} {M : Machine State Label}
    {N : Machine State' Label'} {guard : State → Label → Prop}
    {guard' : State' → Label' → Prop} (R : State → State' → Prop)
    (hinit : R M.init N.init)
    (hstep : ∀ before label after before', M.ReachableUnder guard before →
      R before before' → guard before label → M.next before label = some after →
      ∃ label' after', guard' before' label' ∧
        N.next before' label' = some after' ∧ R after after')
    {state : State} (hreach : M.ReachableUnder guard state) :
    ∃ state', N.ReachableUnder guard' state' ∧ R state state' := by
  induction hreach with
  | init => exact ⟨N.init, .init, hinit⟩
  | next hbefore hlabel hnext ih =>
      obtain ⟨before', hreach', hrelated⟩ := ih
      obtain ⟨label', after', hlabel', hnext', hrelated'⟩ :=
        hstep _ _ _ _ hbefore hrelated hlabel hnext
      exact ⟨after', .next hreach' hlabel' hnext', hrelated'⟩

section Run

variable (M : Machine State Label) (guard : State → Label → Prop)
  [∀ before label, Decidable (guard before label)]

/-- Execute a list of labels, each of which has to meet `guard`. -/
def runUnder : State → List Label → Option State
  | state, [] => some state
  | state, label :: labels =>
      if guard state label then
        (M.next state label).bind fun after => runUnder after labels
      else none

/-- Execute a list of labels. -/
def run : State → List Label → Option State :=
  M.runUnder fun _ _ => True

variable {M guard}

theorem ReachableUnder.run {state final : State} {labels : List Label}
    (hreach : M.ReachableUnder guard state)
    (hrun : M.runUnder guard state labels = some final) :
    M.ReachableUnder guard final := by
  induction labels generalizing state with
  | nil =>
      simp only [Machine.runUnder, Option.some.injEq] at hrun
      exact hrun ▸ hreach
  | cons label labels ih =>
      simp only [Machine.runUnder] at hrun
      split at hrun
      · rename_i hlabel
        obtain ⟨after, hnext, hrest⟩ := Option.bind_eq_some_iff.mp hrun
        exact ih (.next hreach hlabel hnext) hrest
      · cases hrun

/-- Whatever a concrete execution from the initial state ends in is reachable;
the execution is known by what is observed of its last state. -/
theorem exists_reachable_of_run {α : Type*} (M : Machine State Label)
    (guard : State → Label → Prop) [∀ before label, Decidable (guard before label)]
    (labels : List Label) (observe : State → α) (value : α)
    (hrun : (M.runUnder guard M.init labels).map observe = some value) :
    ∃ state, M.ReachableUnder guard state ∧ observe state = value := by
  obtain ⟨final, hfinal, hvalue⟩ := Option.map_eq_some_iff.mp hrun
  exact ⟨final, ReachableUnder.init.run hfinal, hvalue⟩

end Run

end Machine

end KtcpSplit.Transition
