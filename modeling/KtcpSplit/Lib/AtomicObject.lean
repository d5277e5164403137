import KtcpSplit.Lib.Transition
import Mathlib.Data.List.Basic
import Mathlib.Logic.Function.Basic

/-!
# Atomic objects

An object whose operations take effect one at a time: a thread calls an operation, the
operation takes effect at some moment, and the call returns what it found then.  A
program whose histories of calls and returns are all histories of the object is
linearizable: its calls could have been made one after the other, each of them at a
moment between its call and its return.
-/

namespace KtcpSplit.AtomicObject

open Transition

/-- What an operation of a thread does where nothing else runs; the choice is what the
environment decides. -/
structure Object (Thread State Op Choice Res : Type*) where
  init : State
  apply : State → Thread → Op → Choice → Option (Res × State)

/-- A call of a thread, before and after it took effect. -/
inductive Status (Op Res : Type*)
  | idle
  | called (op : Op)
  | done (res : Res)

inductive Event (Thread Op Res : Type*)
  | call (thread : Thread) (op : Op)
  | ret (thread : Thread) (res : Res)

/-- What can be seen from outside, or a step of a thread inside its call. -/
inductive Label (Thread Op Choice Res : Type*)
  | event (event : Event Thread Op Res)
  | take (thread : Thread) (choice : Choice)

variable {Thread State Op Choice Res Impl : Type*}

def Label.visible : Label Thread Op Choice Res → Option (Event Thread Op Res)
  | .event seen => some seen
  | .take _ _ => none

/-- A thread makes a call. -/
def Label.isCall [DecidableEq Thread] (thread : Thread) : Label Thread Op Choice Res → Bool
  | .event (.call caller _) => caller = thread
  | _ => false

/-- A thread takes a step inside its call. -/
def Label.isTake [DecidableEq Thread] (thread : Thread) : Label Thread Op Choice Res → Bool
  | .take taker _ => taker = thread
  | _ => false

/-- The calls and returns of a run. -/
def history (labels : List (Label Thread Op Choice Res)) : List (Event Thread Op Res) :=
  labels.filterMap Label.visible

/-- The object, and how far the call of each thread is. -/
structure Calls (Thread State Op Res : Type*) where
  object : State
  status : Thread → Status Op Res

section Atomic

variable [DecidableEq Thread] [DecidableEq Res]

def Calls.set (s : Calls Thread State Op Res) (thread : Thread) (status : Status Op Res) :
    Calls Thread State Op Res :=
  { s with status := Function.update s.status thread status }

/-- An operation takes effect in one step of its thread. -/
def atomic (object : Object Thread State Op Choice Res) :
    Machine (Calls Thread State Op Res) (Label Thread Op Choice Res) where
  init := ⟨object.init, fun _ => .idle⟩
  next := fun s label =>
    match label with
    | .event (.call thread op) =>
        match s.status thread with
        | .idle => some (s.set thread (.called op))
        | _ => none
    | .event (.ret thread res) =>
        match s.status thread with
        | .done found => if found = res then some (s.set thread .idle) else none
        | _ => none
    | .take thread choice =>
        match s.status thread with
        | .called op =>
            (object.apply s.object thread op choice).map fun (res, state) =>
              ({ s with object := state } : Calls Thread State Op Res).set thread (.done res)
        | _ => none

end Atomic

/-! ## Runs by their labels -/

/-- The runs of a machine whose steps all meet `guard`. -/
inductive Path (M : Machine Impl (Label Thread Op Choice Res))
    (guard : Impl → Label Thread Op Choice Res → Prop) :
    List (Label Thread Op Choice Res) → Impl → Prop
  | init : Path M guard [] M.init
  | step {labels : List (Label Thread Op Choice Res)} {before after : Impl}
      {label : Label Thread Op Choice Res} :
      Path M guard labels before → guard before label → M.next before label = some after →
      Path M guard (labels ++ [label]) after

variable {M : Machine Impl (Label Thread Op Choice Res)}
  {guard : Impl → Label Thread Op Choice Res → Prop}

theorem Path.run [∀ before label, Decidable (guard before label)]
    {front labels : List (Label Thread Op Choice Res)} {before final : Impl}
    (hpath : Path M guard front before) (hrun : M.runUnder guard before labels = some final) :
    Path M guard (front ++ labels) final := by
  induction labels generalizing front before with
  | nil =>
      simp only [Machine.runUnder, Option.some.injEq] at hrun
      rw [List.append_nil]
      exact hrun ▸ hpath
  | cons label labels ih =>
      simp only [Machine.runUnder, Option.ite_none_right_eq_some] at hrun
      obtain ⟨hguard, hrest⟩ := hrun
      obtain ⟨after, hnext, hrest⟩ := Option.bind_eq_some_iff.mp hrest
      rw [List.append_cons]
      exact ih (hpath.step hguard hnext) hrest

/-- A concrete run; what it ends in is known by what is observed of it. -/
theorem exists_path_of_run {β : Type*} (M : Machine Impl (Label Thread Op Choice Res))
    (guard : Impl → Label Thread Op Choice Res → Prop)
    [∀ before label, Decidable (guard before label)]
    (labels : List (Label Thread Op Choice Res)) (observe : Impl → β) (value : β)
    (hrun : (M.runUnder guard M.init labels).map observe = some value) :
    ∃ s, Path M guard labels s ∧ observe s = value := by
  obtain ⟨final, hfinal, hvalue⟩ := Option.map_eq_some_iff.mp hrun
  exact ⟨final, Path.run .init hfinal, hvalue⟩

/-- A step of the program is none of the object, or one with the same event. -/
def Matched [DecidableEq Thread] [DecidableEq Res] (object : Object Thread State Op Choice Res)
    (allowed : Calls Thread State Op Res → Label Thread Op Choice Res → Prop)
    (R : Impl → Calls Thread State Op Res → Prop) (s : Calls Thread State Op Res)
    (label : Label Thread Op Choice Res) (after : Impl) : Prop :=
  (label.visible = none ∧ R after s) ∨
    ∃ label' s', label'.visible = label.visible ∧ allowed s label' ∧
      (atomic object).next s label' = some s' ∧ R after s'

/-- A program whose steps are matched has only histories of the object. -/
theorem Path.linearize [DecidableEq Thread] [DecidableEq Res]
    {object : Object Thread State Op Choice Res}
    {allowed : Calls Thread State Op Res → Label Thread Op Choice Res → Prop}
    (R : Impl → Calls Thread State Op Res → Prop) (hinit : R M.init (atomic object).init)
    (hstep : ∀ before label after s, R before s → guard before label →
      M.next before label = some after → Matched object allowed R s label after)
    {labels : List (Label Thread Op Choice Res)} {final : Impl}
    (hpath : Path M guard labels final) :
    ∃ labels' s, Path (atomic object) allowed labels' s ∧ history labels' = history labels ∧
      R final s := by
  induction hpath with
  | init => exact ⟨[], _, .init, rfl, hinit⟩
  | @step labels before after label _ hguard hnext ih =>
      obtain ⟨labels', s, hpath', hhistory, hrelated⟩ := ih
      obtain ⟨hsilent, hafter⟩ | ⟨label', s', hvisible, hallowed, hnext', hafter⟩ :=
        hstep _ _ _ _ hrelated hguard hnext
      · refine ⟨labels', s, hpath', ?_, hafter⟩
        rw [hhistory, history, history, List.filterMap_append, List.filterMap_cons, hsilent,
          List.filterMap_nil, List.append_nil]
      · refine ⟨labels' ++ [label'], s', .step hpath' hallowed hnext', ?_, hafter⟩
        rw [history, history, List.filterMap_append, List.filterMap_append]
        congr 1
        rw [List.filterMap_cons, List.filterMap_cons, hvisible]

end KtcpSplit.AtomicObject
