import KtcpSplit.Pool.Model

/-!
# The cycle of an element

An element is free, claimed by a submission, woken with a task, or on its way
back after the call.  The stage says where the element is, what it holds, what
its thread does and what its owner has run, and every step takes one element
from one stage to the next.
-/

namespace KtcpSplit.Pool

open KtcpSplit.Bag
open KtcpSplit.Transition

variable {S Func Data : Type*}

def Config.task (cfg : Config S Func Data) (x : S) : Func × Data :=
  (cfg.func x, cfg.data x)

/-! ## Stages -/

/-- The thread stays in `schedule` until it is woken. -/
def asleep : Thread Func := ⟨.schedule, .uninterruptible⟩

/-- The thread was woken and has not called `func` yet. -/
def Thread.Woken (func : Func) : Thread Func → Prop
  | ⟨.schedule, .running⟩ => True
  | ⟨.test, _⟩ => True
  | ⟨.load, _⟩ => True
  | ⟨.call func', _⟩ => func' = func
  | _ => False

/-- The thread called its task and has not given the element back. -/
def Thread.Returning (elem : PoolElem Func Data) : Thread Func → Prop
  | ⟨.running, _⟩ => True
  | ⟨.setState, _⟩ => True
  | ⟨.clear, taskState⟩ => taskState = .uninterruptible
  | ⟨.reuse, taskState⟩ => taskState = .uninterruptible ∧ elem.poolTask = none
  | _ => False

/-- What the element holds while the submission `x` fills it. -/
def Filled (cfg : Config S Func Data) (x : S) (elem : PoolElem Func Data) :
    RunPc → Prop
  | .check _ => elem.poolTask = none
  | .storeTask _ => elem.poolTask = none
  | .storeData _ => elem.poolTask = some (cfg.func x)
  | .wake _ => elem = ⟨some (cfg.func x), cfg.data x⟩
  | _ => False

/-- All that concerns one element. -/
structure View (S Func Data : Type*) where
  created : Prop
  held : Prop
  elem : PoolElem Func Data
  thread : Thread Func
  owner : Option S
  submission : Option RunPc
  runs : List (Func × Data)

def State.view (s : State S Func Data) (e : ℕ) : View S Func Data where
  created := e < s.next
  held := e ∈ s.allocator.held
  elem := s.elem e
  thread := s.thread e
  owner := s.owner e
  submission := (s.owner e).map s.submission
  runs := s.runs (s.owner e)

inductive Stage (cfg : Config S Func Data) (e : ℕ) (v : View S Func Data) : Prop
  | uncreated (created : ¬v.created) (outside : ¬v.held) (thread : v.thread = asleep)
      (owner : v.owner = none)
  | free (created : v.created) (inside : v.held) (thread : v.thread = asleep)
      (noTask : v.elem.poolTask = none)
      (finished : ∀ x, v.owner = some x →
        v.submission = some (.done e) ∧ v.runs = [cfg.task x])
  | claimed (x : S) (pc : RunPc) (created : v.created) (outside : ¬v.held)
      (thread : v.thread = asleep) (owner : v.owner = some x)
      (submission : v.submission = some pc) (elem : pc.elem = some e)
      (filled : Filled cfg x v.elem pc) (runs : v.runs = [])
  | woken (x : S) (created : v.created) (outside : ¬v.held)
      (thread : v.thread.Woken (cfg.func x)) (owner : v.owner = some x)
      (submission : v.submission = some (.done e))
      (elem : v.elem = ⟨some (cfg.func x), cfg.data x⟩) (runs : v.runs = [])
  | ran (x : S) (created : v.created) (outside : ¬v.held)
      (thread : v.thread.Returning v.elem) (owner : v.owner = some x)
      (submission : v.submission = some (.done e)) (runs : v.runs = [cfg.task x])

namespace Stage

variable {cfg : Config S Func Data} {e : ℕ} {v : View S Func Data}

theorem uncreated_of_not_created (hstage : Stage cfg e v) (hcreated : ¬v.created) :
    ¬v.held ∧ v.owner = none := by
  cases hstage with
  | uncreated _ outside _ owner => exact ⟨outside, owner⟩
  | free created => exact absurd created hcreated
  | claimed _ _ created => exact absurd created hcreated
  | woken _ created => exact absurd created hcreated
  | ran _ created => exact absurd created hcreated

/-- The owner of an element got this element. -/
theorem submission_elem (hstage : Stage cfg e v) {x : S} (howner : v.owner = some x) :
    ∃ pc, v.submission = some pc ∧ pc.elem = some e := by
  cases hstage with
  | uncreated _ _ _ owner =>
      rw [owner] at howner
      cases howner
  | free _ _ _ _ finished => exact ⟨.done e, (finished x howner).1, rfl⟩
  | claimed _ pc _ _ _ _ submission elem => exact ⟨pc, submission, elem⟩
  | woken _ _ _ _ _ submission => exact ⟨.done e, submission, rfl⟩
  | ran _ _ _ _ _ submission => exact ⟨.done e, submission, rfl⟩

/-- An element is inside exactly between `mag_free_elem` and `mag_alloc_elem`,
and its thread sleeps or is about to. -/
theorem of_held (hstage : Stage cfg e v) (hheld : v.held) :
    v.created ∧ v.thread = asleep ∧ v.elem.poolTask = none ∧
      ∀ x, v.owner = some x → v.submission = some (.done e) ∧ v.runs = [cfg.task x] := by
  cases hstage with
  | uncreated _ outside => exact absurd hheld outside
  | free created _ thread noTask finished => exact ⟨created, thread, noTask, finished⟩
  | claimed _ _ _ outside => exact absurd hheld outside
  | woken _ _ outside => exact absurd hheld outside
  | ran _ _ outside => exact absurd hheld outside

/-- A submission that is not over has claimed its element. -/
theorem of_submission (hstage : Stage cfg e v) {x : S} {pc : RunPc}
    (howner : v.owner = some x) (hsubmission : v.submission = some pc)
    (hpc : pc ≠ .done e) :
    v.created ∧ ¬v.held ∧ v.thread = asleep ∧ Filled cfg x v.elem pc ∧ v.runs = [] := by
  cases hstage with
  | uncreated _ _ _ owner =>
      rw [owner] at howner
      cases howner
  | free _ _ _ _ finished =>
      rw [(finished x howner).1, Option.some.injEq] at hsubmission
      exact absurd hsubmission.symm hpc
  | claimed x' pc' created outside thread owner submission _ filled runs =>
      obtain rfl : x' = x := Option.some.inj (owner.symm.trans howner)
      obtain rfl : pc' = pc := Option.some.inj (submission.symm.trans hsubmission)
      exact ⟨created, outside, thread, filled, runs⟩
  | woken _ _ _ _ _ submission =>
      rw [submission, Option.some.injEq] at hsubmission
      exact absurd hsubmission.symm hpc
  | ran _ _ _ _ _ submission =>
      rw [submission, Option.some.injEq] at hsubmission
      exact absurd hsubmission.symm hpc

/-- A submission that is over has its task waiting or called. -/
theorem of_done (hstage : Stage cfg e v) {x : S} (howner : v.owner = some x)
    (hsubmission : v.submission = some (.done e)) :
    v.thread.Woken (cfg.func x) ∧ v.elem = ⟨some (cfg.func x), cfg.data x⟩ ∧ v.runs = [] ∨
      (v.thread.Returning v.elem ∨ v.thread = asleep) ∧ v.runs = [cfg.task x] := by
  cases hstage with
  | uncreated _ _ _ owner =>
      rw [owner] at howner
      cases howner
  | free _ _ thread _ finished => exact .inr ⟨.inr thread, (finished x howner).2⟩
  | claimed x' pc _ _ _ _ submission _ filled =>
      obtain rfl : pc = .done e := Option.some.inj (submission.symm.trans hsubmission)
      exact filled.elim
  | woken x' _ _ thread owner _ elem runs =>
      obtain rfl : x' = x := Option.some.inj (owner.symm.trans howner)
      exact .inl ⟨thread, elem, runs⟩
  | ran x' _ _ thread owner _ runs =>
      obtain rfl : x' = x := Option.some.inj (owner.symm.trans howner)
      exact .inr ⟨.inl thread, runs⟩

end Stage

/-! ## The view after a step -/

namespace State

variable (s : State S Func Data) {e e' : ℕ}

theorem view_setThread_self (thread : Thread Func) :
    (s.setThread e thread).view e = { s.view e with thread := thread } := by
  simp only [view, setThread, Function.update_self]

theorem view_setThread_of_ne (thread : Thread Func) (hne : e' ≠ e) :
    (s.setThread e thread).view e' = s.view e' := by
  simp only [view, setThread, Function.update_of_ne hne]

theorem view_setElem_self (elem : PoolElem Func Data) :
    (s.setElem e elem).view e = { s.view e with elem := elem } := by
  simp only [view, setElem, Function.update_self]

theorem view_setElem_of_ne (elem : PoolElem Func Data) (hne : e' ≠ e) :
    (s.setElem e elem).view e' = s.view e' := by
  simp only [view, setElem, Function.update_of_ne hne]

variable [DecidableEq S]

theorem view_setSubmission_self {x : S} (pc : RunPc) (howner : s.owner e = some x) :
    (s.setSubmission x pc).view e = { s.view e with submission := some pc } := by
  simp only [view, setSubmission, howner, Option.map_some, Function.update_self]

theorem view_setSubmission_of_ne {x : S} (pc : RunPc) (howner : s.owner e ≠ some x) :
    (s.setSubmission x pc).view e = s.view e := by
  have hsubmission : (s.owner e).map (Function.update s.submission x pc) =
      (s.owner e).map s.submission := by
    apply Option.map_congr
    intro y hy
    rw [Function.update_of_ne]
    rintro rfl
    exact howner hy
  simp only [view, setSubmission, hsubmission]

end State

/-! ## The invariant -/

/-- Where the run of a submission is accounted for. -/
def Accounted (cfg : Config S Func Data) (s : State S Func Data) (x : S) : RunPc → Prop
  | .start => s.runs (some x) = []
  | .failed => s.runs (some x) = []
  | .done e => s.owner e = some x ∨ s.runs (some x) = [cfg.task x]
  | .check e => s.owner e = some x
  | .storeTask e => s.owner e = some x
  | .storeData e => s.owner e = some x
  | .wake e => s.owner e = some x

structure Inv (cfg : Config S Func Data) (s : State S Func Data) : Prop where
  stage : ∀ e, Stage cfg e (s.view e)
  accounted : ∀ x, Accounted cfg s x (s.submission x)
  allocator : bag.ReachableUnder NotInside s.allocator
  stray : s.runs none = []
  allocatedTwice : s.allocatedTwice = false
  noTask : s.noTask = false

namespace Inv

variable {cfg : Config S Func Data} {s : State S Func Data}

theorem owner_elem (hinv : Inv cfg s) {e : ℕ} {x : S} (howner : s.owner e = some x) :
    (s.submission x).elem = some e := by
  obtain ⟨pc, hpc, helem⟩ := (hinv.stage e).submission_elem howner
  simp only [State.view, howner, Option.map_some, Option.some.injEq] at hpc
  rw [hpc]
  exact helem

/-- No submission owns two elements. -/
theorem owner_inj (hinv : Inv cfg s) {e e' : ℕ} {x : S} (howner : s.owner e = some x)
    (howner' : s.owner e' = some x) : e' = e :=
  Option.some.inj ((hinv.owner_elem howner').symm.trans (hinv.owner_elem howner))

end Inv

end KtcpSplit.Pool
