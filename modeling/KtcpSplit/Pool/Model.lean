import KtcpSplit.Lib.Bag
import Mathlib.Logic.Function.Basic

/-!
# The pool of kernel threads

Every element of the pool has a thread of its own in `pipe_loop_task`, and every
call of `__kthread_pool_run` is a submission.  The machine interleaves the
statements of both that read or write an element, the allocator or the state of
a thread.  The pool's threads are never stopped, so `kthread_should_stop` does
not stand in the loop.
-/

namespace KtcpSplit.Pool

open KtcpSplit.Bag
open KtcpSplit.Transition

structure PoolElem (Func Data : Type*) where
  poolTask : Option Func
  data : Data
  deriving DecidableEq

/-- The states of a task that `pipe_loop_task` sets. -/
inductive TaskState
  | running
  | uninterruptible
  deriving DecidableEq

/-- The next statement of `pipe_loop_task`. -/
inductive LoopPc (Func : Type*)
  /-- `if (elem->pool_task)`. -/
  | test
  /-- The call reads `pool_task` again, and then the argument. -/
  | load
  | call (func : Func)
  /-- Inside `pool_task`. -/
  | running
  | setState
  | clear
  | reuse
  | schedule
  /-- A null pointer was called. -/
  | oops
  deriving DecidableEq

structure Thread (Func : Type*) where
  pc : LoopPc Func
  taskState : TaskState
  deriving DecidableEq

/-- The next statement of `__kthread_pool_run`, with the element it works on. -/
inductive RunPc
  | start
  /-- The test for a task allocated twice. -/
  | check (elem : ℕ)
  | storeTask (elem : ℕ)
  | storeData (elem : ℕ)
  | wake (elem : ℕ)
  | done (elem : ℕ)
  /-- `ERR_PTR(-ENOMEM)` was returned. -/
  | failed
  deriving DecidableEq

/-- The element that a submission got. -/
def RunPc.elem : RunPc → Option ℕ
  | .start => none
  | .check e => some e
  | .storeTask e => some e
  | .storeData e => some e
  | .wake e => some e
  | .done e => some e
  | .failed => none

/-- The arguments of every submission, and what the slab's memory holds before
an element is created in it. -/
structure Config (S Func Data : Type*) where
  func : S → Func
  data : S → Data
  memory : ℕ → PoolElem Func Data

/-- Elements are known by their address.  The fields after `submission` record
the history of a run. -/
structure State (S Func Data : Type*) where
  elem : ℕ → PoolElem Func Data
  next : ℕ
  allocator : Ledger ℕ
  thread : ℕ → Thread Func
  submission : S → RunPc
  /-- The submission that got the element last. -/
  owner : ℕ → Option S
  /-- The calls of `pool_task`, under the owner of the element. -/
  runs : Option S → List (Func × Data)
  allocatedTwice : Bool
  /-- A thread found no task in its element. -/
  noTask : Bool

inductive Label (S : Type*)
  | refill
  | alloc (x : S) (elem : Option ℕ)
  | submit (x : S)
  | loop (elem : ℕ)
  deriving DecidableEq

variable {S Func Data : Type*}

namespace State

variable (s : State S Func Data)

def setThread (e : ℕ) (thread : Thread Func) : State S Func Data :=
  { s with thread := Function.update s.thread e thread }

def setPc (e : ℕ) (pc : LoopPc Func) : State S Func Data :=
  s.setThread e { s.thread e with pc := pc }

def setElem (e : ℕ) (elem : PoolElem Func Data) : State S Func Data :=
  { s with elem := Function.update s.elem e elem }

def setSubmission [DecidableEq S] (x : S) (pc : RunPc) : State S Func Data :=
  { s with submission := Function.update s.submission x pc }

/-- `wake_up_process(elem->task)`. -/
def wakeUpProcess (e : ℕ) : State S Func Data :=
  s.setThread e { s.thread e with taskState := .running }

/-- One round of `refill_pool`: nobody else sees the element before
`mag_free_elem`, and the new thread sleeps until it is woken. -/
def refillPool : Option (State S Func Data) :=
  let e := s.next
  (bag.next s.allocator (.put e)).map fun allocator =>
    { (s.setElem e { s.elem e with poolTask := none }).setThread e
        ⟨.schedule, .uninterruptible⟩ with
      next := e + 1
      allocator := allocator }

/-- `kthread_pool_alloc`. -/
def kthreadPoolAlloc [DecidableEq S] (x : S) : Option ℕ → Option (State S Func Data)
  | none =>
      (bag.next s.allocator .fail).map fun allocator =>
        { s.setSubmission x .failed with allocator := allocator }
  | some e =>
      (bag.next s.allocator (.take e)).map fun allocator =>
        { s.setSubmission x (.check e) with
          allocator := allocator
          owner := Function.update s.owner e (some x) }

/-- `__kthread_pool_run` after `kthread_pool_alloc`. -/
def kthreadPoolRun [DecidableEq S] (cfg : Config S Func Data) (x : S) :
    RunPc → Option (State S Func Data)
  | .check e =>
      some { s.setSubmission x (.storeTask e) with
        allocatedTwice := s.allocatedTwice || (s.elem e).poolTask.isSome }
  | .storeTask e =>
      some ((s.setElem e { s.elem e with poolTask := some (cfg.func x) }).setSubmission x
        (.storeData e))
  | .storeData e =>
      some ((s.setElem e { s.elem e with data := cfg.data x }).setSubmission x (.wake e))
  | .wake e => some ((s.wakeUpProcess e).setSubmission x (.done e))
  | _ => none

/-- `elem->pool_task(elem->data)`. -/
def callTask [DecidableEq S] (e : ℕ) (func : Func) : State S Func Data :=
  let x := s.owner e
  { s with runs := Function.update s.runs x (s.runs x ++ [(func, (s.elem e).data)]) }

def pipeLoopTask [DecidableEq S] (e : ℕ) : LoopPc Func → Option (State S Func Data)
  | .test =>
      match (s.elem e).poolTask with
      | some _ => some (s.setPc e .load)
      | none => some { s.setPc e .setState with noTask := true }
  | .load =>
      match (s.elem e).poolTask with
      | some func => some (s.setPc e (.call func))
      | none => some (s.setPc e .oops)
  | .call func => some ((s.callTask e func).setPc e .running)
  | .running => some (s.setPc e .setState)
  | .setState => some (s.setThread e ⟨.clear, .uninterruptible⟩)
  | .clear => some ((s.setElem e { s.elem e with poolTask := none }).setPc e .reuse)
  | .reuse =>
      (bag.next s.allocator (.put e)).map fun allocator =>
        { s.setPc e .schedule with allocator := allocator }
  | .schedule =>
      if (s.thread e).taskState = .running then some (s.setPc e .test) else none
  | .oops => none

end State

/-- Any number of submissions and of threads over one pool. -/
def pool [DecidableEq S] (cfg : Config S Func Data) :
    Machine (State S Func Data) (Label S) where
  init := {
    elem := cfg.memory
    next := 0
    allocator := bag.init
    thread := fun _ => ⟨.schedule, .uninterruptible⟩
    submission := fun _ => .start
    owner := fun _ => none
    runs := fun _ => []
    allocatedTwice := false
    noTask := false }
  next := fun s label =>
    match label with
    | .refill => s.refillPool
    | .alloc x elem => if s.submission x = .start then s.kthreadPoolAlloc x elem else none
    | .submit x => s.kthreadPoolRun cfg x (s.submission x)
    | .loop e => s.pipeLoopTask e (s.thread e).pc

end KtcpSplit.Pool
