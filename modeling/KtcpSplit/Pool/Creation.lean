import KtcpSplit.Pool.Tasks

/-!
# Threads that could not be created

`refill_pool` compares what `kthread_create` returned with the null pointer, and
`kthread_create` returns an error pointer when it fails.  The element then goes to the
allocator with this pointer as its thread.
-/

namespace KtcpSplit.Creation

open KtcpSplit.Bag
open KtcpSplit.Pool
open KtcpSplit.Transition

/-- A `struct task_struct *`.  A thread is known by the element that it was created
with. -/
inductive TaskPtr
  | null
  | thread (elem : ℕ)
  | errPtr (errno : ℕ)
  deriving DecidableEq

/-- The pool, with the pointer `task` of every element and the threads that were
created. -/
structure State (S Func Data : Type*) extends Pool.State S Func Data where
  task : ℕ → TaskPtr
  created : ℕ → Bool

inductive Label (S : Type*)
  /-- A round of `refill_pool`: whether `kmem_cache_alloc` returned an element, and the
  error of `kthread_create`, if any. -/
  | refill (elem : Bool) (errno : Option ℕ)
  | alloc (x : S) (elem : Option ℕ)
  | submit (x : S)
  | loop (elem : ℕ)
  deriving DecidableEq

/-- `kthread_create(threadfn, elem, ...)`. -/
def kthreadCreate (elem : ℕ) : Option ℕ → TaskPtr
  | none => .thread elem
  | some errno => .errPtr errno

variable {S Func Data : Type*}

namespace State

variable (s : State S Func Data)

def lift (pool : Pool.State S Func Data) : State S Func Data :=
  { s with toState := pool }

def refillRound : Bool → Option ℕ → Option (State S Func Data)
  | false, _ => some s
  | true, errno =>
      let k := kthreadCreate s.next errno
      -- a failed creation does not take this branch
      if k = .null then some s
      else
        s.refillPool.map fun pool =>
          { s.lift pool with
            task := Function.update s.task s.next k
            created := Function.update s.created s.next errno.isNone }

/-- `__kthread_pool_run` after `kthread_pool_alloc`.  It dereferences `elem->task` before
it wakes the thread, and an error pointer makes the kernel oops. -/
def kthreadPoolRun [DecidableEq S] (cfg : Config S Func Data) (x : S) :
    RunPc → Option (State S Func Data)
  | .wake e =>
      match s.task e with
      | .thread elem => some (s.lift ((s.wakeUpProcess elem).setSubmission x (.done e)))
      | _ => none
  | pc => (s.toState.kthreadPoolRun cfg x pc).map s.lift

end State

/-- The pool, where allocations and creations may fail; `task` is what the slab's memory
holds before. -/
def creation [DecidableEq S] (cfg : Config S Func Data) (task : ℕ → TaskPtr) :
    Machine (State S Func Data) (Label S) where
  init := ⟨(pool cfg).init, task, fun _ => false⟩
  next := fun s label =>
    match label with
    | .refill elem errno => s.refillRound elem errno
    | .alloc x elem => ((pool cfg).next s.toState (.alloc x elem)).map s.lift
    | .submit x => s.kthreadPoolRun cfg x (s.submission x)
    | .loop e => ((pool cfg).next s.toState (.loop e)).map s.lift

/-- `kthread_create` fails. -/
def Fails : Label S → Prop
  | .refill true (some _) => True
  | _ => False

instance decidableFails (label : Label S) : Decidable (Fails label) :=
  match label with
  | .refill true (some _) => inferInstanceAs (Decidable True)
  | .refill true none => inferInstanceAs (Decidable False)
  | .refill false _ => inferInstanceAs (Decidable False)
  | .alloc _ _ => inferInstanceAs (Decidable False)
  | .submit _ => inferInstanceAs (Decidable False)
  | .loop _ => inferInstanceAs (Decidable False)

/-- The element has a thread that was created with it, and no task. -/
structure Real (s : State S Func Data) (e : ℕ) : Prop where
  task : s.task e = .thread e
  created : s.created e = true
  poolTask : (s.elem e).poolTask = none

/-- The elements inside the allocator and those that `kthread_pool_alloc` has just
returned. -/
def Offered (s : State S Func Data) (e : ℕ) : Prop :=
  e ∈ s.allocator.held ∨ ∃ x, s.submission x = .check e

/-! ## Runs without a failed creation -/

/-- Every element that was allocated has its thread. -/
structure Bound [DecidableEq S] (cfg : Config S Func Data) (s : State S Func Data) : Prop where
  reachable : (pool cfg).Reachable s.toState
  task : ∀ e < s.next, s.task e = .thread e ∧ s.created e = true

variable [DecidableEq S] {cfg : Config S Func Data} {task : ℕ → TaskPtr}
  {s s' : State S Func Data}

/-- The steps that do not allocate an element leave the threads alone. -/
theorem Bound.lift (hbound : Bound cfg s) {label : Pool.Label S} {pool' : Pool.State S Func Data}
    (hnext : (pool cfg).next s.toState label = some pool') (hsame : pool'.next = s.next) :
    Bound cfg (s.lift pool') where
  reachable := hbound.reachable.next trivial hnext
  task := by
    intro e he
    exact hbound.task e (hsame ▸ he)

theorem Bound.refill (hbound : Bound cfg s) {elem : Bool} {errno : Option ℕ}
    (hcreates : ¬Fails (.refill elem errno : Label S))
    (hnext : s.refillRound elem errno = some s') : Bound cfg s' := by
  cases elem with
  | false =>
      cases hnext
      exact hbound
  | true =>
      cases errno with
      | some errno => exact absurd trivial hcreates
      | none =>
          simp only [State.refillRound, kthreadCreate, reduceCtorEq, if_false] at hnext
          obtain ⟨pool', hrefill, rfl⟩ := Option.map_eq_some_iff.mp hnext
          have hround : (pool cfg).next s.toState .refill = some pool' := hrefill
          refine ⟨hbound.reachable.next trivial hround, fun e he => ?_⟩
          cases hrefill
          by_cases hnew : e = s.next
          · subst hnew
            exact ⟨Function.update_self .., Function.update_self ..⟩
          · have hold : e < s.next := by
              have hle : e < s.next + 1 := he
              omega
            dsimp only
            rw [Function.update_of_ne hnew, Function.update_of_ne hnew]
            exact hbound.task e hold

theorem next_kthreadPoolAlloc {pool pool' : Pool.State S Func Data} {x : S} {elem : Option ℕ}
    (halloc : pool.kthreadPoolAlloc x elem = some pool') : pool'.next = pool.next := by
  cases elem with
  | none => cases halloc; rfl
  | some e =>
      obtain ⟨allocator, -, rfl⟩ := Option.map_eq_some_iff.mp halloc
      rfl

theorem next_kthreadPoolRun {pool pool' : Pool.State S Func Data} {x : S} {pc : RunPc}
    (hrun : pool.kthreadPoolRun cfg x pc = some pool') : pool'.next = pool.next := by
  cases pc with
  | start => cases hrun
  | check e => cases hrun; rfl
  | storeTask e => cases hrun; rfl
  | storeData e => cases hrun; rfl
  | wake e => cases hrun; rfl
  | done e => cases hrun
  | failed => cases hrun

theorem next_pipeLoopTask {pool pool' : Pool.State S Func Data} {e : ℕ} {pc : LoopPc Func}
    (hloop : pool.pipeLoopTask e pc = some pool') : pool'.next = pool.next := by
  cases pc with
  | test =>
      simp only [Pool.State.pipeLoopTask] at hloop
      split at hloop <;> cases hloop <;> rfl
  | load =>
      simp only [Pool.State.pipeLoopTask] at hloop
      split at hloop <;> cases hloop <;> rfl
  | call func => cases hloop; rfl
  | running => cases hloop; rfl
  | setState => cases hloop; rfl
  | clear => cases hloop; rfl
  | reuse => cases hloop; rfl
  | schedule =>
      obtain ⟨-, heq⟩ := Option.ite_none_right_eq_some.mp hloop
      cases heq
      rfl
  | oops => cases hloop

theorem Bound.submit (hbound : Bound cfg s) {x : S}
    (hnext : s.kthreadPoolRun cfg x (s.submission x) = some s') : Bound cfg s' := by
  have hinv := inv_of_reachable hbound.reachable
  have hlift : ∀ pc, s.submission x = pc →
      (s.toState.kthreadPoolRun cfg x pc).map s.lift = some s' → Bound cfg s' := by
    intro pc hpc hmap
    obtain ⟨pool', hrun, rfl⟩ := Option.map_eq_some_iff.mp hmap
    have hsubmit : (pool cfg).next s.toState (.submit x) = some pool' := by
      rw [← hrun, ← hpc]
      rfl
    exact hbound.lift hsubmit (next_kthreadPoolRun hrun)
  cases hpc : s.submission x with
  | wake e =>
      -- the element is claimed, and so its thread is the one to wake
      have haccounted := hinv.accounted x
      rw [hpc] at haccounted hnext
      obtain ⟨hcreated, -⟩ := hinv.claimed haccounted hpc nofun
      rw [State.kthreadPoolRun, (hbound.task e hcreated).1] at hnext
      exact hlift _ hpc hnext
  | _ =>
      rw [hpc] at hnext
      exact hlift _ hpc hnext

theorem Bound.next (hbound : Bound cfg s) {label : Label S} (hcreates : ¬Fails label)
    (hnext : (creation cfg task).next s label = some s') : Bound cfg s' := by
  cases label with
  | refill elem errno => exact hbound.refill hcreates hnext
  | alloc x elem =>
      obtain ⟨pool', halloc, rfl⟩ := Option.map_eq_some_iff.mp hnext
      refine hbound.lift halloc ?_
      obtain ⟨-, halloc⟩ := Option.ite_none_right_eq_some.mp halloc
      exact next_kthreadPoolAlloc halloc
  | submit x => exact hbound.submit hnext
  | loop e =>
      obtain ⟨pool', hloop, rfl⟩ := Option.map_eq_some_iff.mp hnext
      exact hbound.lift hloop (next_pipeLoopTask hloop)

theorem Bound.real (hbound : Bound cfg s) {e : ℕ} (hoffered : Offered s e) : Real s e := by
  have hinv := inv_of_reachable hbound.reachable
  obtain ⟨hcreated, hpoolTask⟩ : e < s.next ∧ (s.elem e).poolTask = none := by
    rcases hoffered with hheld | ⟨x, hpc⟩
    · obtain ⟨hcreated, -, hpoolTask, -⟩ := (hinv.stage e).of_held hheld
      exact ⟨hcreated, hpoolTask⟩
    · have haccounted := hinv.accounted x
      rw [hpc] at haccounted
      obtain ⟨hcreated, -, -, hfilled, -⟩ := hinv.claimed haccounted hpc nofun
      exact ⟨hcreated, hfilled⟩
  obtain ⟨htask, hthread⟩ := hbound.task e hcreated
  exact ⟨htask, hthread, hpoolTask⟩

omit [DecidableEq S] in
/-- An element whose thread was not created goes to the allocator. -/
theorem offered_of_fails {errno : ℕ} (hnext : s.refillRound true (some errno) = some s') :
    Offered s' s.next ∧ ¬Real s' s.next := by
  simp only [State.refillRound, kthreadCreate, reduceCtorEq, if_false] at hnext
  obtain ⟨pool', hrefill, rfl⟩ := Option.map_eq_some_iff.mp hnext
  cases hrefill
  refine ⟨.inl (Multiset.mem_cons_self _ _), fun hreal => ?_⟩
  have htask : TaskPtr.errPtr errno = .thread s.next :=
    (Function.update_self ..).symm.trans hreal.task
  cases htask

/-- As long as every `kthread_create` succeeds the allocator holds and hands out elements
with threads of their own.  The first one that fails leaves an element without a thread
inside. -/
theorem offered_threads_real (cfg : Config S Func Data) (task : ℕ → TaskPtr)
    (s : State S Func Data)
    (hreach : (creation cfg task).ReachableUnder (fun _ label => ¬Fails label) s) :
    (∀ e, Offered s e → Real s e) ∧
      ∀ label s', (creation cfg task).next s label = some s' →
        ((∀ e, Offered s' e → Real s' e) ↔ ¬Fails label) := by
  have hbound : Bound cfg s := by
    refine hreach.invariant (P := Bound cfg) ⟨.init, fun e he => absurd he (Nat.not_lt_zero e)⟩ ?_
    rintro before label after - hbound hcreates hnext
    exact hbound.next hcreates hnext
  refine ⟨fun e => hbound.real, fun label s' hnext => ⟨fun hreal hfails => ?_,
    fun hcreates e => (hbound.next hcreates hnext).real⟩⟩
  cases label with
  | refill elem errno =>
      cases elem with
      | false => exact hfails
      | true =>
          cases errno with
          | none => exact hfails
          | some errno =>
              obtain ⟨hoffered, hnot⟩ := offered_of_fails hnext
              exact hnot (hreal _ hoffered)
  | alloc x elem => exact hfails
  | submit x => exact hfails
  | loop e => exact hfails

/-- An allocation fails, and the element that is created afterwards is used and reused. -/
theorem offered_threads_real_reused :
    ∃ s : State Bool ℕ Bool,
      (s.allocator.held, s.submission true) = (0, .check 0) ∧ Real s 0 := by
  let cfg : Config Bool ℕ Bool := ⟨fun _ => 1, id, fun _ => ⟨some 0, true⟩⟩
  obtain ⟨s, hreach, hs⟩ := Machine.exists_reachable_of_run (creation cfg fun _ => .null)
    (fun _ label => ¬Fails label)
    (List.flatten [[.refill false none, .refill true none, .alloc false (some 0)],
      List.replicate 4 (.submit false), List.replicate 8 (.loop 0), [.alloc true (some 0)]])
    (fun s => (s.allocator.held, s.submission true)) (0, .check 0) (by decide +kernel)
  refine ⟨s, hs, (offered_threads_real cfg (fun _ => .null) s hreach).1 0 (.inr ⟨true, ?_⟩)⟩
  exact congrArg Prod.snd hs

/-- The creation fails for lack of memory, and a submission gets the element. -/
theorem error_pointer_handed_out :
    ¬∀ (cfg : Config Unit ℕ ℕ) (task : ℕ → TaskPtr) (s : State Unit ℕ ℕ),
      (creation cfg task).Reachable s → ∀ e, Offered s e → Real s e := by
  intro hreal
  obtain ⟨s, hreach, hs⟩ := Machine.exists_reachable_of_run
    (creation (⟨fun _ => 1, fun _ => 0, fun _ => ⟨none, 0⟩⟩ : Config Unit ℕ ℕ) fun _ => .null)
    (fun _ _ => True) [.refill true (some 12), .alloc () (some 0)]
    (fun s => (s.submission (), s.task 0)) (.check 0, .errPtr 12) (by decide +kernel)
  have hpc : s.submission () = .check 0 := congrArg Prod.fst hs
  have htask : s.task 0 = .errPtr 12 := congrArg Prod.snd hs
  have hthread := (hreal _ _ s hreach 0 (.inr ⟨(), hpc⟩)).task
  rw [htask] at hthread
  cases hthread

end KtcpSplit.Creation
