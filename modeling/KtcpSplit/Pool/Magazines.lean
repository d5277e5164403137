import KtcpSplit.Magazine.Depot
import KtcpSplit.Magazine.Stranded
import KtcpSplit.Pool.Refill
import KtcpSplit.Pool.Tasks

/-!
# The pool over its magazines

The threads of the pool, the calls of `__kthread_pool_run` and the refill thread
share one `mag_allocator`.  A call of the allocator runs on some CPU and in some
context; nothing else of it is left to the environment but the memory that
`kzalloc` returns.  Every thread that the refill asks for is created.
-/

namespace KtcpSplit.PoolMagazines

open KtcpSplit.Bag
open KtcpSplit.MagAlloc
open KtcpSplit.Pool
open KtcpSplit.Refill
open KtcpSplit.Transition

/-- The ledger of `pool` is not used: the elements are in the magazines.  `woken`
holds the calls that are past `refill_task_start`. -/
structure State (Cpu S Func Data : Type*) where
  pool : Pool.State S Func Data
  magazines : MagAllocator Cpu ℕ
  refilPc : RefilPc
  refilState : Refill.TaskState
  woken : S → Bool

/-- The labels carry the CPU, the context and what `kzalloc` returns. -/
inductive Label (Cpu S : Type*)
  /-- A statement of `refil_thread`; `elem` is whether `kmem_cache_alloc` succeeds. -/
  | refil (cpu : Cpu) (kzalloc : Addr) (elem : Bool)
  /-- `refill_task_start`. -/
  | wake (x : S)
  /-- `mag_alloc_elem` in `kthread_pool_alloc`. -/
  | alloc (x : S) (i : Cpu × Context)
  /-- A statement of `__kthread_pool_run` after `kthread_pool_alloc`. -/
  | submit (x : S)
  /-- A statement of `pipe_loop_task`. -/
  | loop (elem : ℕ) (cpu : Cpu) (kzalloc : Addr)

variable {Cpu S Func Data : Type*}

namespace State

variable [DecidableEq Cpu]

/-- One round of `refill_pool`. -/
def refillRound (s : State Cpu S Func Data) (cpu : Cpu) (kzalloc : Addr) (count : ℕ) :
    Option (State Cpu S Func Data) :=
  let e := s.pool.next
  (s.magazines.magFreeElem (cpu, .task) (some e) kzalloc).map fun magazines =>
    { s with
      pool := { (s.pool.setElem e { s.pool.elem e with poolTask := none }).setThread e
        ⟨.schedule, .uninterruptible⟩ with next := e + 1 }
      magazines := magazines
      refilPc := .add count }

def refilThread (poolSize : ℤ) (s : State Cpu S Func Data) (cpu : Cpu) (kzalloc : Addr)
    (elem : Bool) : RefilPc → Option (State Cpu S Func Data)
  | .compute => some { s with refilPc := .add (missing poolSize s.magazines.fullCount) }
  | .add 0 => some { s with refilPc := .setState }
  | .add (count + 1) =>
      if elem then s.refillRound cpu kzalloc count else some { s with refilPc := .setState }
  | .setState => some { s with refilPc := .schedule, refilState := .interruptible }
  | .schedule => if s.refilState = .running then some { s with refilPc := .compute } else none

/-- What `kthread_pool_alloc` got from `mag_alloc_elem`. -/
def allocated [DecidableEq S] (s : State Cpu S Func Data) (x : S) (elem : Option ℕ)
    (magazines : MagAllocator Cpu ℕ) : State Cpu S Func Data :=
  match elem with
  | none => { s with pool := s.pool.setSubmission x .failed, magazines := magazines }
  | some e =>
      { s with
        pool := { s.pool.setSubmission x (.check e) with
          owner := Function.update s.pool.owner e (some x) }
        magazines := magazines }

/-- `pipe_loop_task`, with `kthread_pool_reuse` on the magazines. -/
def pipeLoopTask [DecidableEq S] (s : State Cpu S Func Data) (e : ℕ) (cpu : Cpu)
    (kzalloc : Addr) : LoopPc Func → Option (State Cpu S Func Data)
  | .reuse =>
      (s.magazines.magFreeElem (cpu, .task) (some e) kzalloc).map fun magazines =>
        { s with pool := s.pool.setPc e .schedule, magazines := magazines }
  | pc => (s.pool.pipeLoopTask e pc).map fun pool => { s with pool := pool }

theorem pipeLoopTask_of_ne [DecidableEq S] {s : State Cpu S Func Data} {e : ℕ} {cpu : Cpu}
    {kzalloc : Addr} {pc : LoopPc Func} (hpc : pc ≠ .reuse) :
    s.pipeLoopTask e cpu kzalloc pc =
      (s.pool.pipeLoopTask e pc).map fun pool => { s with pool := pool } := by
  cases pc <;> first | rfl | exact absurd rfl hpc

end State

section Machine

variable [DecidableEq Cpu] [DecidableEq S]

/-- The pool with all of its threads. -/
def poolMagazines (mags : InitMags Cpu) (poolSize : ℤ) (cfg : Config S Func Data) :
    Machine (State Cpu S Func Data) (Label Cpu S) where
  init := {
    pool := (pool cfg).init
    magazines := magAllocatorInit mags
    refilPc := .compute
    refilState := .running
    woken := fun _ => false }
  next := fun s label =>
    match label with
    | .refil cpu kzalloc elem => s.refilThread poolSize cpu kzalloc elem s.refilPc
    | .wake x =>
        if s.pool.submission x = .start then
          some { s with refilState := .running, woken := Function.update s.woken x true }
        else none
    | .alloc x i =>
        if s.pool.submission x = .start ∧ s.woken x then
          (s.magazines.magAllocElem i).map fun (elem, magazines) => s.allocated x elem magazines
        else none
    | .submit x =>
        (s.pool.kthreadPoolRun cfg x (s.pool.submission x)).map fun pool =>
          { s with pool := pool }
    | .loop e cpu kzalloc => s.pipeLoopTask e cpu kzalloc (s.pool.thread e).pc

end Machine

/-- The next statement of the label's thread is a call of the allocator. -/
def Calls (s : State Cpu S Func Data) : Label Cpu S → Prop
  | .refil _ _ elem => elem ∧ ∃ count, s.refilPc = .add (count + 1)
  | .wake _ => False
  | .alloc x _ => s.pool.submission x = .start ∧ s.woken x
  | .submit _ => False
  | .loop e _ _ => (s.pool.thread e).pc = .reuse

variable [Fintype Cpu]

/-- `kzalloc` succeeds: it returns memory that is not a magazine. -/
def Allocates (s : State Cpu S Func Data) : Label Cpu S → Prop
  | .refil _ kzalloc _ =>
      s.magazines.emptyCount = 0 → kzalloc ≠ nullMag ∧ kzalloc ∉ s.magazines.places
  | .loop _ _ kzalloc =>
      s.magazines.emptyCount = 0 → kzalloc ≠ nullMag ∧ kzalloc ∉ s.magazines.places
  | _ => True

instance decidableAllocates (s : State Cpu S Func Data) (label : Label Cpu S) :
    Decidable (Allocates s label) :=
  match label with
  | .refil _ _ _ => inferInstanceAs (Decidable (_ → _))
  | .wake _ => inferInstanceAs (Decidable True)
  | .alloc _ _ => inferInstanceAs (Decidable True)
  | .submit _ => inferInstanceAs (Decidable True)
  | .loop _ _ _ => inferInstanceAs (Decidable (_ → _))

/-! ## The magazines are the ledger of the pool -/

/-- The pool with its ledger in place of the magazines. -/
def ledgerPool (pool : Pool.State S Func Data) (ledger : Ledger ℕ) : Pool.State S Func Data :=
  { pool with allocator := ledger }

/-- A pool whose elements are in a bag goes through the same states, and the bag
holds what the magazines hold. -/
structure Refines [DecidableEq S] (cfg : Config S Func Data) (s : State Cpu S Func Data)
    (ledger : Ledger ℕ) : Prop where
  reachable : (pool cfg).Reachable (ledgerPool s.pool ledger)
  settled : s.magazines.Settled
  contents : s.magazines.contents = ledger.held.map some

section Ledger

variable [DecidableEq S] (cfg : Config S Func Data) (pool : Pool.State S Func Data)
  (ledger : Ledger ℕ)

theorem kthreadPoolRun_ledgerPool (x : S) (pc : RunPc) :
    (ledgerPool pool ledger).kthreadPoolRun cfg x pc =
      (pool.kthreadPoolRun cfg x pc).map (ledgerPool · ledger) := by
  cases pc <;> rfl

/-- The ledger is not used by the statements of a thread other than
`kthread_pool_reuse`. -/
theorem pipeLoopTask_ledgerPool (e : ℕ) {pc : LoopPc Func} (hpc : pc ≠ .reuse) :
    (ledgerPool pool ledger).pipeLoopTask e pc =
      (pool.pipeLoopTask e pc).map (ledgerPool · ledger) := by
  cases pc with
  | test =>
      simp only [Pool.State.pipeLoopTask, ledgerPool]
      cases (pool.elem e).poolTask <;> rfl
  | load =>
      simp only [Pool.State.pipeLoopTask, ledgerPool]
      cases (pool.elem e).poolTask <;> rfl
  | schedule =>
      by_cases hrunning : (pool.thread e).taskState = .running
      · simp only [Pool.State.pipeLoopTask, ledgerPool, hrunning, if_true]
        rfl
      · simp only [Pool.State.pipeLoopTask, ledgerPool, hrunning, if_false]
        rfl
  | reuse => exact absurd rfl hpc
  | call func => rfl
  | running => rfl
  | setState => rfl
  | clear => rfl
  | oops => rfl

end Ledger

namespace Refines

variable [DecidableEq S] {mags : InitMags Cpu} {poolSize : ℤ} {cfg : Config S Func Data}
  {s s' : State Cpu S Func Data} {ledger : Ledger ℕ}

/-- What does not call the allocator keeps the ledger. -/
theorem keep (hrefines : Refines cfg s ledger) {refilPc : RefilPc}
    {refilState : Refill.TaskState} {woken : S → Bool} :
    Refines cfg ⟨s.pool, s.magazines, refilPc, refilState, woken⟩ ledger :=
  ⟨hrefines.reachable, hrefines.settled, hrefines.contents⟩

theorem submit (hrefines : Refines cfg s ledger) {x : S} {pool : Pool.State S Func Data}
    (hnext : s.pool.kthreadPoolRun cfg x (s.pool.submission x) = some pool) :
    Refines cfg { s with pool := pool } ledger := by
  refine ⟨hrefines.reachable.take (.submit x) trivial ?_, hrefines.settled,
    hrefines.contents⟩
  calc
    (ledgerPool s.pool ledger).kthreadPoolRun cfg x (s.pool.submission x) =
        (s.pool.kthreadPoolRun cfg x (s.pool.submission x)).map (ledgerPool · ledger) :=
      kthreadPoolRun_ledgerPool ..
    _ = some (ledgerPool pool ledger) := by rw [hnext, Option.map_some]

theorem run (hrefines : Refines cfg s ledger) {e : ℕ} {pool : Pool.State S Func Data}
    (hpc : (s.pool.thread e).pc ≠ .reuse)
    (hnext : s.pool.pipeLoopTask e (s.pool.thread e).pc = some pool) :
    Refines cfg { s with pool := pool } ledger := by
  refine ⟨hrefines.reachable.take (.loop e) trivial ?_, hrefines.settled,
    hrefines.contents⟩
  calc
    (ledgerPool s.pool ledger).pipeLoopTask e (s.pool.thread e).pc =
        (s.pool.pipeLoopTask e (s.pool.thread e).pc).map (ledgerPool · ledger) :=
      pipeLoopTask_ledgerPool _ _ e hpc
    _ = some (ledgerPool pool ledger) := by rw [hnext, Option.map_some]

variable [DecidableEq Cpu]

/-- An element that is freed into the magazines is put into the bag. -/
theorem put (hrefines : Refines cfg s ledger) (e : ℕ) (cpu : Cpu) {kzalloc : Addr}
    (hfresh : s.magazines.emptyCount = 0 → kzalloc ∉ s.magazines.places) :
    ∃ magazines, s.magazines.magFreeElem (cpu, .task) (some e) kzalloc = some magazines ∧
      magazines.Settled ∧ magazines.contents = (e ::ₘ ledger.held).map some := by
  obtain ⟨magazines, hfree, hsettled, hcontents⟩ :=
    MagAllocator.magFreeElem_spec hrefines.settled (cpu, .task) (some e) hfresh
  refine ⟨magazines, hfree, hsettled, ?_⟩
  rw [hcontents, hrefines.contents, Multiset.map_cons]

/-- What the allocator returns is taken out of the bag. -/
theorem take (hrefines : Refines cfg s ledger) (i : Cpu × Context) :
    ∃ elem magazines, s.magazines.magAllocElem i = some (elem, magazines) ∧
      magazines.Settled ∧
      (elem = none ∧ magazines.contents = ledger.held.map some ∨
        ∃ e ∈ ledger.held, elem = some e ∧
          magazines.contents = (ledger.held.erase e).map some) := by
  obtain ⟨elem, magazines, halloc, hsettled, htaken⟩ :=
    MagAllocator.magAllocElem_spec hrefines.settled i
  refine ⟨elem, magazines, halloc, hsettled, ?_⟩
  rw [hrefines.contents] at htaken
  rcases htaken with ⟨hnone, hsame⟩ | htaken
  · exact .inl ⟨hnone, hsame⟩
  · have hmem : elem ∈ ledger.held.map some := by
      rw [htaken]
      exact Multiset.mem_cons_self _ _
    obtain ⟨e, he, rfl⟩ := Multiset.mem_map.mp hmem
    rw [← Multiset.cons_erase he, Multiset.map_cons] at htaken
    exact .inr ⟨e, he, rfl, ((Multiset.cons_inj_right _).mp htaken).symm⟩

theorem refillRound (hrefines : Refines cfg s ledger) {cpu : Cpu} {kzalloc : Addr}
    (hfresh : s.magazines.emptyCount = 0 → kzalloc ∉ s.magazines.places) {count : ℕ}
    (hnext : s.refillRound cpu kzalloc count = some s') : ∃ ledger', Refines cfg s' ledger' := by
  obtain ⟨magazines, hfree, hsettled, hcontents⟩ := hrefines.put s.pool.next cpu hfresh
  simp only [State.refillRound, hfree, Option.map_some, Option.some.injEq] at hnext
  subst hnext
  exact ⟨⟨s.pool.next ::ₘ ledger.held, s.pool.next ::ₘ ledger.freed, ledger.returned⟩,
    hrefines.reachable.take .refill trivial rfl, hsettled, hcontents⟩

theorem reuse (hrefines : Refines cfg s ledger) {e : ℕ} {cpu : Cpu} {kzalloc : Addr}
    (hfresh : s.magazines.emptyCount = 0 → kzalloc ∉ s.magazines.places)
    (hpc : (s.pool.thread e).pc = .reuse)
    (hnext : s.pipeLoopTask e cpu kzalloc .reuse = some s') :
    ∃ ledger', Refines cfg s' ledger' := by
  obtain ⟨magazines, hfree, hsettled, hcontents⟩ := hrefines.put e cpu hfresh
  simp only [State.pipeLoopTask, hfree, Option.map_some, Option.some.injEq] at hnext
  subst hnext
  refine ⟨⟨e ::ₘ ledger.held, e ::ₘ ledger.freed, ledger.returned⟩,
    hrefines.reachable.take (.loop e) trivial ?_, hsettled, hcontents⟩
  calc
    (ledgerPool s.pool ledger).pipeLoopTask e (s.pool.thread e).pc =
        (ledgerPool s.pool ledger).pipeLoopTask e .reuse := by rw [hpc]
    _ = _ := rfl

theorem alloc (hrefines : Refines cfg s ledger) {x : S} {i : Cpu × Context}
    (hstart : s.pool.submission x = .start) {elem : Option ℕ} {magazines : MagAllocator Cpu ℕ}
    (halloc : s.magazines.magAllocElem i = some (elem, magazines)) :
    ∃ ledger', Refines cfg (s.allocated x elem magazines) ledger' := by
  obtain ⟨elem', magazines', halloc', hsettled, htaken⟩ := hrefines.take i
  rw [halloc, Option.some.injEq, Prod.mk.injEq] at halloc'
  obtain ⟨rfl, rfl⟩ := halloc'
  rcases htaken with ⟨rfl, hcontents⟩ | ⟨e, hmem, rfl, hcontents⟩
  · exact ⟨ledger, hrefines.reachable.take (.alloc x none) trivial (if_pos hstart),
      hsettled, hcontents⟩
  · refine ⟨⟨ledger.held.erase e, ledger.freed, e ::ₘ ledger.returned⟩,
      hrefines.reachable.take (.alloc x (some e)) trivial ?_, hsettled, hcontents⟩
    have htake : bag.next ledger (.take e) =
        some ⟨ledger.held.erase e, ledger.freed, e ::ₘ ledger.returned⟩ := if_pos hmem
    calc
      _ = (ledgerPool s.pool ledger).kthreadPoolAlloc x (some e) := if_pos hstart
      _ = (bag.next ledger (.take e)).map _ := rfl
      _ = _ := by rw [htake]; rfl

end Refines

/-! ## Runs -/

section Runs

variable [DecidableEq S] [DecidableEq Cpu]
variable {mags : InitMags Cpu} {poolSize : ℤ} {cfg : Config S Func Data}
  {s s' : State Cpu S Func Data} {ledger : Ledger ℕ}

theorem Refines.next (hrefines : Refines cfg s ledger) {label : Label Cpu S}
    (hlabel : Allocates s label)
    (hnext : (poolMagazines mags poolSize cfg).next s label = some s') :
    ∃ ledger', Refines cfg s' ledger' := by
  cases label with
  | refil cpu kzalloc elem =>
      simp only [poolMagazines] at hnext
      cases hpc : s.refilPc with
      | compute =>
          rw [hpc] at hnext
          cases hnext
          exact ⟨ledger, hrefines.keep⟩
      | add count =>
          rw [hpc] at hnext
          cases count with
          | zero =>
              cases hnext
              exact ⟨ledger, hrefines.keep⟩
          | succ count =>
              simp only [State.refilThread] at hnext
              split at hnext
              · exact hrefines.refillRound (fun hempty => (hlabel hempty).2) hnext
              · cases hnext
                exact ⟨ledger, hrefines.keep⟩
      | setState =>
          rw [hpc] at hnext
          cases hnext
          exact ⟨ledger, hrefines.keep⟩
      | schedule =>
          rw [hpc] at hnext
          obtain ⟨-, hnext⟩ := Option.ite_none_right_eq_some.mp hnext
          cases hnext
          exact ⟨ledger, hrefines.keep⟩
  | wake x =>
      obtain ⟨-, hnext⟩ := Option.ite_none_right_eq_some.mp hnext
      cases hnext
      exact ⟨ledger, hrefines.keep⟩
  | alloc x i =>
      obtain ⟨⟨hstart, -⟩, hnext⟩ := Option.ite_none_right_eq_some.mp hnext
      obtain ⟨⟨elem, magazines⟩, halloc, rfl⟩ := Option.map_eq_some_iff.mp hnext
      exact hrefines.alloc hstart halloc
  | submit x =>
      obtain ⟨pool, hpool, rfl⟩ := Option.map_eq_some_iff.mp hnext
      exact ⟨ledger, hrefines.submit hpool⟩
  | loop e cpu kzalloc =>
      simp only [poolMagazines] at hnext
      by_cases hpc : (s.pool.thread e).pc = .reuse
      · rw [hpc] at hnext
        exact hrefines.reuse (fun hempty => (hlabel hempty).2) hpc hnext
      · rw [State.pipeLoopTask_of_ne hpc] at hnext
        obtain ⟨pool, hpool, rfl⟩ := Option.map_eq_some_iff.mp hnext
        exact ⟨ledger, hrefines.run hpc hpool⟩

theorem exists_ledger
    (hreach : (poolMagazines mags poolSize cfg).ReachableUnder Allocates s) :
    ∃ ledger, Refines cfg s ledger := by
  refine hreach.invariant (P := fun s => ∃ ledger, Refines cfg s ledger) ?_ ?_
  · exact ⟨bag.init, .init, MagAllocator.settled_init mags, MagAllocator.contents_init mags⟩
  · rintro before label after - ⟨ledger, hrefines⟩ hlabel hnext
    exact hrefines.next hlabel hnext

end Runs

/-! ## Idle threads -/

/-- The thread sleeps in `schedule`, and no submission in progress has its element. -/
def Idle (pool : Pool.State S Func Data) (e : ℕ) : Prop :=
  pool.thread e = asleep ∧
    ∀ x, (pool.submission x).elem = some e → pool.submission x = .done e

open Classical in
noncomputable def idle (pool : Pool.State S Func Data) : Finset ℕ :=
  {e ∈ Finset.range pool.next | Idle pool e}

open Classical in
theorem mem_idle {pool : Pool.State S Func Data} {e : ℕ} :
    e ∈ idle pool ↔ e < pool.next ∧ Idle pool e := by
  rw [idle, Finset.mem_filter, Finset.mem_range]

section Idle

variable {cfg : Config S Func Data} {pool : Pool.State S Func Data} {x : S} {e : ℕ}

/-- A submission that is not over owns its element. -/
theorem owner_or_done (hinv : Inv cfg pool) (helem : (pool.submission x).elem = some e) :
    pool.owner e = some x ∨ pool.submission x = .done e := by
  have haccounted := hinv.accounted x
  cases hpc : pool.submission x with
  | start => rw [hpc] at helem; cases helem
  | failed => rw [hpc] at helem; cases helem
  | done e' =>
      rw [hpc] at helem
      cases helem
      exact .inr rfl
  | check e' => rw [hpc] at helem haccounted; cases helem; exact .inl haccounted
  | storeTask e' => rw [hpc] at helem haccounted; cases helem; exact .inl haccounted
  | storeData e' => rw [hpc] at helem haccounted; cases helem; exact .inl haccounted
  | wake e' => rw [hpc] at helem haccounted; cases helem; exact .inl haccounted

/-- The bag holds the elements of the threads that are idle. -/
theorem mem_held_iff (hinv : Inv cfg pool) :
    e ∈ pool.allocator.held ↔ e < pool.next ∧ Idle pool e := by
  constructor
  · intro hheld
    obtain ⟨hcreated, hthread, -, hfinished⟩ := (hinv.stage e).of_held hheld
    refine ⟨hcreated, hthread, fun x helem => ?_⟩
    rcases owner_or_done hinv helem with howner | hdone
    · have hsubmission := (hfinished x howner).1
      rw [State.view, howner, Option.map_some, Option.some.injEq] at hsubmission
      exact hsubmission
    · exact hdone
  · rintro ⟨hcreated, hthread, hdone⟩
    cases hinv.stage e with
    | uncreated created => exact absurd hcreated created
    | free _ inside => exact inside
    | claimed x pc _ _ _ owner submission elem filled =>
        have howner : pool.owner e = some x := owner
        have hpc : pool.submission x = pc := by
          rw [State.view, howner, Option.map_some, Option.some.injEq] at submission
          exact submission
        have hpcdone := hdone x (hpc ▸ elem)
        rw [hpc] at hpcdone
        subst hpcdone
        exact filled.elim
    | woken x _ _ thread =>
        have hwoken : (pool.thread e).Woken (cfg.func x) := thread
        rw [hthread] at hwoken
        exact hwoken.elim
    | ran x _ _ thread =>
        have hreturning : (pool.thread e).Returning (pool.elem e) := thread
        rw [hthread] at hreturning
        exact hreturning.elim

theorem held_eq_idle [DecidableEq S] (hreach : (Pool.pool cfg).Reachable pool) :
    pool.allocator.held = (idle pool).val := by
  have hinv := inv_of_reachable hreach
  refine (Multiset.Nodup.ext (held_nodup hinv.allocator) (idle pool).nodup).mpr fun e => ?_
  rw [mem_held_iff hinv, Finset.mem_val, mem_idle]

end Idle

/-! ## The pool over its magazines -/

section Pool

variable [DecidableEq S] [DecidableEq Cpu]
variable {mags : InitMags Cpu} {poolSize : ℤ} {cfg : Config S Func Data}
  {s s' : State Cpu S Func Data} {ledger : Ledger ℕ}

omit [DecidableEq Cpu] in
theorem Refines.contents_eq (hrefines : Refines cfg s ledger) :
    s.magazines.contents = (idle s.pool).val.map some :=
  hrefines.contents.trans (congrArg (Multiset.map some) (held_eq_idle hrefines.reachable))

/-- No call of the allocator fails an assertion or leaves a magazine. -/
theorem Refines.returns (hrefines : Refines cfg s ledger) {label : Label Cpu S}
    (hcalls : Calls s label) (hlabel : Allocates s label) :
    (poolMagazines mags poolSize cfg).next s label ≠ none := by
  cases label with
  | refil cpu kzalloc elem =>
      obtain ⟨rfl, count, hpc⟩ := hcalls
      obtain ⟨magazines, hfree, -⟩ := hrefines.put s.pool.next cpu fun hempty => (hlabel hempty).2
      simp only [poolMagazines, hpc, State.refilThread, State.refillRound, hfree, if_true,
        Option.map_some]
      exact Option.some_ne_none _
  | wake x => exact hcalls.elim
  | alloc x i =>
      obtain ⟨elem, magazines, halloc, -⟩ := hrefines.take i
      have hnext : (poolMagazines mags poolSize cfg).next s (.alloc x i) =
          (s.magazines.magAllocElem i).map fun (elem, magazines) =>
            s.allocated x elem magazines := if_pos hcalls
      rw [hnext, halloc, Option.map_some]
      exact Option.some_ne_none _
  | submit x => exact hcalls.elim
  | loop e cpu kzalloc =>
      obtain ⟨magazines, hfree, -⟩ := hrefines.put e cpu fun hempty => (hlabel hempty).2
      have hpc : (s.pool.thread e).pc = .reuse := hcalls
      simp only [poolMagazines, hpc, State.pipeLoopTask, hfree, Option.map_some]
      exact Option.some_ne_none _

/-- Only few threads are idle when a call gets none. -/
theorem Refines.card_idle_le (hrefines : Refines cfg s ledger) (hsmall : s.pool.next < 2 ^ 18)
    {i : Cpu × Context} {magazines : MagAllocator Cpu ℕ}
    (halloc : s.magazines.magAllocElem i = some (none, magazines)) :
    (idle s.pool).card ≤ (2 * magDepth - 1) * (2 * Fintype.card Cpu - 1) := by
  have hcontents := hrefines.contents_eq
  have hcard : s.magazines.contents.card = (idle s.pool).card := by
    rw [hcontents, Multiset.card_map, Finset.card_val]
  have hnull : none ∉ s.magazines.contents := by
    rw [hcontents, Multiset.mem_map]
    rintro ⟨e, -, he⟩
    cases he
  obtain ⟨elem, magazines', halloc', hnone, -⟩ :=
    MagAllocator.magAllocElem_eq_none_iff hrefines.settled hnull i
  rw [halloc, Option.some.injEq, Prod.mk.injEq] at halloc'
  obtain ⟨hload, hcount⟩ := hnone.mp halloc'.1.symm
  -- The depot has fewer than `2 ^ 16` magazines, since it holds threads of the pool.
  have hlength : s.magazines.fullList.length < 2 ^ 16 := by
    have hfull : s.magazines.full.card ≤ s.magazines.contents.card := by
      rw [MagAllocator.contents, Multiset.card_add]
      exact Nat.le_add_left _ _
    have hidle : (idle s.pool).card ≤ s.pool.next := by
      have hsubset : idle s.pool ⊆ Finset.range s.pool.next := fun e he =>
        Finset.mem_range.mpr (mem_idle.mp he).1
      calc
        (idle s.pool).card ≤ (Finset.range s.pool.next).card := Finset.card_le_card hsubset
        _ = s.pool.next := Finset.card_range _
    rw [MagAllocator.card_full, hcard] at hfull
    omega
  have hlist := (MagAllocator.fullCount_eq_zero_iff hrefines.settled.toTidy hlength).mp hcount
  have hempty : (s.magazines.pcpPair i).held s.magazines.memory = 0 := by
    rw [← Multiset.card_eq_zero, (hrefines.settled.front i).card_held, hload]
  rw [← hcard]
  exact MagAllocator.card_contents_le hrefines.settled hlist hempty

omit [Fintype Cpu] in
/-- A submission that fails was given the null pointer. -/
theorem alloc_of_failed {x : S} {i : Cpu × Context}
    (hnext : (poolMagazines mags poolSize cfg).next s (.alloc x i) = some s')
    (hfailed : s'.pool.submission x = .failed) :
    ∃ magazines, s.magazines.magAllocElem i = some (none, magazines) := by
  obtain ⟨-, hnext⟩ := Option.ite_none_right_eq_some.mp hnext
  obtain ⟨⟨elem, magazines⟩, halloc, rfl⟩ := Option.map_eq_some_iff.mp hnext
  cases elem with
  | none => exact ⟨magazines, halloc⟩
  | some e =>
      have hcheck : (s.allocated x (some e) magazines).pool.submission x = .check e :=
        Function.update_self ..
      rw [hcheck] at hfailed
      cases hfailed

omit [DecidableEq S] in
theorem served_of_ledgerPool {pool : Pool.State S Func Data} {x : S} {e : ℕ}
    (hserved : Served cfg (ledgerPool pool ledger) x e) : Served cfg pool x e := by
  cases hserved with
  | stored only elem wakeUp runs => exact .stored only elem wakeUp runs
  | running only thread runs => exact .running only thread runs
  | finished past runs => exact .finished past runs

/-- Whatever the CPUs on which the threads and the submissions run: every accepted
task is served in its element and run at most once with its own data, the magazines
hold exactly the elements of the threads that are idle, every call of the allocator
returns, and a submission gets no thread only when few are idle. -/
theorem pool_over_magazines (mags : InitMags Cpu) (poolSize : ℤ) (cfg : Config S Func Data)
    (s : State Cpu S Func Data)
    (hreach : (poolMagazines mags poolSize cfg).ReachableUnder Allocates s) :
    (∀ x e, (s.pool.submission x).accepted = some e → Served cfg s.pool x e) ∧
      (∀ x, s.pool.runs (some x) = [] ∨ s.pool.runs (some x) = [cfg.task x]) ∧
      s.pool.allocatedTwice = false ∧ s.pool.noTask = false ∧
      (∀ e, (s.pool.thread e).pc ≠ .oops) ∧
      s.magazines.contents = (idle s.pool).val.map some ∧
      (∀ label, Calls s label → Allocates s label →
        (poolMagazines mags poolSize cfg).next s label ≠ none) ∧
      (s.pool.next < 2 ^ 18 → ∀ x i s',
        (poolMagazines mags poolSize cfg).next s (.alloc x i) = some s' →
        s'.pool.submission x = .failed →
        (idle s.pool).card ≤ (2 * magDepth - 1) * (2 * Fintype.card Cpu - 1)) := by
  obtain ⟨ledger, hrefines⟩ := exists_ledger hreach
  have hinv := inv_of_reachable hrefines.reachable
  refine ⟨?served, hinv.runs_eq, hinv.allocatedTwice, hinv.noTask, hinv.not_oops,
    hrefines.contents_eq, fun label => hrefines.returns, ?failed⟩
  case served =>
    intro x e haccepted
    exact served_of_ledgerPool (hinv.served haccepted)
  case failed =>
    intro hsmall x i s' hnext hfailed
    obtain ⟨magazines, halloc⟩ := alloc_of_failed hnext hfailed
    exact hrefines.card_idle_le hsmall halloc

/-- Eight threads are added on one CPU; a softirq of the other gets the last one through
the depot, and its task runs there. -/
theorem pool_over_magazines_depot :
    let cfg : Config Bool ℕ Bool := ⟨fun _ => 1, id, fun _ => ⟨some 0, true⟩⟩
    ∃ s : State Bool Bool ℕ Bool,
      (s.pool.submission true, s.pool.runs (some true), s.pool.next) = (.done 7, [(1, true)], 8) ∧
        Served cfg s.pool true 7 := by
  intro cfg
  obtain ⟨s, hreach, hs⟩ := Machine.exists_reachable_of_run (poolMagazines twoCpus 8 cfg)
    Allocates
    (List.flatten [(List.range 9).map fun k => .refil false (BitVec.ofNat 64 (65536 + 64 * k)) true,
      [.wake true, .alloc true (true, .softirq)], List.replicate 4 (.submit true),
      List.replicate 8 (.loop 7 true 131072)])
    (fun s => (s.pool.submission true, s.pool.runs (some true), s.pool.next))
    (.done 7, [(1, true)], 8) (by decide +kernel)
  have hdone : s.pool.submission true = .done 7 := congrArg Prod.fst hs
  have haccepted : (s.pool.submission true).accepted = some 7 := by
    rw [hdone]
    rfl
  exact ⟨s, hs, (pool_over_magazines twoCpus 8 cfg s hreach).1 true 7 haccepted⟩

end Pool

end KtcpSplit.PoolMagazines
