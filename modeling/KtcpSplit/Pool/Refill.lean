import KtcpSplit.Magazine.Loads
import KtcpSplit.Magazine.Refinement

/-!
# The refill of the pool

The refill thread compares `full_count` with the size of the pool, adds the
difference element by element and sleeps until a caller of `kthread_pool_run`
wakes it.  A caller wakes it first and takes its element later.
-/

namespace KtcpSplit.Refill

open KtcpSplit.MagAlloc
open KtcpSplit.Transition

/-- The next statement of `refil_thread`. -/
inductive RefilPc
  /-- `refill_pool` reads `full_count`. -/
  | compute
  /-- The loop of `refill_pool`, with so many rounds left. -/
  | add (count : ℕ)
  | setState
  /-- The thread leaves `schedule` once its state is `running`. -/
  | schedule
  deriving DecidableEq

inductive TaskState
  | running
  | interruptible
  deriving DecidableEq

/-- `calls` counts the calls of `kthread_pool_run` that have woken the refill thread
and not taken an element yet; `cpu` is where the loop of `refill_pool` added last. -/
structure State (Cpu : Type*) where
  allocator : MagAllocator Cpu ℕ
  topCount : ℕ
  pc : RefilPc
  taskState : TaskState
  calls : ℕ
  cpu : Option Cpu

inductive Label (Cpu : Type*)
  /-- A statement of the refill thread, on the CPU on which it runs; `kzalloc` is the
  memory that `mag_free_elem` gets if it asks for a magazine. -/
  | refil (cpu : Cpu) (kzalloc : Addr)
  /-- `refill_task_start`. -/
  | wake
  /-- `mag_alloc_elem`. -/
  | alloc (i : Cpu × Context)

variable {Cpu : Type*} [Fintype Cpu] [DecidableEq Cpu]

/-- The elements that are missing in the depot, at least none. -/
def missing (poolSize : ℤ) (fullCount : BitVec 16) : ℕ :=
  (poolSize - (fullCount.toNat <<< 2 : ℕ)).toNat

def State.refil (poolSize : ℤ) (s : State Cpu) (cpu : Cpu) (kzalloc : Addr) :
    RefilPc → Option (State Cpu)
  | .compute =>
      some { s with pc := .add (missing poolSize s.allocator.fullCount), cpu := none }
  | .add 0 => some { s with pc := .setState }
  | .add (count + 1) =>
      if s.allocator.emptyCount = 0 → kzalloc ∉ s.allocator.places then
        (s.allocator.magFreeElem (cpu, .task) (some s.topCount) kzalloc).map fun allocator =>
          { s with
            allocator := allocator
            topCount := s.topCount + 1
            pc := .add count
            cpu := some cpu }
      else none
  | .setState => some { s with pc := .schedule, taskState := .interruptible }
  | .schedule => if s.taskState = .running then some { s with pc := .compute } else none

/-- The refill thread and any number of callers. -/
def refill (mags : InitMags Cpu) (poolSize : ℤ) : Machine (State Cpu) (Label Cpu) where
  init := {
    allocator := magAllocatorInit mags
    topCount := 0
    pc := .compute
    taskState := .running
    calls := 0
    cpu := none }
  next := fun s label =>
    match label with
    | .refil cpu kzalloc => s.refil poolSize cpu kzalloc s.pc
    | .wake => some { s with taskState := .running, calls := s.calls + 1 }
    | .alloc i =>
        if 0 < s.calls then
          (s.allocator.magAllocElem i).map fun (_, allocator) =>
            { s with allocator := allocator, calls := s.calls - 1 }
        else none

/-! ## What is missing is added -/

/-- The refill thread has run and sleeps, and no call is in progress. -/
def Quiescent (s : State Cpu) : Prop :=
  s.pc = .schedule ∧ s.taskState = .interruptible ∧ s.calls = 0

/-- The refill thread is going to read `full_count` again. -/
def Due (s : State Cpu) : Prop :=
  s.pc = .compute ∨ s.pc = .schedule ∧ s.taskState = .running

/-- The pair that the refill thread adds to. -/
def State.filling (s : State Cpu) : Option (Cpu × Context) :=
  match s.pc with
  | .add _ => s.cpu.map fun cpu => (cpu, .task)
  | _ => none

/-- One refill stays on one CPU.  A magazine of the depot or an element of the pair
that is being filled is taken only when `full_count` is going to be read again. -/
def Steady (s : State Cpu) : Label Cpu → Prop
  | .refil cpu _ => s.filling = none ∨ s.filling = some (cpu, .task)
  | .wake => True
  | .alloc i => Due s ∨ s.filling ≠ some i ∧
      ((s.allocator.pcpPair i).load = 0 → s.allocator.fullCount = 0)

instance decidableSteady (s : State Cpu) (label : Label Cpu) : Decidable (Steady s label) :=
  match label with
  | .refil cpu _ =>
      inferInstanceAs (Decidable (s.filling = none ∨ s.filling = some (cpu, .task)))
  | .wake => inferInstanceAs (Decidable True)
  | .alloc i =>
      inferInstanceAs (Decidable ((s.pc = .compute ∨ s.pc = .schedule ∧
        s.taskState = .running) ∨ s.filling ≠ some i ∧
        ((s.allocator.pcpPair i).load = 0 → s.allocator.fullCount = 0)))

/-- The depot, what is still to be added, and the pair that is being filled make up
the pool. -/
def Filled (poolSize : ℤ) (s : State Cpu) : RefilPc → Prop
  | .compute => True
  | .add count =>
      match s.cpu with
      | none => poolSize ≤ 4 * s.allocator.fullCount.toNat + count ∧
          4 * s.allocator.fullCount.toNat + count ≤ 4 * (2 ^ 16 - 1)
      | some cpu =>
          let load := (s.allocator.pcpPair (cpu, .task)).load
          poolSize ≤ 4 * s.allocator.fullCount.toNat + count + load ∧
            4 * s.allocator.fullCount.toNat + count + load < 4 * 2 ^ 16 + 4
  | .setState => poolSize ≤ 4 * s.allocator.fullCount.toNat + 7
  | .schedule => s.taskState = .interruptible →
      poolSize ≤ 4 * s.allocator.fullCount.toNat + 7

structure Inv (poolSize : ℤ) (s : State Cpu) : Prop where
  settled : s.allocator.Settled
  filled : Filled poolSize s s.pc

variable {s s' : State Cpu} {poolSize : ℤ}

omit [Fintype Cpu] [DecidableEq Cpu] in
/-- Only the depot and the pair that is being filled count. -/
theorem Filled.congr (hfilled : Filled poolSize s s.pc)
    (hfull : s'.allocator.fullCount = s.allocator.fullCount) (hcpu : s'.cpu = s.cpu)
    (hstate : s'.taskState = s.taskState)
    (hload : ∀ cpu, s.cpu = some cpu → s.filling = s.cpu.map (·, .task) →
      s'.allocator.pcpPair (cpu, .task) = s.allocator.pcpPair (cpu, .task)) :
    Filled poolSize s' s.pc := by
  cases hpc : s.pc with
  | compute => trivial
  | add count =>
      have hfilling : s.filling = s.cpu.map (·, .task) := by rw [State.filling, hpc]
      rw [hpc] at hfilled
      unfold Filled at hfilled ⊢
      cases hlast : s.cpu with
      | none =>
          rw [hlast] at hcpu hfilled
          rw [hcpu]
          dsimp only at hfilled ⊢
          rw [hfull]
          exact hfilled
      | some cpu =>
          have hsame := hload cpu hlast hfilling
          rw [hlast] at hcpu hfilled
          rw [hcpu]
          dsimp only at hfilled ⊢
          rw [hfull, hsame]
          exact hfilled
  | setState =>
      rw [hpc] at hfilled
      unfold Filled at hfilled ⊢
      rw [hfull]
      exact hfilled
  | schedule =>
      rw [hpc] at hfilled
      unfold Filled at hfilled ⊢
      rw [hfull, hstate]
      exact hfilled

omit [DecidableEq Cpu] in
theorem Inv.compute (hinv : Inv poolSize s) (hsize : poolSize ≤ 4 * (2 ^ 16 - 1)) :
    Inv poolSize { s with
      pc := .add (missing poolSize s.allocator.fullCount)
      cpu := none } where
  settled := hinv.settled
  filled := by
    have hlt := s.allocator.fullCount.isLt
    change poolSize ≤ 4 * s.allocator.fullCount.toNat + missing poolSize s.allocator.fullCount ∧
      4 * s.allocator.fullCount.toNat + missing poolSize s.allocator.fullCount ≤ 4 * (2 ^ 16 - 1)
    rw [missing, Nat.shiftLeft_eq]
    omega

/-- One round of the loop adds an element to the pair of its CPU. -/
theorem Inv.add (hinv : Inv poolSize s) {count : ℕ} (hpc : s.pc = .add (count + 1)) {cpu : Cpu}
    (hsteady : s.filling = none ∨ s.filling = some (cpu, .task)) {elem : Option ℕ} {kzalloc : Addr}
    {allocator : MagAllocator Cpu ℕ}
    (hfresh : s.allocator.emptyCount = 0 → kzalloc ∉ s.allocator.places)
    (hfree : s.allocator.magFreeElem (cpu, .task) elem kzalloc = some allocator) :
    Inv poolSize { s with
      allocator := allocator
      topCount := s.topCount + 1
      pc := .add count
      cpu := some cpu } where
  settled := by
    obtain ⟨allocator', hfree', hsettled, -⟩ :=
      MagAllocator.magFreeElem_spec hinv.settled (cpu, .task) elem hfresh
    rw [hfree] at hfree'
    cases hfree'
    exact hsettled
  filled := by
    have hfront := hinv.settled.front (cpu, .task)
    have hseven := hfront.load_lt (hinv.settled.room (cpu, .task))
    have hbefore : poolSize ≤ 4 * s.allocator.fullCount.toNat + (count + 1) +
        (s.allocator.pcpPair (cpu, .task)).load ∧
        4 * s.allocator.fullCount.toNat + (count + 1) +
          (s.allocator.pcpPair (cpu, .task)).load < 4 * 2 ^ 16 + 4 := by
      have hfilled := hinv.filled
      rw [hpc, Filled] at hfilled
      cases hcpu : s.cpu with
      | none =>
          rw [hcpu] at hfilled
          dsimp only at hfilled
          omega
      | some last =>
          have hlast : last = cpu := by
            simpa [State.filling, hpc, hcpu] using hsteady
          rw [hcpu] at hfilled
          dsimp only at hfilled
          rw [hlast] at hfilled
          omega
    obtain ⟨-, ⟨hload, hfull⟩ | ⟨hload, hload', hfull⟩⟩ :=
      MagAllocator.magFreeElem_load hfront hfree
    · change poolSize ≤ 4 * allocator.fullCount.toNat + count +
          (allocator.pcpPair (cpu, .task)).load ∧ 4 * allocator.fullCount.toNat + count +
          (allocator.pcpPair (cpu, .task)).load < 4 * 2 ^ 16 + 4
      rw [hload, hfull]
      omega
    · have hcount : allocator.fullCount.toNat = s.allocator.fullCount.toNat + 1 := by
        rw [hfull]
        bv_omega
      change poolSize ≤ 4 * allocator.fullCount.toNat + count +
          (allocator.pcpPair (cpu, .task)).load ∧ 4 * allocator.fullCount.toNat + count +
          (allocator.pcpPair (cpu, .task)).load < 4 * 2 ^ 16 + 4
      omega

/-- A call takes nothing that the refill counts on. -/
theorem Inv.alloc (hinv : Inv poolSize s) {i : Cpu × Context} (hsteady : Steady s (.alloc i))
    {elem : Option ℕ} {allocator : MagAllocator Cpu ℕ}
    (halloc : s.allocator.magAllocElem i = some (elem, allocator)) :
    Inv poolSize { s with allocator := allocator, calls := s.calls - 1 } where
  settled := by
    obtain ⟨elem', allocator', halloc', hsettled, -⟩ :=
      MagAllocator.magAllocElem_spec hinv.settled i
    rw [halloc] at halloc'
    cases halloc'
    exact hsettled
  filled := by
    have hfilled := hinv.filled
    rcases hsteady with (hpc | ⟨hpc, hrunning⟩) | ⟨hfilling, hdepot⟩
    · dsimp only
      rw [hpc]
      trivial
    · dsimp only
      rw [hpc]
      intro hasleep
      rw [hrunning] at hasleep
      cases hasleep
    · obtain ⟨hkept, htaken⟩ := MagAllocator.magAllocElem_load (hinv.settled.front i) halloc
      have hfull : allocator.fullCount = s.allocator.fullCount := by
        rcases htaken with ⟨-, -, hfull⟩ | ⟨hzero, hsome, -⟩ | ⟨-, hnone, hfull, -⟩
        · exact hfull
        · exact absurd (hdepot hzero) hsome
        · rw [hfull, hnone]
      refine hfilled.congr hfull rfl rfl fun cpu hcpu hadding => hkept _ ?_
      rintro rfl
      exact hfilling (hadding.trans (congrArg (Option.map _) hcpu))

theorem Inv.next {mags : InitMags Cpu} (hinv : Inv poolSize s)
    (hsize : poolSize ≤ 4 * (2 ^ 16 - 1)) {label : Label Cpu} (hsteady : Steady s label)
    (hnext : (refill mags poolSize).next s label = some s') : Inv poolSize s' := by
  have hfilled := hinv.filled
  cases label with
  | refil cpu kzalloc =>
      change s.refil poolSize cpu kzalloc s.pc = some s' at hnext
      cases hpc : s.pc with
      | compute =>
          rw [hpc] at hnext
          cases hnext
          exact hinv.compute hsize
      | add count =>
          rw [hpc] at hnext hfilled
          cases count with
          | zero =>
              cases hnext
              refine ⟨hinv.settled, ?_⟩
              change poolSize ≤ 4 * s.allocator.fullCount.toNat + 7
              unfold Filled at hfilled
              cases hcpu : s.cpu with
              | none =>
                  rw [hcpu] at hfilled
                  dsimp only at hfilled
                  omega
              | some cpu =>
                  have hseven := (hinv.settled.front (cpu, .task)).load_lt
                    (hinv.settled.room (cpu, .task))
                  rw [hcpu] at hfilled
                  dsimp only at hfilled
                  omega
          | succ count =>
              obtain ⟨hfresh, hadd⟩ := Option.ite_none_right_eq_some.mp hnext
              obtain ⟨allocator, hfree, rfl⟩ := Option.map_eq_some_iff.mp hadd
              exact hinv.add hpc hsteady hfresh hfree
      | setState =>
          rw [hpc] at hnext hfilled
          cases hnext
          exact ⟨hinv.settled, fun _ => hfilled⟩
      | schedule =>
          rw [hpc] at hnext
          obtain ⟨-, heq⟩ := Option.ite_none_right_eq_some.mp hnext
          cases heq
          exact ⟨hinv.settled, trivial⟩
  | wake =>
      cases hnext
      refine ⟨hinv.settled, ?_⟩
      cases hpc : s.pc with
      | schedule => exact fun h => nomatch h
      | _ => rw [hpc] at hfilled; exact hfilled
  | alloc i =>
      obtain ⟨-, heq⟩ := Option.ite_none_right_eq_some.mp hnext
      obtain ⟨⟨elem, allocator⟩, halloc, rfl⟩ := Option.map_eq_some_iff.mp heq
      exact hinv.alloc hsteady halloc

/-- In a run whose steps are all steady, the depot of a quiescent pool holds all but
seven of the elements. -/
theorem depot_refilled (mags : InitMags Cpu) (poolSize : ℤ)
    (hsize : poolSize ≤ 4 * (2 ^ 16 - 1)) {s : State Cpu}
    (hreach : (refill mags poolSize).ReachableUnder Steady s) (hquiescent : Quiescent s) :
    poolSize - 7 ≤ 4 * s.allocator.fullCount.toNat := by
  have hinv : Inv poolSize s := by
    refine hreach.invariant (P := Inv poolSize) ?_ ?_
    · exact ⟨MagAllocator.settled_init mags, trivial⟩
    · intro before label after _ hinv hsteady hnext
      exact hinv.next hsize hsteady hnext
  obtain ⟨hpc, hasleep, -⟩ := hquiescent
  have hfilled := hinv.filled
  rw [hpc] at hfilled
  have hbound := hfilled hasleep
  omega

/-- One refill of eight elements on the first CPU, up to its last statement. -/
def refillRun (kzalloc : Addr) (count : ℕ) : List (Label Bool) :=
  List.replicate (count + 2) (.refil false kzalloc)

/-- The refill thread is woken, and another CPU takes a magazine of the depot before
it runs. -/
theorem depot_refilled_woken :
    ∃ s, (refill twoCpus 8).ReachableUnder Steady s ∧ Quiescent s ∧
      (s.allocator.pcpPair (true, .task)).load = 3 ∧
      (8 : ℤ) - 7 ≤ 4 * s.allocator.fullCount.toNat := by
  obtain ⟨s, hreach, hs⟩ := Machine.exists_reachable_of_run (refill twoCpus 8) Steady
    (refillRun 65536 8 ++ [.refil false 0, .wake, .alloc (true, .task), .refil false 0] ++
      refillRun 131072 8 ++ [.refil false 0])
    (fun s => (s.pc, s.taskState, s.calls, (s.allocator.pcpPair (true, .task)).load))
    (.schedule, .interruptible, 0, 3) (by decide +kernel)
  simp only [Prod.mk.injEq] at hs
  obtain ⟨hpc, hstate, hcalls, hload⟩ := hs
  have hquiescent : Quiescent s := ⟨hpc, hstate, hcalls⟩
  exact ⟨s, hreach, hquiescent, hload,
    depot_refilled twoCpus 8 (by decide) hreach hquiescent⟩

/-- The call wakes the refill thread before it sleeps, and takes the only magazine of
the depot afterwards. -/
theorem depot_not_refilled :
    ¬∀ (mags : InitMags Bool) (poolSize : ℤ), poolSize ≤ 4 * (2 ^ 16 - 1) →
      ∀ s, (refill mags poolSize).Reachable s → Quiescent s →
        poolSize - 7 ≤ 4 * s.allocator.fullCount.toNat := by
  intro hrefilled
  obtain ⟨s, hreach, hs⟩ := Machine.exists_reachable_of_run (refill twoCpus 8)
    (fun _ _ => True)
    (refillRun 65536 8 ++ [.wake, .refil false 0, .alloc (true, .task)])
    (fun s => (s.pc, s.taskState, s.calls, s.allocator.fullCount))
    (.schedule, .interruptible, 0, 0) (by decide +kernel)
  simp only [Prod.mk.injEq] at hs
  obtain ⟨hpc, hstate, hcalls, hfull⟩ := hs
  have hbound := hrefilled twoCpus 8 (by decide) s hreach ⟨hpc, hstate, hcalls⟩
  rw [hfull] at hbound
  exact absurd hbound (by decide)

end KtcpSplit.Refill
