import KtcpSplit.Lib.Sleeper
import KtcpSplit.Pool.Refill

/-!
# The end of the refill thread

`cbn_kthread_pool_clean` stops the refill thread before it destroys the slab of the pool,
while callers may still wake it.  The thread tests the flag between the statement that sets
its state and `schedule`.
-/

namespace KtcpSplit.RefillStop

open KtcpSplit.Refill (missing)
open KtcpSplit.Sleeper
open KtcpSplit.Transition

/-- A place in `refil_thread`. -/
inductive Pc
  | test
  /-- `refill_pool` reads `full_count`. -/
  | compute
  /-- The loop of `refill_pool`, with so many rounds left. -/
  | add (count : ℕ)
  | setState
  /-- The second test. -/
  | recheck
  | schedule
  | running
  | ended
  deriving DecidableEq

/-- What `refill_pool` finds is `full_count`, and in the loop whether an element and a thread
are created: zero is a failure, after which it returns. -/
def refilThread (poolSize : ℤ) : Pc → Instr Pc
  | .test => .shouldStop .ended .compute
  | .compute => .work fun fullCount => .add (missing poolSize (BitVec.ofNat 16 fullCount))
  | .add 0 => .work fun _ => .setState
  | .add (count + 1) => .work fun found => if found = 0 then .setState else .add count
  | .setState => .setState .interruptible .recheck
  | .recheck => .shouldStop .running .schedule
  | .schedule => .schedule .running
  | .running => .setState .running .test
  | .ended => .exit

/-- The statements up to the end once the flag is raised. -/
def rank (poolSize : ℤ) : Pc → ℕ
  | .ended => 0
  | .test => 1
  | .running => 2
  | .schedule => 3
  | .recheck => 4
  | .setState => 5
  | .add count => count + 6
  | .compute => poolSize.toNat + 7

variable {poolSize : ℤ}

theorem missing_le (poolSize : ℤ) (fullCount : BitVec 16) :
    missing poolSize fullCount ≤ poolSize.toNat := by
  rw [missing]
  omega

/-- `schedule` is reached from the second test only. -/
theorem refilThread_rechecks : Rechecks (refilThread poolSize) := by
  intro before pc next hleads hpc
  have hschedule : pc = .schedule := by
    cases pc with
    | schedule => rfl
    | add count => cases count <;> cases hpc
    | _ => cases hpc
  subst hschedule
  cases before with
  | compute => exact nomatch hleads
  | add count =>
      cases count with
      | zero => exact nomatch hleads
      | succ count =>
          obtain ⟨found, heq⟩ := hleads
          by_cases hfound : found = 0 <;> simp [hfound] at heq
  | _ => cases hleads

theorem refilThread_winds : Winds (refilThread poolSize) (rank poolSize) := by
  intro before pc hleads
  cases before with
  | compute =>
      obtain ⟨fullCount, rfl⟩ := hleads
      have hle := missing_le poolSize (BitVec.ofNat 16 fullCount)
      simp only [rank]
      omega
  | add count =>
      cases count with
      | zero =>
          obtain ⟨found, rfl⟩ := hleads
          simp only [rank]
          omega
      | succ count =>
          obtain ⟨found, rfl⟩ := hleads
          by_cases hfound : found = 0 <;> simp [hfound, rank]
  | ended => exact hleads.elim
  | _ =>
      cases hleads
      simp [rank]

/-- The loop of `refill_pool` has at most the size of the pool to add. -/
theorem rank_le {s : State Pc} (hreach : (sleeper (refilThread poolSize) .test).Reachable s) :
    rank poolSize s.pc ≤ poolSize.toNat + 7 := by
  suffices hcount : ∀ count, s.pc = .add count → count ≤ poolSize.toNat by
    cases hpc : s.pc with
    | add count =>
        have hle := hcount count hpc
        simp only [rank]
        omega
    | _ => simp [rank]
  refine hreach.invariant (P := fun s => ∀ count, s.pc = .add count → count ≤ poolSize.toNat)
    (fun count hpc => by cases hpc) ?_
  intro before label after _ hbefore _ hlabel count hcount
  cases label with
  | thread found =>
      have hexec : before.exec found (refilThread poolSize before.pc) = some after := hlabel
      cases hpc : before.pc with
      | compute =>
          rw [hpc] at hexec
          cases hexec
          cases hcount
          exact missing_le _ _
      | add n =>
          have hle := hbefore n hpc
          rw [hpc] at hexec
          cases n with
          | zero =>
              cases hexec
              cases hcount
          | succ n =>
              cases hexec
              by_cases hfound : found = 0
              · simp [hfound] at hcount
              · simp [hfound] at hcount
                omega
      | schedule =>
          rw [hpc] at hexec
          simp only [refilThread, State.exec, Option.ite_none_right_eq_some, Option.some.injEq]
            at hexec
          obtain ⟨-, rfl⟩ := hexec
          cases hcount
      | ended =>
          rw [hpc] at hexec
          cases hexec
      | test =>
          rw [hpc] at hexec
          cases hexec
          simp only at hcount
          split at hcount <;> cases hcount
      | recheck =>
          rw [hpc] at hexec
          cases hexec
          simp only at hcount
          split at hcount <;> cases hcount
      | _ =>
          rw [hpc] at hexec
          cases hexec
          cases hcount
  | wake =>
      cases hlabel
      exact hbefore count hcount
  | stop =>
      rw [(kthreadStop_cases hlabel).1] at hcount
      exact hbefore count hcount

/-! ## A thread that is not stopped -/

/-- The place of a statement of the refill thread over the real allocator. -/
def place : Refill.RefilPc → Pc
  | .compute => .compute
  | .add count => .add count
  | .setState => .setState
  | .schedule => .schedule

def flag : Refill.TaskState → TaskState
  | .running => .running
  | .interruptible => .interruptible

section Refill

variable {Cpu : Type*} [Fintype Cpu] [DecidableEq Cpu]

/-- Where the refill thread over the real allocator stands and what it finds. -/
def view (s : Refill.State Cpu) : State Pc := ⟨place s.pc, flag s.taskState, .start⟩

/-- As long as nobody stops it, the thread does what the refill thread over the real
allocator does. -/
theorem refill_simulated {mags : MagAlloc.InitMags Cpu} {s : Refill.State Cpu}
    (hreach : (Refill.refill mags poolSize).Reachable s) :
    (sleeper (refilThread poolSize) .test).Reachable (view s) := by
  induction hreach with
  | init => exact Machine.ReachableUnder.init.take (.thread 0) trivial rfl
  | @next before after label _ _ hnext ih =>
      obtain ⟨allocator, topCount, pc, taskState, calls, cpu⟩ := before
      cases label with
      | refil cpu kzalloc =>
          cases pc with
          | compute =>
              cases hnext
              refine ih.take (.thread allocator.fullCount.toNat) trivial ?_
              simp only [sleeper, view, place, refilThread, State.exec, BitVec.ofNat_toNat,
                BitVec.setWidth_eq]
          | add count =>
              cases count with
              | zero =>
                  cases hnext
                  exact ih.take (.thread 0) trivial rfl
              | succ count =>
                  simp only [Refill.refill, Refill.State.refil] at hnext
                  split at hnext
                  · obtain ⟨allocator', -, rfl⟩ := Option.map_eq_some_iff.mp hnext
                    exact ih.take (.thread 1) trivial rfl
                  · cases hnext
          | setState =>
              cases hnext
              exact (ih.take (.thread 0) trivial rfl).take (.thread 0) trivial rfl
          | schedule =>
              simp only [Refill.refill, Refill.State.refil, Option.ite_none_right_eq_some,
                Option.some.injEq] at hnext
              obtain ⟨rfl, rfl⟩ := hnext
              exact ((ih.take (.thread 0) trivial rfl).take (.thread 0) trivial rfl).take
                (.thread 0) trivial rfl
      | wake =>
          cases hnext
          exact ih.take .wake trivial rfl
      | alloc i =>
          simp only [Refill.refill, Option.ite_none_right_eq_some] at hnext
          obtain ⟨-, hnext⟩ := hnext
          obtain ⟨⟨elem, allocator'⟩, -, rfl⟩ := Option.map_eq_some_iff.mp hnext
          exact ih

end Refill

/-! ## The stop -/

/-- Whenever `cbn_kthread_pool_clean` stops the refill thread and whoever wakes it
meanwhile, the thread takes at most the size of the pool and seven more statements, a wait
for its end is not in vain, and after it the thread takes no statement. -/
theorem refil_thread_stops (poolSize : ℤ) (s : State Pc)
    (hreach : (sleeper (refilThread poolSize) .test).Reachable s) (hstop : s.stop ≠ .start)
    (labels : List Label) (final : State Pc)
    (hrun : (sleeper (refilThread poolSize) .test).run s labels = some final) :
    labels.countP Label.ofThread ≤ poolSize.toNat + 7 ∧
      ((sleeper (refilThread poolSize) .test).Stuck (fun _ label => label ≠ .wake) final →
        final.stop = .returned) ∧
      (final.stop = .returned → final.pc = .ended) := by
  obtain ⟨hraised, hle⟩ := refilThread_winds.countP_le hstop hrun
  have hfinal := hreach.run hrun
  refine ⟨hle.trans (rank_le hreach), ?stuck, ?returned⟩
  case stuck =>
    refine returned_of_stuck hraised fun hwait next hpc => ?_
    apply refilThread_rechecks.running (fun next hpc => by cases hpc) hfinal hpc hraised
    rw [hwait]
    exact nofun
  case returned =>
    intro hreturned
    have hexit := exit_of_returned hfinal hreturned
    cases hpc : final.pc with
    | ended => rfl
    | add count => cases count <;> (rw [hpc] at hexit; cases hexit)
    | _ =>
        rw [hpc] at hexit
        cases hexit

/-- A pool of two: the flag is raised when one thread was added and one is missing, and the
wake-up comes before the thread sets its state. -/
theorem refil_thread_stops_late :
    ∃ final : State Pc, (sleeper (refilThread 2) .test).run ⟨.add 1, .running, .wake⟩
      [.stop, .thread 1, .thread 0, .thread 0, .thread 0, .thread 0, .thread 0, .stop] =
        some final ∧ final.pc = .ended := by
  obtain ⟨s, hreach, rfl⟩ := Machine.exists_reachable_of_run (sleeper (refilThread 2) .test)
    (fun _ _ => True) [.thread 0, .thread 0, .thread 1, .stop] id ⟨.add 1, .running, .wake⟩
    (by decide)
  have hrun : (sleeper (refilThread 2) .test).run ⟨.add 1, .running, .wake⟩
      [.stop, .thread 1, .thread 0, .thread 0, .thread 0, .thread 0, .thread 0, .stop] =
    some ⟨.ended, .running, .returned⟩ := by decide
  exact ⟨_, hrun, (refil_thread_stops 2 _ hreach (by decide) _ _ hrun).2.2 rfl⟩

end KtcpSplit.RefillStop
