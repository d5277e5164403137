import KtcpSplit.Lib.Sleeper
import Mathlib.Algebra.Group.Prod

/-!
# The threads that send

A write to the file of a poll thread wakes the thread, which calls `tcp_client` and sleeps
again.  The module takes the files away before it stops the threads.  Unlike the refill
thread of the pool, a poll thread tests the flag before it sets its state and after it has
slept, not in between; and a send that fails is made again without a test.
-/

namespace KtcpSplit.Poll

open KtcpSplit.Sleeper
open KtcpSplit.Transition

/-- A place in `poll_thread`. -/
inductive Pc
  | test
  | setState
  | schedule
  | running
  /-- The test after the sleep. -/
  | recheck
  /-- `tcp_client` up to `kernel_connect`, with its memory and its socket. -/
  | connect
  /-- The loop of `send_loop`, with so many rounds left. -/
  | send (left : ℕ)
  | ended
  deriving DecidableEq

/-- The rounds of `send_loop`. -/
def rounds : ℕ := 2 ^ 19

/-- What `tcp_client` finds is whether a call has succeeded: zero is a failure.  That of
`kernel_connect` ends the function, a send that fails is made again. -/
def pollThread : Pc → Instr Pc
  | .test => .shouldStop .ended .setState
  | .setState => .setState .interruptible .schedule
  | .schedule => .schedule .running
  | .running => .setState .running .recheck
  | .recheck => .shouldStop .test .connect
  | .connect => .work fun found => if found = 0 then .test else .send rounds
  | .send 0 => .work fun _ => .test
  | .send (left + 1) => .work fun found => if found = 0 then .send (left + 1) else .send left
  | .ended => .exit

/-- The thread is in `tcp_client`. -/
def Pc.sends : Pc → Bool
  | .connect => true
  | .send _ => true
  | _ => false

/-- The statements up to the end once the flag is raised, unless the thread sleeps and but
for the sends that fail. -/
def rank : Pc → ℕ
  | .ended => 0
  | .test => 1
  | .recheck => 2
  | .running => 3
  | .schedule => 4
  | .setState => 5
  | .send left => left + 2
  | .connect => rounds + 3

/-- One poll thread, the writes to its file, and `client_exit`. -/
def poll : Machine (State Pc) Label := sleeper pollThread .test

/-- The file is gone. -/
def Removed (_ : State Pc) : Label → Prop
  | .wake => False
  | _ => True

instance decidableRemoved (s : State Pc) (label : Label) : Decidable (Removed s label) :=
  match label with
  | .wake => inferInstanceAs (Decidable False)
  | .thread _ => inferInstanceAs (Decidable True)
  | .stop => inferInstanceAs (Decidable True)

/-- The writes that find the state set, and the calls of `tcp_client`. -/
def counts (s : State Pc) : Label → ℕ × ℕ
  | .wake => (if s.taskState = .interruptible then 1 else 0, 0)
  | .thread _ => (0, if s.pc = .connect then 1 else 0)
  | .stop => 0

/-- A send that fails. -/
def Pc.fails (found : ℕ) : Pc → Bool
  | .send (_ + 1) => decide (found = 0)
  | _ => false

/-- The statements of the thread, but for the sends that fail. -/
def statements (s : State Pc) : Label → ℕ
  | .thread found => if s.pc.fails found = true then 0 else 1
  | .wake => 0
  | .stop => 0

/-- The calls that the thread is going to make before it sets its state again. -/
def due (s : State Pc) : ℕ :=
  match s.pc with
  | .schedule => if s.taskState = .running then 1 else 0
  | .running => 1
  | .recheck => 1
  | .connect => 1
  | _ => 0

/-! ## What is sent -/

/-- Every call answers one write. -/
structure Answered (paid : ℕ × ℕ) (s : State Pc) : Prop where
  taskState : s.taskState = .interruptible → s.pc = .schedule
  start : s.stop = .start → paid.2 + due s = paid.1
  stopped : s.stop ≠ .start → paid.2 + (if s.pc = .connect then 1 else 0) ≤ paid.1

variable {s s' : State Pc} {paid : ℕ × ℕ}

/-- A write is answered once it finds the state set. -/
theorem Answered.wake (hanswered : Answered paid s) :
    Answered (paid + counts s .wake) { s with taskState := .running } := by
  obtain ⟨pc, taskState, stop⟩ := s
  cases taskState with
  | running =>
      have hpaid : paid + counts ⟨pc, .running, stop⟩ .wake = paid := by simp [counts]
      rw [hpaid]
      exact hanswered
  | interruptible =>
      obtain rfl : pc = .schedule := hanswered.taskState rfl
      have hstart := hanswered.start
      have hstopped := hanswered.stopped
      simp only [due] at hstart
      constructor
      case taskState => exact nofun
      case start =>
        intro h
        have hsame := hstart h
        simp [counts, due] at hsame ⊢
        omega
      case stopped =>
        intro h
        have hle := hstopped h
        simp [counts] at hle ⊢
        omega

theorem Answered.thread (hanswered : Answered paid s) {found : ℕ}
    (hexec : s.exec found (pollThread s.pc) = some s') :
    Answered (paid + counts s (.thread found)) s' := by
  obtain ⟨pc, taskState, stop⟩ := s
  obtain ⟨heard, sent⟩ := paid
  obtain ⟨hstate, hstart, hstopped⟩ := hanswered
  cases pc with
  | test =>
      cases hexec
      cases stop <;> constructor <;> simp_all [counts, due]
  | setState =>
      cases hexec
      constructor <;> simp_all [counts, due]
  | schedule =>
      simp only [pollThread, State.exec, Option.ite_none_right_eq_some, Option.some.injEq] at hexec
      obtain ⟨rfl, rfl⟩ := hexec
      constructor <;> simp_all [counts, due]
  | running =>
      cases hexec
      constructor <;> simp_all [counts, due]
  | recheck =>
      cases hexec
      cases stop <;> constructor <;> simp_all [counts, due]
  | connect =>
      cases hexec
      by_cases hfound : found = 0 <;> constructor <;> simp_all [counts, due]
  | send left =>
      cases left with
      | zero =>
          cases hexec
          constructor <;> simp_all [counts, due]
      | succ left =>
          cases hexec
          by_cases hfound : found = 0 <;> constructor <;> simp_all [counts, due]
  | ended => cases hexec

theorem Answered.stop (hanswered : Answered paid s)
    (hstop : s.kthreadStop (pollThread s.pc) s.stop = some s') :
    Answered (paid + counts s .stop) s' := by
  obtain ⟨pc, taskState, stop⟩ := s
  obtain ⟨heard, sent⟩ := paid
  obtain ⟨hstate, hstart, hstopped⟩ := hanswered
  cases stop with
  | start =>
      cases hstop
      refine ⟨hstate, nofun, fun _ => ?_⟩
      have hsame := hstart rfl
      cases pc <;> simp_all [counts, due] <;> omega
  | wake =>
      cases hstop
      exact ⟨nofun, nofun, fun _ => hstopped nofun⟩
  | wait =>
      cases pc with
      | ended =>
          cases hstop
          exact ⟨hstate, nofun, fun _ => hstopped nofun⟩
      | send left => cases left <;> cases hstop
      | _ => cases hstop
  | returned => cases hstop

theorem Answered.next (hanswered : Answered paid s) {label : Label}
    (hnext : poll.next s label = some s') : Answered (paid + counts s label) s' := by
  cases label with
  | thread found => exact hanswered.thread hnext
  | wake =>
      cases hnext
      exact hanswered.wake
  | stop => exact hanswered.stop hnext

/-! ## How the stop ends -/

/-- The loop of `send_loop` never has more rounds left than it starts with. -/
theorem left_le_of_run {labels : List Label} (hrun : poll.run poll.init labels = some s) :
    ∀ left, s.pc = .send left → left ≤ rounds := by
  have hreach : poll.Reachable s := Machine.ReachableUnder.init.run hrun
  refine hreach.invariant (P := fun s => ∀ left, s.pc = .send left → left ≤ rounds)
    (fun left hpc => by cases hpc) ?_
  intro before label after _ hbefore _ hlabel left hpc
  cases label with
  | thread found =>
      have hexec : before.exec found (pollThread before.pc) = some after := hlabel
      obtain ⟨pc, taskState, stop⟩ := before
      cases pc with
      | connect =>
          cases hexec
          by_cases hfound : found = 0
          · simp [hfound] at hpc
          · simp only [hfound, if_false, Pc.send.injEq] at hpc
            exact Nat.le_of_eq hpc.symm
      | send n =>
          have hle := hbefore n rfl
          cases n with
          | zero =>
              cases hexec
              cases hpc
          | succ n =>
              cases hexec
              by_cases hfound : found = 0
              · simp only [hfound, if_true, Pc.send.injEq] at hpc
                omega
              · simp only [hfound, if_false, Pc.send.injEq] at hpc
                omega
      | schedule =>
          simp only [pollThread, State.exec, Option.ite_none_right_eq_some,
            Option.some.injEq] at hexec
          obtain ⟨-, rfl⟩ := hexec
          cases hpc
      | ended => cases hexec
      | _ =>
          cases hexec
          cases stop <;> simp at hpc
  | wake =>
      cases hlabel
      exact hbefore left hpc
  | stop =>
      rw [(kthreadStop_cases hlabel).1] at hpc
      exact hbefore left hpc

/-- Once the flag is raised every statement but a send that fails brings the end nearer. -/
theorem statements_add_le (hraised : s.stop ≠ .start) {label : Label}
    (hnext : poll.next s label = some s') :
    s'.stop ≠ .start ∧ statements s label + rank s'.pc ≤ rank s.pc := by
  obtain ⟨pc, taskState, stop⟩ := s
  cases label with
  | thread found =>
      have hexec : State.exec ⟨pc, taskState, stop⟩ found (pollThread pc) = some s' := hnext
      refine ⟨(exec_cases hexec).1 ▸ hraised, ?_⟩
      cases pc with
      | schedule =>
          simp only [pollThread, State.exec, Option.ite_none_right_eq_some,
            Option.some.injEq] at hexec
          obtain ⟨-, rfl⟩ := hexec
          exact Nat.le_refl _
      | connect =>
          cases hexec
          by_cases hfound : found = 0
          · simp [hfound, statements, Pc.fails, rank]
          · simp only [hfound, statements, Pc.fails, rank, Bool.false_eq_true, if_false]
            omega
      | send left =>
          cases left with
          | zero =>
              cases hexec
              exact Nat.le_refl _
          | succ left =>
              cases hexec
              by_cases hfound : found = 0
              · simp [hfound, statements, Pc.fails]
              · simp only [hfound, statements, Pc.fails, rank, decide_false, Bool.false_eq_true,
                  if_false]
                omega
      | ended => cases hexec
      | _ =>
          cases hexec
          simp_all [statements, Pc.fails, rank]
  | wake =>
      cases hnext
      exact ⟨hraised, Nat.le_of_eq (Nat.zero_add _)⟩
  | stop =>
      obtain ⟨hsame, hstop, -⟩ := kthreadStop_cases hnext
      refine ⟨hstop, ?_⟩
      rw [hsame]
      exact Nat.le_of_eq (Nat.zero_add _)

/-- The statements of a run are bounded by where the thread stands. -/
theorem total_statements_le (hraised : s.stop ≠ .start) {guard : State Pc → Label → Prop}
    [∀ before label, Decidable (guard before label)] {labels : List Label}
    (hrun : poll.runUnder guard s labels = some s') :
    s'.stop ≠ .start ∧ poll.total statements s labels ≤ rank s.pc := by
  have hfinal : s'.stop ≠ .start ∧
      0 + poll.total statements s labels + rank s'.pc ≤ rank s.pc :=
    Machine.invariant_total
      (Q := fun paid after => after.stop ≠ .start ∧ paid + rank after.pc ≤ rank s.pc)
      (fun paid before label after hbefore _ hnext => by
        obtain ⟨hafter, hle⟩ := statements_add_le hbefore.1 hnext
        exact ⟨hafter, by omega⟩)
      hrun ⟨hraised, Nat.le_of_eq (Nat.zero_add _)⟩
  exact ⟨hfinal.1, by omega⟩

/-- As long as its sends fail the thread stays where it is. -/
theorem run_replicate_fails {left : ℕ} (hpc : s.pc = .send (left + 1)) (n : ℕ) :
    poll.run s (List.replicate n (.thread 0)) = some s := by
  induction n with
  | zero => rfl
  | succ n ih =>
      obtain ⟨pc, taskState, stop⟩ := s
      obtain rfl : pc = .send (left + 1) := hpc
      exact ih

/-- The thread does not come to set its state without a test. -/
theorem pollThread_clear : Clear pollThread fun pc => pc ≠ .setState where
  leads := by
    intro before pc _ hleads
    cases before with
    | connect =>
        obtain ⟨found, rfl⟩ := hleads
        by_cases hfound : found = 0 <;> simp [hfound]
    | send left =>
        cases left with
        | zero =>
            obtain ⟨-, rfl⟩ := hleads
            exact nofun
        | succ left =>
            obtain ⟨found, rfl⟩ := hleads
            by_cases hfound : found = 0 <;> simp [hfound]
    | ended => exact hleads.elim
    | _ =>
        cases hleads
        exact nofun
  setState := by
    intro pc next hpc hcode
    cases pc with
    | setState => exact hpc rfl
    | send left => cases left <;> cases hcode
    | _ => cases hcode

/-- The thread was stopped and woken before it set its state. -/
structure Missed (s : State Pc) : Prop where
  stop : s.stop = .wait
  asleep : s.pc = .setState ∨ s.pc = .schedule ∧ s.taskState = .interruptible

theorem Missed.next (hmissed : Missed s) {label : Label} (hremoved : Removed s label)
    (hnext : poll.next s label = some s') : Missed s' := by
  obtain ⟨pc, taskState, stop⟩ := s
  obtain ⟨rfl, rfl | ⟨rfl, rfl⟩⟩ := hmissed
  · cases label with
    | thread found =>
        cases hnext
        exact ⟨rfl, .inr ⟨rfl, rfl⟩⟩
    | wake => exact hremoved.elim
    | stop => cases hnext
  · cases label with
    | thread found => cases hnext
    | wake => exact hremoved.elim
    | stop => cases hnext

/-- A write that is answered, and the flag when the thread has tested it again. -/
def answeredRun : List Label :=
  [.thread 0, .thread 0, .wake, .thread 0, .thread 0, .thread 0, .thread 0, .thread 0, .stop]

end KtcpSplit.Poll
