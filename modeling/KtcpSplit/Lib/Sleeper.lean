import KtcpSplit.Lib.Ranking

/-!
# Threads that sleep until they are woken

A thread sets its state before it sleeps and a wake-up sets the state back, so a wake-up
that comes in between is not missed.  Who stops the thread raises a flag, wakes the thread
and waits for its end; whether the thread gets there is a question of where it tests the
flag.
-/

namespace KtcpSplit.Sleeper

open KtcpSplit.Transition

inductive TaskState
  | running
  | interruptible
  deriving DecidableEq

/-- What stands at a place of the code. -/
inductive Instr (Pc : Type*)
  /-- A test of the flag, and where the thread goes on. -/
  | shouldStop (stop go : Pc)
  | setState (taskState : TaskState) (next : Pc)
  /-- The thread sleeps here unless its state is `running`. -/
  | schedule (next : Pc)
  /-- Any other statement; where the thread goes on depends on what it finds. -/
  | work (next : ℕ → Pc)
  | exit

/-- The next statement of who stops the thread. -/
inductive StopPc
  /-- The flag is raised. -/
  | start
  | wake
  /-- The thread has not ended. -/
  | wait
  | returned
  deriving DecidableEq

structure State (Pc : Type*) where
  pc : Pc
  taskState : TaskState
  stop : StopPc
  deriving DecidableEq

inductive Label
  | thread (found : ℕ)
  | wake
  | stop

def Label.ofThread : Label → Bool
  | .thread _ => true
  | _ => false

variable {Pc : Type*}

def State.exec (s : State Pc) (found : ℕ) : Instr Pc → Option (State Pc)
  | .shouldStop stop go => some { s with pc := if s.stop = .start then go else stop }
  | .setState taskState next => some { s with pc := next, taskState := taskState }
  | .schedule next => if s.taskState = .running then some { s with pc := next } else none
  | .work next => some { s with pc := next found }
  | .exit => none

def State.kthreadStop (s : State Pc) (instr : Instr Pc) : StopPc → Option (State Pc)
  | .start => some { s with stop := .wake }
  | .wake => some { s with taskState := .running, stop := .wait }
  | .wait =>
      match instr with
      | .exit => some { s with stop := .returned }
      | _ => none
  | .returned => none

/-- A thread, those who wake it, and the one who stops it. -/
def sleeper (code : Pc → Instr Pc) (start : Pc) : Machine (State Pc) Label where
  init := ⟨start, .running, .start⟩
  next := fun s label =>
    match label with
    | .thread found => s.exec found (code s.pc)
    | .wake => some { s with taskState := .running }
    | .stop => s.kthreadStop (code s.pc) s.stop

/-! ## Where the flag is tested -/

/-- Where a statement leads other than past a test of the flag. -/
def Instr.Leads : Instr Pc → Pc → Prop
  | .shouldStop stop _, pc => pc = stop
  | .setState _ next, pc => pc = next
  | .schedule next, pc => pc = next
  | .work next, pc => ∃ found, pc = next found
  | .exit, _ => False

/-- Right before a thread sleeps it tests the flag, with its state set. -/
def Rechecks (code : Pc → Instr Pc) : Prop :=
  ∀ before pc next, (code before).Leads pc → code pc ≠ .schedule next

/-- Once the flag is raised every statement brings the end nearer. -/
def Winds (code : Pc → Instr Pc) (rank : Pc → ℕ) : Prop :=
  ∀ before pc, (code before).Leads pc → rank pc < rank before

variable {code : Pc → Instr Pc} {start : Pc} {s s' : State Pc} {rank : Pc → ℕ}

/-- A statement of the thread leads past a test of the flag that was not raised, or on one
of the other ways. -/
theorem exec_cases {found : ℕ} {instr : Instr Pc} (hexec : s.exec found instr = some s') :
    s'.stop = s.stop ∧ (instr.Leads s'.pc ∨ s.stop = .start) := by
  cases instr with
  | shouldStop stop go =>
      cases hexec
      refine ⟨rfl, ?_⟩
      by_cases hstart : s.stop = .start
      · exact .inr hstart
      · exact .inl (if_neg hstart)
  | setState taskState next =>
      cases hexec
      exact ⟨rfl, .inl rfl⟩
  | schedule next =>
      simp only [State.exec, Option.ite_none_right_eq_some, Option.some.injEq] at hexec
      obtain ⟨-, rfl⟩ := hexec
      exact ⟨rfl, .inl rfl⟩
  | work next =>
      cases hexec
      exact ⟨rfl, .inl ⟨found, rfl⟩⟩
  | exit => cases hexec

/-- What a statement of who stops the thread leaves. -/
theorem kthreadStop_cases {instr : Instr Pc} {stop : StopPc}
    (hstop : s.kthreadStop instr stop = some s') :
    s'.pc = s.pc ∧ s'.stop ≠ .start ∧
      (s'.stop = .wake ∨ s'.stop = .wait ∧ s'.taskState = .running ∨
        s'.stop = .returned ∧ instr = .exit) := by
  cases stop with
  | start =>
      cases hstop
      exact ⟨rfl, nofun, .inl rfl⟩
  | wake =>
      cases hstop
      exact ⟨rfl, nofun, .inr (.inl ⟨rfl, rfl⟩)⟩
  | wait =>
      cases instr <;> cases hstop
      exact ⟨rfl, nofun, .inr (.inr ⟨rfl, rfl⟩)⟩
  | returned => cases hstop

/-- Only a statement that sets the state lets the thread sleep. -/
theorem exec_running {found : ℕ} {instr : Instr Pc} (hexec : s.exec found instr = some s')
    (hrunning : s.taskState = .running) (hinstr : ∀ next, instr ≠ .setState .interruptible next) :
    s'.taskState = .running := by
  cases instr with
  | setState taskState next =>
      cases taskState with
      | running =>
          cases hexec
          rfl
      | interruptible => exact absurd rfl (hinstr next)
  | schedule next =>
      simp only [State.exec, if_pos hrunning, Option.some.injEq] at hexec
      subst hexec
      exact hrunning
  | exit => cases hexec
  | _ =>
      cases hexec
      exact hrunning

theorem kthreadStop_running {instr : Instr Pc} {stop : StopPc}
    (hstop : s.kthreadStop instr stop = some s') (hrunning : s.taskState = .running) :
    s'.taskState = .running := by
  cases stop with
  | start =>
      cases hstop
      exact hrunning
  | wake =>
      cases hstop
      rfl
  | wait =>
      cases instr <;> cases hstop
      exact hrunning
  | returned => cases hstop

/-! ## A stop that is not missed -/

/-- A thread that tests the flag before it sleeps is not asleep once it was stopped and
woken, whoever else wakes it and whenever the stop comes. -/
theorem Rechecks.running (hrechecks : Rechecks code) (hstart : ∀ next, code start ≠ .schedule next)
    (hreach : (sleeper code start).Reachable s) {next : Pc} (hpc : code s.pc = .schedule next)
    (hstop : s.stop ≠ .start) (hwake : s.stop ≠ .wake) : s.taskState = .running := by
  refine hreach.invariant (P := fun s => ∀ next, code s.pc = .schedule next → s.stop ≠ .start →
    s.stop ≠ .wake → s.taskState = .running) ?_ ?_ next hpc hstop hwake
  · intro next hcode
    exact absurd hcode (hstart next)
  · intro before label after _ hbefore _ hlabel next hcode hstop hwake
    cases label with
    | thread found =>
        obtain ⟨hsame, hleads | hnot⟩ := exec_cases hlabel
        · exact absurd hcode (hrechecks _ _ _ hleads)
        · exact absurd (hsame.trans hnot) hstop
    | wake =>
        cases hlabel
        rfl
    | stop =>
        obtain ⟨hsame, -, hwoken | ⟨-, hrunning⟩ | ⟨-, hexit⟩⟩ := kthreadStop_cases hlabel
        · exact absurd hwoken hwake
        · exact hrunning
        · rw [hsame, hexit] at hcode
          cases hcode

/-- Once the flag is raised the thread has a bounded number of statements left, and the flag
stays. -/
theorem Winds.countP_le (hwinds : Winds code rank) {guard : State Pc → Label → Prop}
    [∀ before label, Decidable (guard before label)] (hstop : s.stop ≠ .start)
    {labels : List Label} (hrun : (sleeper code start).runUnder guard s labels = some s') :
    s'.stop ≠ .start ∧ labels.countP Label.ofThread ≤ rank s.pc := by
  have hle := Machine.countP_add_le Label.ofThread (fun s : State Pc => rank s.pc)
    (P := fun s => s.stop ≠ .start) ?_ hstop hrun
  · exact ⟨hle.1, Nat.le_of_add_right_le hle.2⟩
  · intro before label after hbefore _ hlabel
    cases label with
    | thread found =>
        obtain ⟨hsame, hleads | hnot⟩ := exec_cases hlabel
        · have hless := hwinds _ _ hleads
          refine ⟨hsame ▸ hbefore, ?_⟩
          simp only [Label.ofThread, if_true]
          omega
        · exact absurd hnot hbefore
    | wake =>
        cases hlabel
        exact ⟨hbefore, Nat.le_of_eq (Nat.zero_add _)⟩
    | stop =>
        obtain ⟨hsame, hstop, -⟩ := kthreadStop_cases hlabel
        refine ⟨hstop, ?_⟩
        rw [hsame]
        exact Nat.le_of_eq (Nat.zero_add _)

/-- Places from which, once the flag is raised, the thread does not set its state any
more. -/
structure Clear (code : Pc → Instr Pc) (R : Pc → Prop) : Prop where
  leads : ∀ before pc, R before → (code before).Leads pc → R pc
  setState : ∀ pc next, R pc → code pc ≠ .setState .interruptible next

/-- A thread that is stopped and woken at such a place stays awake. -/
theorem Clear.running {R : Pc → Prop} (hclear : Clear code R) {guard : State Pc → Label → Prop}
    [∀ before label, Decidable (guard before label)] (hstop : s.stop ≠ .start)
    (hrunning : s.taskState = .running) (hpc : R s.pc) {labels : List Label}
    (hrun : (sleeper code start).runUnder guard s labels = some s') :
    s'.taskState = .running := by
  have hfinal := (Machine.countP_add_le (fun _ => false) (fun _ => 0)
    (P := fun s => s.stop ≠ .start ∧ s.taskState = .running ∧ R s.pc) ?_
    ⟨hstop, hrunning, hpc⟩ hrun).1
  · exact hfinal.2.1
  · rintro before label after ⟨hstop, hrunning, hpc⟩ - hlabel
    refine ⟨?_, Nat.le_refl _⟩
    cases label with
    | thread found =>
        obtain ⟨hsame, hleads | hnot⟩ := exec_cases hlabel
        · exact ⟨hsame ▸ hstop, exec_running hlabel hrunning fun next => hclear.setState _ next hpc,
            hclear.leads _ _ hpc hleads⟩
        · exact absurd hnot hstop
    | wake =>
        cases hlabel
        exact ⟨hstop, rfl, hpc⟩
    | stop =>
        obtain ⟨hsame, hstop', -⟩ := kthreadStop_cases hlabel
        exact ⟨hstop', kthreadStop_running hlabel hrunning, hsame ▸ hpc⟩

/-- A thread that is not asleep goes on or has ended. -/
theorem exec_isSome (hawake : ∀ next, code s.pc = .schedule next → s.taskState = .running) :
    (s.exec 0 (code s.pc)).isSome ∨ code s.pc = .exit := by
  cases hcode : code s.pc with
  | schedule next =>
      refine .inl ?_
      simp only [State.exec, if_pos (hawake next hcode), Option.isSome_some]
  | exit => exact .inr rfl
  | _ => exact .inl rfl

/-- A stop is over only when the thread has ended. -/
theorem exit_of_returned (hreach : (sleeper code start).Reachable s)
    (hreturned : s.stop = .returned) :
    code s.pc = .exit := by
  refine hreach.invariant (P := fun s => s.stop = .returned → code s.pc = .exit)
    (fun hreturned => by cases hreturned) ?_ hreturned
  intro before label after _ hbefore _ hlabel hreturned
  cases label with
  | thread found =>
      have hexec : before.exec found (code before.pc) = some after := hlabel
      rw [hbefore ((exec_cases hexec).1 ▸ hreturned)] at hexec
      cases hexec
  | wake =>
      cases hlabel
      exact hbefore hreturned
  | stop =>
      obtain ⟨hsame, -, hwake | ⟨hwait, -⟩ | ⟨-, hexit⟩⟩ := kthreadStop_cases hlabel
      · rw [hwake] at hreturned
        cases hreturned
      · rw [hwait] at hreturned
        cases hreturned
      · rw [hsame]
        exact hexit

/-- If the thread is awake whenever it was stopped and woken, the stop comes to its end. -/
theorem returned_of_stuck (hstop : s.stop ≠ .start)
    (hawake : s.stop = .wait → ∀ next, code s.pc = .schedule next → s.taskState = .running)
    (hstuck : (sleeper code start).Stuck (fun _ label => label ≠ .wake) s) :
    s.stop = .returned := by
  have hnone : s.kthreadStop (code s.pc) s.stop = none := hstuck .stop nofun
  cases hcases : s.stop with
  | start => exact absurd hcases hstop
  | wake =>
      rw [hcases] at hnone
      cases hnone
  | wait =>
      rcases exec_isSome (hawake hcases) with hgoes | hexit
      · have hthread : s.exec 0 (code s.pc) = none := hstuck (.thread 0) nofun
        rw [hthread] at hgoes
        cases hgoes
      · rw [hcases, hexit] at hnone
        cases hnone
  | returned => rfl

end KtcpSplit.Sleeper
