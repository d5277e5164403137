import KtcpSplit.Duplex.Workers

/-!
# The references of a worker balance

At every statement a thread owes as many `put_qp` as it still has to make.  What
a worker has taken is what it dropped, what its threads owe and what its exits
leaked.
-/

namespace KtcpSplit.Workers

open KtcpSplit.Rendezvous (Dir)
open KtcpSplit.Transition

/-! ## One worker -/

/-- The references that a call of `half_duplex` still has to drop. -/
def duplexOwed : HalfDuplex.Pc → ℕ
  | .err => 0
  | .done => 0
  | _ => 1

/-- The references that a thread has taken and not dropped. -/
def Pc.owed : Pc → ℕ
  | .wait => 1
  | .waitPut => 1
  | .check => 1
  | .checkPut => 1
  | .getSecond => 1
  | .handOver => 2
  | .duplex _ pc => duplexOwed pc
  | _ => 0

/-- No reference was taken yet. -/
def Pc.early : Pc → Bool
  | .idle => true
  | .start => true
  | .connect => true
  | .forward => true
  | .ready => true
  | .waitGet => true
  | .wakeGet => true
  | .getFirst => true
  | _ => false

/-- The sockets of the worker are stored and no reference was taken yet. -/
def Pc.stored : Pc → Bool
  | .forward => true
  | .ready => true
  | .waitGet => true
  | .wakeGet => true
  | .getFirst => true
  | _ => false

/-- A second thread may have been started. -/
def Pc.late : Pc → Bool
  | .duplex _ _ => true
  | .ended => true
  | .oops => true
  | _ => false

/-- The references that the worker still has to drop, and those that it no longer
can. -/
def Worker.due (ws : Worker) : ℕ :=
  (ws.pc .main).owed + (ws.pc .second).owed + ws.leaks.length

structure Worker.Inv (ws : Worker) : Prop where
  balance : ws.gets = ws.puts + ws.due
  early : (ws.pc .main).early = true → ws.gets = 0
  second : (ws.pc .main).late = false → ws.pc .second = .idle

def Effect.gets : Effect → ℕ
  | .get => 1
  | _ => 0

def Effect.puts : Effect → ℕ
  | .put => 1
  | _ => 0

/-- What one step of a worker means for its references and its QP. -/
structure Stepped (ws ws' : Worker) (effect : Effect) : Prop where
  gets : ws'.gets = ws.gets
  puts : ws'.puts = ws.puts
  due : ws'.due + effect.puts = ws.due + effect.gets
  early : (ws'.pc .main).early = true → (ws.pc .main).early = true ∧ effect.gets = 0
  second : (ws'.pc .main).late = false → ws'.pc .second = .idle
  same : (ws.pc .main).early = true ∨ ws'.qp = ws.qp ∧ ws'.fn = ws.fn
  stored : (ws'.pc .main).stored = true ∨ effect = .get → effect = .store ∨
    ((ws.pc .main).stored = true ∨ 0 < ws.due) ∧ ws'.qp = ws.qp ∧ ws'.fn = ws.fn

variable {ws ws' : Worker} {effect : Effect}

@[simp]
theorem setPc_main (ws : Worker) (pc : Pc) : (ws.setPc .main pc).pc .main = pc := rfl

@[simp]
theorem setPc_main_second (ws : Worker) (pc : Pc) :
    (ws.setPc .main pc).pc .second = ws.pc .second := rfl

theorem due_setPc_main (ws : Worker) (pc : Pc) :
    (ws.setPc .main pc).due = pc.owed + (ws.pc .second).owed + ws.leaks.length := rfl

theorem due_setPc_second (ws : Worker) (pc : Pc) :
    (ws.setPc .second pc).due = (ws.pc .main).owed + pc.owed + ws.leaks.length := rfl

theorem Stepped.inv (hstep : Stepped ws ws' effect) (hinv : ws.Inv) :
    (ws'.count effect).Inv where
  balance := by
    have hbalance : ws'.gets + effect.gets = ws'.puts + effect.puts + ws'.due := by
      have hdue := hstep.due
      have hbefore := hinv.balance
      rw [hstep.gets, hstep.puts]
      omega
    cases effect <;> exact hbalance
  early := by
    intro hearly
    have hpc : (ws'.pc .main).early = true := by
      cases effect <;> exact hearly
    obtain ⟨hbefore, hzero⟩ := hstep.early hpc
    have hgets : ws'.gets = 0 := hstep.gets.trans (hinv.early hbefore)
    cases effect
    case get => cases hzero
    all_goals exact hgets
  second := by
    intro hlate
    cases effect <;> exact hstep.second hlate

/-- The main thread goes on from `pc` to `pc'` without an exit that leaks. -/
theorem Worker.Inv.goOn (hinv : ws.Inv) {pc : Pc} (hpc : ws.pc .main = pc) (pc' : Pc)
    (effect : Effect) (howed : pc'.owed + effect.puts = pc.owed + effect.gets)
    (hearly : pc'.early = true → pc.early = true ∧ effect.gets = 0)
    (hlate : pc'.late = false → pc.late = false)
    (hstored : pc'.stored = true ∨ effect = .get →
      effect = .store ∨ pc.stored = true ∨ 0 < pc.owed) :
    Stepped ws (ws.setPc .main pc') effect where
  gets := rfl
  puts := rfl
  due := by
    rw [due_setPc_main, Worker.due, hpc]
    omega
  early := by
    rw [setPc_main, hpc]
    exact hearly
  second := by
    rw [setPc_main, setPc_main_second]
    intro h
    exact hinv.second (hpc ▸ hlate h)
  same := .inr ⟨rfl, rfl⟩
  stored := by
    rw [setPc_main, hpc]
    intro h
    rcases hstored h with heffect | hbefore | howes
    · exact .inl heffect
    · exact .inr ⟨.inl hbefore, rfl, rfl⟩
    · refine .inr ⟨.inr ?_, rfl, rfl⟩
      rw [Worker.due, hpc]
      omega

/-- Nothing was taken yet, and the worker goes on with another QP or another
function. -/
theorem Worker.Inv.turn (hinv : ws.Inv) {pc : Pc} (hpc : ws.pc .main = pc)
    (hpcEarly : pc.early = true) (hpcLate : pc.late = false) (hpcOwed : pc.owed = 0)
    (hfields : ws'.gets = ws.gets ∧ ws'.puts = ws.puts ∧ ws'.leaks = ws.leaks)
    (hsecond : ws'.pc .second = ws.pc .second) (howed : (ws'.pc .main).owed = 0)
    (hstored : (ws'.pc .main).stored = true → effect = .store)
    (hgets : effect.gets = 0) (hputs : effect.puts = 0) :
    Stepped ws ws' effect where
  gets := hfields.1
  puts := hfields.2.1
  due := by
    rw [Worker.due, Worker.due, hpc, hsecond, howed, hpcOwed, hfields.2.2, hgets, hputs]
  early := fun _ => ⟨hpc ▸ hpcEarly, hgets⟩
  second := fun _ => hsecond.trans (hinv.second (hpc ▸ hpcLate))
  same := .inl (hpc ▸ hpcEarly)
  stored := by
    rintro (hpc' | heffect)
    · exact .inl (hstored hpc')
    · rw [heffect] at hgets
      cases hgets

/-! ## The steps of a worker -/

theorem owed_after (valid : Bool) (pc' : HalfDuplex.Pc) :
    (if pc' = .done then Pc.ended else .duplex valid pc').owed = duplexOwed pc' := by
  split
  · rename_i hdone
    rw [hdone]
    rfl
  · rfl

theorem late_after (valid : Bool) (pc' : HalfDuplex.Pc) :
    (if pc' = .done then Pc.ended else .duplex valid pc').late = true := by
  split <;> rfl

/-- A step of `half_duplex` drops the reference, leaks it, or still owes it. -/
theorem owed_next {pc pc' : HalfDuplex.Pc} {outcome : HalfDuplex.Outcome Unit}
    (hnext : pc.next outcome = some pc') :
    duplexOwed pc' + (duplexLeaks pc outcome).length + (duplexEffect pc).puts =
      duplexOwed pc := by
  cases pc with
  | alloc i =>
      cases outcome <;> try cases hnext
      case page allocated =>
        cases allocated <;> simp only [HalfDuplex.Pc.next, Option.some.injEq] at hnext
        case false => cases hnext; rfl
        case true => split at hnext <;> cases hnext <;> rfl
  | recv =>
      cases outcome <;> simp only [HalfDuplex.Pc.next, reduceCtorEq] at hnext
      case received bytes => split at hnext <;> cases hnext; rfl
      case recvFailed rc => split at hnext <;> cases hnext; rfl
  | recvPut => cases outcome <;> cases hnext; rfl
  | send count =>
      cases outcome <;> simp only [HalfDuplex.Pc.next, reduceCtorEq] at hnext
      case sent accepted => split at hnext <;> cases hnext; rfl
      case sendFailed rc => split at hnext <;> cases hnext; rfl
  | sendPut => cases outcome <;> cases hnext; rfl
  | test =>
      cases outcome <;> simp only [HalfDuplex.Pc.next, reduceCtorEq] at hnext
      case stop should => cases should <;> cases hnext <;> rfl
  | err => cases outcome <;> cases hnext; rfl
  | done => cases outcome <;> cases hnext

theorem stepDuplex_some {role : Role} {valid : Bool} {pc : HalfDuplex.Pc}
    {outcome : HalfDuplex.Outcome Unit}
    (hstep : stepDuplex ws role valid pc outcome = some (ws', effect)) :
    ∃ pc' leaks, ws' = { ws.setPc role pc' with leaks := leaks } ∧ pc'.late = true ∧
      effect ≠ .get ∧
      pc'.owed + leaks.length + effect.puts = duplexOwed pc + ws.leaks.length := by
  unfold stepDuplex at hstep
  split at hstep
  case h_1 count =>
    cases hstep
    refine ⟨.oops, .send :: ws.leaks, rfl, rfl, Effect.noConfusion, ?_⟩
    calc
      0 + (ws.leaks.length + 1) + 0 = ws.leaks.length + 1 := Nat.zero_add _
      _ = 1 + ws.leaks.length := Nat.add_comm _ _
  case h_2 =>
    obtain ⟨pc', hnext, heq⟩ := Option.map_eq_some_iff.mp hstep
    cases heq
    refine ⟨_, _, rfl, late_after valid pc', ?_, ?_⟩
    · cases pc <;> exact Effect.noConfusion
    · have howed := owed_next hnext
      rw [owed_after, List.length_append]
      omega

theorem early_of_late {pc : Pc} (hlate : pc.late = true) :
    pc.early = false ∧ pc.stored = false := by
  cases pc <;> first | exact ⟨rfl, rfl⟩ | cases hlate

theorem Effect.gets_eq_zero (hget : effect ≠ .get) : effect.gets = 0 := by
  cases effect
  case get => exact absurd rfl hget
  all_goals rfl

/-- Once the main thread is late, it is enough that what is due is accounted for. -/
theorem Stepped.ofLate (hgets : ws'.gets = ws.gets) (hputs : ws'.puts = ws.puts)
    (hqp : ws'.qp = ws.qp) (hfn : ws'.fn = ws.fn) (hlate : (ws'.pc .main).late = true)
    (hget : effect ≠ .get) (hdue : ws'.due + effect.puts = ws.due) :
    Stepped ws ws' effect where
  gets := hgets
  puts := hputs
  due := by rw [hdue, Effect.gets_eq_zero hget, Nat.add_zero]
  early := fun h => absurd ((early_of_late hlate).1.symm.trans h) Bool.false_ne_true
  second := fun h => absurd (h.symm.trans hlate) Bool.false_ne_true
  same := .inr ⟨hqp, hfn⟩
  stored := by
    rintro (h | h)
    · exact absurd ((early_of_late hlate).2.symm.trans h) Bool.false_ne_true
    · exact absurd h hget

theorem Worker.Inv.duplex (hinv : ws.Inv) {role : Role} {valid : Bool}
    {pc : HalfDuplex.Pc} {outcome : HalfDuplex.Outcome Unit}
    (hpc : ws.pc role = .duplex valid pc)
    (hstep : stepDuplex ws role valid pc outcome = some (ws', effect)) :
    Stepped ws ws' effect := by
  obtain ⟨pc', leaks, rfl, hlate, hget, hdue⟩ := stepDuplex_some hstep
  have howed : (ws.pc role).owed = duplexOwed pc := by
    rw [hpc]
    rfl
  cases role with
  | main =>
      refine .ofLate rfl rfl rfl rfl hlate hget ?_
      change pc'.owed + (ws.pc .second).owed + leaks.length + effect.puts =
        (ws.pc .main).owed + (ws.pc .second).owed + ws.leaks.length
      omega
  | second =>
      -- a second thread is only started by a main thread that is late
      have hbefore : (ws.pc .main).late = true := by
        by_contra hearly
        have hidle := hinv.second (Bool.not_eq_true _ ▸ hearly)
        rw [hpc] at hidle
        cases hidle
      refine .ofLate rfl rfl rfl rfl hbefore hget ?_
      change (ws.pc .main).owed + pc'.owed + leaks.length + effect.puts =
        (ws.pc .main).owed + (ws.pc .second).owed + ws.leaks.length
      omega

theorem Worker.Inv.ofQp (hinv : ws.Inv) (hpc : ws.pc .main = .start) (q : ℕ) :
    Stepped ws (stepQp { ws with qp := q }).1 (stepQp { ws with qp := q }).2 := by
  unfold stepQp
  split
  case h_1 =>
    exact hinv.turn hpc rfl rfl rfl ⟨rfl, rfl, rfl⟩ rfl rfl Bool.noConfusion rfl rfl
  all_goals exact hinv.turn hpc rfl rfl rfl ⟨rfl, rfl, rfl⟩ rfl rfl (fun _ => rfl) rfl rfl

theorem Worker.Inv.fallBack (hinv : ws.Inv) {pc : Pc} (hpc : ws.pc .main = pc)
    (hpcEarly : pc.early = true) (hpcLate : pc.late = false) (hpcOwed : pc.owed = 0) :
    Stepped ws (fallBack ws) .nothing :=
  hinv.turn hpc hpcEarly hpcLate hpcOwed ⟨rfl, rfl, rfl⟩ rfl rfl Bool.noConfusion rfl rfl

theorem Worker.Inv.check (hinv : ws.Inv) (hpc : ws.pc .main = .check) (valid : Bool) :
    Stepped ws (stepCheck ws valid) .nothing := by
  unfold stepCheck
  split
  case h_1 => exact hinv.goOn hpc _ _ rfl (by decide) (by decide) (by decide)
  case h_2 =>
    refine .ofLate rfl rfl rfl rfl rfl (by decide) ?_
    rw [due_setPc_main, Worker.due, hpc]
    change 0 + (ws.pc .second).owed + (ws.leaks.length + 1) =
      1 + (ws.pc .second).owed + ws.leaks.length
    omega
  case h_3 =>
    refine .ofLate rfl rfl rfl rfl rfl (by decide) ?_
    rw [due_setPc_main, Worker.due, hpc]
    rfl

/-- The second reference goes to the second thread, if there is one. -/
theorem Worker.Inv.handOver (hinv : ws.Inv) (hpc : ws.pc .main = .handOver) :
    Stepped ws ((ws.setPc .main (.duplex true (.alloc 0))).setPc .second
      (.duplex true (.alloc 0))) .nothing := by
  have hidle := hinv.second (hpc ▸ rfl)
  refine .ofLate rfl rfl rfl rfl rfl (by decide) ?_
  rw [due_setPc_second, Worker.due, hpc, hidle]
  rfl

theorem Worker.Inv.main (hinv : ws.Inv) {act : Act}
    (hstep : stepMain ws (ws.pc .main) act = some (ws', effect)) :
    Stepped ws ws' effect := by
  generalize hpc : ws.pc .main = pc at hstep
  cases pc with
  | start =>
      cases act with
      | qp q =>
          have hqp := hinv.ofQp hpc q
          rw [Option.some.inj hstep] at hqp
          exact hqp
      | poolEmpty =>
          simp only [stepMain] at hstep
          split at hstep <;> cases hstep
          exact hinv.fallBack hpc rfl rfl rfl
      | duplicate =>
          cases hstep
          split <;> exact hinv.goOn hpc _ _ rfl (by decide) (by decide) (by decide)
      | fail =>
          cases hstep
          exact hinv.goOn hpc _ _ rfl (by decide) (by decide) (by decide)
      | _ => cases hstep
  | forward =>
      cases act <;> cases hstep
      · exact hinv.goOn hpc _ _ rfl (by decide) (by decide) (by decide)
      · exact hinv.fallBack hpc rfl rfl rfl
  | ready =>
      cases act with
      | peer valid =>
          cases hstep
          cases valid <;> exact hinv.goOn hpc _ _ rfl (by decide) (by decide) (by decide)
      | _ => cases hstep
  | check =>
      cases act <;> cases hstep
      exact hinv.check hpc _
  | handOver =>
      cases act <;> cases hstep
      · exact hinv.handOver hpc
      · refine .ofLate rfl rfl rfl rfl rfl (by decide) ?_
        rw [due_setPc_main, Worker.due, hpc]
        change 1 + (ws.pc .second).owed + (ws.leaks.length + 1) =
          2 + (ws.pc .second).owed + ws.leaks.length
        omega
  | duplex valid pc =>
      cases act with
      | duplex outcome => exact hinv.duplex hpc hstep
      | _ => cases hstep
  | _ =>
      -- the other statements go on, and take or drop what their `Pc` says
      cases act <;> cases hstep <;>
        exact hinv.goOn hpc _ _ rfl (by decide) (by decide) (by decide)

theorem Worker.Inv.step (hinv : ws.Inv) {role : Role} {act : Act}
    (hstep : stepWorker ws role act = some (ws', effect)) : Stepped ws ws' effect := by
  cases role with
  | main => exact hinv.main hstep
  | second =>
      change stepSecond ws (ws.pc .second) act = _ at hstep
      generalize hpc : ws.pc .second = pc at hstep
      unfold stepSecond at hstep
      split at hstep
      · exact hinv.duplex hpc hstep
      · cases hstep

end KtcpSplit.Workers
