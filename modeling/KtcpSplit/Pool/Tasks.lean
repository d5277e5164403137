import KtcpSplit.Pool.Cycle

/-!
# Every submitted task runs exactly once

The steps of a submission keep to the element that it got, and the steps of a
thread to its own element, so a step moves one element to its next stage and
leaves the others where they are.
-/

namespace KtcpSplit.Pool

open KtcpSplit.Bag
open KtcpSplit.Transition

variable {S Func Data : Type*} {cfg : Config S Func Data}
  {s s' : State S Func Data}

/-! ## Steps -/

/-- A step that keeps the books only has to account for the element it works on. -/
theorem Inv.turn (hinv : Inv cfg s) (e : ℕ)
    (hframe : ∀ e', e' ≠ e → s'.view e' = s.view e')
    (hstage : Stage cfg e (s'.view e))
    (haccounted : ∀ x, Accounted cfg s' x (s'.submission x))
    (hallocator : bag.ReachableUnder NotInside s'.allocator)
    (hstray : s'.runs none = s.runs none)
    (htwice : s'.allocatedTwice = s.allocatedTwice) (hnoTask : s'.noTask = s.noTask) :
    Inv cfg s' where
  stage := by
    intro e'
    by_cases he : e' = e
    · rw [he]
      exact hstage
    · rw [hframe e' he]
      exact hinv.stage e'
  accounted := haccounted
  allocator := hallocator
  stray := hstray.trans hinv.stray
  allocatedTwice := htwice.trans hinv.allocatedTwice
  noTask := hnoTask.trans hinv.noTask

theorem Accounted.frame {x : S} {pc : RunPc} (haccounted : Accounted cfg s x pc)
    (hruns : s'.runs (some x) = s.runs (some x))
    (howner : ∀ e, s.owner e = some x → s'.owner e = some x ∨
      pc = .done e ∧ s.runs (some x) = [cfg.task x]) :
    Accounted cfg s' x pc := by
  cases pc with
  | start => exact hruns.trans haccounted
  | failed => exact hruns.trans haccounted
  | done e =>
      rcases haccounted with hown | hran
      · rcases howner e hown with hown' | ⟨-, hran⟩
        · exact .inl hown'
        · exact .inr (hruns.trans hran)
      · exact .inr (hruns.trans hran)
  | check e => exact (howner e haccounted).resolve_right fun h => nomatch h.1
  | storeTask e => exact (howner e haccounted).resolve_right fun h => nomatch h.1
  | storeData e => exact (howner e haccounted).resolve_right fun h => nomatch h.1
  | wake e => exact (howner e haccounted).resolve_right fun h => nomatch h.1

/-- A submission that got no element owns none. -/
theorem Inv.not_owner (hinv : Inv cfg s) {x : S} (hstart : s.submission x = .start)
    (e : ℕ) : s.owner e ≠ some x := by
  intro howner
  have helem := hinv.owner_elem howner
  rw [hstart] at helem
  cases helem

/-- An element whose submission is not over sleeps outside. -/
theorem Inv.claimed (hinv : Inv cfg s) {x : S} {e : ℕ} {pc : RunPc}
    (howner : s.owner e = some x) (hsubmission : s.submission x = pc)
    (hpc : pc ≠ .done e) :
    e < s.next ∧ e ∉ s.allocator.held ∧ s.thread e = asleep ∧
      Filled cfg x (s.elem e) pc ∧ (s.view e).runs = [] := by
  have hpending : (s.view e).submission = some pc := by
    simp only [State.view, howner, Option.map_some, hsubmission]
  exact (hinv.stage e).of_submission howner hpending hpc

theorem Inv.refillPool (hinv : Inv cfg s) (hnext : s.refillPool = some s') :
    Inv cfg s' := by
  cases hnext
  obtain ⟨houtside, howner⟩ := (hinv.stage s.next).uncreated_of_not_created (Nat.lt_irrefl _)
  apply hinv.turn s.next
  case hframe =>
    intro e' hne
    have hcreated : (e' < s.next + 1) = (e' < s.next) :=
      propext ⟨fun hlt => by omega, fun hlt => by omega⟩
    have hheld : (e' ∈ s.next ::ₘ s.allocator.held) = (e' ∈ s.allocator.held) :=
      propext (Multiset.mem_cons.trans (or_iff_right hne))
    simp only [State.view, State.setThread, State.setElem, Function.update_of_ne hne,
      hcreated, hheld]
  case hstage =>
    refine .free (Nat.lt_succ_self _) (Multiset.mem_cons_self _ _) ?_ ?_ ?_
    · exact Function.update_self s.next _ s.thread
    · exact congrArg PoolElem.poolTask (Function.update_self s.next _ s.elem)
    · intro x hx
      exact absurd (howner.symm.trans hx) (Option.some_ne_none x).symm
  case haccounted => exact hinv.accounted
  case hallocator =>
    have hput : NotInside s.allocator (.put s.next) := houtside
    exact hinv.allocator.next hput rfl
  case hstray => rfl
  case htwice => rfl
  case hnoTask => rfl

/-- A thread that runs has an element that is outside, and it has called the task
of its owner or not. -/
theorem Inv.active (hinv : Inv cfg s) {e : ℕ} (hthread : s.thread e ≠ asleep) :
    e < s.next ∧ e ∉ s.allocator.held ∧ ∃ x, s.owner e = some x ∧
      (s.view e).submission = some (.done e) ∧
      ((s.thread e).Woken (cfg.func x) ∧ s.elem e = ⟨some (cfg.func x), cfg.data x⟩ ∧
          (s.view e).runs = [] ∨
        (s.thread e).Returning (s.elem e) ∧ (s.view e).runs = [cfg.task x]) := by
  cases hinv.stage e with
  | uncreated _ _ thread => exact absurd thread hthread
  | free _ _ thread => exact absurd thread hthread
  | claimed _ _ _ _ thread => exact absurd thread hthread
  | woken x created outside thread owner submission elem runs =>
      exact ⟨created, outside, x, owner, submission, .inl ⟨thread, elem, runs⟩⟩
  | ran x created outside thread owner submission runs =>
      exact ⟨created, outside, x, owner, submission, .inr ⟨thread, runs⟩⟩

/-- A thread goes on without touching its element. -/
theorem Inv.setThread (hinv : Inv cfg s) {e : ℕ} {thread : Thread Func}
    (hstage : Stage cfg e { s.view e with thread := thread }) :
    Inv cfg (s.setThread e thread) := by
  apply hinv.turn e
  case hframe => exact fun e' hne => s.view_setThread_of_ne thread hne
  case hstage =>
    rw [State.view_setThread_self]
    exact hstage
  case haccounted => exact hinv.accounted
  case hallocator => exact hinv.allocator
  case hstray => rfl
  case htwice => rfl
  case hnoTask => rfl

/-- The thread clears the element before it puts it back. -/
theorem Inv.clear (hinv : Inv cfg s) {e : ℕ} {x : S} {thread : Thread Func}
    (hcreated : e < s.next) (houtside : e ∉ s.allocator.held)
    (howner : s.owner e = some x) (hsubmission : (s.view e).submission = some (.done e))
    (hruns : (s.view e).runs = [cfg.task x])
    (hthread : thread.Returning { s.elem e with poolTask := none }) :
    Inv cfg ((s.setElem e { s.elem e with poolTask := none }).setThread e thread) := by
  apply hinv.turn e
  case hframe =>
    intro e' hne
    calc
      _ = (s.setElem e { s.elem e with poolTask := none }).view e' :=
        State.view_setThread_of_ne _ _ hne
      _ = s.view e' := s.view_setElem_of_ne _ hne
  case hstage =>
    rw [State.view_setThread_self, State.view_setElem_self]
    exact .ran x hcreated houtside hthread howner hsubmission hruns
  case haccounted => exact hinv.accounted
  case hallocator => exact hinv.allocator
  case hstray => rfl
  case htwice => rfl
  case hnoTask => rfl

/-- The element goes back while its thread is about to sleep. -/
theorem Inv.reuse (hinv : Inv cfg s) {e : ℕ} {x : S} (hcreated : e < s.next)
    (houtside : e ∉ s.allocator.held) (howner : s.owner e = some x)
    (hsubmission : (s.view e).submission = some (.done e))
    (hruns : (s.view e).runs = [cfg.task x]) (hnone : (s.elem e).poolTask = none) :
    Inv cfg { s.setThread e asleep with
      allocator := ⟨e ::ₘ s.allocator.held, e ::ₘ s.allocator.freed,
        s.allocator.returned⟩ } := by
  apply hinv.turn e
  case hframe =>
    intro e' hne
    have hheld : (e' ∈ e ::ₘ s.allocator.held) = (e' ∈ s.allocator.held) :=
      propext (Multiset.mem_cons.trans (or_iff_right hne))
    simp only [State.view, State.setThread, Function.update_of_ne hne, hheld]
  case hstage =>
    refine .free hcreated (Multiset.mem_cons_self _ _) ?_ hnone ?_
    · exact Function.update_self e _ s.thread
    · intro y hy
      obtain rfl : y = x := Option.some.inj (hy.symm.trans howner)
      exact ⟨hsubmission, hruns⟩
  case haccounted => exact hinv.accounted
  case hallocator =>
    have hput : NotInside s.allocator (.put e) := houtside
    exact hinv.allocator.next hput rfl
  case hstray => rfl
  case htwice => rfl
  case hnoTask => rfl

variable [DecidableEq S]

theorem inv_init : Inv cfg (pool cfg).init where
  stage := fun e =>
    .uncreated (Nat.not_lt_zero e) (Multiset.notMem_zero e) rfl rfl
  accounted := fun _ => rfl
  allocator := .init
  stray := rfl
  allocatedTwice := rfl
  noTask := rfl

theorem Inv.kthreadPoolAlloc (hinv : Inv cfg s) {x : S} {elem : Option ℕ}
    (hstart : s.submission x = .start) (hnext : s.kthreadPoolAlloc x elem = some s') :
    Inv cfg s' := by
  have hruns : s.runs (some x) = [] := by
    have haccounted := hinv.accounted x
    rw [hstart] at haccounted
    exact haccounted
  cases elem with
  | none =>
      cases hnext
      have hview : ∀ e, (s.setSubmission x .failed).view e = s.view e := fun e =>
        s.view_setSubmission_of_ne .failed (hinv.not_owner hstart e)
      apply hinv.turn 0
      case hframe => exact fun e _ => hview e
      case hstage => exact hview 0 ▸ hinv.stage 0
      case haccounted =>
        intro y
        by_cases hy : y = x
        · subst hy
          simp only [State.setSubmission, Function.update_self]
          exact hruns
        · simp only [State.setSubmission, Function.update_of_ne hy]
          exact hinv.accounted y
      case hallocator => exact hinv.allocator
      case hstray => rfl
      case htwice => rfl
      case hnoTask => rfl
  | some e =>
      obtain ⟨ledger, htake, rfl⟩ := Option.map_eq_some_iff.mp hnext
      simp only [bag] at htake
      split at htake
      case isFalse => cases htake
      rename_i hheld
      cases htake
      obtain ⟨hcreated, hthread, hnoTask, hfinished⟩ := (hinv.stage e).of_held hheld
      apply hinv.turn e
      case hframe =>
        intro e' hne
        have hsubmission := s.view_setSubmission_of_ne (.check e) (hinv.not_owner hstart e')
        have hmem : (e' ∈ s.allocator.held.erase e) = (e' ∈ s.allocator.held) :=
          propext (Multiset.mem_erase_of_ne hne)
        calc
          _ = (s.setSubmission x (.check e)).view e' := by
            simp only [State.view, Function.update_of_ne hne, hmem, State.setSubmission]
          _ = s.view e' := hsubmission
      case hstage =>
        refine .claimed x (.check e) hcreated ?_ hthread ?_ ?_ rfl hnoTask ?_
        · exact (held_nodup hinv.allocator).notMem_erase
        · exact Function.update_self _ _ _
        · simp only [State.view, State.setSubmission, Function.update_self, Option.map_some]
        · simp only [State.view, Function.update_self]
          exact hruns
      case haccounted =>
        intro y
        by_cases hy : y = x
        · subst hy
          simp only [State.setSubmission, Function.update_self]
          exact Function.update_self _ _ _
        · simp only [State.setSubmission, Function.update_of_ne hy]
          refine (hinv.accounted y).frame ?_ ?_
          · rfl
          intro e' howner
          by_cases he : e' = e
          · subst he
            obtain ⟨hdone, hran⟩ := hfinished y howner
            simp only [State.view, howner, Option.map_some, Option.some.injEq] at hdone hran
            exact .inr ⟨hdone, hran⟩
          · exact .inl ((Function.update_of_ne he _ _).trans howner)
      case hallocator =>
        have htake : NotInside s.allocator (.take e) := trivial
        exact hinv.allocator.next htake (if_pos hheld)
      case hstray => rfl
      case htwice => rfl
      case hnoTask => rfl

/-- A submission goes on with its element; `s₁` is the state after the work on
the element. -/
theorem Inv.submit (hinv : Inv cfg s) {s₁ : State S Func Data} {x : S} {e : ℕ}
    {pc : RunPc} (howner : s.owner e = some x)
    (hframe : ∀ e', e' ≠ e → s₁.view e' = s.view e')
    (hrest : (s₁.owner, s₁.runs, s₁.submission, s₁.allocator, s₁.allocatedTwice,
        s₁.noTask) =
      (s.owner, s.runs, s.submission, s.allocator, s.allocatedTwice, s.noTask))
    (hpc : Accounted cfg s x pc)
    (hstage : Stage cfg e { s₁.view e with submission := some pc }) :
    Inv cfg (s₁.setSubmission x pc) := by
  simp only [Prod.mk.injEq] at hrest
  obtain ⟨hown, hruns, hsubmission, hallocator, htwice, hnoTask⟩ := hrest
  apply hinv.turn e
  case hframe =>
    intro e' hne
    rw [← hframe e' hne]
    apply s₁.view_setSubmission_of_ne
    rw [hown]
    exact fun howner' => hne (hinv.owner_inj howner howner')
  case hstage =>
    rw [s₁.view_setSubmission_self pc (hown ▸ howner)]
    exact hstage
  case haccounted =>
    intro y
    by_cases hy : y = x
    · subst hy
      simp only [State.setSubmission, Function.update_self]
      exact hpc.frame (congrFun hruns _) fun e' howner' => .inl (hown ▸ howner')
    · simp only [State.setSubmission, Function.update_of_ne hy, hsubmission]
      exact (hinv.accounted y).frame (congrFun hruns _) fun e' howner' =>
        .inl (hown ▸ howner')
  case hallocator => exact hallocator ▸ hinv.allocator
  case hstray => exact congrFun hruns none
  case htwice => exact htwice
  case hnoTask => exact hnoTask

theorem Inv.kthreadPoolRun (hinv : Inv cfg s) {x : S}
    (hnext : s.kthreadPoolRun cfg x (s.submission x) = some s') : Inv cfg s' := by
  have haccounted := hinv.accounted x
  cases hpc : s.submission x with
  | start =>
      rw [hpc] at hnext
      cases hnext
  | check e =>
      rw [hpc] at hnext haccounted
      have howner : s.owner e = some x := haccounted
      have haccounted' : Accounted cfg s x (.storeTask e) := howner
      obtain ⟨hcreated, houtside, hthread, hfilled, hruns⟩ :=
        hinv.claimed howner hpc nofun
      have htwice : (s.allocatedTwice || (s.elem e).poolTask.isSome) = s.allocatedTwice := by
        rw [hfilled, Option.isSome_none, Bool.or_false]
      simp only [State.kthreadPoolRun, htwice, Option.some.injEq] at hnext
      subst hnext
      apply hinv.submit howner (fun _ _ => rfl) rfl haccounted'
      exact .claimed x (.storeTask e) hcreated houtside hthread howner rfl rfl hfilled hruns
  | storeTask e =>
      rw [hpc] at hnext haccounted
      have howner : s.owner e = some x := haccounted
      have haccounted' : Accounted cfg s x (.storeData e) := howner
      obtain ⟨hcreated, houtside, hthread, hfilled, hruns⟩ :=
        hinv.claimed howner hpc nofun
      cases hnext
      apply hinv.submit howner (fun _ hne => s.view_setElem_of_ne _ hne) rfl haccounted'
      rw [State.view_setElem_self]
      exact .claimed x (.storeData e) hcreated houtside hthread howner rfl rfl rfl hruns
  | storeData e =>
      rw [hpc] at hnext haccounted
      have howner : s.owner e = some x := haccounted
      have haccounted' : Accounted cfg s x (.wake e) := howner
      obtain ⟨hcreated, houtside, hthread, hfilled, hruns⟩ :=
        hinv.claimed howner hpc nofun
      cases hnext
      apply hinv.submit howner (fun _ hne => s.view_setElem_of_ne _ hne) rfl haccounted'
      rw [State.view_setElem_self]
      refine .claimed x (.wake e) hcreated houtside hthread howner rfl rfl ?_ hruns
      exact congrArg (PoolElem.mk · (cfg.data x)) hfilled
  | wake e =>
      rw [hpc] at hnext haccounted
      have howner : s.owner e = some x := haccounted
      have haccounted' : Accounted cfg s x (.done e) := .inl howner
      obtain ⟨hcreated, houtside, hthread, hfilled, hruns⟩ :=
        hinv.claimed howner hpc nofun
      cases hnext
      apply hinv.submit howner (fun _ hne => s.view_setThread_of_ne _ hne) rfl haccounted'
      rw [State.view_setThread_self, hthread]
      exact .woken x hcreated houtside trivial howner rfl hfilled hruns
  | done e =>
      rw [hpc] at hnext
      cases hnext
  | failed =>
      rw [hpc] at hnext
      cases hnext

/-- The call of a woken thread is the first one for its owner. -/
theorem Inv.call (hinv : Inv cfg s) {e : ℕ} {x : S} {thread : Thread Func}
    (hcreated : e < s.next) (houtside : e ∉ s.allocator.held)
    (howner : s.owner e = some x) (hsubmission : (s.view e).submission = some (.done e))
    (helem : s.elem e = ⟨some (cfg.func x), cfg.data x⟩)
    (hruns : (s.view e).runs = []) (hthread : thread.Returning (s.elem e)) :
    Inv cfg ((s.callTask e (cfg.func x)).setThread e thread) := by
  have hcalled : ∀ y, (s.callTask e (cfg.func x)).runs y =
      if y = some x then [cfg.task x] else s.runs y := by
    intro y
    simp only [State.view, howner] at hruns
    simp only [State.callTask, howner, hruns, helem, List.nil_append, Function.update_apply]
    rfl
  have hsubmission' : s.submission x = .done e := by
    simp only [State.view, howner, Option.map_some, Option.some.injEq] at hsubmission
    exact hsubmission
  apply hinv.turn e
  case hframe =>
    intro e' hne
    rw [State.view_setThread_of_ne _ _ hne]
    have hother : s.owner e' ≠ some x := fun howner' => hne (hinv.owner_inj howner howner')
    have hsame : (s.callTask e (cfg.func x)).runs (s.owner e') = s.runs (s.owner e') := by
      rw [hcalled, if_neg hother]
    exact congrArg (fun runs => { s.view e' with runs := runs }) hsame
  case hstage =>
    rw [State.view_setThread_self]
    refine .ran x hcreated houtside hthread howner hsubmission ?_
    calc
      (s.callTask e (cfg.func x)).runs (s.owner e) =
          if s.owner e = some x then [cfg.task x] else s.runs (s.owner e) := hcalled _
      _ = [cfg.task x] := if_pos howner
  case haccounted =>
    intro y
    by_cases hy : y = x
    · subst hy
      exact hsubmission' ▸ .inl howner
    · refine (hinv.accounted y).frame ?_ fun e' howner' => .inl howner'
      have hne : some y ≠ some x := fun heq => hy (Option.some.inj heq)
      exact (hcalled _).trans (if_neg hne)
  case hallocator => exact hinv.allocator
  case hstray => exact (hcalled none).trans (if_neg (Option.some_ne_none x).symm)
  case htwice => rfl
  case hnoTask => rfl

theorem Inv.pipeLoopTask (hinv : Inv cfg s) {e : ℕ}
    (hnext : s.pipeLoopTask e (s.thread e).pc = some s') : Inv cfg s' := by
  have hawake : s.thread e ≠ asleep := by
    intro hasleep
    rw [hasleep] at hnext
    simp only [State.pipeLoopTask, hasleep, asleep, reduceCtorEq, if_false] at hnext
  obtain ⟨hcreated, houtside, x, howner, hsubmission, hphase⟩ := hinv.active hawake
  rcases hthread : s.thread e with ⟨pc, taskState⟩
  rw [hthread] at hnext hphase
  rcases hphase with ⟨hwoken, helem, hruns⟩ | ⟨hreturning, hruns⟩
  · have hwaiting : ∀ thread : Thread Func, thread.Woken (cfg.func x) →
        Stage cfg e { s.view e with thread := thread } := fun thread hwoken =>
      .woken x hcreated houtside hwoken howner hsubmission helem hruns
    cases pc with
    | test =>
        simp only [State.pipeLoopTask, helem, Option.some.injEq] at hnext
        subst hnext
        exact hinv.setThread (hwaiting _ trivial)
    | load =>
        simp only [State.pipeLoopTask, helem, Option.some.injEq] at hnext
        subst hnext
        exact hinv.setThread (hwaiting _ rfl)
    | call func =>
        obtain rfl : func = cfg.func x := hwoken
        cases hnext
        exact hinv.call hcreated houtside howner hsubmission helem hruns trivial
    | schedule =>
        simp only [State.pipeLoopTask] at hnext
        split at hnext
        · cases hnext
          exact hinv.setThread (hwaiting _ trivial)
        · cases hnext
    | running => exact hwoken.elim
    | setState => exact hwoken.elim
    | clear => exact hwoken.elim
    | reuse => exact hwoken.elim
    | oops => exact hwoken.elim
  · have hran : ∀ thread : Thread Func, thread.Returning (s.elem e) →
        Stage cfg e { s.view e with thread := thread } := fun thread hreturning =>
      .ran x hcreated houtside hreturning howner hsubmission hruns
    cases pc with
    | running =>
        cases hnext
        exact hinv.setThread (hran _ trivial)
    | setState =>
        cases hnext
        exact hinv.setThread (hran _ rfl)
    | clear =>
        cases hnext
        exact hinv.clear hcreated houtside howner hsubmission hruns ⟨hthread ▸ hreturning, rfl⟩
    | reuse =>
        obtain ⟨htaskState, hnone⟩ := hreturning
        have hasleep : (⟨.schedule, (s.thread e).taskState⟩ : Thread Func) = asleep := by
          rw [hthread, htaskState]
          rfl
        cases hnext
        simp only [State.setPc, hasleep]
        exact hinv.reuse hcreated houtside howner hsubmission hruns hnone
    | test => exact hreturning.elim
    | load => exact hreturning.elim
    | call func => exact hreturning.elim
    | schedule => exact hreturning.elim
    | oops => exact hreturning.elim

theorem inv_of_reachable (hreach : (pool cfg).Reachable s) : Inv cfg s := by
  refine hreach.invariant (P := Inv cfg) inv_init ?_
  intro before label after _ hinv _ hnext
  cases label with
  | refill => exact hinv.refillPool hnext
  | alloc x elem =>
      simp only [pool] at hnext
      split at hnext
      · exact hinv.kthreadPoolAlloc ‹_› hnext
      · cases hnext
  | submit x => exact hinv.kthreadPoolRun hnext
  | loop e => exact hinv.pipeLoopTask hnext

/-! ## Accepted tasks -/

/-- The element in which a submission has stored its task; the call has returned
or is about to wake the thread and return. -/
def RunPc.accepted : RunPc → Option ℕ
  | .wake e => some e
  | .done e => some e
  | _ => none

theorem RunPc.eq_of_accepted {pc : RunPc} {e : ℕ} (haccepted : pc.accepted = some e) :
    pc = .wake e ∨ pc = .done e := by
  cases pc <;> cases haccepted
  · exact .inl rfl
  · exact .inr rfl

/-- The thread is between the call and the wake-up for the next task. -/
def Thread.Past : Thread Func → Prop
  | ⟨.setState, _⟩ => True
  | ⟨.clear, _⟩ => True
  | ⟨.reuse, _⟩ => True
  | ⟨.schedule, .uninterruptible⟩ => True
  | _ => False

/-- An accepted task waits in the one element of its submission, runs on the
thread of this element, or has run. -/
inductive Served (cfg : Config S Func Data) (s : State S Func Data) (x : S) (e : ℕ) : Prop
  | stored (only : ∀ e', s.owner e' = some x ↔ e' = e)
      (elem : s.elem e = ⟨some (cfg.func x), cfg.data x⟩)
      (wakeUp : s.submission x = .wake e ∨ (s.thread e).Woken (cfg.func x))
      (runs : s.runs (some x) = [])
  | running (only : ∀ e', s.owner e' = some x ↔ e' = e)
      (thread : (s.thread e).pc = .running) (runs : s.runs (some x) = [cfg.task x])
  | finished (past : ∀ e', s.owner e' = some x → (s.thread e').Past)
      (runs : s.runs (some x) = [cfg.task x])

omit [DecidableEq S] in
theorem Thread.running_or_past {thread : Thread Func} {elem : PoolElem Func Data}
    (hthread : thread.Returning elem ∨ thread = asleep) :
    thread.pc = .running ∨ thread.Past := by
  rcases hthread with hreturning | rfl
  · rcases thread with ⟨pc, taskState⟩
    cases pc with
    | running => exact .inl rfl
    | setState => exact .inr trivial
    | clear => exact .inr trivial
    | reuse => exact .inr trivial
    | test => exact hreturning.elim
    | load => exact hreturning.elim
    | call func => exact hreturning.elim
    | schedule => exact hreturning.elim
    | oops => exact hreturning.elim
  · exact .inr trivial

namespace Inv

omit [DecidableEq S] in
/-- The owner of an element is served in it. -/
theorem served_of_owner (hinv : Inv cfg s) {x : S} {e : ℕ} (howner : s.owner e = some x)
    (haccepted : (s.submission x).accepted = some e) : Served cfg s x e := by
  have honly : ∀ e', s.owner e' = some x ↔ e' = e := fun e' =>
    ⟨fun howner' => hinv.owner_inj howner howner', fun he => he ▸ howner⟩
  have hview : (s.view e).runs = s.runs (some x) := congrArg s.runs howner
  rcases RunPc.eq_of_accepted haccepted with hpc | hpc
  · obtain ⟨-, -, -, hfilled, hruns⟩ := hinv.claimed howner hpc nofun
    exact .stored honly hfilled (.inl hpc) (hview ▸ hruns)
  · have hdone : (s.view e).submission = some (.done e) := by
      simp only [State.view, howner, Option.map_some, hpc]
    rcases (hinv.stage e).of_done howner hdone with ⟨hwoken, helem, hruns⟩ | ⟨hthread, hruns⟩
    · exact .stored honly helem (.inr hwoken) (hview ▸ hruns)
    · rcases Thread.running_or_past hthread with hrunning | hpast
      · exact .running honly hrunning (hview ▸ hruns)
      · refine .finished ?_ (hview ▸ hruns)
        intro e' howner'
        rw [(honly e').mp howner']
        exact hpast

omit [DecidableEq S] in
theorem served (hinv : Inv cfg s) {x : S} {e : ℕ}
    (haccepted : (s.submission x).accepted = some e) : Served cfg s x e := by
  by_cases howner : s.owner e = some x
  · exact hinv.served_of_owner howner haccepted
  · have haccounted := hinv.accounted x
    rcases RunPc.eq_of_accepted haccepted with hpc | hpc
    · rw [hpc] at haccounted
      exact absurd haccounted howner
    · rw [hpc] at haccounted
      refine .finished ?_ (haccounted.resolve_left howner)
      intro e' howner'
      have helem := hinv.owner_elem howner'
      rw [hpc] at helem
      obtain rfl : e = e' := Option.some.inj helem
      exact absurd howner' howner

omit [DecidableEq S] in
/-- No submission has its task run twice or with the data of another. -/
theorem runs_eq (hinv : Inv cfg s) (x : S) :
    s.runs (some x) = [] ∨ s.runs (some x) = [cfg.task x] := by
  have hclaimed : ∀ e pc, s.submission x = pc → pc ≠ .done e → s.owner e = some x →
      s.runs (some x) = [] := by
    intro e pc hpc hne howner
    obtain ⟨-, -, -, -, hruns⟩ := hinv.claimed howner hpc hne
    exact (congrArg s.runs howner : (s.view e).runs = s.runs (some x)) ▸ hruns
  have haccounted := hinv.accounted x
  cases hpc : s.submission x with
  | done e =>
      have haccepted : (s.submission x).accepted = some e := by rw [hpc]; rfl
      cases hinv.served haccepted with
      | stored _ _ _ runs => exact .inl runs
      | running _ _ runs => exact .inr runs
      | finished _ runs => exact .inr runs
  | start => rw [hpc] at haccounted; exact .inl haccounted
  | failed => rw [hpc] at haccounted; exact .inl haccounted
  | check e => rw [hpc] at haccounted; exact .inl (hclaimed e _ hpc nofun haccounted)
  | storeTask e => rw [hpc] at haccounted; exact .inl (hclaimed e _ hpc nofun haccounted)
  | storeData e => rw [hpc] at haccounted; exact .inl (hclaimed e _ hpc nofun haccounted)
  | wake e => rw [hpc] at haccounted; exact .inl (hclaimed e _ hpc nofun haccounted)

omit [DecidableEq S] in
theorem not_oops (hinv : Inv cfg s) (e : ℕ) : (s.thread e).pc ≠ .oops := by
  intro hpc
  rcases hthread : s.thread e with ⟨pc, taskState⟩
  rw [hthread] at hpc
  obtain rfl : pc = .oops := hpc
  have hawake : s.thread e ≠ asleep := by
    rw [hthread]
    exact nofun
  obtain ⟨-, -, x, -, -, ⟨hwoken, -⟩ | ⟨hreturning, -⟩⟩ := hinv.active hawake
  · rw [hthread] at hwoken
    exact hwoken
  · rw [hthread] at hreturning
    exact hreturning

end Inv

/-- Each accepted task is served in its element, every submission's task is run at
most once and with its own data, no element is handed out with a task in it, and
the allocator is used as a bag. -/
theorem accepted_task_runs_once (cfg : Config S Func Data) (s : State S Func Data)
    (hreach : (pool cfg).Reachable s) :
    (∀ x e, (s.submission x).accepted = some e → Served cfg s x e) ∧
      (∀ x, s.runs (some x) = [] ∨ s.runs (some x) = [cfg.task x]) ∧
      s.runs none = [] ∧ s.allocatedTwice = false ∧ s.noTask = false ∧
      (∀ e, (s.thread e).pc ≠ .oops) ∧ bag.ReachableUnder NotInside s.allocator := by
  have hinv := inv_of_reachable hreach
  exact ⟨fun x e => hinv.served, hinv.runs_eq, hinv.stray, hinv.allocatedTwice,
    hinv.noTask, hinv.not_oops, hinv.allocator⟩

/-- Two submissions over one element: the second one stores its task and wakes the
thread before the thread sleeps. -/
theorem accepted_task_runs_once_reused :
    let cfg : Config Bool ℕ Bool := ⟨fun _ => 1, id, fun _ => ⟨some 0, true⟩⟩
    ∃ s, (s.submission true, s.runs (some false), s.thread 0) =
      (.done 0, [(1, false)], ⟨.schedule, .running⟩) ∧ Served cfg s true 0 := by
  intro cfg
  obtain ⟨s, hreach, hs⟩ := Machine.exists_reachable_of_run (pool cfg) (fun _ _ => True)
    (List.flatten [[.refill, .alloc false (some 0)], List.replicate 4 (.submit false),
      List.replicate 8 (.loop 0), [.alloc true (some 0)], List.replicate 4 (.submit true)])
    (fun s => (s.submission true, s.runs (some false), s.thread 0))
    (.done 0, [(1, false)], ⟨.schedule, .running⟩) (by decide +kernel)
  have hdone : s.submission true = .done 0 := congrArg Prod.fst hs
  have haccepted : (s.submission true).accepted = some 0 := by
    rw [hdone]
    rfl
  exact ⟨s, hs, (accepted_task_runs_once cfg s hreach).1 true 0 haccepted⟩

end KtcpSplit.Pool
