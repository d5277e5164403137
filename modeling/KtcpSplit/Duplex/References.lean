import KtcpSplit.Duplex.Balance
import KtcpSplit.Lib.Bag
import Mathlib.Algebra.Order.BigOperators.Group.Finset

/-!
# The references of a QP

The counter of a QP is what its workers took and did not drop.  A QP that some
worker took is therefore released by the last of them, unless one of them left
through an exit that leaks.
-/

namespace KtcpSplit.Workers

open KtcpSplit.Bag
open KtcpSplit.Rendezvous (Dir)
open KtcpSplit.Transition

/-! ## What a step does to the QPs -/

/-- The references to `q` that a worker holds or has leaked. -/
def Worker.held (ws : Worker) (q : ℕ) : ℤ :=
  if ws.qp = q then (ws.gets : ℤ) - ws.puts else 0

/-- What an effect adds to the counter of `q`. -/
def Effect.delta (effect : Effect) (ws : Worker) (q : ℕ) : ℤ :=
  if ws.qp = q then (effect.gets : ℤ) - effect.puts else 0

variable {ws ws' : Worker} {effect : Effect} {q : ℕ} {dir : Dir}

theorem gets_count (ws : Worker) (effect : Effect) :
    (ws.count effect).gets = ws.gets + effect.gets := by
  cases effect <;> rfl

theorem puts_count (ws : Worker) (effect : Effect) :
    (ws.count effect).puts = ws.puts + effect.puts := by
  cases effect <;> rfl

theorem held_count (ws : Worker) (effect : Effect) (q : ℕ) :
    (ws.count effect).held q = ws.held q + effect.delta ws q := by
  have hqp : (ws.count effect).qp = ws.qp := by
    cases effect <;> rfl
  simp only [Worker.held, Effect.delta, gets_count, puts_count, hqp]
  split <;> omega

theorem Stepped.held (hstep : Stepped ws ws' effect) (hinv : ws.Inv) (q : ℕ) :
    ws'.held q = ws.held q := by
  simp only [Worker.held, hstep.gets, hstep.puts]
  rcases hstep.same with hearly | ⟨hqp, -⟩
  · have hgets := hinv.early hearly
    have hputs : ws.puts = 0 := by
      have hbalance := hinv.balance
      omega
    rw [hgets, hputs, Nat.cast_zero, sub_zero, ite_self, ite_self]
  · rw [hqp]

/-- The QP was freed, and its sockets in `dirs` were released. -/
def Qps.Freed (qps : Qps) (q : ℕ) (dirs : List Dir) : Prop :=
  0 < qps.freed q ∧ ∀ dir ∈ dirs, qps.released q dir = true

theorem refCnt_putQp (qps : Qps) (q : ℕ) :
    (qps.putQp q).refCnt = Function.update qps.refCnt q (qps.refCnt q - 1) := by
  unfold Qps.putQp
  dsimp only
  split <;> rfl

theorem sock_putQp (qps : Qps) (q : ℕ) : (qps.putQp q).sock = qps.sock := by
  unfold Qps.putQp
  dsimp only
  split <;> rfl

/-- Freeing a QP releases the sockets that it still has. -/
theorem freed_free_of_or {qps : Qps} {dirs : List Dir}
    (hdirs : ∀ dir ∈ dirs, (qps.released q dir || qps.sock q dir) = true) :
    (qps.free q).Freed q dirs := by
  refine ⟨?_, ?_⟩
  · change 0 < Function.update qps.freed q (qps.freed q + 1) q
    rw [Function.update_self]
    exact Nat.succ_pos _
  · intro dir hdir
    change Function.update qps.released q _ q dir = true
    rw [Function.update_self]
    exact hdirs dir hdir

theorem freed_free {qps : Qps} {dirs : List Dir}
    (hsock : ∀ dir ∈ dirs, qps.sock q dir = true) : (qps.free q).Freed q dirs :=
  freed_free_of_or fun dir hdir => by rw [hsock dir hdir, Bool.or_true]

theorem Qps.Freed.free {qps : Qps} {dirs : List Dir} (hfreed : qps.Freed q dirs)
    (q' : ℕ) : (qps.free q').Freed q dirs := by
  rcases eq_or_ne q q' with rfl | hne
  · exact freed_free_of_or fun dir hdir => by rw [hfreed.2 dir hdir, Bool.true_or]
  · simpa only [Qps.free, Qps.Freed, Function.update_of_ne hne] using hfreed

theorem freed_putQp {qps : Qps} {dirs : List Dir} (hone : qps.refCnt q = 1)
    (hsock : ∀ dir ∈ dirs, qps.sock q dir = true) : (qps.putQp q).Freed q dirs := by
  have hzero : Function.update qps.refCnt q (qps.refCnt q - 1) q = 0 := by
    rw [Function.update_self, hone, sub_self]
  unfold Qps.putQp
  dsimp only
  rw [if_pos hzero]
  exact freed_free hsock

theorem Qps.Freed.putQp {qps : Qps} {dirs : List Dir} (hfreed : qps.Freed q dirs)
    (q' : ℕ) : (qps.putQp q').Freed q dirs := by
  unfold Qps.putQp
  dsimp only
  split
  · exact Qps.Freed.free hfreed q'
  · exact hfreed

theorem refCnt_apply (qps : Qps) (ws : Worker) (effect : Effect) (q : ℕ) :
    (qps.apply ws effect).refCnt q = qps.refCnt q + effect.delta ws q := by
  have hupdate : ∀ n, Function.update qps.refCnt ws.qp (qps.refCnt ws.qp + n) q =
      qps.refCnt q + if ws.qp = q then n else 0 := by
    intro n
    rcases eq_or_ne ws.qp q with rfl | hne
    · rw [Function.update_self, if_pos rfl]
    · rw [Function.update_of_ne hne.symm, if_neg hne, add_zero]
  have hnone : (if ws.qp = q then ((0 : ℕ) : ℤ) - (0 : ℕ) else 0) = 0 := by
    rw [sub_self, ite_self]
  cases effect with
  | nothing => exact ((congrArg _ hnone).trans (add_zero _)).symm
  | store => exact ((congrArg _ hnone).trans (add_zero _)).symm
  | get => exact hupdate 1
  | put => exact (congrFun (refCnt_putQp qps ws.qp) q).trans (hupdate (-1))

theorem sock_apply {qps : Qps} (ws : Worker) (effect : Effect)
    (hsock : qps.sock q dir = true) : (qps.apply ws effect).sock q dir = true := by
  cases effect with
  | nothing => exact hsock
  | store =>
      change Function.update qps.sock ws.qp _ q dir = true
      rcases eq_or_ne q ws.qp with rfl | hne
      · rw [Function.update_self, hsock, Bool.true_or]
      · rw [Function.update_of_ne hne, hsock]
  | get => exact hsock
  | put => exact (congrFun₂ (sock_putQp qps ws.qp) q dir).trans hsock

theorem sock_store (qps : Qps) (ws : Worker) (hdir : dir ∈ ws.fn.dirs) :
    (qps.apply ws .store).sock ws.qp dir = true := by
  change Function.update qps.sock ws.qp _ ws.qp dir = true
  rw [Function.update_self, decide_eq_true hdir, Bool.or_true]

theorem Qps.Freed.apply {qps : Qps} {dirs : List Dir} (hfreed : qps.Freed q dirs)
    (ws : Worker) (effect : Effect) : (qps.apply ws effect).Freed q dirs := by
  cases effect with
  | nothing => exact hfreed
  | store => exact hfreed
  | get => exact hfreed
  | put => exact hfreed.putQp ws.qp

/-- A QP that loses its last reference has just been freed. -/
theorem freed_apply {qps : Qps} {dirs : List Dir} (ws : Worker) (effect : Effect)
    (hsock : ∀ dir ∈ dirs, qps.sock q dir = true)
    (hnonneg : 0 ≤ (qps.apply ws effect).refCnt q)
    (hbefore : 0 < qps.refCnt q ∨ qps.Freed q dirs) :
    0 < (qps.apply ws effect).refCnt q ∨ (qps.apply ws effect).Freed q dirs := by
  rcases hbefore with hpos | hfreed
  · rcases hnonneg.lt_or_eq with hafter | hzero
    · exact .inl hafter
    · right
      rw [refCnt_apply, Effect.delta] at hzero
      split at hzero
      · rename_i hqp
        subst hqp
        cases effect with
        | put =>
            refine freed_putQp ?_ hsock
            change 0 = _ + (((0 : ℕ) : ℤ) - (1 : ℕ)) at hzero
            omega
        | _ => simp only [Effect.gets, Effect.puts] at hzero; omega
      · omega
  · exact .inr (hfreed.apply ws effect)

/-! ## Any number of workers -/

variable {W : Type*} [DecidableEq W]

structure Inv (s : State W) : Prop where
  worker : ∀ w, (s.worker w).Inv
  /-- Only finitely many workers have run. -/
  count : ∃ started : Finset W, (∀ w ∉ started, ∀ q, (s.worker w).held q = 0) ∧
    ∀ q, s.qps.refCnt q = ∑ w ∈ started, (s.worker w).held q
  stored : ∀ w, ((s.worker w).pc .main).stored = true ∨ 0 < (s.worker w).gets →
    ∀ dir ∈ (s.worker w).fn.dirs, s.qps.sock (s.worker w).qp dir = true
  freed : ∀ w, 0 < (s.worker w).gets → 0 < s.qps.refCnt (s.worker w).qp ∨
    s.qps.Freed (s.worker w).qp (s.worker w).fn.dirs

theorem inv_init (fn : W → Fn) : Inv (workers fn).init where
  worker := fun w => ⟨rfl, fun _ => rfl, fun _ => rfl⟩
  count := ⟨∅, fun w _ q => ite_self _, fun q => rfl⟩
  stored := by
    rintro w (h | h)
    · cases h
    · cases h
  freed := fun w h => absurd h (Nat.lt_irrefl 0)

/-- The counter is the total of what the workers hold. -/
theorem Inv.count_next {s : State W} (hinv : Inv s) (w : W)
    (hstep : Stepped (s.worker w) ws' effect) :
    ∃ started : Finset W,
      (∀ k ∉ started, ∀ q,
        (Function.update s.worker w (ws'.count effect) k).held q = 0) ∧
      ∀ q, (s.qps.apply ws' effect).refCnt q =
        ∑ k ∈ started, (Function.update s.worker w (ws'.count effect) k).held q := by
  obtain ⟨started, hrest, hcount⟩ := hinv.count
  refine ⟨insert w started, ?_, ?_⟩
  · intro k hk q
    obtain ⟨hne, hk⟩ := not_or.mp (mt Finset.mem_insert.mpr hk)
    rw [Function.update_of_ne hne]
    exact hrest k hk q
  · intro q
    have hsum := sum_update_add_of_mem (fun ws => ws.held q) s.worker
      (Finset.mem_insert_self w started) (ws'.count effect)
    have hinsert : ∑ k ∈ insert w started, (s.worker k).held q = s.qps.refCnt q := by
      rw [hcount q]
      exact Finset.sum_insert_of_eq_zero_if_notMem fun hw => hrest w hw q
    rw [hinsert] at hsum
    have hheld := held_count ws' effect q
    rw [hstep.held (hinv.worker w) q] at hheld
    rw [refCnt_apply]
    omega

omit [DecidableEq W] in
theorem refCnt_nonneg {s : State W} (hworker : ∀ w, (s.worker w).Inv)
    {started : Finset W}
    (hcount : ∀ q, s.qps.refCnt q = ∑ w ∈ started, (s.worker w).held q) (q : ℕ) :
    0 ≤ s.qps.refCnt q := by
  rw [hcount q]
  apply Finset.sum_nonneg
  intro w _
  have hbalance := (hworker w).balance
  unfold Worker.held
  split <;> omega

omit [DecidableEq W] in
theorem Inv.nonneg {s : State W} (hinv : Inv s) (q : ℕ) : 0 ≤ s.qps.refCnt q := by
  obtain ⟨started, -, hcount⟩ := hinv.count
  exact refCnt_nonneg hinv.worker hcount q

theorem pos_gets_of_due (hinv : ws.Inv) (hdue : 0 < ws.due) : 0 < ws.gets := by
  have hbalance := hinv.balance
  omega

/-- A worker that took a reference keeps its QP and its function. -/
theorem Stepped.same_of_gets (hstep : Stepped ws ws' effect) (hinv : ws.Inv)
    (hgets : 0 < ws.gets) : ws'.qp = ws.qp ∧ ws'.fn = ws.fn := by
  rcases hstep.same with hearly | hsame
  · exact absurd (hinv.early hearly) hgets.ne'
  · exact hsame

omit [DecidableEq W] in
/-- The sockets that a worker brings are stored before it takes a reference. -/
theorem Inv.stored_next {s : State W} (hinv : Inv s) (w : W)
    (hstep : Stepped (s.worker w) ws' effect)
    (hafter : (ws'.pc .main).stored = true ∨ 0 < (ws'.count effect).gets) :
    ∀ dir ∈ ws'.fn.dirs, (s.qps.apply ws' effect).sock ws'.qp dir = true := by
  have hold : ((s.worker w).pc .main).stored = true ∨ 0 < (s.worker w).gets →
      ws'.qp = (s.worker w).qp → ws'.fn = (s.worker w).fn →
      ∀ dir ∈ ws'.fn.dirs, (s.qps.apply ws' effect).sock ws'.qp dir = true := by
    intro hbefore hqp hfn dir hdir
    apply sock_apply
    rw [hqp]
    exact hinv.stored w hbefore dir (hfn ▸ hdir)
  have hnew : (ws'.pc .main).stored = true ∨ effect = .get ∨ 0 < (s.worker w).gets := by
    rcases hafter with hpc | hgets
    · exact .inl hpc
    · rw [gets_count, hstep.gets] at hgets
      right
      cases effect with
      | get => exact .inl rfl
      | _ => exact .inr hgets
  rcases hnew with hpc | heffect | hgets
  · rcases hstep.stored (.inl hpc) with rfl | ⟨hbefore, hqp, hfn⟩
    · exact fun dir hdir => sock_store s.qps ws' hdir
    · exact hold (hbefore.imp_right (pos_gets_of_due (hinv.worker w))) hqp hfn
  · rcases hstep.stored (.inr heffect) with rfl | ⟨hbefore, hqp, hfn⟩
    · cases heffect
    · exact hold (hbefore.imp_right (pos_gets_of_due (hinv.worker w))) hqp hfn
  · obtain ⟨hqp, hfn⟩ := hstep.same_of_gets (hinv.worker w) hgets
    exact hold (.inr hgets) hqp hfn

omit [DecidableEq W] in
/-- A QP that the worker took has references left or has been freed. -/
theorem Inv.freed_next {s : State W} (hinv : Inv s) (w : W)
    (hstep : Stepped (s.worker w) ws' effect)
    (hkept : 0 < (s.worker w).gets →
      0 < (s.qps.apply ws' effect).refCnt (s.worker w).qp ∨
        (s.qps.apply ws' effect).Freed (s.worker w).qp (s.worker w).fn.dirs)
    (hafter : 0 < (ws'.count effect).gets) :
    0 < (s.qps.apply ws' effect).refCnt ws'.qp ∨
      (s.qps.apply ws' effect).Freed ws'.qp ws'.fn.dirs := by
  rcases Nat.eq_zero_or_pos (s.worker w).gets with hzero | hpos
  · -- the first reference has just been taken
    rw [gets_count, hstep.gets, hzero, Nat.zero_add] at hafter
    cases effect with
    | get =>
        left
        have hbefore := hinv.nonneg ws'.qp
        rw [refCnt_apply, Effect.delta, if_pos rfl]
        change 0 < _ + (((1 : ℕ) : ℤ) - (0 : ℕ))
        omega
    | _ => cases hafter
  · obtain ⟨hqp, hfn⟩ := hstep.same_of_gets (hinv.worker w) hpos
    rw [hqp, hfn]
    exact hkept hpos

theorem qp_count (ws : Worker) (effect : Effect) : (ws.count effect).qp = ws.qp := by
  cases effect <;> rfl

theorem fn_count (ws : Worker) (effect : Effect) : (ws.count effect).fn = ws.fn := by
  cases effect <;> rfl

theorem pc_count (ws : Worker) (effect : Effect) : (ws.count effect).pc = ws.pc := by
  cases effect <;> rfl

theorem Inv.next {fn : W → Fn} {s s' : State W} {label : W × Role × Act} (hinv : Inv s)
    (hnext : (workers fn).next s label = some s') : Inv s' := by
  obtain ⟨w, role, act⟩ := label
  obtain ⟨⟨ws', effect⟩, hworker, rfl⟩ := Option.map_eq_some_iff.mp hnext
  have hstep := (hinv.worker w).step hworker
  have hworkers : ∀ k, (Function.update s.worker w (ws'.count effect) k).Inv := by
    intro k
    rcases eq_or_ne k w with rfl | hne
    · rw [Function.update_self]
      exact hstep.inv (hinv.worker k)
    · rw [Function.update_of_ne hne]
      exact hinv.worker k
  have hcount := hinv.count_next w hstep
  have hnonneg : ∀ q, 0 ≤ (s.qps.apply ws' effect).refCnt q := by
    obtain ⟨started, -, htotal⟩ := hcount
    exact refCnt_nonneg
      (s := ⟨Function.update s.worker w (ws'.count effect), s.qps.apply ws' effect⟩)
      hworkers htotal
  have hkept : ∀ k, 0 < (s.worker k).gets →
      0 < (s.qps.apply ws' effect).refCnt (s.worker k).qp ∨
        (s.qps.apply ws' effect).Freed (s.worker k).qp (s.worker k).fn.dirs := by
    intro k hgets
    exact freed_apply ws' effect (hinv.stored k (.inr hgets)) (hnonneg _)
      (hinv.freed k hgets)
  refine ⟨hworkers, hcount, ?_, ?_⟩
  · intro k
    dsimp only
    rcases eq_or_ne k w with rfl | hne
    · rw [Function.update_self, pc_count, qp_count, fn_count]
      exact hinv.stored_next k hstep
    · rw [Function.update_of_ne hne]
      intro hbefore dir hdir
      exact sock_apply ws' effect (hinv.stored k hbefore dir hdir)
  · intro k
    dsimp only
    rcases eq_or_ne k w with rfl | hne
    · rw [Function.update_self, qp_count, fn_count]
      exact hinv.freed_next k hstep (hkept k)
    · rw [Function.update_of_ne hne]
      exact hkept k

theorem inv_of_reachable {fn : W → Fn} {s : State W} (hreach : (workers fn).Reachable s) :
    Inv s :=
  hreach.invariant (inv_init fn) fun _ _ _ _ hinv _ hnext => hinv.next hnext

/-! ## Every reference is dropped -/

def Pc.over : Pc → Bool
  | .ended => true
  | .oops => true
  | _ => false

/-- The worker has returned, and so has the thread that it started. -/
def Worker.Over (ws : Worker) : Prop :=
  (ws.pc .main).over = true ∧ ((ws.pc .second).over = true ∨ ws.pc .second = .idle)

theorem due_of_over (hover : ws.Over) : ws.due = ws.leaks.length := by
  have howed : ∀ {pc : Pc}, pc.over = true → pc.owed = 0 := by
    intro pc hpc
    cases pc <;> first | rfl | cases hpc
  obtain ⟨hmain, hsecond⟩ := hover
  have hzero : (ws.pc .second).owed = 0 := by
    rcases hsecond with hsecond | hidle
    · exact howed hsecond
    · rw [hidle]
      rfl
  rw [Worker.due, howed hmain, hzero, Nat.zero_add]

theorem Worker.Inv.balanced_iff (hinv : ws.Inv) (hover : ws.Over) :
    ws.gets = ws.puts ↔ ws.leaks = [] := by
  have hbalance := hinv.balance
  rw [due_of_over hover] at hbalance
  constructor
  · intro heq
    apply List.eq_nil_of_length_eq_zero
    omega
  · intro hleaks
    rw [hbalance, hleaks]
    rfl

/-- `start_new_pending_connection` up to the two calls of `half_duplex`, which get
all their pages. -/
def pendingRun : List (Unit × Role × Act) :=
  [((), .main, .go), ((), .main, .qp 0), ((), .main, .go), ((), .main, .go),
    ((), .main, .go)]

/-- One direction that ends when its peer closes. -/
def closingRun (role : Role) : List (Unit × Role × Act) :=
  List.replicate HalfDuplex.vecSz ((), role, .duplex (.page true)) ++
    [((), role, .duplex (.recvFailed 0)), ((), role, .duplex .go), ((), role, .duplex .go)]

end KtcpSplit.Workers
