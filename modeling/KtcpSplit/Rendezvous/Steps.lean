import KtcpSplit.Rendezvous.Model

/-!
# What a step of the rendezvous can do

Most steps only move one worker to another statement.  The others are an
insertion or a join in `qp_exists`, the store of a connected socket, and the
calls of `get_qp`, `de_tree_qp` and `put_qp`.  Every invariant of the rendezvous
is proved over the seven cases of `Step`, for runs in which `rb_erase` is called
on linked nodes only; after any other call nothing is known of the trees.
-/

namespace KtcpSplit.Rendezvous

open KtcpSplit.Listner
open KtcpSplit.RbData
open KtcpSplit.SearchTree
open KtcpSplit.Transition

variable {W : Type*}

/-! ## Statements by the reference they stand for -/

namespace Pc

/-- The QP that the worker obtained and takes its reference on later. -/
def pending : Pc → Option ℕ
  | .connect q => some q
  | .forward q => some q
  | .check q => some q
  | .get q _ => some q
  | _ => none

/-- The QP that the worker holds a reference on. -/
def holding : Pc → Option ℕ
  | .fin q _ => some q
  | .wait q => some q
  | .wake q => some q
  | .expired q => some q
  | .expiredPut q => some q
  | .ready q => some q
  | .dropRef q => some q
  | .duplex q => some q
  | _ => none

/-- The QP that the worker obtained from `qp_exists` and still works on. -/
def qp (pc : Pc) : Option ℕ := pc.pending <|> pc.holding

/-- As `qp`, with the QP that `start_new_pre_connection_syn` left behind when it
fell back. -/
def obtained : Pc → Option ℕ
  | .fallback q => some q
  | pc => pc.qp

/-- The next statement is an unconditional removal from the tree. -/
def removing : Pc → Option ℕ
  | .fin q _ => some q
  | .expired q => some q
  | _ => none

/-- The worker timed out and has not dropped its reference. -/
def timedOut : Pc → Option ℕ
  | .expired q => some q
  | .expiredPut q => some q
  | _ => none

/-- The worker goes on without waiting. -/
def paired : Pc → Option ℕ
  | .get q false => some q
  | .fin q false => some q
  | .wake q => some q
  | .ready q => some q
  | .dropRef q => some q
  | .duplex q => some q
  | _ => none

theorem qp_eq_some_iff {pc : Pc} {q : ℕ} :
    pc.qp = some q ↔ pc.pending = some q ∨ pc.holding = some q := by
  cases pc <;> simp [qp, pending, holding]

theorem obtained_of_qp {pc : Pc} {q : ℕ} (hpc : pc.qp = some q) :
    pc.obtained = some q := by
  cases pc <;> first | exact hpc | cases hpc

theorem obtained_eq_some_iff {pc : Pc} {q : ℕ} :
    pc.obtained = some q ↔ pc = .fallback q ∨ pc.qp = some q := by
  cases pc <;> simp [obtained, qp, pending, holding]

theorem pending_eq_none_of_qp {pc : Pc} (hpc : pc.qp = none) : pc.pending = none := by
  cases pc <;> first | rfl | cases hpc

theorem holding_eq_none_of_qp {pc : Pc} (hpc : pc.qp = none) : pc.holding = none := by
  cases pc <;> first | rfl | cases hpc

theorem removing_eq_some {pc : Pc} {q : ℕ} (hpc : pc.removing = some q) :
    (∃ waits, pc = .fin q waits) ∨ pc = .expired q := by
  cases pc <;> cases hpc
  · exact .inl ⟨_, rfl⟩
  · exact .inr rfl

theorem holding_of_removing {pc : Pc} {q : ℕ} (hpc : pc.removing = some q) :
    pc.holding = some q := by
  cases pc <;> first | exact hpc | cases hpc

theorem not_removing_of_qp {pc : Pc} {q : ℕ} (hpc : pc.qp = none) :
    pc.removing ≠ some q := by
  intro hremoving
  rw [qp_eq_some_iff.mpr (.inr (holding_of_removing hremoving))] at hpc
  cases hpc

theorem qp_of_paired {pc : Pc} {q : ℕ} (hpc : pc.paired = some q) :
    pc.qp = some q := by
  unfold paired at hpc
  split at hpc <;> first | exact hpc | cases hpc

theorem not_pending_of_holding {pc : Pc} {q q' : ℕ} (hpc : pc.holding = some q) :
    pc.pending ≠ some q' := by
  cases pc <;> simp_all [pending, holding]

end Pc

@[simp]
theorem qp_rejected (fn : Fn) : fn.rejected.qp = none := by
  cases fn <;> rfl

@[simp]
theorem obtained_rejected (fn : Fn) : fn.rejected.obtained = none := by
  cases fn <;> rfl

@[simp]
theorem obtained_proceed (fn : Fn) (q : ℕ) :
    (fn.proceed q).obtained = some q := by
  cases fn <;> rfl

@[simp]
theorem pending_proceed (fn : Fn) (q : ℕ) : (fn.proceed q).pending = some q := by
  cases fn <;> rfl

@[simp]
theorem holding_proceed (fn : Fn) (q : ℕ) : (fn.proceed q).holding = none := by
  cases fn <;> rfl

@[simp]
theorem pending_afterGet (q : ℕ) (waits : Bool) : (afterGet q waits).pending = none := by
  cases waits <;> rfl

@[simp]
theorem holding_afterGet (q : ℕ) (waits : Bool) :
    (afterGet q waits).holding = some q := by
  cases waits <;> rfl

@[simp]
theorem State.setThread_self [DecidableEq W] (s : State W) (w : W) (thread : Thread) :
    (s.setThread w thread).thread w = thread :=
  Function.update_self ..

/-- `rb_erase` is called on a node that is linked in the tree of the CPU. -/
def EraseLinked (s : State W) (label : W × Act) : Prop :=
  ∀ cpu ∈ label.2.eraseCpu, ∀ q ∈ (s.thread label.1).pc.removing,
    q ∈ inorder (s.root (connectionsRoot cpu (s.heap q)))

instance (s : State W) (label : W × Act) : Decidable (EraseLinked s label) :=
  Option.decidableForallMem label.2.eraseCpu

/-- A condition on a run that also keeps its trees. -/
def Keeping (guard : State W → W × Act → Prop) (s : State W) (label : W × Act) : Prop :=
  EraseLinked s label ∧ guard s label

instance (guard : State W → W × Act → Prop) (s : State W) (label : W × Act)
    [Decidable (guard s label)] : Decidable (Keeping guard s label) :=
  inferInstanceAs (Decidable (_ ∧ _))

theorem eraseLinked_of_none {s : State W} {label : W × Act}
    (hnone : label.2.eraseCpu = none) : EraseLinked s label := by
  intro cpu herase
  rw [hnone] at herase
  cases herase

/-- A removal of a linked node changes the tree that it is linked in. -/
theorem State.deTreeQp_eq_some [DecidableEq W] {s s' : State W} {q : ℕ}
    {cpu : BitVec 32} {root : CbnListner × BitVec 32 → BinaryTree ℕ}
    (hmem : q ∈ inorder (s.root (connectionsRoot cpu (s.heap q))))
    (herase : s.deTreeQp q cpu root = some s') :
    let i := connectionsRoot cpu (s.heap q)
    DeTree q (s.root i) (root i) ∧ s' = s.unlink q i (root i) := by
  simp only [State.deTreeQp, if_pos hmem, Option.ite_none_right_eq_some,
    Option.some.injEq] at herase
  exact ⟨herase.1, herase.2.symm⟩

section Step

variable [DecidableEq W] (cfg : Config W) (s : State W) (w : W)

/-- Steps that change nothing but the worker's own program counter. -/
inductive Move : Thread → Act → Thread → Prop
  | start {fn : Fn} : Move ⟨fn, .idle⟩ .start ⟨fn, .enter⟩
  | poolEmpty : Move ⟨.startNewPreConnectionSyn, .enter⟩ .poolEmpty
      ⟨.startNewConnectionSyn, .enter⟩
  | acceptFail :
      Move ⟨.startNewConnection, .enter⟩ .fail ⟨.startNewConnection, .done⟩
  | rejected {fn : Fn} {pc : Pc} {cpu : BitVec 32} {root : BinaryTree ℕ} {q : ℕ}
      (hpc : pc = .enter ∨ ∃ q', pc = .fallback q')
      (hadd : addPqp cfg s w fn cpu = .duplicate q)
      (hdir : (s.heap q).qpDir fn.dir ≠ .null) :
      Move ⟨fn, pc⟩ (.insert cpu root) ⟨fn, fn.rejected⟩
  | connectFail {fn : Fn} {q : ℕ} : Move ⟨fn, .connect q⟩ .fail ⟨fn, .done⟩
  | forward {fn : Fn} {q : ℕ} : Move ⟨fn, .forward q⟩ .go ⟨fn, .check q⟩
  | forwardFail {fn : Fn} {q : ℕ} :
      Move ⟨fn, .forward q⟩ .fail ⟨.startNewConnectionSyn, .fallback q⟩
  | check {fn : Fn} {q : ℕ} : Move ⟨fn, .check q⟩ .go
      ⟨fn, .get q ((s.heap q).qpDir fn.dir.peer).isErrOrNull⟩
  | woken {fn : Fn} {q : ℕ}
      (hpeer : ((s.heap q).qpDir fn.dir.peer).isErrOrNull = false) :
      Move ⟨fn, .wait q⟩ .go ⟨fn, .ready q⟩
  | timeout {fn : Fn} {q : ℕ}
      (hpeer : ((s.heap q).qpDir fn.dir.peer).isErrOrNull = true) :
      Move ⟨fn, .wait q⟩ .timeout ⟨fn, .expired q⟩
  | signal {fn : Fn} {q : ℕ}
      (hpeer : ((s.heap q).qpDir fn.dir.peer).isErrOrNull = true) :
      Move ⟨fn, .wait q⟩ .signal ⟨fn, .ready q⟩
  | wake {fn : Fn} {q : ℕ} : Move ⟨fn, .wake q⟩ .go ⟨fn, .ready q⟩
  | duplex {fn : Fn} {q : ℕ}
      (hvalid : fn = .startNewPreConnectionSyn ∨ (s.heap q).bothValid = true) :
      Move ⟨fn, .ready q⟩ .go ⟨fn, .duplex q⟩
  | dropRef {q : ℕ} (hvalid : (s.heap q).bothValid = false) :
      Move ⟨.startNewConnectionSyn, .ready q⟩ .go
        ⟨.startNewConnectionSyn, .dropRef q⟩
  | giveUp {q : ℕ} (hvalid : (s.heap q).bothValid = false) :
      Move ⟨.startNewConnection, .ready q⟩ .go ⟨.startNewConnection, .done⟩
  | duplexFail {fn : Fn} {q : ℕ} : Move ⟨fn, .duplex q⟩ .fail ⟨fn, .done⟩

/-- The QP that a step takes a reference on. -/
def getAt : Pc → Act → Option ℕ
  | .get q _, .go => some q
  | _, _ => none

theorem getAt_eq_some {pc : Pc} {act : Act} {q : ℕ} (hpc : getAt pc act = some q) :
    (∃ waits, pc = .get q waits) ∧ act = .go := by
  unfold getAt at hpc
  split at hpc
  · cases hpc
    exact ⟨⟨_, rfl⟩, rfl⟩
  · cases hpc

/-- The QP that a step calls `put_qp` on. -/
def putAt : Pc → Act → Option ℕ
  | .expiredPut q, .go => some q
  | .dropRef q, .go => some q
  | .duplex q, .leave => some q
  | _, _ => none

theorem putAt_eq_some {pc : Pc} {act : Act} {q : ℕ} (hpc : putAt pc act = some q) :
    pc = .expiredPut q ∨ pc = .dropRef q ∨ pc = .duplex q := by
  unfold putAt at hpc
  split at hpc <;> cases hpc <;> simp

/-- Where `rb_erase` is called, and the statement after it. -/
inductive EraseAt : Pc → ℕ → Pc → Prop
  | fin {q : ℕ} {waits : Bool} : EraseAt (.fin q waits) q (afterGet q waits)
  | expired {q : ℕ} : EraseAt (.expired q) q (.expiredPut q)

theorem EraseAt.holding {pc after : Pc} {q : ℕ} (hpc : EraseAt pc q after) :
    pc.holding = some q ∧ after.holding = some q ∧ after.pending = none := by
  cases hpc
  · exact ⟨rfl, holding_afterGet _ _, pending_afterGet _ _⟩
  · exact ⟨rfl, rfl, rfl⟩

theorem EraseAt.removing {pc after : Pc} {q : ℕ} (hpc : EraseAt pc q after) :
    pc.removing = some q ∧ ∀ q', after.removing ≠ some q' := by
  cases hpc
  · rename_i waits
    exact ⟨rfl, fun q' h => by cases waits <;> cases h⟩
  · exact ⟨rfl, fun q' h => by cases h⟩

/-- A step of worker `w` by its effect, if it calls `rb_erase` on a linked node
only. -/
inductive Step : Act → State W → Prop
  | move {act : Act} {thread : Thread}
      (hmove : Move cfg s w (s.thread w) act thread) :
      Step act (s.setThread w thread)
  | join {fn : Fn} {pc : Pc} {cpu : BitVec 32} {root : BinaryTree ℕ} {q : ℕ}
      (hthread : s.thread w = ⟨fn, pc⟩)
      (hpc : pc = .enter ∨ ∃ q', pc = .fallback q')
      (hadd : addPqp cfg s w fn cpu = .duplicate q)
      (hdir : (s.heap q).qpDir fn.dir = .null) :
      Step (.insert cpu root)
        ((s.join w q fn.dir (cfg.pqp w fn)).setThread w ⟨fn, fn.proceed q⟩)
  | link {fn : Fn} {pc : Pc} {cpu : BitVec 32} {root linked : BinaryTree ℕ}
      (hthread : s.thread w = ⟨fn, pc⟩)
      (hpc : pc = .enter ∨ ∃ q', pc = .fallback q')
      (hadd : addPqp cfg s w fn cpu = .linked linked)
      (hcolor : InsertColor linked root) :
      Step (.insert cpu root)
        ((s.link w fn.dir (cfg.pqp w fn) cpu root).setThread w ⟨fn, fn.proceed s.next⟩)
  | store {fn : Fn} {q : ℕ} (hthread : s.thread w = ⟨fn, .connect q⟩) :
      Step .go ((s.store q .tx (.sock w fn)).setThread w ⟨fn, .check q⟩)
  | get {fn : Fn} {q : ℕ} {waits : Bool}
      (hthread : s.thread w = ⟨fn, .get q waits⟩) :
      Step .go ((s.getQp q fn.dir).setThread w
        ⟨fn, if (s.heap q).refCnt = 1 then .fin q waits else afterGet q waits⟩)
  | erase {fn : Fn} {pc after : Pc} {q : ℕ} {cpu : BitVec 32}
      {root : CbnListner × BitVec 32 → BinaryTree ℕ}
      (hthread : s.thread w = ⟨fn, pc⟩) (hpc : EraseAt pc q after)
      (herase : DeTree q (s.root (connectionsRoot cpu (s.heap q)))
        (root (connectionsRoot cpu (s.heap q)))) :
      Step (.erase cpu root)
        ((s.unlink q (connectionsRoot cpu (s.heap q))
          (root (connectionsRoot cpu (s.heap q)))).setThread w ⟨fn, after⟩)
  | put {fn : Fn} {pc : Pc} {act : Act} {q : ℕ}
      (hthread : s.thread w = ⟨fn, pc⟩) (hpc : putAt pc act = some q) :
      Step act ((s.putQp q fn.dir).setThread w ⟨fn, .done⟩)

variable {cfg s w}

theorem step_of_qpExists {s' : State W} {fn : Fn} {pc : Pc} {cpu : BitVec 32}
    {root : BinaryTree ℕ} (hthread : s.thread w = ⟨fn, pc⟩)
    (hpc : pc = .enter ∨ ∃ q', pc = .fallback q')
    (hstep : qpExists cfg s w fn cpu root = some s') :
    Step cfg s w (.insert cpu root) s' := by
  unfold qpExists at hstep
  dsimp only at hstep
  split at hstep
  · rename_i q hadd
    split at hstep
    · rename_i hdir
      cases hstep
      exact .move (hthread ▸ .rejected hpc hadd hdir)
    · rename_i hdir
      cases hstep
      exact .join hthread hpc hadd (not_not.mp hdir)
  · rename_i linked hadd
    split at hstep
    · rename_i hcolor
      cases hstep
      exact .link hthread hpc hadd hcolor
    · cases hstep

/-- Every transition of the machine that keeps the trees is one of the seven
effects. -/
theorem step_of_next {s' : State W} {act : Act} (hguard : EraseLinked s (w, act))
    (hstep : (rendezvous cfg).next s (w, act) = some s') :
    Step cfg s w act s' := by
  obtain ⟨fn, pc, hthread⟩ : ∃ fn pc, s.thread w = ⟨fn, pc⟩ := ⟨_, _, rfl⟩
  have hmove : ∀ {thread : Thread}, Move cfg s w ⟨fn, pc⟩ act thread →
      Step cfg s w act (s.setThread w thread) := by
    intro thread hmove
    exact .move (hthread ▸ hmove)
  have herase : ∀ {q : ℕ} {cpu : BitVec 32}
      {root : CbnListner × BitVec 32 → BinaryTree ℕ} {after : Pc} {t : State W},
      act = .erase cpu root → EraseAt pc q after → s.deTreeQp q cpu root = some t →
      Step cfg s w act (t.setThread w ⟨fn, after⟩) := by
    intro q cpu root after t hact hpc herase
    subst hact
    have hmem := hguard cpu rfl q (by rw [hthread]; exact hpc.removing.1)
    obtain ⟨htree, rfl⟩ := State.deTreeQp_eq_some hmem herase
    exact .erase hthread hpc htree
  simp only [rendezvous, hthread] at hstep
  unfold stepThread at hstep
  split at hstep
  · cases hstep
    exact hmove .start
  · split at hstep <;> cases hstep
    rename_i hfn
    subst hfn
    exact hmove .poolEmpty
  · split at hstep <;> cases hstep
    rename_i hfn
    subst hfn
    exact hmove .acceptFail
  · exact step_of_qpExists hthread (.inl rfl) hstep
  · exact step_of_qpExists hthread (.inr ⟨_, rfl⟩) hstep
  · cases hstep
    exact .store hthread
  · cases hstep
    exact hmove .connectFail
  · cases hstep
    exact hmove .forward
  · cases hstep
    exact hmove .forwardFail
  · cases hstep
    exact hmove .check
  · rename_i q waits
    cases hstep
    have hget : Step cfg s w .go _ := .get hthread
    have hcount : ((s.getQp q fn.dir).heap q).refCnt = (s.heap q).refCnt + 1 := by
      simp [State.getQp, State.setQp, State.setHeld]
    have htwo : (s.heap q).refCnt + 1 = 2 ↔ (s.heap q).refCnt = 1 := by omega
    simpa only [hcount, htwo] using hget
  · obtain ⟨s', htree, rfl⟩ := Option.map_eq_some_iff.mp hstep
    exact herase rfl .fin htree
  · split at hstep <;> cases hstep
    rename_i hpeer
    exact hmove (.woken (by simpa using hpeer))
  · split at hstep <;> cases hstep
    rename_i hpeer
    exact hmove (.timeout hpeer)
  · split at hstep <;> cases hstep
    rename_i hpeer
    exact hmove (.signal hpeer)
  · cases hstep
    exact hmove .wake
  · obtain ⟨s', htree, rfl⟩ := Option.map_eq_some_iff.mp hstep
    exact herase rfl .expired htree
  · cases hstep
    exact .put hthread rfl
  · rename_i q
    split at hstep <;> cases hstep
    · cases hvalid : (s.heap q).bothValid
      · exact hmove (.dropRef hvalid)
      · exact hmove (.duplex (.inr hvalid))
    · exact hmove (.duplex (.inl rfl))
    · cases hvalid : (s.heap q).bothValid
      · exact hmove (.giveUp hvalid)
      · exact hmove (.duplex (.inr hvalid))
  · cases hstep
    exact .put hthread rfl
  · cases hstep
    exact .put hthread rfl
  · cases hstep
    exact hmove .duplexFail
  · cases hstep

theorem reachable_of_keeping {guard : State W → W × Act → Prop}
    (hreach : (rendezvous cfg).ReachableUnder (Keeping guard) s) :
    (rendezvous cfg).ReachableUnder EraseLinked s :=
  hreach.mono fun _ _ hguard => hguard.1

theorem holding_of_putAt {pc : Pc} {act : Act} {q : ℕ}
    (hpc : putAt pc act = some q) : pc.holding = some q := by
  rcases putAt_eq_some hpc with rfl | rfl | rfl <;> rfl

end Step

/-- After any other call of `rb_erase` the worker goes on in the same way. -/
theorem stray_of_next [DecidableEq W] {cfg : Config W} {s s' : State W} {w : W}
    {act : Act} (hguard : ¬EraseLinked s (w, act))
    (hnext : (rendezvous cfg).next s (w, act) = some s') :
    ∃ fn pc after q root, s.thread w = ⟨fn, pc⟩ ∧ EraseAt pc q after ∧
      s' = (s.unlinkStray q root).setThread w ⟨fn, after⟩ := by
  unfold EraseLinked at hguard
  push Not at hguard
  obtain ⟨cpu, hcpu, q, hremoving, hout⟩ := hguard
  obtain ⟨fn, pc, hthread⟩ : ∃ fn pc, s.thread w = ⟨fn, pc⟩ := ⟨_, _, rfl⟩
  rw [hthread] at hremoving
  cases act with
  | erase cpu' root =>
      cases hcpu
      rcases Pc.removing_eq_some hremoving with ⟨waits, rfl⟩ | rfl <;>
        simp only [rendezvous, hthread, stepThread, State.deTreeQp, if_neg hout,
          Option.map_some, Option.some.injEq] at hnext
      · exact ⟨_, _, _, _, root, hthread, .fin, hnext.symm⟩
      · exact ⟨_, _, _, _, root, hthread, .expired, hnext.symm⟩
  | _ => cases hcpu

section Moves

variable {cfg : Config W} {s : State W} {w : W} {act : Act} {q : ℕ}
  {before after : Thread}

/-- A move takes no reference, drops none and changes no QP. -/
theorem Move.qp (hmove : Move cfg s w before act after)
    (hpc : after.pc.qp = some q) : before.pc.qp = some q := by
  cases hmove <;> first | exact hpc | cases hpc | skip
  simp at hpc

theorem Move.obtained (hmove : Move cfg s w before act after)
    (hpc : after.pc.obtained = some q) : before.pc.obtained = some q := by
  cases hmove <;> first | exact hpc | cases hpc | skip
  simp at hpc

theorem Move.pending (hmove : Move cfg s w before act after)
    (hpc : after.pc.pending = some q) : before.pc.pending = some q := by
  cases hmove <;> first | exact hpc | cases hpc | skip
  simp [Pc.pending_eq_none_of_qp] at hpc

theorem Move.holding (hmove : Move cfg s w before act after)
    (hpc : after.pc.holding = some q) : before.pc.holding = some q := by
  cases hmove <;> first | exact hpc | cases hpc | skip
  simp [Pc.holding_eq_none_of_qp] at hpc

theorem Move.not_claiming (hmove : Move cfg s w before act after) :
    after.pc ≠ .connect q ∧ after.pc ≠ .forward q := by
  cases hmove <;> simp
  rename_i fn _ _ _ _ _ _ _
  cases fn <;> simp [Fn.rejected]

/-- Only a store leads from `connect` to a statement of the same QP. -/
theorem Move.before_ne_connect (hmove : Move cfg s w before act after)
    (hpc : after.pc.qp = some q) : before.pc ≠ .connect q := by
  cases hmove with
  | connectFail => cases hpc
  | rejected => simp at hpc
  | _ => exact Pc.noConfusion

theorem Move.removing (hmove : Move cfg s w before act after)
    (hpc : after.pc.removing = some q) :
    before.pc = .wait q ∧ after.pc = .expired q ∧
      ((s.heap q).qpDir before.fn.dir.peer).isErrOrNull = true := by
  cases hmove with
  | timeout hpeer =>
      cases hpc
      exact ⟨rfl, rfl, hpeer⟩
  | rejected hpc' hadd hdir =>
      rename_i fn _ _ _ _
      cases fn <;> cases hpc
  | _ => cases hpc

/-- No move ends where a step on the QP itself does. -/
theorem Move.not_after_step (hmove : Move cfg s w before act after) :
    after.pc ≠ .wait q ∧ after.pc ≠ .expiredPut q := by
  cases hmove with
  | rejected hpc hadd hdir =>
      rename_i fn _ _ _ _
      cases fn <;> exact ⟨Pc.noConfusion, Pc.noConfusion⟩
  | _ => exact ⟨Pc.noConfusion, Pc.noConfusion⟩

/-- A move that does not interrupt a wait goes on only with a valid peer. -/
theorem Move.paired (hmove : Move cfg s w before act after)
    (hsignal : act ≠ .signal) (hpc : after.pc.paired = some q) :
    before.pc.paired = some q ∨ before.pc.qp = some q ∧ before.pc ≠ .connect q ∧
      ((s.heap q).qpDir before.fn.dir.peer).isErrOrNull = false := by
  cases hmove with
  | check =>
      rename_i fn q'
      cases hpeer : ((s.heap q').qpDir fn.dir.peer).isErrOrNull <;>
        simp only [hpeer] at hpc
      · cases hpc
        exact .inr ⟨rfl, Pc.noConfusion, hpeer⟩
      · cases hpc
  | woken hpeer =>
      cases hpc
      exact .inr ⟨rfl, Pc.noConfusion, hpeer⟩
  | signal _ => exact absurd rfl hsignal
  | rejected hpc' hadd hdir =>
      rename_i fn _ _ _ _
      cases fn <;> cases hpc
  | wake => exact .inl hpc
  | duplex _ => exact .inl hpc
  | dropRef _ => exact .inl hpc
  | _ => cases hpc

theorem Move.sure (hmove : Move cfg s w before act after)
    (hpc : after.pc = .get q false) :
    ((s.heap q).qpDir before.fn.dir.peer).isErrOrNull = false := by
  cases hmove with
  | check =>
      simp only [Pc.get.injEq] at hpc
      rw [← hpc.1]
      exact hpc.2
  | rejected hpc' hadd hdir =>
      rename_i fn _ _ _ _
      cases fn <;> cases hpc
  | _ => cases hpc

end Moves

end KtcpSplit.Rendezvous
