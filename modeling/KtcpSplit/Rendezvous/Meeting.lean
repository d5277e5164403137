import KtcpSplit.Lib.Ranking
import KtcpSplit.Rendezvous.Lifetime
import KtcpSplit.Rendezvous.Listners
import KtcpSplit.Rendezvous.Pairing

/-!
# The two halves of a connection find each other

A worker takes a bounded number of statements.  If the workers of one key stay on one
CPU and succeed in what they do, the two of them end on one QP, each with the socket of
the other, and neither the order of their steps nor the end of any other connection
matters, as long as the other ones leave the trees and the memory of QPs in order.
-/

namespace KtcpSplit.Rendezvous

open KtcpSplit.ConnKey
open KtcpSplit.Listner
open KtcpSplit.RbData
open KtcpSplit.SearchTree
open KtcpSplit.Transition

variable {W : Type*} {cfg : Config W} {cpu : W → BitVec 32} {s s' : State W} {w w' : W}
  {act : Act} {q : ℕ} {dir : Dir}

/-! ## The statements of a worker -/

/-- The statements that a worker has left at most. -/
def Thread.rank (thread : Thread) : ℕ :=
  match thread.pc with
  | .idle => 11
  | .enter => if thread.fn = .startNewPreConnectionSyn then 10 else 8
  | .fallback _ => if thread.fn = .startNewPreConnectionSyn then 10 else 8
  | .forward _ => 9
  | .connect _ => 7
  | .check _ => 6
  | .get _ _ => 5
  | .fin _ _ => 4
  | .wait _ => 3
  | .wake _ => 3
  | .expired _ => 2
  | .ready _ => 2
  | .expiredPut _ => 1
  | .dropRef _ => 1
  | .duplex _ => 1
  | .done => 0
  | .oops => 0

theorem rank_rejected (fn fn' : Fn) : Thread.rank ⟨fn, fn'.rejected⟩ = 0 := by
  cases fn' <;> rfl

theorem rank_afterGet (fn : Fn) (q : ℕ) (waits : Bool) :
    Thread.rank ⟨fn, afterGet q waits⟩ = 3 := by
  cases waits <;> rfl

/-- `qp_exists` is called with more statements left than it leaves. -/
theorem rank_proceed_lt (fn : Fn) {pc : Pc} (hpc : pc = .enter ∨ ∃ q', pc = .fallback q')
    (q : ℕ) : Thread.rank ⟨fn, fn.proceed q⟩ < Thread.rank ⟨fn, pc⟩ := by
  rcases hpc with rfl | ⟨q', rfl⟩ <;> cases fn <;> simp [Fn.proceed, Thread.rank]

theorem Move.rank_lt {before after : Thread} (hmove : Move cfg s w before act after) :
    after.rank < before.rank := by
  cases hmove with
  | start =>
      simp only [Thread.rank]
      split <;> omega
  | rejected hpc hadd hdir =>
      rename_i fn _ _ _ _
      rw [rank_rejected]
      exact Nat.zero_lt_of_lt (rank_proceed_lt fn hpc 0)
  | _ => simp [Thread.rank]

theorem EraseAt.rank_lt {pc after : Pc} (hpc : EraseAt pc q after) (fn : Fn) :
    Thread.rank ⟨fn, after⟩ < Thread.rank ⟨fn, pc⟩ := by
  cases hpc with
  | fin =>
      rw [rank_afterGet]
      simp [Thread.rank]
  | expired => simp [Thread.rank]

section Bounded

variable [DecidableEq W]

/-- A step of a worker is one statement less for it. -/
theorem Step.rank_lt (hstep : Step cfg s w act s') :
    (s'.thread w).rank < (s.thread w).rank := by
  cases hstep with
  | move hmove =>
      rw [State.setThread_self]
      exact hmove.rank_lt
  | join hthread hpc _ _ =>
      rw [State.setThread_self, hthread]
      exact rank_proceed_lt _ hpc _
  | link hthread hpc _ _ =>
      rw [State.setThread_self, hthread]
      exact rank_proceed_lt _ hpc _
  | store hthread =>
      rw [State.setThread_self, hthread]
      simp [Thread.rank]
  | get hthread =>
      rw [State.setThread_self, hthread]
      split
      · simp [Thread.rank]
      · rw [rank_afterGet]
        simp [Thread.rank]
  | erase hthread hpc _ =>
      rw [State.setThread_self, hthread]
      exact hpc.rank_lt _
  | put hthread hpc =>
      rw [State.setThread_self, hthread]
      rcases putAt_eq_some hpc with rfl | rfl | rfl <;> simp [Thread.rank]

/-- So is a call of `rb_erase` on a node that is not linked. -/
theorem rank_lt_of_next (hnext : (rendezvous cfg).next s (w, act) = some s') :
    (s'.thread w).rank < (s.thread w).rank ∧ ∀ w', w' ≠ w → s'.thread w' = s.thread w' := by
  by_cases hguard : EraseLinked s (w, act)
  · have hstep := step_of_next hguard hnext
    exact ⟨hstep.rank_lt, fun _ hw => hstep.thread_ne hw⟩
  · obtain ⟨fn, pc, after, q, root, hthread, hpc, rfl⟩ := stray_of_next hguard hnext
    refine ⟨?_, fun _ hw => Function.update_of_ne hw ..⟩
    rw [State.setThread_self, hthread]
    exact hpc.rank_lt fn

/-- Whatever fails, times out or is interrupted, a worker takes at most eleven
statements. -/
theorem countP_run_le {labels : List (W × Act)}
    (hrun : (rendezvous cfg).run (rendezvous cfg).init labels = some s) (w : W) :
    labels.countP (fun label => decide (label.1 = w)) ≤ 11 := by
  have hle := Machine.countP_add_le (fun label => decide (label.1 = w))
    (fun s : State W => (s.thread w).rank) (P := fun _ => True) ?_ trivial hrun
  · exact Nat.le_of_add_right_le hle.2
  · rintro before ⟨w', act⟩ after - - hnext
    obtain ⟨hless, hothers⟩ := rank_lt_of_next hnext
    refine ⟨trivial, ?_⟩
    by_cases hw : w' = w
    · subst hw
      rw [if_pos (decide_eq_true rfl)]
      omega
    · rw [if_neg (by simpa using hw), hothers w fun h => hw h.symm]
      omega

end Bounded

/-! ## The key of a meeting -/

/-- What decides which QP a worker finds: the tree of its listener on its CPU, and its
key as `strncmp` reads it. -/
def Config.meet (cfg : Config W) (cpu : W → BitVec 32) (w : W) :
    (CbnListner × BitVec 32) × List Byte :=
  (((cfg.worker w).listner, cpu w), cString rbKeyLength (cfg.worker w).tuple.key)

def State.meetOf (s : State W) (q : ℕ) : (CbnListner × BitVec 32) × List Byte :=
  (s.home q, cString rbKeyLength (s.heap q).tuple.key)

/-- Every worker runs `qp_exists` on the CPU it was started on. -/
def Bound (cpu : W → BitVec 32) (_s : State W) (label : W × Act) : Prop :=
  ∀ cpu' ∈ label.2.insertCpu, cpu' = cpu label.1

instance (cpu : W → BitVec 32) (s : State W) (label : W × Act) :
    Decidable (Bound cpu s label) :=
  Option.decidableForallMem label.2.insertCpu

section Keys

variable [DecidableEq W]

abbrev BoundRun (cfg : Config W) (cpu : W → BitVec 32) (s : State W) : Prop :=
  (rendezvous cfg).ReachableUnder (Keeping (Bound cpu)) s

theorem Step.cpuOf_eq (hstep : Step cfg s w act s') (hlt : q < s.next) :
    s'.cpuOf q = s.cpuOf q := by
  cases hstep with
  | link _ _ _ _ => exact Function.update_of_ne hlt.ne ..
  | _ => rfl

theorem Step.meetOf_eq (hstep : Step cfg s w act s') (hlt : q < s.next) :
    s'.meetOf q = s.meetOf q := by
  have htuple : (s'.heap q).tuple = (s.heap q).tuple := hstep.tupleOf hlt
  rw [State.meetOf, State.meetOf, State.home, State.home, connectionsRoot, connectionsRoot,
    htuple, hstep.listner_eq hlt, hstep.cpuOf_eq hlt]

omit [DecidableEq W] in
/-- The search of a worker finds the QPs of its key. -/
theorem meetOf_of_duplicate (howned : Owned cfg s) (hlinked : Linked cfg s) {fn : Fn}
    (hadd : addPqp cfg s w fn (cpu w) = .duplicate q) : s.meetOf q = cfg.meet cpu w := by
  obtain ⟨hmem, hkey⟩ := (addPqp_eq_duplicate_iff howned hlinked).mp hadd
  rw [State.meetOf, Config.meet, ← hlinked.home _ _ hmem, hkey]
  rfl

/-- The workers on a QP have its key. -/
theorem meet_of_owner (hreach : BoundRun cfg cpu s) (howner : w ∈ s.owners q dir) :
    cfg.meet cpu w = s.meetOf q := by
  revert w q dir
  refine hreach.invariant
    (P := fun s => ∀ {w q dir}, w ∈ s.owners q dir → cfg.meet cpu w = s.meetOf q)
    (fun howner => by cases howner) ?_
  rintro before ⟨w', act⟩ after hbefore hmeet ⟨hguard, hbound⟩ hnext w q dir howner
  have howned := owned_of_reachable (reachable_of_keeping hbefore)
  have hlinked := linked_of_reachable (reachable_of_keeping hbefore)
  have hstep := step_of_next hguard hnext
  have hlinked' := hlinked.step howned hstep
  rcases hstep.owners howner with hold | ⟨rfl, cpu', hinsert, ⟨rfl, htuple, hcpu⟩ | hadd⟩
  · rw [hstep.meetOf_eq (howned.owners_lt _ _ _ hold)]
    exact hmeet hold
  · have htuple' : (after.heap before.next).tuple = (cfg.worker w).tuple := htuple
    rw [Config.meet, State.meetOf, State.home, connectionsRoot, hcpu, htuple',
      hlinked'.owner_listner _ _ _ howner, hbound cpu' hinsert]
  · obtain rfl := hbound cpu' hinsert
    rw [hstep.meetOf_eq (howned.root_lt _ _ (mem_of_addPqp_duplicate hadd))]
    exact (meetOf_of_duplicate howned hlinked hadd).symm

end Keys

/-! ## The sockets -/

section Sockets

theorem Config.pqp_sock {fn : Fn} (hconnect : fn.proceed q ≠ .connect q) :
    ∃ fn', (cfg.pqp w fn).qpDir fn.dir = .sock w fn' := by
  cases fn with
  | startNewConnectionSyn => exact absurd rfl hconnect
  | startNewPreConnectionSyn => exact ⟨_, rfl⟩
  | startNewConnection => exact ⟨_, rfl⟩

variable [DecidableEq W]

/-- A worker that has its socket has put it into its QP. -/
theorem socket_of_qp (hreach : BoundRun cfg cpu s)
    (hpc : (s.thread w).pc.qp = some q) (hconnect : (s.thread w).pc ≠ .connect q) :
    ∃ fn, (s.heap q).qpDir (cfg.dir w) = .sock w fn := by
  revert w q
  refine hreach.invariant
    (P := fun s => ∀ {w q}, (s.thread w).pc.qp = some q → (s.thread w).pc ≠ .connect q →
      ∃ fn, (s.heap q).qpDir (cfg.dir w) = .sock w fn)
    (fun hpc => by cases hpc) ?_
  rintro before ⟨w', act⟩ after hbefore hsocket ⟨hguard, -⟩ hnext w q hpc hconnect
  have howned := owned_of_reachable (reachable_of_keeping hbefore)
  have hlinked := linked_of_reachable (reachable_of_keeping hbefore)
  have hstep := step_of_next hguard hnext
  by_cases hw : w = w'
  case neg =>
    rw [hstep.thread_ne hw] at hpc hconnect
    rw [hstep.qpDir_of_owner howned hlinked (howned.owner_of_qp hpc) hw]
    exact hsocket hpc hconnect
  case pos =>
    subst hw
    have hfn := howned.fn_dir w
    cases hstep with
    | move hmove =>
        rw [State.setThread_self] at hpc
        exact hsocket (hmove.qp hpc) (hmove.before_ne_connect hpc)
    | @join fn _ _ _ q' hthread _ _ _ =>
        rw [State.setThread_self] at hpc hconnect
        obtain rfl := Fn.qp_proceed.mp hpc
        rw [hthread] at hfn
        obtain ⟨fn', hsock⟩ := cfg.pqp_sock (w := w) hconnect
        refine ⟨fn', ?_⟩
        rw [← hfn]
        simpa [State.setThread, State.join, State.store, State.setQp] using hsock
    | @link fn _ _ _ _ hthread _ _ _ =>
        rw [State.setThread_self] at hpc hconnect
        obtain rfl := Fn.qp_proceed.mp hpc
        rw [hthread] at hfn
        obtain ⟨fn', hsock⟩ := cfg.pqp_sock (w := w) hconnect
        refine ⟨fn', ?_⟩
        rw [← hfn]
        simpa [State.setThread, State.link, State.setQp] using hsock
    | @store fn q' hthread =>
        rw [State.setThread_self] at hpc
        cases hpc
        refine ⟨fn, ?_⟩
        rw [howned.tx_side w q (.inl (by rw [hthread]))]
        simp [State.setThread, State.store, State.setQp]
    | @get fn q' waits hthread =>
        have hq : q' = q := by
          rw [State.setThread_self] at hpc
          split at hpc
          · exact Option.some.inj hpc
          · cases waits <;> exact Option.some.inj hpc
        subst hq
        obtain ⟨fn', hsock⟩ := hsocket (w := w) (q := q') (by rw [hthread]; rfl)
          (by rw [hthread]; exact Pc.noConfusion)
        refine ⟨fn', ?_⟩
        simpa [State.setThread, State.getQp, State.setHeld, State.setQp] using hsock
    | @erase fn pc after q' _ _ hthread hpc' herase =>
        have hq : q' = q := by
          rw [State.setThread_self] at hpc
          have hafter := Pc.qp_eq_some_iff.mpr (.inr hpc'.holding.2.1)
          rw [hafter] at hpc
          exact Option.some.inj hpc
        subst hq
        refine hsocket (by rw [hthread]; exact Pc.qp_eq_some_iff.mpr (.inr hpc'.holding.1)) ?_
        rw [hthread]
        cases hpc' <;> exact Pc.noConfusion
    | put hthread hpc' =>
        rw [State.setThread_self] at hpc
        cases hpc

end Sockets

/-! ## The removal of a QP -/

/-- Who has taken a reference on a QP and whether it is still in its tree, as long as
no reference is dropped. -/
inductive Stage (s : State W) (q : ℕ) : Prop
  | apart (hheld : ∃ dir, s.held q dir = false) (herased : s.erased q = 0)
      (hno : ∀ w, (s.thread w).pc.removing ≠ some q)
  | joined (w : W) (hheld : ∀ dir, s.held q dir = true) (herased : s.erased q = 0)
      (hfin : (s.thread w).pc.removing = some q)
      (honly : ∀ w', (s.thread w').pc.removing = some q → w' = w)
  | removed (hheld : ∀ dir, s.held q dir = true) (herased : s.erased q = 1)
      (hno : ∀ w, (s.thread w).pc.removing ≠ some q)

theorem Stage.fresh (howned : Owned cfg s) (hlinked : Linked cfg s) (hnext : s.next ≤ q) :
    Stage s q := by
  refine .apart ⟨.tx, ?_⟩ (hlinked.not_erased q hnext) fun w hremoving => ?_
  · by_contra hheld
    obtain ⟨w, howner⟩ := List.exists_mem_of_ne_nil _
      (howned.owner_of_held q .tx (by simpa using hheld))
    exact absurd (howned.owners_lt _ _ _ howner) (by omega)
  · have hqp := Pc.qp_eq_some_iff.mpr (.inr (Pc.holding_of_removing hremoving))
    exact absurd (howned.lt_of_qp hqp) (by omega)

/-- Both references are taken. -/
theorem Stage.erased_eq_one (hstage : Stage s q) (hheld : ∀ dir, s.held q dir = true)
    (hno : ∀ w, (s.thread w).pc.removing ≠ some q) : s.erased q = 1 := by
  cases hstage with
  | apart hfree _ _ =>
      obtain ⟨dir, hfree⟩ := hfree
      rw [hheld dir] at hfree
      cases hfree
  | joined w _ _ hfin _ => exact absurd hfin (hno w)
  | removed _ herased _ => exact herased

theorem Stage.erased_of_removing (hstage : Stage s q)
    (hremoving : (s.thread w).pc.removing = some q) : s.erased q = 0 := by
  cases hstage with
  | apart _ _ hno => exact absurd hremoving (hno w)
  | joined _ _ herased _ _ => exact herased
  | removed _ _ hno => exact absurd hremoving (hno w)

theorem Stage.erased_eq_zero (hstage : Stage s q) (hfree : s.held q dir = false) :
    s.erased q = 0 := by
  cases hstage with
  | apart _ herased _ => exact herased
  | joined _ hheld _ _ _ =>
      rw [hheld dir] at hfree
      cases hfree
  | removed hheld _ _ =>
      rw [hheld dir] at hfree
      cases hfree

section Stages

variable [DecidableEq W]

/-- A step that does not remove the node and takes no reference on it. -/
theorem Stage.keep (hstage : Stage s q) (hstep : Step cfg s w act s')
    (hheld : ∀ dir, s'.held q dir = s.held q dir)
    (hbefore : (s.thread w).pc.removing ≠ some q)
    (hafter : (s'.thread w).pc.removing ≠ some q) : Stage s' q := by
  have herased := hstep.erased_keep hbefore
  have hsame : ∀ w', (s'.thread w').pc.removing = some q →
      (s.thread w').pc.removing = some q := by
    intro w' hremoving
    by_cases hw : w' = w
    · exact absurd (hw ▸ hremoving) hafter
    · rwa [hstep.thread_ne hw] at hremoving
  cases hstage with
  | apart hfree hzero hno =>
      obtain ⟨dir, hfree⟩ := hfree
      exact .apart ⟨dir, (hheld dir).trans hfree⟩ (herased.trans hzero)
        fun w' hremoving => hno w' (hsame w' hremoving)
  | joined w₁ hboth hzero hfin honly =>
      refine .joined w₁ (fun dir => (hheld dir).trans (hboth dir)) (herased.trans hzero) ?_
        fun w' hremoving => honly w' (hsame w' hremoving)
      have hw : w₁ ≠ w := by
        rintro rfl
        exact hbefore hfin
      rw [hstep.thread_ne hw]
      exact hfin
  | removed hboth hone hno =>
      exact .removed (fun dir => (hheld dir).trans (hboth dir)) (herased.trans hone)
        fun w' hremoving => hno w' (hsame w' hremoving)

/-- The second reference is followed by the removal. -/
theorem Stage.get (hstage : Stage s q) (howned : Owned cfg s) (hlinked : Linked cfg s)
    (hstep : Step cfg s w act s') (hget : getAt (s.thread w).pc act = some q) :
    Stage s' q := by
  obtain ⟨⟨waits, hpc⟩, rfl⟩ := getAt_eq_some hget
  have hpending : (s.thread w).pc.pending = some q := by rw [hpc]; rfl
  have hown := howned.not_held_of_pending w q hpending
  have hcount := howned.refCnt_of_pending hpending
  have hremoving : (s.thread w).pc.removing ≠ some q := by rw [hpc]; exact nofun
  have herased := hstep.erased_keep hremoving
  have hheld := hstep.held_eq howned q
  have hput : putAt (s.thread w).pc .go ≠ some q := by rw [hpc]; exact nofun
  simp only [hget, hput, true_and, false_and, if_false] at hheld
  -- its own reference is not taken, so the node was not removed
  obtain ⟨hzero, hno⟩ : s.erased q = 0 ∧ ∀ w, (s.thread w).pc.removing ≠ some q := by
    cases hstage with
    | apart _ hzero hno => exact ⟨hzero, hno⟩
    | joined _ hboth _ _ _ =>
        rw [hboth] at hown
        cases hown
    | removed hboth _ _ =>
        rw [hboth] at hown
        cases hown
  have hothers : ∀ w', (s'.thread w').pc.removing = some q → w' = w := by
    intro w' hremoving'
    by_contra hw
    rw [hstep.thread_ne hw] at hremoving'
    exact hno w' hremoving'
  obtain ⟨waits', hpc', ⟨hone, hafter⟩ | ⟨hone, hafter⟩⟩ :=
    (hstep.turn howned hlinked).of_getAt hget
  · refine .joined w (fun dir => ?_) (herased.trans hzero) (by rw [hafter]; rfl) hothers
    rw [hheld dir]
    split
    · rfl
    · rename_i hdir
      rw [Dir.eq_peer_of_ne hdir]
      exact howned.peer_held hpending hone
  · refine .apart ⟨(cfg.dir w).peer, ?_⟩ (herased.trans hzero) fun w' hremoving' => ?_
    · rw [hheld, if_neg (Dir.peer_ne _)]
      cases hpeer : s.held q (cfg.dir w).peer with
      | false => rfl
      | true =>
          rw [hpeer] at hcount
          exact absurd hcount hone
    · obtain rfl := hothers w' hremoving'
      rw [hafter] at hremoving'
      cases waits' <;> cases hremoving'

/-- No reference is dropped, and the removal follows the second reference. -/
theorem Stage.step (hstage : Stage s q) (howned : Owned cfg s) (hlinked : Linked cfg s)
    (hstep : Step cfg s w act s') (hput : putAt (s.thread w).pc act ≠ some q)
    (hexpired : (s'.thread w).pc ≠ .expired q) : Stage s' q := by
  have hturn := hstep.turn howned hlinked
  by_cases hget : getAt (s.thread w).pc act = some q
  · exact hstage.get howned hlinked hstep hget
  have hheld : ∀ dir, s'.held q dir = s.held q dir := by
    intro dir
    rw [hstep.held_eq howned, if_neg fun h => hget h.1, if_neg fun h => hput h.1]
  have hafter : (s'.thread w).pc.removing ≠ some q := by
    intro hremoving
    rcases hturn.removing hremoving with ⟨-, h, -⟩ | ⟨h, -⟩
    · exact hexpired h
    · exact hget h
  by_cases hremoving : (s.thread w).pc.removing = some q
  case neg => exact hstage.keep hstep hheld hremoving hafter
  case pos =>
    have herased := hstep.erased_eq q
    rw [if_pos hremoving] at herased
    cases hstage with
    | apart _ _ hno => exact absurd hremoving (hno w)
    | removed _ _ hno => exact absurd hremoving (hno w)
    | joined w₁ hboth hzero _ honly =>
        refine .removed (fun dir => (hheld dir).trans (hboth dir)) (by omega) ?_
        intro w' hremoving'
        by_cases hw : w' = w
        · exact hafter (hw ▸ hremoving')
        · rw [hstep.thread_ne hw] at hremoving'
          exact hw ((honly w' hremoving').trans (honly w hremoving).symm)

end Stages

/-! ## Workers that succeed -/

/-- The statement succeeds, and the worker is neither timed out nor interrupted. -/
def Act.succeeds : Act → Bool
  | .start => true
  | .poolEmpty => true
  | .insert _ _ => true
  | .erase _ _ => true
  | .go => true
  | _ => false

/-- What the workers of the key do succeeds; those of other keys may fail. -/
def Succeeds (cfg : Config W) (cpu : W → BitVec 32)
    (key : (CbnListner × BitVec 32) × List Byte) (_s : State W) (label : W × Act) : Prop :=
  cfg.meet cpu label.1 = key → label.2.succeeds = true

/-- The workers of the key succeed, every worker stays on its CPU, and nobody frees a QP
on which another worker has yet to take its reference: what that one writes later may
then be in a record that was given out again. -/
def Undisturbed (cfg : Config W) (cpu : W → BitVec 32)
    (key : (CbnListner × BitVec 32) × List Byte) (s : State W) (label : W × Act) : Prop :=
  Bound cpu s label ∧ Succeeds cfg cpu key s label ∧ NoEarlyPut s label

instance (cfg : Config W) (cpu : W → BitVec 32)
    (key : (CbnListner × BitVec 32) × List Byte) (s : State W) (label : W × Act) :
    Decidable (Succeeds cfg cpu key s label) :=
  inferInstanceAs (Decidable (_ → _))

instance [Fintype W] [DecidableEq W] (cfg : Config W) (cpu : W → BitVec 32)
    (key : (CbnListner × BitVec 32) × List Byte) (s : State W) (label : W × Act) :
    Decidable (Undisturbed cfg cpu key s label) :=
  inferInstanceAs (Decidable (_ ∧ _ ∧ _))

/-- One worker for each side of the key. -/
def Distinct (cfg : Config W) (cpu : W → BitVec 32)
    (key : (CbnListner × BitVec 32) × List Byte) : Prop :=
  ∀ w w', cfg.meet cpu w = key → cfg.meet cpu w' = key → cfg.dir w' = cfg.dir w → w' = w

/-- The statements on the way to `half_duplex`. -/
def Pc.onTrack : Pc → Bool
  | .fallback _ => false
  | .expired _ => false
  | .expiredPut _ => false
  | .dropRef _ => false
  | .done => false
  | .oops => false
  | _ => true

/-- The workers of the key are on their way, each on one QP at most. -/
structure Meeting (cfg : Config W) (cpu : W → BitVec 32)
    (key : (CbnListner × BitVec 32) × List Byte) (s : State W) : Prop where
  onTrack : ∀ w, cfg.meet cpu w = key → (s.thread w).pc.onTrack = true
  own : ∀ w q dir, cfg.meet cpu w = key → w ∈ s.owners q dir → (s.thread w).pc.qp = some q
  paired : ∀ w q, cfg.meet cpu w = key → (s.thread w).pc.paired = some q →
    ∀ dir, ((s.heap q).qpDir dir).isErrOrNull = false
  stage : ∀ q, s.meetOf q = key → Stage s q

variable {key : (CbnListner × BitVec 32) × List Byte}

section Step

variable [DecidableEq W]

/-- A worker owns what it comes to stand on. -/
theorem Step.owner_cases (hstep : Step cfg s w act s') (howner : w' ∈ s'.owners q dir) :
    w' ∈ s.owners q dir ∨ w' = w ∧ (s'.thread w).pc.qp = some q := by
  cases hstep with
  | @join fn _ _ _ q' hthread _ _ _ =>
      rcases mem_owners_join (cfg.pqp w fn) howner with ⟨hw, rfl⟩ | hold
      · refine .inr ⟨hw, ?_⟩
        rw [State.setThread_self]
        exact Fn.qp_proceed.mpr rfl
      · exact .inl hold
  | link hthread _ _ _ =>
      simp only [State.setThread, State.link, setAt_apply] at howner
      split at howner
      · rename_i heq
        rcases List.mem_cons.mp howner with hw | hold
        · refine .inr ⟨hw, ?_⟩
          rw [State.setThread_self]
          exact Fn.qp_proceed.mpr heq.1.symm
        · exact .inl (by rwa [heq.1, heq.2])
      · exact .inl howner
  | erase _ _ herase =>
      exact .inl howner
  | _ => exact .inl howner

theorem Meeting.init : Meeting cfg cpu key (rendezvous cfg).init where
  onTrack := fun _ _ => rfl
  own := fun _ _ _ _ howner => by cases howner
  paired := fun _ _ _ hpc => by cases hpc
  stage := fun _ _ => .fresh Owned.init Linked.init (Nat.zero_le _)

/-- Nobody else has taken the side of a worker of the key. -/
theorem Meeting.not_rejected (hmeeting : Meeting cfg cpu key s) (hdistinct : Distinct cfg cpu key)
    (hreach : BoundRun cfg cpu s) (hkey : cfg.meet cpu w = key)
    (hqp : (s.thread w).pc.qp = none) (fn : Fn) (hfn : fn.dir = cfg.dir w) (q : ℕ)
    (hadd : addPqp cfg s w fn (cpu w) = .duplicate q) :
    (s.heap q).qpDir fn.dir = .null := by
  have howned := owned_of_reachable (reachable_of_keeping hreach)
  have hlt := howned.root_lt _ _ (mem_of_addPqp_duplicate hadd)
  rw [howned.null_iff q fn.dir hlt, List.eq_nil_iff_forall_not_mem]
  intro w' howner
  have hkey' : cfg.meet cpu w' = key := by
    rw [meet_of_owner hreach howner,
      meetOf_of_duplicate howned (linked_of_reachable (reachable_of_keeping hreach)) hadd, hkey]
  have hdir := howned.owners_dir _ _ _ howner
  obtain rfl := hdistinct w w' hkey hkey' (hdir.trans hfn)
  rw [hmeeting.own w' q _ hkey howner] at hqp
  cases hqp

theorem qp_eq_none_of_insert {pc : Pc} (hpc : pc = .enter ∨ ∃ q', pc = .fallback q') :
    pc.qp = none := by
  rcases hpc with rfl | ⟨_, rfl⟩ <;> rfl

theorem onTrack_proceed (fn : Fn) (q : ℕ) : (fn.proceed q).onTrack = true := by
  cases fn <;> rfl

theorem onTrack_afterGet (q : ℕ) (waits : Bool) : (afterGet q waits).onTrack = true := by
  cases waits <;> rfl

/-- `put_qp` is reached by a failure, or when `half_duplex` is left. -/
theorem putAt_eq_none {pc : Pc} (hon : pc.onTrack = true) (hsucceeds : act.succeeds = true) :
    putAt pc act = none := by
  simp only [putAt]
  split
  · cases hon
  · cases hon
  · cases hsucceeds
  · rfl

/-- A worker of the key stays on its way and on its QP. -/
theorem Meeting.advance (hmeeting : Meeting cfg cpu key s) (hdistinct : Distinct cfg cpu key)
    (hreach : BoundRun cfg cpu s) (hkey : cfg.meet cpu w = key)
    (hbound : Bound cpu s (w, act)) (hsucceeds : act.succeeds = true)
    (hstep : Step cfg s w act s') :
    (s'.thread w).pc.onTrack = true ∧
      ∀ q, (s.thread w).pc.qp = some q → (s'.thread w).pc.qp = some q := by
  have hfn := (owned_of_reachable (reachable_of_keeping hreach)).fn_dir w
  have hon := hmeeting.onTrack w hkey
  -- both sockets are in place when `wait_qp_ready` returns
  have hready : ∀ q, (s.thread w).pc = .ready q → (s.heap q).bothValid ≠ false := by
    intro q hpc hinvalid
    have hvalid := hmeeting.paired w q hkey (by rw [hpc]; rfl)
    rw [Qp.bothValid, hvalid, hvalid] at hinvalid
    cases hinvalid
  cases hstep with
  | move hmove =>
      rw [State.setThread_self]
      have hclear := hmeeting.not_rejected hdistinct hreach hkey
      generalize s.thread w = before at *
      cases hmove with
      | rejected hpc hadd hdir =>
          rw [hbound _ rfl] at hadd
          exact absurd (hclear (qp_eq_none_of_insert hpc) _ hfn _ hadd) hdir
      | dropRef hinvalid => exact absurd hinvalid (hready _ rfl)
      | giveUp hinvalid => exact absurd hinvalid (hready _ rfl)
      | acceptFail => cases hsucceeds
      | connectFail => cases hsucceeds
      | forwardFail => cases hsucceeds
      | timeout _ => cases hsucceeds
      | signal _ => cases hsucceeds
      | duplexFail => cases hsucceeds
      | _ => exact ⟨rfl, fun _ h => h⟩
  | join hthread hpc _ _ =>
      rw [State.setThread_self, hthread, qp_eq_none_of_insert hpc]
      exact ⟨onTrack_proceed _ _, nofun⟩
  | link hthread hpc _ _ =>
      rw [State.setThread_self, hthread, qp_eq_none_of_insert hpc]
      exact ⟨onTrack_proceed _ _, nofun⟩
  | store hthread =>
      rw [State.setThread_self, hthread]
      exact ⟨rfl, fun _ h => h⟩
  | @get fn q' waits hthread =>
      rw [State.setThread_self, hthread]
      split
      · exact ⟨rfl, fun _ h => h⟩
      · exact ⟨onTrack_afterGet _ _, fun _ h => by cases waits <;> exact h⟩
  | @erase fn pc after q' _ _ hthread hpc _ =>
      rw [State.setThread_self, hthread]
      rw [hthread] at hon
      cases hpc with
      | @fin _ waits => exact ⟨onTrack_afterGet _ _, fun _ h => by cases waits <;> exact h⟩
      | expired => cases hon
  | put hthread hpc =>
      rw [hthread] at hon
      rw [putAt_eq_none hon hsucceeds] at hpc
      cases hpc

/-- No reference on a QP of the key is dropped. -/
theorem Meeting.not_put (hmeeting : Meeting cfg cpu key s)
    (hreach : BoundRun cfg cpu s) (hsucceeds : Succeeds cfg cpu key s (w, act))
    (hkey : s.meetOf q = key) : putAt (s.thread w).pc act ≠ some q := by
  intro hput
  have hqp := Pc.qp_eq_some_iff.mpr (.inr (holding_of_putAt hput))
  have howned := owned_of_reachable (reachable_of_keeping hreach)
  have hmeet := meet_of_owner hreach (howned.owner_of_qp hqp)
  rw [putAt_eq_none (hmeeting.onTrack w (hmeet.trans hkey)) (hsucceeds (hmeet.trans hkey))]
    at hput
  cases hput

theorem Meeting.step (hmeeting : Meeting cfg cpu key s) (hdistinct : Distinct cfg cpu key)
    (hreach : BoundRun cfg cpu s) (hguard : EraseLinked s (w, act))
    (hbound : Bound cpu s (w, act)) (hsucceeds : Succeeds cfg cpu key s (w, act))
    (hnext : (rendezvous cfg).next s (w, act) = some s') : Meeting cfg cpu key s' := by
  have hstep := step_of_next hguard hnext
  have howned := owned_of_reachable (reachable_of_keeping hreach)
  have hlinked := linked_of_reachable (reachable_of_keeping hreach)
  have hadvance := fun hkey : cfg.meet cpu w = key =>
    hmeeting.advance hdistinct hreach hkey hbound (hsucceeds hkey) hstep
  constructor
  case onTrack =>
    intro w' hkey
    by_cases hw : w' = w
    · subst hw
      exact (hadvance hkey).1
    · rw [hstep.thread_ne hw]
      exact hmeeting.onTrack w' hkey
  case own =>
    intro w' q dir hkey howner
    rcases hstep.owner_cases howner with hold | ⟨rfl, hqp⟩
    · have hqp := hmeeting.own w' q dir hkey hold
      by_cases hw : w' = w
      · subst hw
        exact (hadvance hkey).2 q hqp
      · rwa [hstep.thread_ne hw]
    · exact hqp
  case paired =>
    intro w' q hkey hpc dir
    have hold : (s.thread w').pc.paired = some q →
        ((s'.heap q).qpDir dir).isErrOrNull = false := fun h =>
      hstep.valid (howned.lt_of_qp (Pc.qp_of_paired h)) (hmeeting.paired w' q hkey h dir)
    by_cases hw : w' = w
    case neg => exact hold (hstep.thread_ne hw ▸ hpc)
    case pos =>
      subst hw
      have hsignal : act ≠ .signal := by
        rintro rfl
        cases hsucceeds hkey
      rcases (hstep.turn howned hlinked).paired hsignal hpc with
        h | ⟨hqp, hconnect, hpeer⟩
      · exact hold h
      · apply hstep.valid (howned.lt_of_qp hqp)
        by_cases hdir : dir = cfg.dir w'
        · rw [hdir]
          exact howned.valid w' q hqp hconnect
        · rw [Dir.eq_peer_of_ne hdir, ← howned.fn_dir w']
          exact hpeer
  case stage =>
    intro q hkey
    have hstage : Stage s q := by
      by_cases hlt : q < s.next
      · exact hmeeting.stage q (hstep.meetOf_eq hlt ▸ hkey)
      · exact .fresh howned hlinked (by omega)
    refine hstage.step howned hlinked hstep (fun hput => ?_) fun hexpired => ?_
    · have hqp := Pc.qp_eq_some_iff.mpr (.inr (holding_of_putAt hput))
      rw [hstep.meetOf_eq (howned.lt_of_qp hqp)] at hkey
      exact hmeeting.not_put hreach hsucceeds hkey hput
    · have howned' := howned.step hstep
      have hqp : (s'.thread w).pc.qp = some q := by rw [hexpired]; rfl
      have hmeet := meet_of_owner (.next hreach ⟨hguard, hbound⟩ hnext)
        (howned'.owner_of_qp hqp)
      have hon := (hadvance (hmeet.trans hkey)).1
      rw [hexpired] at hon
      cases hon

/-- A run in which the workers of the key are not disturbed. -/
abbrev UndisturbedRun (cfg : Config W) (cpu : W → BitVec 32)
    (key : (CbnListner × BitVec 32) × List Byte) (s : State W) : Prop :=
  (rendezvous cfg).ReachableUnder (Keeping (Undisturbed cfg cpu key)) s

theorem UndisturbedRun.bound (hreach : UndisturbedRun cfg cpu key s) : BoundRun cfg cpu s :=
  hreach.mono fun _ _ hguard => ⟨hguard.1, hguard.2.1⟩

theorem UndisturbedRun.meeting (hdistinct : Distinct cfg cpu key)
    (hreach : UndisturbedRun cfg cpu key s) : Meeting cfg cpu key s :=
  hreach.invariant (P := Meeting cfg cpu key) Meeting.init
    fun _ _ _ hbefore hmeeting hguard hnext =>
      hmeeting.step hdistinct (UndisturbedRun.bound hbefore) hguard.1 hguard.2.1
        hguard.2.2.1 hnext

/-! ## Where the workers end -/

/-- A step of a worker of the key that such a run may take. -/
def Advances (cfg : Config W) (cpu : W → BitVec 32)
    (key : (CbnListner × BitVec 32) × List Byte) (s : State W) (label : W × Act) : Prop :=
  cfg.meet cpu label.1 = key ∧ Keeping (Undisturbed cfg cpu key) s label

theorem exists_qpExists (cfg : Config W) (s : State W) (w : W) (fn : Fn)
    (cpu : BitVec 32) : ∃ root, qpExists cfg s w fn cpu root ≠ none := by
  cases hadd : addPqp cfg s w fn cpu with
  | duplicate q =>
      refine ⟨.nil, ?_⟩
      simp only [qpExists, hadd]
      split <;> exact nofun
  | linked linked =>
      refine ⟨linked, ?_⟩
      simp [qpExists, hadd, InsertColor]

omit [DecidableEq W] in
/-- A step that succeeds disturbs nobody. -/
theorem undisturbed_of_succeeds (hon : (s.thread w).pc.onTrack = true)
    (hbound : Bound cpu s (w, act)) (hsucceeds : act.succeeds = true) :
    Undisturbed cfg cpu key s (w, act) := by
  refine ⟨hbound, fun _ => hsucceeds, ?_, fun q hput => ?_⟩
  · rintro rfl
    cases hsucceeds
  · rw [putAt_eq_none hon hsucceeds] at hput
    cases hput

/-- A worker on its way can go on, unless it waits for its peer. -/
theorem exists_next (cfg : Config W) (cpu : W → BitVec 32)
    (hon : (s.thread w).pc.onTrack = true)
    (hin : ∀ q, (s.thread w).pc.removing = some q → InTree s q) :
    (∃ act, EraseLinked s (w, act) ∧ Bound cpu s (w, act) ∧ act.succeeds = true ∧
        (rendezvous cfg).next s (w, act) ≠ none) ∨
      (∃ q, (s.thread w).pc = .wait q ∧
        ((s.heap q).qpDir (s.thread w).fn.dir.peer).isErrOrNull = true) ∨
      ∃ q, (s.thread w).pc = .duplex q := by
  simp only [rendezvous]
  -- all but two statements have nothing to do with the trees
  have hgo : ∀ act : Act, act.eraseCpu = none → act.insertCpu = none →
      act.succeeds = true → stepThread cfg s w (s.thread w).fn (s.thread w).pc act ≠ none →
      ∃ act, EraseLinked s (w, act) ∧ Bound cpu s (w, act) ∧ act.succeeds = true ∧
        stepThread cfg s w (s.thread w).fn (s.thread w).pc act ≠ none := by
    intro act herase hinsert hsucceeds hnext
    refine ⟨act, eraseLinked_of_none herase, fun cpu' hcpu => ?_, hsucceeds, hnext⟩
    rw [hinsert] at hcpu
    cases hcpu
  cases hpc : (s.thread w).pc with
  | idle =>
      rw [hpc] at hgo
      exact .inl (hgo .start rfl rfl rfl (Option.some_ne_none _))
  | enter =>
      obtain ⟨root, hroot⟩ := exists_qpExists cfg s w (s.thread w).fn (cpu w)
      refine .inl ⟨.insert (cpu w) root, eraseLinked_of_none rfl, ?_, rfl, hroot⟩
      exact fun cpu' hcpu => (Option.some.inj hcpu).symm
  | fin q waits =>
      have hmem := hin q (by rw [hpc]; rfl)
      obtain ⟨root, hroot⟩ := exists_inorder ((inorder (s.root (s.home q))).erase q)
      refine .inl ⟨.erase (s.cpuOf q) fun _ => root, ?_, ?_, rfl, ?_⟩
      · rintro cpu' ⟨⟩ q' hremoving
        rw [hpc] at hremoving
        cases hremoving
        exact hmem
      · intro cpu' hinsert
        cases hinsert
      · rw [InTree, State.home] at hmem
        rw [State.home] at hroot
        simp [stepThread, State.deTreeQp, DeTree, hmem, hroot]
  | wait q =>
      cases hpeer : ((s.heap q).qpDir (s.thread w).fn.dir.peer).isErrOrNull with
      | true => exact .inr (.inl ⟨q, rfl, hpeer⟩)
      | false =>
          rw [hpc] at hgo
          exact .inl (hgo .go rfl rfl rfl (by simp [stepThread, hpeer]))
  | ready q =>
      rw [hpc] at hgo
      refine .inl (hgo .go rfl rfl rfl ?_)
      cases (s.thread w).fn <;> exact Option.some_ne_none _
  | connect q | forward q | check q | get q waits | wake q =>
      rw [hpc] at hgo
      exact .inl (hgo .go rfl rfl rfl (Option.some_ne_none _))
  | duplex q => exact .inr (.inr ⟨q, rfl⟩)
  | _ =>
      rw [hpc] at hon
      cases hon

theorem Meeting.rests (hmeeting : Meeting cfg cpu key s) (hreach : BoundRun cfg cpu s)
    (hstuck : (rendezvous cfg).Stuck (Advances cfg cpu key) s) (hkey : cfg.meet cpu w = key) :
    (∃ q, (s.thread w).pc = .wait q ∧
        ((s.heap q).qpDir (s.thread w).fn.dir.peer).isErrOrNull = true) ∨
      ∃ q, (s.thread w).pc = .duplex q := by
  have hon := hmeeting.onTrack w hkey
  have hin : ∀ q, (s.thread w).pc.removing = some q → InTree s q := by
    intro q hremoving
    have hlinked := linked_of_reachable (reachable_of_keeping hreach)
    have howned := owned_of_reachable (reachable_of_keeping hreach)
    have hqp := Pc.qp_eq_some_iff.mpr (.inr (Pc.holding_of_removing hremoving))
    have hmeet := meet_of_owner hreach (howned.owner_of_qp hqp)
    rw [hlinked.linked_iff q (howned.lt_of_qp hqp)]
    exact (hmeeting.stage q (hmeet.symm.trans hkey)).erased_of_removing hremoving
  rcases exists_next cfg cpu hon hin with ⟨act, hguard, hbound, hsucceeds, hnext⟩ | hrests
  · exact absurd (hstuck (w, act)
      ⟨hkey, hguard, undisturbed_of_succeeds hon hbound hsucceeds⟩) hnext
  · exact hrests

/-- A side of a QP of the key that is taken is taken by the worker of that side. -/
theorem Meeting.qp_of_taken (hmeeting : Meeting cfg cpu key s) (hdistinct : Distinct cfg cpu key)
    (hreach : BoundRun cfg cpu s) (hkey : cfg.meet cpu w = key) (hlt : q < s.next)
    (hqp : s.meetOf q = key) (htaken : (s.heap q).qpDir (cfg.dir w) ≠ .null) :
    (s.thread w).pc.qp = some q := by
  have howned := owned_of_reachable (reachable_of_keeping hreach)
  obtain ⟨w', howner⟩ := List.exists_mem_of_ne_nil _
    ((howned.null_iff q (cfg.dir w) hlt).not.mp htaken)
  have hkey' := (meet_of_owner hreach howner).trans hqp
  obtain rfl := hdistinct w w' hkey hkey' (howned.owners_dir _ _ _ howner)
  exact hmeeting.own w' q _ hkey howner

omit [DecidableEq W] in
/-- A tree has one QP of a key. -/
theorem Linked.eq_of_meetOf (hlinked : Linked cfg s) {q' : ℕ} (hin : InTree s q)
    (hin' : InTree s q') (hmeet : s.meetOf q' = s.meetOf q) :
    q' = q := by
  have hhome : s.home q' = s.home q := congrArg Prod.fst hmeet
  have hkey : cString rbKeyLength (s.heap q').tuple.key =
      cString rbKeyLength (s.heap q).tuple.key := congrArg Prod.snd hmeet
  have hordered := hlinked.ordered (s.home q)
  rw [InTree, hhome] at hin'
  -- a search for the key of `q` returns either of them
  have hadd := (addRbData_eq_duplicate_iff hordered).mpr
    ⟨hin, (compareKeys_eq_zero_iff s.tupleOf q q).mpr rfl⟩
  have hadd' := (addRbData_eq_duplicate_iff hordered).mpr
    ⟨hin', (compareKeys_eq_zero_iff s.tupleOf q q').mpr hkey.symm⟩
  exact Insertion.duplicate.inj (hadd'.symm.trans hadd)

/-- A worker waits with its QP in the tree and the only reference on it. -/
structure Waiting (cfg : Config W) (s : State W) (w : W) (q : ℕ) : Prop where
  pc : (s.thread w).pc = .wait q
  inTree : InTree s q
  refCnt : (s.heap q).refCnt = 1
  peer : (s.heap q).qpDir (cfg.dir w).peer = .null

theorem Meeting.waiting (hmeeting : Meeting cfg cpu key s)
    (hreach : BoundRun cfg cpu s) (hkey : cfg.meet cpu w = key)
    (hpc : (s.thread w).pc = .wait q) (hpeer : (s.heap q).qpDir (cfg.dir w).peer = .null) :
    Waiting cfg s w q := by
  have howned := owned_of_reachable (reachable_of_keeping hreach)
  have hqp : (s.thread w).pc.qp = some q := by rw [hpc]; rfl
  have hlt := howned.lt_of_qp hqp
  have hmeet := meet_of_owner hreach (howned.owner_of_qp hqp)
  have hheld := howned.held_of_holding w q (by rw [hpc]; rfl)
  have hfree : s.held q (cfg.dir w).peer = false := by
    by_contra hheld'
    exact howned.owner_of_held q _ (by simpa using hheld')
      ((howned.null_iff q _ hlt).mp hpeer)
  have hstage := hmeeting.stage q (hmeet.symm.trans hkey)
  refine ⟨hpc, ?_, ?_, hpeer⟩
  · have hlinked := linked_of_reachable (reachable_of_keeping hreach)
    exact (hlinked.linked_iff q hlt).mpr (hstage.erased_eq_zero hfree)
  · rw [howned.refCnt q]
    cases hdir : cfg.dir w <;> simp_all [Dir.peer]

/-- The two workers forward between their sockets, and their QP has left the tree. -/
structure Connected (cfg : Config W) (s : State W) (w w' : W) (q : ℕ) : Prop where
  pc : (s.thread w).pc = .duplex q
  pc_peer : (s.thread w').pc = .duplex q
  socket : ∃ fn, (s.heap q).qpDir (cfg.dir w) = .sock w fn
  socket_peer : ∃ fn, (s.heap q).qpDir (cfg.dir w).peer = .sock w' fn
  refCnt : (s.heap q).refCnt = 2
  erased : s.erased q = 1
  stray : s.stray q = 0

theorem Meeting.connected (hmeeting : Meeting cfg cpu key s) (hdistinct : Distinct cfg cpu key)
    (hreach : BoundRun cfg cpu s)
    (hstuck : (rendezvous cfg).Stuck (Advances cfg cpu key) s) (hkey : cfg.meet cpu w = key)
    (hkey' : cfg.meet cpu w' = key) (hdir : cfg.dir w' = (cfg.dir w).peer)
    (hpc : (s.thread w).pc = .duplex q) : Connected cfg s w w' q := by
  have howned := owned_of_reachable (reachable_of_keeping hreach)
  have hqp : (s.thread w).pc.qp = some q := by rw [hpc]; rfl
  have hmeet := (meet_of_owner hreach (howned.owner_of_qp hqp)).symm.trans hkey
  have hvalid := hmeeting.paired w q hkey (by rw [hpc]; rfl)
  have hqp' : (s.thread w').pc.qp = some q := by
    refine hmeeting.qp_of_taken hdistinct hreach hkey' (howned.lt_of_qp hqp) hmeet ?_
    intro hnull
    have := hvalid (cfg.dir w')
    rw [hnull] at this
    cases this
  have hpc' : (s.thread w').pc = .duplex q := by
    rcases hmeeting.rests hreach hstuck hkey' with ⟨q', hwait, hpeer⟩ | ⟨q', hduplex⟩
    · rw [hwait] at hqp'
      cases hqp'
      rw [hvalid] at hpeer
      cases hpeer
    · rw [hduplex] at hqp'
      cases hqp'
      exact hduplex
  have hheld := howned.held_of_holding w q (by rw [hpc]; rfl)
  have hheld' := howned.held_of_holding w' q (by rw [hpc']; rfl)
  have hboth : ∀ dir, s.held q dir = true := by
    intro dir
    by_cases hd : dir = cfg.dir w
    · rw [hd, hheld]
    · rw [Dir.eq_peer_of_ne hd, ← hdir, hheld']
  have hno : ∀ w₁, (s.thread w₁).pc.removing ≠ some q := by
    intro w₁ hremoving
    have hqp₁ := Pc.qp_eq_some_iff.mpr (.inr (Pc.holding_of_removing hremoving))
    have hkey₁ := (meet_of_owner hreach (howned.owner_of_qp hqp₁)).trans hmeet
    rcases hmeeting.rests hreach hstuck hkey₁ with ⟨q₁, hwait, -⟩ | ⟨q₁, hduplex⟩
    · rw [hwait] at hremoving
      cases hremoving
    · rw [hduplex] at hremoving
      cases hremoving
  have herased := (hmeeting.stage q hmeet).erased_eq_one hboth hno
  refine ⟨hpc, hpc', ?_, ?_, ?_, herased, ?_⟩
  · exact socket_of_qp hreach hqp (by rw [hpc]; exact Pc.noConfusion)
  · rw [← hdir]
    exact socket_of_qp hreach hqp' (by rw [hpc']; exact Pc.noConfusion)
  · rw [howned.refCnt q, hboth, hboth]
    rfl
  · exact (linked_of_reachable (reachable_of_keeping hreach)).stray q

/-- Two waiting workers of the key would have found each other's QP. -/
theorem Meeting.not_both_wait (hmeeting : Meeting cfg cpu key s) (hdistinct : Distinct cfg cpu key)
    (hreach : BoundRun cfg cpu s) (hkey : cfg.meet cpu w = key)
    (hkey' : cfg.meet cpu w' = key) (hdir : cfg.dir w' = (cfg.dir w).peer) {q' : ℕ}
    (hpc : (s.thread w).pc = .wait q) (hpc' : (s.thread w').pc = .wait q')
    (hpeer : ((s.heap q).qpDir (cfg.dir w).peer).isErrOrNull = true) : False := by
  have howned := owned_of_reachable (reachable_of_keeping hreach)
  have hqp : (s.thread w).pc.qp = some q := by rw [hpc]; rfl
  have hqp' : (s.thread w').pc.qp = some q' := by rw [hpc']; rfl
  have hmeet := meet_of_owner hreach (howned.owner_of_qp hqp)
  have hmeet' := meet_of_owner hreach (howned.owner_of_qp hqp')
  have hvalid := howned.valid w q hqp (by rw [hpc]; exact Pc.noConfusion)
  have hvalid' := howned.valid w' q' hqp' (by rw [hpc']; exact Pc.noConfusion)
  have hdir' : cfg.dir w = (cfg.dir w').peer := by rw [hdir, Dir.peer_peer]
  have hne : q' ≠ q := by
    rintro rfl
    rw [hdir, hpeer] at hvalid'
    cases hvalid'
  -- neither of them has joined the other one's QP
  have hnull : (s.heap q).qpDir (cfg.dir w).peer = .null := by
    by_contra htaken
    have hqp₁ := hmeeting.qp_of_taken hdistinct hreach hkey' (howned.lt_of_qp hqp)
      (hmeet.symm.trans hkey) (hdir ▸ htaken)
    exact hne (Option.some.inj (hqp'.symm.trans hqp₁))
  have hnull' : (s.heap q').qpDir (cfg.dir w').peer = .null := by
    by_contra htaken
    have hqp₁ := hmeeting.qp_of_taken hdistinct hreach hkey (howned.lt_of_qp hqp')
      (hmeet'.symm.trans hkey') (hdir' ▸ htaken)
    exact hne (Option.some.inj (hqp₁.symm.trans hqp))
  have hwaiting := hmeeting.waiting hreach hkey hpc hnull
  have hwaiting' := hmeeting.waiting hreach hkey' hpc' hnull'
  have hlinked := linked_of_reachable (reachable_of_keeping hreach)
  refine hne (hlinked.eq_of_meetOf hwaiting.inTree hwaiting'.inTree ?_)
  rw [← hmeet, ← hmeet', hkey, hkey']

end Step

end KtcpSplit.Rendezvous
