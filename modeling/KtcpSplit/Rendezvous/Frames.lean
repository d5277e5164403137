import KtcpSplit.Rendezvous.Linked

/-!
# What a step leaves alone

For each observable of the state, what a step of one worker makes of it, in
terms of where the worker stands.  The invariants of the later modules are
proved from these facts alone.
-/

namespace KtcpSplit.Rendezvous

open KtcpSplit.SearchTree
open KtcpSplit.Transition

variable {W : Type*}
variable {cfg : Config W} {s s' : State W} {w w' : W} {act : Act} {q : ℕ} {dir : Dir}

/-- `qp_exists` lets a worker proceed on `q`. -/
structure Claims (cfg : Config W) (s : State W) (before after : Thread) (q : ℕ) :
    Prop where
  unclaimed : before.pc.qp = none
  proceeds : after.pc = before.fn.proceed q
  new : q = s.next ∨ InTree s q ∧ (s.heap q).qpDir before.fn.dir = .null

/-- The QP whose pointer a step replaces by the connected socket. -/
def storeAt : Pc → Act → Option ℕ
  | .connect q, .go => some q
  | _, _ => none

theorem qp_of_storeAt {pc : Pc} (hpc : storeAt pc act = some q) :
    pc.qp = some q := by
  unfold storeAt at hpc
  split at hpc <;> cases hpc
  rfl

/-- What a step makes of its worker's own statement. -/
inductive Turn (cfg : Config W) (s : State W) (w : W) : Act → Thread → Thread → Prop
  | move {act : Act} {before after : Thread} (hmove : Move cfg s w before act after) :
      Turn cfg s w act before after
  | claim {fn : Fn} {pc : Pc} {cpu : BitVec 32} {root : BinaryTree ℕ} {q : ℕ}
      (hpc : pc = .enter ∨ ∃ q', pc = .fallback q')
      (hnew : q = s.next ∨ InTree s q ∧ (s.heap q).qpDir fn.dir = .null) :
      Turn cfg s w (.insert cpu root) ⟨fn, pc⟩ ⟨fn, fn.proceed q⟩
  | store {fn : Fn} {q : ℕ} : Turn cfg s w .go ⟨fn, .connect q⟩ ⟨fn, .check q⟩
  | getFirst {fn : Fn} {q : ℕ} {waits : Bool} (hone : (s.heap q).refCnt ≠ 1) :
      Turn cfg s w .go ⟨fn, .get q waits⟩ ⟨fn, afterGet q waits⟩
  | getSecond {fn : Fn} {q : ℕ} {waits : Bool} (hone : (s.heap q).refCnt = 1) :
      Turn cfg s w .go ⟨fn, .get q waits⟩ ⟨fn, .fin q waits⟩
  | erase {fn : Fn} {pc after : Pc} {q : ℕ} {cpu : BitVec 32}
      {root : Listner.CbnListner × BitVec 32 → BinaryTree ℕ} (hpc : EraseAt pc q after) :
      Turn cfg s w (.erase cpu root) ⟨fn, pc⟩ ⟨fn, after⟩
  | put {fn : Fn} {pc : Pc} {act : Act} {q : ℕ} (hpc : putAt pc act = some q) :
      Turn cfg s w act ⟨fn, pc⟩ ⟨fn, .done⟩

/-! ## The worker itself -/

namespace Turn

variable {before after : Thread}

/-- How a worker gets to where it stands on a QP. -/
theorem obtained (hturn : Turn cfg s w act before after)
    (hpc : after.pc.obtained = some q) : before.pc.qp = some q ∨
      Claims cfg s before after q := by
  cases hturn with
  | move hmove =>
      refine .inl ?_
      cases hmove with
      | forwardFail =>
          cases hpc
          rfl
      | rejected hpc' hadd hdir => simp at hpc
      | connectFail => cases hpc
      | giveUp => cases hpc
      | duplexFail => cases hpc
      | start => cases hpc
      | poolEmpty => cases hpc
      | acceptFail => cases hpc
      | _ => exact hpc
  | claim hpc' hnew =>
      rw [obtained_proceed] at hpc
      cases hpc
      refine .inr ⟨?_, rfl, hnew⟩
      rcases hpc' with rfl | ⟨_, rfl⟩ <;> rfl
  | store => exact .inl hpc
  | getFirst hone =>
      rename_i waits
      cases waits <;> exact .inl hpc
  | getSecond hone => exact .inl hpc
  | erase hpc' =>
      refine .inl ?_
      cases hpc' with
      | fin =>
          rename_i waits
          cases waits <;> exact hpc
      | expired => exact hpc
  | put hpc' => cases hpc

theorem pending (hturn : Turn cfg s w act before after)
    (hpc : after.pc.pending = some q) : before.pc.pending = some q ∨
      Claims cfg s before after q := by
  cases hturn with
  | move hmove => exact .inl (hmove.pending hpc)
  | claim hpc' hnew =>
      rw [pending_proceed] at hpc
      cases hpc
      refine .inr ⟨?_, rfl, hnew⟩
      rcases hpc' with rfl | ⟨_, rfl⟩ <;> rfl
  | store => exact .inl hpc
  | getFirst hone =>
      rw [pending_afterGet] at hpc
      cases hpc
  | getSecond hone => cases hpc
  | erase hpc' =>
      rw [hpc'.holding.2.2] at hpc
      cases hpc
  | put hpc' => cases hpc

/-- The removals are entered from a wait without a peer and from the second
`get_qp`. -/
theorem removing (hturn : Turn cfg s w act before after)
    (hpc : after.pc.removing = some q) :
    before.pc = .wait q ∧ after.pc = .expired q ∧
        ((s.heap q).qpDir before.fn.dir.peer).isErrOrNull = true ∨
      getAt before.pc act = some q ∧ (s.heap q).refCnt = 1 ∧
        ∃ waits, after.pc = .fin q waits := by
  cases hturn with
  | move hmove => exact .inl (hmove.removing hpc)
  | claim hpc' hnew =>
      rename_i fn _ _ _ _
      cases fn <;> cases hpc
  | store => cases hpc
  | getFirst hone =>
      rename_i waits
      cases waits <;> cases hpc
  | getSecond hone =>
      cases hpc
      exact .inr ⟨rfl, hone, _, rfl⟩
  | erase hpc' => exact absurd hpc (hpc'.removing.2 q)
  | put hpc' => cases hpc

/-- A wait is entered after a `get_qp` that follows a check without a peer. -/
theorem wait (hturn : Turn cfg s w act before after) (hpc : after.pc = .wait q) :
    before.pc = .get q true ∨ before.pc = .fin q true := by
  cases hturn with
  | move hmove => exact absurd hpc hmove.not_after_step.1
  | claim hpc' hnew =>
      rename_i fn _ _ _ _
      cases fn <;> cases hpc
  | store => cases hpc
  | getFirst hone =>
      rename_i waits
      cases waits <;> cases hpc
      exact .inl rfl
  | getSecond hone => cases hpc
  | erase hpc' =>
      cases hpc' with
      | fin =>
          rename_i waits
          cases waits <;> cases hpc
          exact .inr rfl
      | expired => cases hpc
  | put hpc' => cases hpc

theorem expiredPut (hturn : Turn cfg s w act before after)
    (hpc : after.pc = .expiredPut q) : before.pc = .expired q := by
  cases hturn with
  | move hmove => exact absurd hpc hmove.not_after_step.2
  | claim hpc' hnew =>
      rename_i fn _ _ _ _
      cases fn <;> cases hpc
  | store => cases hpc
  | getFirst hone =>
      rename_i waits
      cases waits <;> cases hpc
  | getSecond hone => cases hpc
  | erase hpc' =>
      cases hpc' with
      | fin =>
          rename_i waits
          cases waits <;> cases hpc
      | expired =>
          cases hpc
          rfl
  | put hpc' => cases hpc

/-- A worker that goes on without waiting has seen its peer's socket. -/
theorem paired (hturn : Turn cfg s w act before after) (hsignal : act ≠ .signal)
    (hpc : after.pc.paired = some q) : before.pc.paired = some q ∨
      before.pc.qp = some q ∧ before.pc ≠ .connect q ∧
        ((s.heap q).qpDir before.fn.dir.peer).isErrOrNull = false := by
  cases hturn with
  | move hmove => exact hmove.paired hsignal hpc
  | claim hpc' hnew =>
      rename_i fn _ _ _ _
      cases fn <;> cases hpc
  | store => cases hpc
  | getFirst hone =>
      rename_i waits
      cases waits <;> exact .inl hpc
  | getSecond hone =>
      rename_i waits
      cases waits <;> exact .inl hpc
  | erase hpc' =>
      cases hpc' with
      | fin =>
          rename_i waits
          cases waits <;> exact .inl hpc
      | expired => cases hpc
  | put hpc' => cases hpc

theorem sure (hturn : Turn cfg s w act before after)
    (hpc : after.pc = .get q false) :
    ((s.heap q).qpDir before.fn.dir.peer).isErrOrNull = false := by
  cases hturn with
  | move hmove => exact hmove.sure hpc
  | claim hpc' hnew =>
      rename_i fn _ _ _ _
      cases fn <;> cases hpc
  | store => cases hpc
  | getFirst hone =>
      rename_i waits
      cases waits <;> cases hpc
  | getSecond hone => cases hpc
  | erase hpc' =>
      cases hpc' with
      | fin =>
          rename_i waits
          cases waits <;> cases hpc
      | expired => cases hpc
  | put hpc' => cases hpc

/-- How a worker loses the prospect of its reference. -/
theorem of_pending (hturn : Turn cfg s w act before after)
    (hpc : before.pc.pending = some q) : after.pc.pending = some q ∨
      getAt before.pc act = some q ∨
      (before.pc = .connect q ∧ act = .fail) ∨ before.pc = .forward q ∧ act = .fail := by
  cases hturn with
  | move hmove =>
      cases hmove with
      | rejected hpc' hadd hdir => rcases hpc' with rfl | ⟨_, rfl⟩ <;> cases hpc
      | forward => exact .inl hpc
      | check => exact .inl hpc
      | connectFail =>
          cases hpc
          exact .inr (.inr (.inl ⟨rfl, rfl⟩))
      | forwardFail =>
          cases hpc
          exact .inr (.inr (.inr ⟨rfl, rfl⟩))
      | _ => cases hpc
  | claim hpc' hnew => rcases hpc' with rfl | ⟨_, rfl⟩ <;> cases hpc
  | store => exact .inl hpc
  | getFirst hone =>
      cases hpc
      exact .inr (.inl rfl)
  | getSecond hone =>
      cases hpc
      exact .inr (.inl rfl)
  | erase hpc' => cases hpc' <;> cases hpc
  | put hpc' => rcases putAt_eq_some hpc' with rfl | rfl | rfl <;> cases hpc

theorem of_getAt (hturn : Turn cfg s w act before after)
    (hpc : getAt before.pc act = some q) : ∃ waits, before.pc = .get q waits ∧
      ((s.heap q).refCnt = 1 ∧ after.pc = .fin q waits ∨
        (s.heap q).refCnt ≠ 1 ∧ after.pc = afterGet q waits) := by
  cases hturn with
  | getFirst hone =>
      cases hpc
      exact ⟨_, rfl, .inr ⟨hone, rfl⟩⟩
  | getSecond hone =>
      cases hpc
      exact ⟨_, rfl, .inl ⟨hone, rfl⟩⟩
  | move hmove =>
      cases hmove with
      | rejected hpc' hadd hdir => rcases hpc' with rfl | ⟨_, rfl⟩ <;> cases hpc
      | _ => cases hpc
  | claim hpc' hnew => rcases hpc' with rfl | ⟨_, rfl⟩ <;> cases hpc
  | erase hpc' => cases hpc' <;> cases hpc
  | put hpc' => rcases putAt_eq_some hpc' with rfl | rfl | rfl <;> cases hpc
  | _ => cases hpc

/-- How a wait ends. -/
theorem of_wait (hturn : Turn cfg s w act before after) (hpc : before.pc = .wait q) :
    after.pc = .expired q ∨ act = .signal ∨
      ((s.heap q).qpDir before.fn.dir.peer).isErrOrNull = false := by
  cases hturn with
  | move hmove =>
      cases hmove with
      | rejected hpc' hadd hdir => rcases hpc' with rfl | ⟨_, rfl⟩ <;> cases hpc
      | woken hpeer =>
          cases hpc
          exact .inr (.inr hpeer)
      | timeout hpeer =>
          cases hpc
          exact .inl rfl
      | signal hpeer => exact .inr (.inl rfl)
      | _ => cases hpc
  | claim hpc' hnew => rcases hpc' with rfl | ⟨_, rfl⟩ <;> cases hpc
  | erase hpc' => cases hpc' <;> cases hpc
  | put hpc' => rcases putAt_eq_some hpc' with rfl | rfl | rfl <;> cases hpc
  | _ => cases hpc

theorem of_storeAt (hturn : Turn cfg s w act before after)
    (hpc : storeAt before.pc act = some q) : after.pc = .check q := by
  cases hturn with
  | store =>
      cases hpc
      rfl
  | move hmove =>
      cases hmove with
      | rejected hpc' hadd hdir => rcases hpc' with rfl | ⟨_, rfl⟩ <;> cases hpc
      | _ => cases hpc
  | claim hpc' hnew => rcases hpc' with rfl | ⟨_, rfl⟩ <;> cases hpc
  | erase hpc' => cases hpc' <;> cases hpc
  | put hpc' => rcases putAt_eq_some hpc' with rfl | rfl | rfl <;> cases hpc
  | _ => cases hpc

theorem of_expired (hturn : Turn cfg s w act before after)
    (hpc : before.pc = .expired q) : after.pc = .expiredPut q := by
  cases hturn with
  | move hmove =>
      cases hmove with
      | rejected hpc' hadd hdir => rcases hpc' with rfl | ⟨_, rfl⟩ <;> cases hpc
      | _ => cases hpc
  | claim hpc' hnew => rcases hpc' with rfl | ⟨_, rfl⟩ <;> cases hpc
  | erase hpc' =>
      cases hpc' with
      | fin => cases hpc
      | expired =>
          cases hpc
          rfl
  | put hpc' => rcases putAt_eq_some hpc' with rfl | rfl | rfl <;> cases hpc
  | _ => cases hpc

theorem of_expiredPut (hturn : Turn cfg s w act before after)
    (hpc : before.pc = .expiredPut q) : putAt before.pc act = some q := by
  cases hturn with
  | move hmove =>
      cases hmove with
      | rejected hpc' hadd hdir => rcases hpc' with rfl | ⟨_, rfl⟩ <;> cases hpc
      | _ => cases hpc
  | claim hpc' hnew => rcases hpc' with rfl | ⟨_, rfl⟩ <;> cases hpc
  | erase hpc' => cases hpc' <;> cases hpc
  | put hpc' =>
      rcases putAt_eq_some hpc' with rfl | rfl | rfl <;> cases hpc
      exact hpc'
  | _ => cases hpc

theorem of_putAt (hturn : Turn cfg s w act before after)
    (hpc : putAt before.pc act = some q) : after.pc = .done := by
  cases hturn with
  | put hpc' => rfl
  | move hmove =>
      cases hmove with
      | rejected hpc' hadd hdir => rcases hpc' with rfl | ⟨_, rfl⟩ <;> cases hpc
      | _ => cases hpc
  | claim hpc' hnew => rcases hpc' with rfl | ⟨_, rfl⟩ <;> cases hpc
  | erase hpc' => cases hpc' <;> cases hpc
  | _ => cases hpc

end Turn

variable [DecidableEq W]

namespace Step

/-! ## Other workers -/

theorem thread_ne (hstep : Step cfg s w act s') (hne : w' ≠ w) :
    s'.thread w' = s.thread w' := by
  cases hstep with
  | erase _ _ herase =>
      exact Function.update_of_ne hne ..
  | _ => exact Function.update_of_ne hne ..

theorem next_le (hstep : Step cfg s w act s') : s.next ≤ s'.next := by
  cases hstep with
  | erase _ _ herase =>
      exact le_rfl
  | link _ _ _ _ => exact Nat.le_succ _
  | _ => exact le_rfl

/-! ## Counters and history -/

theorem erased_eq (hstep : Step cfg s w act s') (q : ℕ) : s'.erased q =
    s.erased q + if (s.thread w).pc.removing = some q then 1 else 0 := by
  cases hstep with
  | move hmove =>
      generalize s.thread w = before at hmove
      rw [if_neg]
      · rfl
      cases hmove with
      | rejected hpc hadd hdir =>
          rcases hpc with rfl | ⟨_, rfl⟩ <;> exact fun h => by cases h
      | _ => exact fun h => by cases h
  | erase hthread hpc herase =>
      simp only [State.setThread, State.unlink, Function.update_apply, hthread,
        hpc.removing.1, Option.some.injEq]
      grind
  | put hthread hpc =>
      rw [hthread, if_neg]
      · rfl
      rcases putAt_eq_some hpc with rfl | rfl | rfl <;> exact fun h => by cases h
  | join hthread hpc hadd hdir =>
      rw [hthread, if_neg]
      · rfl
      rcases hpc with rfl | ⟨_, rfl⟩ <;> exact fun h => by cases h
  | link hthread hpc hadd hcolor =>
      rw [hthread, if_neg]
      · rfl
      rcases hpc with rfl | ⟨_, rfl⟩ <;> exact fun h => by cases h
  | store hthread =>
      rw [hthread]
      rfl
  | get hthread =>
      rw [hthread]
      rfl

theorem erased_ne_zero (hstep : Step cfg s w act s') (herased : s.erased q ≠ 0) :
    s'.erased q ≠ 0 := by
  rw [hstep.erased_eq]
  omega

theorem erased_keep (hstep : Step cfg s w act s')
    (hnot : (s.thread w).pc.removing ≠ some q) : s'.erased q = s.erased q := by
  rw [hstep.erased_eq, if_neg hnot, Nat.add_zero]

theorem freed_eq (hstep : Step cfg s w act s') (q : ℕ) : s'.freed q =
    s.freed q +
      if putAt (s.thread w).pc act = some q ∧ (s.heap q).refCnt = 1 then 1 else 0 := by
  have hnone : putAt (s.thread w).pc act = none → s'.freed q = s.freed q →
      s'.freed q = s.freed q +
        if putAt (s.thread w).pc act = some q ∧ (s.heap q).refCnt = 1 then 1 else 0 := by
    intro hput hsame
    simp [hput, hsame]
  cases hstep with
  | move hmove =>
      apply hnone _ rfl
      generalize s.thread w = before at hmove
      cases hmove with
      | rejected hpc hadd hdir => rcases hpc with rfl | ⟨_, rfl⟩ <;> rfl
      | _ => rfl
  | join hthread hpc hadd hdir =>
      apply hnone _ rfl
      rw [hthread]
      rcases hpc with rfl | ⟨_, rfl⟩ <;> rfl
  | link hthread hpc hadd hcolor =>
      apply hnone _ rfl
      rw [hthread]
      rcases hpc with rfl | ⟨_, rfl⟩ <;> rfl
  | store hthread => exact hnone (by rw [hthread]; rfl) rfl
  | get hthread => exact hnone (by rw [hthread]; rfl) rfl
  | erase hthread hpc herase =>
      apply hnone _ rfl
      rw [hthread]
      cases hpc <;> rfl
  | put hthread hpc =>
      rename_i fn pc q'
      have hone : (s.heap q').refCnt - 1 = 0 ↔ (s.heap q').refCnt = 1 := by omega
      simp only [hthread, hpc, State.setThread, State.putQp, State.setHeld,
        State.setQp, Function.update_apply, hone, Option.some.injEq]
      grind

theorem held_eq (howned : Owned cfg s) (hstep : Step cfg s w act s') (q : ℕ)
    (dir : Dir) : s'.held q dir =
      if getAt (s.thread w).pc act = some q ∧ dir = cfg.dir w then true
      else if putAt (s.thread w).pc act = some q ∧ dir = cfg.dir w then false
      else s.held q dir := by
  have hfn := howned.fn_dir w
  have hnone : getAt (s.thread w).pc act = none →
      putAt (s.thread w).pc act = none → s'.held q dir = s.held q dir →
      s'.held q dir =
        if getAt (s.thread w).pc act = some q ∧ dir = cfg.dir w then true
        else if putAt (s.thread w).pc act = some q ∧ dir = cfg.dir w then false
        else s.held q dir := by
    intro hget hput hsame
    simp [hget, hput, hsame]
  cases hstep with
  | move hmove =>
      generalize s.thread w = before at hmove hnone
      apply hnone _ _ rfl <;> cases hmove with
        | rejected hpc hadd hdir => rcases hpc with rfl | ⟨_, rfl⟩ <;> rfl
        | _ => rfl
  | join hthread hpc hadd hdir =>
      rw [hthread] at hnone
      rw [hthread]
      rcases hpc with rfl | ⟨_, rfl⟩ <;> exact hnone rfl rfl rfl
  | link hthread hpc hadd hcolor =>
      rw [hthread] at hnone
      rw [hthread]
      rcases hpc with rfl | ⟨_, rfl⟩ <;> exact hnone rfl rfl rfl
  | store hthread =>
      rw [hthread] at hnone
      rw [hthread]
      exact hnone rfl rfl rfl
  | get hthread =>
      rename_i fn q' waits
      rw [hthread] at hfn
      simp only [hthread, getAt, putAt, State.setThread, State.getQp, State.setHeld,
        State.setQp, setAt_apply, hfn]
      grind
  | erase hthread hpc herase =>
      rw [hthread] at hnone
      rw [hthread]
      cases hpc <;> exact hnone rfl rfl rfl
  | put hthread hpc =>
      rename_i fn pc q'
      have hget : getAt pc act = none := by
        rcases putAt_eq_some hpc with rfl | rfl | rfl <;> rfl
      rw [hthread] at hfn
      simp only [hthread, hget, hpc, State.setThread, State.putQp, State.setHeld,
        State.setQp, setAt_apply, hfn]
      grind

/-! ## Pointers -/

theorem owner_mono (hstep : Step cfg s w act s') (howner : w' ∈ s.owners q dir) :
    w' ∈ s'.owners q dir := by
  cases hstep with
  | join _ _ _ _ =>
      simp only [State.setThread, State.join, setAt_apply]
      split
      · rename_i heq
        exact List.mem_cons_of_mem _ (by rwa [← heq.1, ← heq.2])
      · exact howner
  | link _ _ _ _ =>
      simp only [State.setThread, State.link, setAt_apply]
      split
      · rename_i heq
        exact List.mem_cons_of_mem _ (by rwa [← heq.1, ← heq.2])
      · exact howner
  | erase _ _ herase =>
      exact howner
  | _ => exact howner

/-- A pointer is written by its owner, or by the worker that claims it. -/
theorem qpDir_cases (howned : Owned cfg s) (hlinked : Linked cfg s)
    (hstep : Step cfg s w act s') (hlt : q < s.next) (dir : Dir) :
    (s'.heap q).qpDir dir = (s.heap q).qpDir dir ∨ dir = cfg.dir w ∧
      (storeAt (s.thread w).pc act = some q ∨
        Claims cfg s (s.thread w) (s'.thread w) q) := by
  have hfn := howned.fn_dir w
  cases hstep with
  | move _ => exact .inl rfl
  | join hthread hpc hadd hdir =>
      rename_i fn pc _ _ q'
      rw [hthread] at hfn
      by_cases hq : q = q' ∧ dir = fn.dir
      · obtain ⟨rfl, hd⟩ := hq
        have hmem := ((addPqp_eq_duplicate_iff howned hlinked).mp hadd).1
        refine .inr ⟨hd.trans hfn, .inr ?_⟩
        rw [hthread, State.setThread_self]
        refine ⟨?_, rfl, .inr ⟨hlinked.inTree hmem, hdir⟩⟩
        rcases hpc with rfl | ⟨_, rfl⟩ <;> rfl
      · refine .inl ?_
        simp only [State.setThread, State.join, State.store, State.setQp,
          Function.update_apply]
        split
        · rename_i hq'
          subst hq'
          exact Function.update_of_ne (fun hd => hq ⟨rfl, hd⟩) ..
        · rfl
  | link hthread hpc hadd hcolor =>
      refine .inl ?_
      simp only [State.setThread, State.link, State.setQp, Function.update_apply,
        if_neg hlt.ne]
  | store hthread =>
      rename_i fn q'
      have htx := howned.tx_side w q' (.inl (by rw [hthread]))
      by_cases hq : q = q' ∧ dir = .tx
      · obtain ⟨rfl, hd⟩ := hq
        exact .inr ⟨hd.trans htx.symm, .inl (by rw [hthread]; rfl)⟩
      · refine .inl ?_
        simp only [State.setThread, State.store, State.setQp, Function.update_apply]
        split
        · rename_i hq'
          subst hq'
          exact Function.update_of_ne (fun hd => hq ⟨rfl, hd⟩) ..
        · rfl
  | get _ =>
      refine .inl ?_
      simp only [State.setThread, State.getQp, State.setHeld, State.setQp,
        Function.update_apply]
      split <;> simp_all
  | erase _ _ herase =>
      exact .inl rfl
  | put _ _ =>
      refine .inl ?_
      simp only [State.setThread, State.putQp, State.setHeld, State.setQp,
        Function.update_apply]
      split <;> simp_all

/-- A worker's own pointer is left alone by the others. -/
theorem qpDir_of_owner (howned : Owned cfg s) (hlinked : Linked cfg s)
    (hstep : Step cfg s w act s') (howner : w' ∈ s.owners q dir) (hne : w' ≠ w) :
    (s'.heap q).qpDir dir = (s.heap q).qpDir dir := by
  have hlt := howned.owners_lt _ _ _ howner
  rcases hstep.qpDir_cases howned hlinked hlt dir with hsame | ⟨hdir, hstore | hclaims⟩
  · exact hsame
  · have howner' := howned.owner_of_qp (qp_of_storeAt hstore)
    rw [← hdir] at howner'
    exact absurd (howned.eq_of_owner howner' howner) hne
  · have hnull := (hclaims.new.resolve_left hlt.ne).2
    rw [howned.fn_dir, ← hdir, howned.null_iff q dir hlt] at hnull
    rw [hnull] at howner
    cases howner

/-- A pointer to a socket stays one. -/
theorem valid (hstep : Step cfg s w act s') (hlt : q < s.next)
    (hvalid : ((s.heap q).qpDir dir).isErrOrNull = false) :
    ((s'.heap q).qpDir dir).isErrOrNull = false := by
  cases hstep with
  | move _ => exact hvalid
  | join hthread hpc hadd hdir =>
      rename_i fn _ _ _ q'
      simp only [State.setThread, State.join, State.store, State.setQp,
        Function.update_apply]
      by_cases hq : q = q' <;> by_cases hfn : dir = fn.dir <;>
        simp_all [SockPtr.isErrOrNull]
  | link _ _ _ _ =>
      simp only [State.setThread, State.link, State.setQp, Function.update_apply,
        if_neg hlt.ne]
      exact hvalid
  | store hthread =>
      rename_i q'
      simp only [State.setThread, State.store, State.setQp, Function.update_apply]
      by_cases hq : q = q' <;> by_cases hdir : dir = .tx <;>
        simp_all [SockPtr.isErrOrNull]
  | get _ =>
      simp only [State.setThread, State.getQp, State.setHeld, State.setQp,
        Function.update_apply]
      split <;> simp_all
  | erase _ _ herase =>
      exact hvalid
  | put _ _ =>
      simp only [State.setThread, State.putQp, State.setHeld, State.setQp,
        Function.update_apply]
      split <;> simp_all

theorem invalid_before (hstep : Step cfg s w act s') (hlt : q < s.next)
    (hinvalid : ((s'.heap q).qpDir dir).isErrOrNull = true) :
    ((s.heap q).qpDir dir).isErrOrNull = true := by
  by_contra hvalid
  have hafter := hstep.valid hlt (by simpa using hvalid)
  rw [hinvalid] at hafter
  cases hafter

/-- A node that is out of its tree stays out. -/
theorem inTree (howned : Owned cfg s) (hlinked : Linked cfg s)
    (hstep : Step cfg s w act s') (hlt : q < s.next) (hin : InTree s' q) :
    InTree s q := by
  have hlinked' := hlinked.step howned hstep
  rw [hlinked'.linked_iff q (hlt.trans_le hstep.next_le)] at hin
  rw [hlinked.linked_iff q hlt]
  by_contra herased
  exact hstep.erased_ne_zero herased hin

/-- Only the removal of a node takes it out of its tree. -/
theorem removing_of_inTree (howned : Owned cfg s) (hlinked : Linked cfg s)
    (hstep : Step cfg s w act s') (hin : InTree s q) (hout : ¬InTree s' q) :
    (s.thread w).pc.removing = some q := by
  have hlt := howned.root_lt _ _ hin
  have hlinked' := hlinked.step howned hstep
  rw [hlinked.linked_iff q hlt] at hin
  rw [hlinked'.linked_iff q (hlt.trans_le hstep.next_le)] at hout
  by_contra hremoving
  rw [hstep.erased_keep hremoving] at hout
  exact hout hin

theorem turn (howned : Owned cfg s) (hlinked : Linked cfg s)
    (hstep : Step cfg s w act s') : Turn cfg s w act (s.thread w) (s'.thread w) := by
  cases hstep with
  | move hmove =>
      rw [State.setThread_self]
      exact .move hmove
  | join hthread hpc hadd hdir =>
      rw [hthread, State.setThread_self]
      have hmem := ((addPqp_eq_duplicate_iff howned hlinked).mp hadd).1
      exact .claim hpc (.inr ⟨hlinked.inTree hmem, hdir⟩)
  | link hthread hpc hadd hcolor =>
      rw [hthread, State.setThread_self]
      exact .claim hpc (.inl rfl)
  | store hthread =>
      rw [hthread, State.setThread_self]
      exact .store
  | get hthread =>
      rw [hthread, State.setThread_self]
      split
      · rename_i hone
        exact .getSecond hone
      · rename_i hone
        exact .getFirst hone
  | erase hthread hpc herase =>
      rw [hthread, State.setThread_self]
      exact .erase hpc
  | put hthread hpc =>
      rw [hthread, State.setThread_self]
      exact .put hpc

end Step

/-- `connect` is entered with the error pointer in place. -/
theorem Step.connecting (howned : Owned cfg s) (hstep : Step cfg s w act s')
    (hpc : (s'.thread w).pc = .connect q) :
    ((s'.heap q).qpDir (cfg.dir w)).isErrOrNull = true := by
  have hfn := howned.fn_dir w
  cases hstep with
  | move hmove =>
      rw [State.setThread_self] at hpc
      exact absurd hpc hmove.not_claiming.1
  | join hthread hpc' hadd hdir =>
      rename_i fn _ _ _ q'
      rw [State.setThread_self] at hpc
      rw [hthread] at hfn
      cases fn with
      | startNewConnectionSyn =>
          obtain rfl : q' = q := Pc.connect.inj hpc
          rw [← hfn]
          simp [State.setThread, State.join, State.store, State.setQp, Config.pqp,
            Fn.dir, SockPtr.isErrOrNull]
      | _ => cases hpc
  | link hthread hpc' hadd hcolor =>
      rename_i fn _ _ _ _
      rw [State.setThread_self] at hpc
      rw [hthread] at hfn
      cases fn with
      | startNewConnectionSyn =>
          obtain rfl : s.next = q := Pc.connect.inj hpc
          rw [← hfn]
          simp [State.setThread, State.link, State.setQp, Config.pqp, Fn.dir,
            SockPtr.isErrOrNull]
      | _ => cases hpc
  | store _ =>
      rw [State.setThread_self] at hpc
      cases hpc
  | get hthread =>
      rename_i fn q' waits
      rw [State.setThread_self] at hpc
      split at hpc
      · cases hpc
      · cases waits <;> cases hpc
  | erase hthread hpc' herase =>
      rw [State.setThread_self] at hpc
      cases hpc' with
      | fin =>
          rename_i waits
          cases waits <;> cases hpc
      | expired => cases hpc
  | put _ _ =>
      rw [State.setThread_self] at hpc
      cases hpc

/-! ## What a statement knows -/

structure Phases (cfg : Config W) (s : State W) : Prop where
  connecting : ∀ w q, (s.thread w).pc = .connect q →
    ((s.heap q).qpDir (cfg.dir w)).isErrOrNull = true
  sure : ∀ w q, (s.thread w).pc = .get q false →
    ((s.heap q).qpDir (cfg.dir w).peer).isErrOrNull = false
  expired : ∀ w q, (s.thread w).pc = .expiredPut q → s.erased q ≠ 0

theorem Phases.init : Phases cfg (rendezvous cfg).init := by
  constructor <;> simp [rendezvous]

theorem Phases.step (hphases : Phases cfg s) (howned : Owned cfg s)
    (hlinked : Linked cfg s) (hstep : Step cfg s w act s') : Phases cfg s' := by
  have hlt : ∀ {w' q'}, (s.thread w').pc.qp = some q' → q' < s.next := fun hqp =>
    howned.owners_lt _ _ _ (howned.owner_of_qp hqp)
  have hturn := hstep.turn howned hlinked
  constructor
  case connecting =>
    intro w' q' hpc
    by_cases hw : w' = w
    · exact hw ▸ hstep.connecting howned (hw ▸ hpc)
    · rw [hstep.thread_ne hw] at hpc
      have hqp : (s.thread w').pc.qp = some q' := by rw [hpc]; rfl
      rw [hstep.qpDir_of_owner howned hlinked (howned.owner_of_qp hqp) hw]
      exact hphases.connecting w' q' hpc
  case sure =>
    intro w' q' hpc
    by_cases hw : w' = w
    · subst hw
      have hvalid := hturn.sure hpc
      rw [howned.fn_dir] at hvalid
      rcases hturn.obtained (q := q') (by rw [hpc]; rfl) with hqp | ⟨-, hproceed, -⟩
      · exact hstep.valid (hlt hqp) hvalid
      · rw [hpc] at hproceed
        cases hfn : (s.thread w').fn <;> rw [hfn] at hproceed <;> cases hproceed
    · rw [hstep.thread_ne hw] at hpc
      exact hstep.valid (hlt (by rw [hpc]; rfl)) (hphases.sure w' q' hpc)
  case expired =>
    intro w' q' hpc
    by_cases hw : w' = w
    · subst hw
      rw [hstep.erased_eq, hturn.expiredPut hpc]
      simp [Pc.removing]
    · rw [hstep.thread_ne hw] at hpc
      exact hstep.erased_ne_zero (hphases.expired w' q' hpc)

theorem phases_of_reachable (hreach : (rendezvous cfg).ReachableUnder EraseLinked s) :
    Phases cfg s :=
  hreach.invariant (P := Phases cfg) Phases.init
    fun _ _ _ hbefore hphases hguard hnext =>
      hphases.step (owned_of_reachable hbefore) (linked_of_reachable hbefore)
        (step_of_next hguard hnext)

end KtcpSplit.Rendezvous
