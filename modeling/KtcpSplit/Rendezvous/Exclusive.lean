import KtcpSplit.Rendezvous.Linked

/-!
# One worker for each direction

`qp_exists` returns `NULL` to a worker whose direction is taken.  Both TX-side
callers check for it; `start_new_connection` passes it on to `wait_qp_ready`,
which reads `qp->qp_dir`.
-/

namespace KtcpSplit.Rendezvous

open KtcpSplit.ConnKey
open KtcpSplit.Listner
open KtcpSplit.SearchTree
open KtcpSplit.Transition

variable {W : Type*}

/-- What the double SYN rule is there for. -/
structure Exclusive (cfg : Config W) (s : State W) : Prop where
  one_owner : ∀ q dir, (s.owners q dir).length ≤ 1
  own_qp : ∀ w q, (s.thread w).pc.qp = some q → w ∈ s.owners q (cfg.dir w)
  others_end : ∀ w, (∀ q dir, w ∉ s.owners q dir) →
    (s.thread w).pc = .idle ∨ (s.thread w).pc = .enter ∨ (s.thread w).pc = .done
  no_oops : ∀ w, (s.thread w).pc ≠ .oops
  count : ∀ q, (s.heap q).refCnt = 0 ∨ (s.heap q).refCnt = 1 ∨ (s.heap q).refCnt = 2
  possible : s.impossible = false

/-- When an RX-side worker runs `qp_exists`, no QP of its tree that `strncmp`
takes for its own has an RX-side worker. -/
def RxFree (cfg : Config W) (s : State W) (label : W × Act) : Prop :=
  ∀ cpu ∈ label.2.insertCpu, (s.thread label.1).fn = .startNewConnection →
    ∀ q ∈ inorder (s.root
        (connectionsRoot cpu (cfg.pqp label.1 .startNewConnection))),
      cString rbKeyLength (cfg.worker label.1).tuple.key =
          cString rbKeyLength (s.tupleOf q).key →
        (s.heap q).qpDir .rx = .null

section Counter

variable {cfg : Config W} {s : State W} {w : W} {q : ℕ}

theorem Owned.count (howned : Owned cfg s) (q : ℕ) :
    (s.heap q).refCnt = 0 ∨ (s.heap q).refCnt = 1 ∨ (s.heap q).refCnt = 2 := by
  rw [howned.refCnt q]
  cases s.held q .tx <;> cases s.held q .rx <;> simp

theorem exclusive_of_owned (howned : Owned cfg s)
    (hoops : ∀ w, (s.thread w).pc ≠ .oops) (hpossible : s.impossible = false) :
    Exclusive cfg s where
  one_owner := howned.owners_le
  own_qp := fun w q hpc => howned.owner_of_qp hpc
  others_end := by
    intro w hnone
    have hobtained : (s.thread w).pc.obtained = none := by
      by_contra hsome
      obtain ⟨q, hq⟩ := Option.ne_none_iff_exists'.mp hsome
      exact hnone q _ (howned.owner w q hq)
    have hne := hoops w
    cases hpc : (s.thread w).pc <;>
      simp_all [Pc.obtained, Pc.qp, Pc.pending, Pc.holding]
  no_oops := hoops
  count := howned.count
  possible := hpossible

end Counter

variable [DecidableEq W]

instance (cfg : Config W) (s : State W) (label : W × Act) :
    Decidable (RxFree cfg s label) :=
  Option.decidableForallMem label.2.insertCpu

variable {cfg : Config W} {s s' : State W} {w : W} {act : Act} {q : ℕ}

theorem possible_step (howned : Owned cfg s) (hpossible : s.impossible = false)
    (hstep : Step cfg s w act s') : s'.impossible = false := by
  cases hstep with
  | move _ => exact hpossible
  | join _ _ _ _ => exact hpossible
  | link _ _ _ _ => exact hpossible
  | store _ => exact hpossible
  | get hthread =>
      rename_i fn q waits
      have hcount := howned.refCnt_of_pending (w := w) (q := q)
        (by rw [hthread]; rfl)
      simp only [State.setThread, State.getQp, hpossible, hcount]
      cases s.held q (cfg.dir w).peer <;> simp
  | erase _ _ herase =>
      exact hpossible
  | put _ _ => exact hpossible

/-! ## The null pointer -/

theorem oops_of_rejected {fn : Fn} :
    fn.rejected = .oops ↔ fn = .startNewConnection := by
  cases fn <;> simp [Fn.rejected]

theorem ne_oops_of_proceed (fn : Fn) (q : ℕ) : fn.proceed q ≠ .oops := by
  cases fn <;> exact Pc.noConfusion

theorem ne_oops_of_holding {pc : Pc} (hpc : pc.holding = some q) : pc ≠ .oops := by
  rintro rfl
  cases hpc

/-- Only a rejected RX-side worker reads through the null pointer. -/
theorem no_oops_step (howned : Owned cfg s) (hlinked : Linked cfg s)
    (hoops : ∀ w, (s.thread w).pc ≠ .oops) (hguard : RxFree cfg s (w, act))
    (hstep : Step cfg s w act s') : ∀ w, (s'.thread w).pc ≠ .oops := by
  have hupdate : ∀ {t : State W} {thread : Thread}, t.thread = s.thread →
      thread.pc ≠ .oops → ∀ w', ((t.setThread w thread).thread w').pc ≠ .oops := by
    intro t thread hsame hpc w'
    simp only [State.setThread, hsame, Function.update_apply]
    split
    · exact hpc
    · exact hoops w'
  cases hstep with
  | move hmove =>
      rename_i thread
      apply hupdate rfl
      generalize hbefore : s.thread w = before at hmove
      cases hmove with
      | rejected hpc hadd hdir =>
          rename_i fn _ _ _ q
          rintro hrejected
          have hfn := oops_of_rejected.mp hrejected
          subst hfn
          obtain ⟨hmem, hkey⟩ := (addPqp_eq_duplicate_iff howned hlinked).mp hadd
          exact hdir (hguard _ rfl (by rw [hbefore]) q hmem hkey)
      | _ => exact Pc.noConfusion
  | join _ _ _ _ => exact hupdate rfl (ne_oops_of_proceed _ _)
  | link _ _ _ _ => exact hupdate rfl (ne_oops_of_proceed _ _)
  | store _ => exact hupdate rfl Pc.noConfusion
  | get _ =>
      apply hupdate rfl
      split
      · exact Pc.noConfusion
      · exact ne_oops_of_holding (holding_afterGet _ _)
  | erase _ hpc herase =>
      exact hupdate rfl (ne_oops_of_holding hpc.holding.2.1)
  | put _ _ => exact hupdate rfl Pc.noConfusion

theorem exclusive_of_rxFree
    (hreach : (rendezvous cfg).ReachableUnder (Keeping (RxFree cfg)) s) :
    Exclusive cfg s := by
  have hinv := hreach.invariant
    (P := fun s => (∀ w, (s.thread w).pc ≠ .oops) ∧ s.impossible = false)
    ⟨fun _ => Pc.noConfusion, rfl⟩ (by
      intro before label after hbefore hold hguard hnext
      have howned := owned_of_reachable (reachable_of_keeping hbefore)
      have hlinked := linked_of_reachable (reachable_of_keeping hbefore)
      have hstep := step_of_next hguard.1 hnext
      exact ⟨no_oops_step howned hlinked hold.1 hguard.2 hstep,
        possible_step howned hold.2 hstep⟩)
  exact exclusive_of_owned (owned_of_reachable (reachable_of_keeping hreach)) hinv.1 hinv.2

/-- A step that does not meet the condition is one through the null pointer. -/
theorem oops_of_not_rxFree (howned : Owned cfg s) (hlinked : Linked cfg s)
    (hguard : ¬ RxFree cfg s (w, act)) (hstep : Step cfg s w act s') :
    (s'.thread w).pc = .oops := by
  unfold RxFree at hguard
  push Not at hguard
  obtain ⟨cpu, hinsert, hfn, q, hmem, hkey, hdir⟩ := hguard
  have hadd := (addPqp_eq_duplicate_iff howned hlinked).mpr ⟨hmem, hkey⟩
  generalize hbefore : s.thread w = before at hfn
  obtain ⟨fn, pc⟩ := before
  dsimp only at hfn
  subst hfn
  cases hstep with
  | move hmove =>
      rw [hbefore] at hmove
      cases hmove with
      | rejected hpc hadd' hdir' => rw [State.setThread_self]; rfl
      | _ => cases hinsert
  | join hthread _ hadd' hdir' =>
      rw [hbefore] at hthread
      cases hthread
      cases hinsert
      rw [hadd] at hadd'
      cases hadd'
      exact absurd hdir' hdir
  | link hthread _ hadd' _ =>
      rw [hbefore] at hthread
      cases hthread
      cases hinsert
      rw [hadd] at hadd'
      cases hadd'
  | put hthread hpc =>
      rcases putAt_eq_some hpc with rfl | rfl | rfl <;> cases act <;> cases hinsert <;>
        cases hpc
  | _ => cases hinsert

/-- Two accepted sockets for one client. -/
def twoAccepts : Config Bool where
  worker := fun _ => clientWorker .startNewConnection

end KtcpSplit.Rendezvous
