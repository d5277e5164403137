import KtcpSplit.Rendezvous.Frames

/-!
# The listeners of QPs

A QP keeps the listener that it was created with, and it is linked in a tree of that
listener only.  A worker comes to a QP by creating it or by finding it in such a tree.
-/

namespace KtcpSplit.Rendezvous

open KtcpSplit.RbData
open KtcpSplit.SearchTree
open KtcpSplit.Transition

variable {W : Type*} [DecidableEq W] {cfg : Config W} {s s' : State W} {w w' : W}
  {act : Act} {q : ℕ}

namespace Step

/-- A QP of the heap keeps its listener. -/
theorem listner_eq (hstep : Step cfg s w act s') (hlt : q < s.next) :
    (s'.heap q).listner = (s.heap q).listner := by
  have hupdate : ∀ q' (qp : Qp W), qp.listner = (s.heap q').listner →
      (Function.update s.heap q' qp q).listner = (s.heap q).listner := by
    intro q' qp hlistner
    by_cases hq : q = q'
    · rw [hq, Function.update_self, hlistner]
    · rw [Function.update_of_ne hq]
  cases hstep with
  | move hmove => rfl
  | join _ _ _ _ => exact hupdate _ _ rfl
  | link _ _ _ _ =>
      change (Function.update s.heap s.next _ q).listner = _
      rw [Function.update_of_ne hlt.ne]
  | store _ => exact hupdate _ _ rfl
  | get _ => exact hupdate _ _ rfl
  | erase _ _ herase =>
      rfl
  | put _ _ => exact hupdate _ _ rfl

/-- A QP is put into a tree when it is created, with the listener of its worker. -/
theorem mem_root_cases (hstep : Step cfg s w act s') {i : Listner.CbnListner × BitVec 32}
    (hmem : q ∈ inorder (s'.root i)) :
    q ∈ inorder (s.root i) ∨
      ∃ cpu, act.insertCpu = some cpu ∧ q = s.next ∧ s'.next = s.next + 1 ∧
        (s'.heap q).listner = (cfg.worker w).listner ∧
        i = ((cfg.worker w).listner, cpu) := by
  cases hstep with
  | link hthread hpc hadd hcolor =>
      rename_i fn pc cpu root linked
      by_cases hi : i = connectionsRoot cpu (cfg.pqp w fn)
      · subst hi
        change q ∈ inorder (Function.update s.root _ root _) at hmem
        rw [Function.update_self, mem_of_addRbData_linked hadd hcolor] at hmem
        rcases hmem with rfl | hmem
        · refine .inr ⟨cpu, rfl, rfl, rfl, ?_, rfl⟩
          change (Function.update s.heap s.next _ s.next).listner = _
          rw [Function.update_self]
          rfl
        · exact .inl hmem
      · change q ∈ inorder (Function.update s.root _ root i) at hmem
        rw [Function.update_of_ne hi] at hmem
        exact .inl hmem
  | erase hthread hpc herase =>
      rename_i fn pc after q' cpu root
      change q ∈ inorder (Function.update s.root _ (root _) i) at hmem
      by_cases hi : i = connectionsRoot cpu (s.heap q')
      · subst hi
        rw [Function.update_self, herase.2] at hmem
        exact .inl (List.mem_of_mem_erase hmem)
      · rw [Function.update_of_ne hi] at hmem
        exact .inl hmem
  | _ => exact .inl hmem

/-- A worker comes to a QP in `qp_exists`. -/
theorem qp_cases (hstep : Step cfg s w act s') (hpc : (s'.thread w').pc.qp = some q) :
    (s.thread w').pc.qp = some q ∨
      ∃ cpu, act.insertCpu = some cpu ∧
        (q ∈ inorder (s.root ((cfg.worker w).listner, cpu)) ∨
          q = s.next ∧ s'.next = s.next + 1 ∧
            (s'.heap q).listner = (cfg.worker w).listner) := by
  by_cases hw : w' = w
  case neg => exact .inl (hstep.thread_ne hw ▸ hpc)
  case pos =>
    subst hw
    cases hstep with
    | move hmove =>
        rw [State.setThread_self] at hpc
        exact .inl (hmove.qp hpc)
    | join hthread hpc' hadd hdir =>
        rw [State.setThread_self, Fn.qp_proceed] at hpc
        cases hpc
        exact .inr ⟨_, rfl, .inl (mem_of_addPqp_duplicate hadd)⟩
    | link hthread hpc' hadd hcolor =>
        rw [State.setThread_self, Fn.qp_proceed] at hpc
        cases hpc
        refine .inr ⟨_, rfl, .inr ⟨rfl, rfl, ?_⟩⟩
        change (Function.update s.heap s.next _ s.next).listner = _
        rw [Function.update_self]
        rfl
    | store hthread =>
        rw [State.setThread_self] at hpc
        rw [hthread]
        exact .inl hpc
    | get hthread =>
        rename_i fn q' waits
        rw [State.setThread_self] at hpc
        rw [hthread]
        refine .inl (Eq.trans ?_ hpc)
        split
        · rfl
        · cases waits <;> rfl
    | erase hthread hpc' herase =>
        rw [State.setThread_self] at hpc
        rw [hthread]
        cases hpc' with
        | fin =>
            rename_i waits
            refine .inl (Eq.trans ?_ hpc)
            cases waits <;> rfl
        | expired => exact .inl hpc
    | put hthread hpc' =>
        rw [State.setThread_self] at hpc
        cases hpc

end Step

end KtcpSplit.Rendezvous
