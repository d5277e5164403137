import KtcpSplit.Rendezvous.Linked

/-!
# Who is paired with whom

The tree compares keys with `strncmp`, which stops at the first zero byte, and a
port below 256 or an address with a zero puts one into the key.  A QP that
agrees with a new one up to there is taken for its other half.
-/

namespace KtcpSplit.Rendezvous

open KtcpSplit.ConnKey
open KtcpSplit.RbData
open KtcpSplit.SearchTree
open KtcpSplit.Transition

variable {W : Type*}

/-- No QP of the worker's tree agrees with its key up to the first zero byte and
differs behind it. -/
def NoCollision (cfg : Config W) (s : State W) (label : W × Act) : Prop :=
  ∀ cpu ∈ label.2.insertCpu,
    ∀ q ∈ inorder (s.root (connectionsRoot cpu
        (cfg.pqp label.1 (s.thread label.1).fn))),
      cString rbKeyLength (cfg.worker label.1).tuple.key =
          cString rbKeyLength (s.tupleOf q).key →
        s.tupleOf q = (cfg.worker label.1).tuple

instance (cfg : Config W) (s : State W) (label : W × Act) :
    Decidable (NoCollision cfg s label) :=
  Option.decidableForallMem label.2.insertCpu

/-- Every worker on a QP has its tuple. -/
def Paired (cfg : Config W) (s : State W) : Prop :=
  ∀ w q dir, w ∈ s.owners q dir → (cfg.worker w).tuple = s.tupleOf q

variable {cfg : Config W} {s s' : State W} {w : W} {act : Act} {q : ℕ}

section Steps

variable [DecidableEq W]

/-- A step other than an insertion keeps the tuple of every QP. -/
theorem Step.tupleOf (hstep : Step cfg s w act s') (hq : q < s.next) :
    s'.tupleOf q = s.tupleOf q := by
  cases hstep with
  | move _ => rfl
  | join _ _ _ _ =>
      simp only [State.tupleOf, State.setThread, State.join, State.store,
        State.setQp, Function.update_apply]
      split <;> simp_all
  | link _ _ _ _ =>
      simp only [State.tupleOf, State.setThread, State.link, State.setQp,
        Function.update_apply, if_neg hq.ne]
  | store _ =>
      simp only [State.tupleOf, State.setThread, State.store, State.setQp,
        Function.update_apply]
      split <;> simp_all
  | get _ =>
      simp only [State.tupleOf, State.setThread, State.getQp, State.setHeld,
        State.setQp, Function.update_apply]
      split <;> simp_all
  | erase _ _ herase =>
      rfl
  | put _ _ =>
      simp only [State.tupleOf, State.setThread, State.putQp, State.setHeld,
        State.setQp, Function.update_apply]
      split <;> simp_all

/-- A step gives a direction to the worker that takes it, on a QP that
`strncmp` takes for its own or on a new one. -/
theorem Step.owners (hstep : Step cfg s w act s') {w' : W} {dir : Dir}
    (howner : w' ∈ s'.owners q dir) :
    w' ∈ s.owners q dir ∨ w' = w ∧ ∃ cpu, act.insertCpu = some cpu ∧
      (q = s.next ∧ s'.tupleOf q = (cfg.worker w).tuple ∧ s'.cpuOf q = cpu ∨
        addPqp cfg s w (s.thread w).fn cpu = .duplicate q) := by
  cases hstep with
  | move _ => exact .inl howner
  | @join fn _ _ _ _ hthread _ hadd _ =>
      rcases mem_owners_join (cfg.pqp w fn) howner with ⟨hw, rfl⟩ | hold
      · exact .inr ⟨hw, _, rfl, .inr (by rw [hthread]; exact hadd)⟩
      · exact .inl hold
  | link hthread _ _ _ =>
      simp only [State.setThread, State.link, setAt_apply] at howner
      split at howner
      · rename_i heq
        rcases List.mem_cons.mp howner with hw | hold
        · refine .inr ⟨hw, _, rfl, .inl ⟨heq.1, ?_, ?_⟩⟩ <;>
            simp [State.tupleOf, State.setThread, State.link, State.setQp, heq.1,
              Config.pqp]
        · exact .inl (by rwa [heq.1, heq.2])
      · exact .inl howner
  | store _ => exact .inl howner
  | get _ => exact .inl howner
  | erase _ _ herase =>
      exact .inl howner
  | put _ _ => exact .inl howner

theorem Paired.step (howned : Owned cfg s) (hlinked : Linked cfg s)
    (hpaired : Paired cfg s) (hguard : NoCollision cfg s (w, act))
    (hstep : Step cfg s w act s') : Paired cfg s' := by
  intro w' q dir howner
  rcases hstep.owners howner with hold | ⟨rfl, cpu, hinsert, hnew | hadd⟩
  · rw [hstep.tupleOf (howned.owners_lt _ _ _ hold)]
    exact hpaired w' q dir hold
  · exact hnew.2.1.symm
  · obtain ⟨hmem, hkey⟩ := (addPqp_eq_duplicate_iff howned hlinked).mp hadd
    rw [hstep.tupleOf (howned.root_lt _ _ hmem)]
    exact (hguard cpu hinsert q hmem hkey).symm

theorem paired_of_noCollision
    (hreach : (rendezvous cfg).ReachableUnder (Keeping (NoCollision cfg)) s) :
    Paired cfg s :=
  hreach.invariant (P := Paired cfg) (by intro w q dir howner; cases howner)
    fun _ _ _ hbefore hpaired hguard hnext =>
      hpaired.step (owned_of_reachable (reachable_of_keeping hbefore))
        (linked_of_reachable (reachable_of_keeping hbefore)) hguard.2
        (step_of_next hguard.1 hnext)

end Steps

/-- Another client with the same source port. -/
def otherTuple : Tuple := { clientTuple with addrS := ⟨10, 0, 0, 5⟩ }

/-- The SYN of one client and the accepted socket of the other. -/
def crossedConfig : Config Dir where
  worker := fun
    | .tx => clientWorker .startNewConnectionSyn
    | .rx => { clientWorker .startNewConnection with tuple := otherTuple }

end KtcpSplit.Rendezvous
