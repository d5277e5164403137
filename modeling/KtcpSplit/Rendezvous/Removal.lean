import KtcpSplit.Rendezvous.Frames
import Mathlib.Data.Fintype.Defs

/-!
# Removal from the tree

`rb_erase` is called at two places, after the second `get_qp` and in the timeout
branch of `wait_qp_ready`.  Nothing records that the node is out, so the two
exclude each other only while no second reference is taken between a timeout
and the `put_qp` after it.  Both take the tree of the CPU they run on, whatever CPU
the node was inserted on.
-/

namespace KtcpSplit.Rendezvous

open KtcpSplit.SearchTree
open KtcpSplit.Transition

variable {W : Type*}

/-- `rb_erase` was called at most once on each node, and never on one that was
not linked. -/
def RemovedOnce (s : State W) : Prop :=
  ∀ q, s.erased q ≤ 1 ∧ s.stray q = 0

/-- A reference is raised from one to two only while no worker stands between
its timeout and its `put_qp` on the same QP. -/
def NoLateArrival (s : State W) (label : W × Act) : Prop :=
  ∀ q ∈ getAt (s.thread label.1).pc label.2, (s.heap q).refCnt = 1 →
    ∀ w, (s.thread w).pc.timedOut ≠ some q

/-- A node is removed on the CPU that inserted it. -/
def SameCpu (s : State W) (label : W × Act) : Prop :=
  ∀ cpu ∈ label.2.eraseCpu, ∀ q ∈ (s.thread label.1).pc.removing, cpu = s.cpuOf q

/-- The two conditions under which a removal meets the node in the tree. -/
def Punctual (s : State W) (label : W × Act) : Prop :=
  NoLateArrival s label ∧ SameCpu s label

instance [Fintype W] (s : State W) (label : W × Act) :
    Decidable (NoLateArrival s label) :=
  inferInstanceAs (Decidable (∀ _ ∈ _, _))

instance (s : State W) (label : W × Act) : Decidable (SameCpu s label) :=
  Option.decidableForallMem label.2.eraseCpu

instance [Fintype W] (s : State W) (label : W × Act) : Decidable (Punctual s label) :=
  inferInstanceAs (Decidable (_ ∧ _))

/-- Why the two places exclude each other. -/
structure Once (cfg : Config W) (s : State W) : Prop where
  erased_le : ∀ q, s.erased q ≤ 1
  removing : ∀ w q, (s.thread w).pc.removing = some q → s.erased q = 0
  unique : ∀ w w' q, (s.thread w).pc.removing = some q →
    (s.thread w').pc.removing = some q → w' = w
  /-- A second reference is only taken by the last of two workers to arrive. -/
  fin : ∀ w q waits, (s.thread w).pc = .fin q waits →
    (∀ dir, ((s.heap q).qpDir dir).isErrOrNull = false) ∧
      ∀ w', (s.thread w').pc.pending ≠ some q
  /-- Whoever removed the node has a valid socket on it. -/
  peerless : ∀ w q, (s.thread w).pc.pending = some q ∨ (s.thread w).pc = .wait q →
    ((s.heap q).qpDir (cfg.dir w).peer).isErrOrNull = true → s.erased q = 0
  both_pending : ∀ w w' q, (s.thread w).pc.pending = some q →
    (s.thread w').pc.pending = some q → w' ≠ w → s.erased q = 0
  /-- A peer that removed the node before this worker took its reference has
  dropped its own or is about to. -/
  timed_out : ∀ w q, (s.thread w).pc.pending = some q →
    s.held q (cfg.dir w).peer = true → s.erased q ≠ 0 →
      ∃ w', (s.thread w').pc = .expiredPut q

variable {cfg : Config W} {s s' : State W} {w w' : W} {act : Act} {q : ℕ}

theorem Once.init [DecidableEq W] : Once cfg (rendezvous cfg).init := by
  constructor <;> simp [rendezvous, Pc.removing, Pc.pending]

/-! ## Two workers on a QP -/

/-- Nobody removes the node while a worker of the other side waits or is about
to, and sees no valid peer. -/
theorem Owned.not_removing_of_peerless (howned : Owned cfg s)
    (hpc : (s.thread w).pc.pending = some q ∨ (s.thread w).pc = .wait q)
    (hpeer : ((s.heap q).qpDir (cfg.dir w).peer).isErrOrNull = true) (w' : W) :
    (s.thread w').pc.removing ≠ some q := by
  intro hremoving
  have hholding := Pc.holding_of_removing hremoving
  have hqp' : (s.thread w').pc.qp = some q := Pc.qp_eq_some_iff.mpr (.inr hholding)
  have hqp : (s.thread w).pc.qp = some q := by
    rcases hpc with h | h
    · exact Pc.qp_eq_some_iff.mpr (.inl h)
    · rw [h]; rfl
  have hne : w' ≠ w := by
    rintro rfl
    rcases hpc with h | h
    · exact Pc.not_pending_of_holding hholding h
    · rw [h] at hremoving
      cases hremoving
  have hvalid := howned.valid w' q hqp' (by
    intro heq
    rw [heq] at hholding
    cases hholding)
  rw [howned.dir_eq_peer hqp hqp' hne, hpeer] at hvalid
  cases hvalid

/-- Of two workers that have not taken their references, neither is removing,
and there is no third. -/
theorem Owned.not_removing_of_both (howned : Owned cfg s) {w₁ w₂ : W}
    (h₁ : (s.thread w₁).pc.pending = some q) (h₂ : (s.thread w₂).pc.pending = some q)
    (hne : w₂ ≠ w₁) (w' : W) : (s.thread w').pc.removing ≠ some q := by
  intro hremoving
  have hholding := Pc.holding_of_removing hremoving
  rcases howned.no_third (Pc.qp_eq_some_iff.mpr (.inr hholding))
    (Pc.qp_eq_some_iff.mpr (.inl h₁)) (Pc.qp_eq_some_iff.mpr (.inl h₂)) hne with
    rfl | rfl
  · exact Pc.not_pending_of_holding hholding h₁
  · exact Pc.not_pending_of_holding hholding h₂

/-! ## Steps -/

section Step

variable [DecidableEq W]

/-- A worker that comes to a removal finds the node linked and nobody else at
one. -/
theorem Once.removing_entered (honce : Once cfg s) (howned : Owned cfg s)
    (hlinked : Linked cfg s) (hguard : NoLateArrival s (w, act))
    (hstep : Step cfg s w act s') (hpc : (s'.thread w).pc.removing = some q) :
    s.erased q = 0 ∧ ∀ w', (s.thread w').pc.removing ≠ some q := by
  rcases (hstep.turn howned hlinked).removing hpc with
    ⟨hwait, -, hpeer⟩ | ⟨hget, hone, -⟩
  · rw [howned.fn_dir] at hpeer
    exact ⟨honce.peerless w q (.inr hwait) hpeer,
      howned.not_removing_of_peerless (.inr hwait) hpeer⟩
  · obtain ⟨⟨waits, hpcW⟩, rfl⟩ := getAt_eq_some hget
    have hpending : (s.thread w).pc.pending = some q := by rw [hpcW]; rfl
    have hheld := howned.peer_held hpending hone
    have hclear := hguard q hget hone
    constructor
    · by_contra herased
      obtain ⟨w₂, h₂⟩ := honce.timed_out w q hpending hheld herased
      exact hclear w₂ (by rw [h₂]; rfl)
    · intro w' hremoving
      rcases Pc.removing_eq_some hremoving with ⟨waits', hfin⟩ | hexpired
      · exact (honce.fin w' q waits' hfin).2 w hpending
      · exact hclear w' (by rw [hexpired]; rfl)

theorem Once.step_removing (honce : Once cfg s) (howned : Owned cfg s)
    (hlinked : Linked cfg s) (hguard : NoLateArrival s (w, act))
    (hstep : Step cfg s w act s') (hpc : (s'.thread w').pc.removing = some q) :
    s'.erased q = 0 := by
  by_cases hw : w' = w
  · obtain ⟨hzero, hnone⟩ :=
      honce.removing_entered howned hlinked hguard hstep (hw ▸ hpc)
    rw [hstep.erased_keep (hnone w), hzero]
  · rw [hstep.thread_ne hw] at hpc
    rw [hstep.erased_keep, honce.removing w' q hpc]
    exact fun hremoving => hw (honce.unique w w' q hremoving hpc)

theorem Once.step_unique (honce : Once cfg s) (howned : Owned cfg s)
    (hlinked : Linked cfg s) (hguard : NoLateArrival s (w, act))
    (hstep : Step cfg s w act s') {w₁ w₂ : W}
    (h₁ : (s'.thread w₁).pc.removing = some q)
    (h₂ : (s'.thread w₂).pc.removing = some q) : w₂ = w₁ := by
  have hentered := honce.removing_entered howned hlinked hguard hstep (q := q)
  by_cases hw₁ : w₁ = w <;> by_cases hw₂ : w₂ = w
  · rw [hw₁, hw₂]
  · rw [hstep.thread_ne hw₂] at h₂
    exact absurd h₂ ((hentered (hw₁ ▸ h₁)).2 w₂)
  · rw [hstep.thread_ne hw₁] at h₁
    exact absurd h₁ ((hentered (hw₂ ▸ h₂)).2 w₁)
  · rw [hstep.thread_ne hw₁] at h₁
    rw [hstep.thread_ne hw₂] at h₂
    exact honce.unique w₁ w₂ q h₁ h₂

theorem Once.step_fin (honce : Once cfg s) (howned : Owned cfg s)
    (hlinked : Linked cfg s) (hstep : Step cfg s w act s') {waits : Bool}
    (hpc : (s'.thread w').pc = .fin q waits) :
    (∀ dir, ((s'.heap q).qpDir dir).isErrOrNull = false) ∧
      ∀ w₂, (s'.thread w₂).pc.pending ≠ some q := by
  have hturn := hstep.turn howned hlinked
  by_cases hw : w' = w
  · subst hw
    rcases hturn.removing (q := q) (by rw [hpc]; rfl) with
      ⟨-, hexpired, -⟩ | ⟨hget, hone, -⟩
    · rw [hpc] at hexpired
      cases hexpired
    obtain ⟨⟨waits', hpcW⟩, -⟩ := getAt_eq_some hget
    have hpending : (s.thread w').pc.pending = some q := by rw [hpcW]; rfl
    have hqp : (s.thread w').pc.qp = some q := Pc.qp_eq_some_iff.mpr (.inl hpending)
    have hheld := howned.peer_held hpending hone
    constructor
    · intro dir
      apply hstep.valid (howned.lt_of_qp hqp)
      by_cases hdir : dir = cfg.dir w'
      · rw [hdir]
        exact howned.valid w' q hqp (by rw [hpcW]; exact Pc.noConfusion)
      · rw [Dir.eq_peer_of_ne hdir]
        exact howned.held_valid q _ hheld
    · intro w₂ h₂
      by_cases hw₂ : w₂ = w'
      · rw [hw₂, hpc] at h₂
        cases h₂
      · rw [hstep.thread_ne hw₂] at h₂
        have hnot := howned.not_held_of_pending w₂ q h₂
        rw [howned.dir_eq_peer hqp (Pc.qp_eq_some_iff.mpr (.inl h₂)) hw₂,
          hheld] at hnot
        cases hnot
  · rw [hstep.thread_ne hw] at hpc
    obtain ⟨hvalid, hnone⟩ := honce.fin w' q waits hpc
    have hlt : q < s.next := howned.lt_of_qp (w := w') (by rw [hpc]; rfl)
    refine ⟨fun dir => hstep.valid hlt (hvalid dir), fun w₂ h₂ => ?_⟩
    by_cases hw₂ : w₂ = w
    · subst hw₂
      rcases hturn.pending h₂ with h | ⟨-, -, hnew⟩
      · exact hnone w₂ h
      · have hnull := (hnew.resolve_left hlt.ne).2
        have hsocket := hvalid (s.thread w₂).fn.dir
        rw [hnull] at hsocket
        cases hsocket
    · rw [hstep.thread_ne hw₂] at h₂
      exact hnone w₂ h₂

/-- A worker that has not taken its reference after the step had not before, or
the node is linked and the worker just found it. -/
theorem pending_before (howned : Owned cfg s) (hlinked : Linked cfg s)
    (hstep : Step cfg s w act s') (hpc : (s'.thread w').pc.pending = some q) :
    (s.thread w').pc.pending = some q ∨
      w' = w ∧ s.erased q = 0 ∧ (s.thread w).pc.removing ≠ some q := by
  by_cases hw : w' = w
  · subst hw
    refine ((hstep.turn howned hlinked).pending hpc).imp id ?_
    rintro ⟨hnone, -, hnew⟩
    refine ⟨rfl, ?_, Pc.not_removing_of_qp hnone⟩
    rcases hnew with rfl | ⟨hin, -⟩
    · exact hlinked.not_erased _ le_rfl
    · exact hlinked.erased_eq_zero howned hin
  · exact .inl (hstep.thread_ne hw ▸ hpc)

theorem Once.step_peerless (honce : Once cfg s) (howned : Owned cfg s)
    (hlinked : Linked cfg s) (hstep : Step cfg s w act s')
    (hpc : (s'.thread w').pc.pending = some q ∨ (s'.thread w').pc = .wait q)
    (hpeer : ((s'.heap q).qpDir (cfg.dir w').peer).isErrOrNull = true) :
    s'.erased q = 0 := by
  have hturn := hstep.turn howned hlinked
  have hfrom : (s.thread w').pc.pending = some q ∨ (s.thread w').pc = .wait q →
      s'.erased q = 0 := by
    intro h
    have hqp : (s.thread w').pc.qp = some q := by
      rcases h with h | h
      · exact Pc.qp_eq_some_iff.mpr (.inl h)
      · rw [h]; rfl
    have hpeer := hstep.invalid_before (howned.lt_of_qp hqp) hpeer
    rw [hstep.erased_keep (howned.not_removing_of_peerless h hpeer w)]
    exact honce.peerless w' q h hpeer
  rcases hpc with hpending | hwait
  · rcases pending_before howned hlinked hstep hpending with h | ⟨-, hzero, hnot⟩
    · exact hfrom (.inl h)
    · rw [hstep.erased_keep hnot, hzero]
  · by_cases hw : w' = w
    · subst hw
      rcases hturn.wait hwait with h | h
      · exact hfrom (.inl (by rw [h]; rfl))
      · have hlt : q < s.next := howned.lt_of_qp (w := w') (by rw [h]; rfl)
        rw [hstep.valid hlt ((honce.fin w' q _ h).1 _)] at hpeer
        cases hpeer
    · exact hfrom (.inr (hstep.thread_ne hw ▸ hwait))

theorem Once.step_both_pending (honce : Once cfg s) (howned : Owned cfg s)
    (hlinked : Linked cfg s) (hstep : Step cfg s w act s') {w₁ w₂ : W}
    (h₁ : (s'.thread w₁).pc.pending = some q)
    (h₂ : (s'.thread w₂).pc.pending = some q) (hne : w₂ ≠ w₁) : s'.erased q = 0 := by
  rcases pending_before howned hlinked hstep h₁ with h₁ | ⟨-, hzero, hnot⟩
  · rcases pending_before howned hlinked hstep h₂ with h₂ | ⟨-, hzero, hnot⟩
    · rw [hstep.erased_keep (howned.not_removing_of_both h₁ h₂ hne w)]
      exact honce.both_pending w₁ w₂ q h₁ h₂ hne
    · rw [hstep.erased_keep hnot, hzero]
  · rw [hstep.erased_keep hnot, hzero]

theorem Once.step_timed_out (honce : Once cfg s) (howned : Owned cfg s)
    (hlinked : Linked cfg s) (hstep : Step cfg s w act s')
    (hpc : (s'.thread w').pc.pending = some q)
    (hheld : s'.held q (cfg.dir w').peer = true) (herased : s'.erased q ≠ 0) :
    ∃ w₂, (s'.thread w₂).pc = .expiredPut q := by
  have hturn := hstep.turn howned hlinked
  have hpending : (s.thread w').pc.pending = some q := by
    rcases pending_before howned hlinked hstep hpc with h | ⟨-, hzero, hnot⟩
    · exact h
    · exact absurd ((hstep.erased_keep hnot).trans hzero) herased
  have hqp := Pc.qp_eq_some_iff.mpr (.inl hpending)
  by_cases hremoving : (s.thread w).pc.removing = some q
  · rcases Pc.removing_eq_some hremoving with ⟨waits, hfin⟩ | hexpired
    · exact absurd hpending ((honce.fin w q waits hfin).2 w')
    · exact ⟨w, hturn.of_expired hexpired⟩
  rw [hstep.erased_keep hremoving] at herased
  rw [hstep.held_eq howned] at hheld
  split at hheld
  · rename_i hget
    obtain ⟨⟨waits, hpcW⟩, -⟩ := getAt_eq_some hget.1
    have hpendingW : (s.thread w).pc.pending = some q := by rw [hpcW]; rfl
    have hne : w' ≠ w := by
      rintro rfl
      exact Dir.peer_ne _ hget.2
    exact absurd (honce.both_pending w w' q hpendingW hpending hne) herased
  · split at hheld
    · cases hheld
    rename_i hput
    obtain ⟨w₂, h₂⟩ := honce.timed_out w' q hpending hheld herased
    by_cases hw₂ : w₂ = w
    · -- `w` at its own `put_qp` drops the reference in question
      subst hw₂
      have hqpW : (s.thread w₂).pc.qp = some q := by rw [h₂]; rfl
      have hne : w₂ ≠ w' := by
        rintro rfl
        rw [h₂] at hpending
        cases hpending
      exact absurd ⟨hturn.of_expiredPut h₂, (howned.dir_eq_peer hqp hqpW hne).symm⟩ hput
    · exact ⟨w₂, by rw [hstep.thread_ne hw₂]; exact h₂⟩

theorem Once.step (honce : Once cfg s) (howned : Owned cfg s)
    (hlinked : Linked cfg s) (hguard : NoLateArrival s (w, act))
    (hstep : Step cfg s w act s') : Once cfg s' where
  erased_le := by
    intro q
    have hle := honce.erased_le q
    rw [hstep.erased_eq]
    split
    · rename_i hremoving
      have := honce.removing w q hremoving
      omega
    · exact hle
  removing := fun _ _ hpc => honce.step_removing howned hlinked hguard hstep hpc
  unique := fun _ _ _ h₁ h₂ => honce.step_unique howned hlinked hguard hstep h₁ h₂
  fin := fun _ _ _ hpc => honce.step_fin howned hlinked hstep hpc
  peerless := fun _ _ hpc hpeer => honce.step_peerless howned hlinked hstep hpc hpeer
  both_pending := fun _ _ _ h₁ h₂ hne =>
    honce.step_both_pending howned hlinked hstep h₁ h₂ hne
  timed_out := fun _ _ hpc hheld herased =>
    honce.step_timed_out howned hlinked hstep hpc hheld herased

omit [DecidableEq W] in
/-- A worker that is at a removal finds the node in the tree of its insertion. -/
theorem Once.eraseLinked (honce : Once cfg s) (howned : Owned cfg s)
    (hlinked : Linked cfg s) (hcpu : SameCpu s (w, act)) : EraseLinked s (w, act) := by
  intro cpu herase q hremoving
  have hqp := Pc.qp_eq_some_iff.mpr (.inr (Pc.holding_of_removing hremoving))
  have hin := (hlinked.linked_iff q (howned.lt_of_qp hqp)).mpr (honce.removing w q hremoving)
  rw [hcpu cpu herase q hremoving]
  exact hin

/-- Without a late arrival and on one CPU, no removal meets a node that is out. -/
theorem once_of_punctual (hreach : (rendezvous cfg).ReachableUnder Punctual s) :
    (rendezvous cfg).ReachableUnder EraseLinked s ∧ Once cfg s := by
  refine hreach.invariant
    (P := fun s => (rendezvous cfg).ReachableUnder EraseLinked s ∧ Once cfg s)
    ⟨.init, Once.init⟩ ?_
  rintro before ⟨w, act⟩ after - ⟨hbefore, honce⟩ ⟨hlate, hcpu⟩ hnext
  have howned := owned_of_reachable hbefore
  have hlinked := linked_of_reachable hbefore
  have hguard := honce.eraseLinked howned hlinked hcpu
  exact ⟨.next hbefore hguard hnext,
    honce.step howned hlinked hlate (step_of_next hguard hnext)⟩

end Step

/-- In every run without a late arrival, in which a node is removed on the CPU that
inserted it, a node leaves its tree at most once, and only while it is linked
there. -/
theorem node_removed_once [DecidableEq W] (cfg : Config W) (s : State W)
    (hreach : (rendezvous cfg).ReachableUnder Punctual s) : RemovedOnce s := by
  obtain ⟨hkept, honce⟩ := once_of_punctual hreach
  exact fun q => ⟨honce.erased_le q, (linked_of_reachable hkept).stray q⟩

instance : Fintype Dir := ⟨{.tx, .rx}, fun dir => by cases dir <;> decide⟩

/-- The accepted socket arrives while the TX side waits. -/
theorem node_removed_once_pair :
    ∃ s : State Dir, RemovedOnce s ∧ (s.erased 0, s.root (⟨0, 7⟩, 2)) = (1, .nil) := by
  let cfg := pairConfig .startNewConnectionSyn
  obtain ⟨s, hreach, hs⟩ := Machine.exists_reachable_of_run (rendezvous cfg)
    Punctual
    [(.tx, .start), (.tx, .insert 2 (oneQp 0)), (.tx, .go), (.tx, .go), (.tx, .go),
      (.rx, .start), (.rx, .insert 2 .nil), (.rx, .go), (.rx, .go),
      (.rx, .erase 2 fun _ => .nil), (.tx, .go)]
    (fun s => (s.erased 0, s.root (⟨0, 7⟩, 2))) (1, .nil) (by decide)
  exact ⟨s, node_removed_once cfg s hreach, hs⟩

/-- The TX side times out, the RX side takes the second reference and removes
the node, and the timeout branch removes it again. -/
theorem node_removed_twice :
    ∃ s, (rendezvous (pairConfig .startNewConnectionSyn)).Reachable s ∧
      ¬ RemovedOnce s := by
  let cfg := pairConfig .startNewConnectionSyn
  obtain ⟨s, hreach, hs⟩ := Machine.exists_reachable_of_run (rendezvous cfg)
    (fun _ _ => True)
    [(.tx, .start), (.tx, .insert 2 (oneQp 0)), (.tx, .go), (.tx, .go), (.tx, .go),
      (.tx, .timeout), (.rx, .start), (.rx, .insert 2 .nil), (.rx, .go), (.rx, .go),
      (.rx, .erase 2 fun _ => .nil), (.tx, .erase 2 fun _ => .nil)]
    (fun s => (s.erased 0, s.stray 0)) (2, 1) (by decide)
  refine ⟨s, hreach, fun hremoved => ?_⟩
  have := (hremoved 0).1
  simp only [Prod.mk.injEq] at hs
  omega

end KtcpSplit.Rendezvous
