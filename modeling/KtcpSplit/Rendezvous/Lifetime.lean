import KtcpSplit.Rendezvous.Removal

/-!
# The lifetime of a QP

A worker takes its reference only in `wait_qp_ready`, so between `qp_exists` and
that point the count does not know of it.  A `put_qp` of the other side in this
window frees the record under it.
-/

namespace KtcpSplit.Rendezvous

open KtcpSplit.SearchTree
open KtcpSplit.Transition

variable {W : Type*}

/-- A worker has a statement left that reads or writes a QP which it obtained
from `qp_exists`.  After a failed `forward_conn_info` that is the search in the
tree, as long as the QP is linked. -/
def Uses (s : State W) (w : W) (q : ℕ) : Prop :=
  (s.thread w).pc.qp = some q ∨
    ((s.thread w).pc = .fallback q ∧ InTree s q)

/-- A QP is freed at most once, and no worker uses it afterwards. -/
def NoUseAfterFree (s : State W) : Prop :=
  ∀ q, s.freed q ≤ 1 ∧ (s.freed q ≠ 0 → ∀ w, ¬ Uses s w q)

/-- `put_qp` is only called while every other worker on the QP has taken its
reference, and a wait ends by a wake-up or a timeout. -/
def NoEarlyPut (s : State W) (label : W × Act) : Prop :=
  label.2 ≠ .signal ∧
    ∀ q ∈ putAt (s.thread label.1).pc label.2, ∀ w, w ≠ label.1 →
      (s.thread w).pc.pending ≠ some q ∧
        ¬ ((s.thread w).pc = .fallback q ∧ InTree s q)

structure Alive (cfg : Config W) (s : State W) : Prop where
  paired : ∀ w q, (s.thread w).pc.paired = some q →
    ∀ dir, ((s.heap q).qpDir dir).isErrOrNull = false
  freed_le : ∀ q, s.freed q ≤ 1
  freed_lt : ∀ q, s.freed q ≠ 0 → q < s.next
  unused : ∀ q, s.freed q ≠ 0 → ∀ w, ¬ Uses s w q
  /-- A freed QP that is still linked has both directions taken. -/
  closed : ∀ q, s.freed q ≠ 0 →
    s.erased q ≠ 0 ∨ ∀ dir, (s.heap q).qpDir dir ≠ .null

variable {cfg : Config W} {s s' : State W} {w w' : W} {act : Act} {q : ℕ}

theorem Alive.init [DecidableEq W] : Alive cfg (rendezvous cfg).init := by
  constructor <;> simp [rendezvous, Pc.paired]

section Step

variable [DecidableEq W]

theorem Alive.step_paired (halive : Alive cfg s) (howned : Owned cfg s)
    (hlinked : Linked cfg s) (hsignal : act ≠ .signal) (hstep : Step cfg s w act s')
    (hpc : (s'.thread w').pc.paired = some q) (dir : Dir) :
    ((s'.heap q).qpDir dir).isErrOrNull = false := by
  have hold : (s.thread w').pc.paired = some q →
      ((s'.heap q).qpDir dir).isErrOrNull = false := fun h =>
    hstep.valid (howned.lt_of_qp (Pc.qp_of_paired h)) (halive.paired w' q h dir)
  by_cases hw : w' = w
  · subst hw
    rcases (hstep.turn howned hlinked).paired hsignal hpc with
      h | ⟨hqp, hconnect, hpeer⟩
    · exact hold h
    · apply hstep.valid (howned.lt_of_qp hqp)
      by_cases hdir : dir = cfg.dir w'
      · rw [hdir]
        exact howned.valid w' q hqp hconnect
      · rw [Dir.eq_peer_of_ne hdir, ← howned.fn_dir w']
        exact hpeer
  · exact hold (hstep.thread_ne hw ▸ hpc)

/-- The record is freed by a worker that uses it, and by no other. -/
theorem Alive.freed_cases (halive : Alive cfg s) (hstep : Step cfg s w act s')
    (hfreed : s'.freed q ≠ 0) : s.freed q ≠ 0 ∧ s'.freed q = s.freed q ∨
      s'.freed q = 1 ∧ putAt (s.thread w).pc act = some q ∧ (s.heap q).refCnt = 1 := by
  have heq := hstep.freed_eq q
  split at heq
  · rename_i hput
    have hqp := Pc.qp_eq_some_iff.mpr (.inr (holding_of_putAt hput.1))
    have hzero : s.freed q = 0 := by
      by_contra hold
      exact halive.unused q hold w (.inl hqp)
    exact .inr ⟨by omega, hput⟩
  · exact .inl ⟨by omega, heq⟩

theorem Alive.step_unused (halive : Alive cfg s) (howned : Owned cfg s)
    (hlinked : Linked cfg s) (hguard : NoEarlyPut s (w, act))
    (hstep : Step cfg s w act s') (hfreed : s'.freed q ≠ 0) : ¬ Uses s' w' q := by
  have hturn := hstep.turn howned hlinked
  -- another worker used the QP before the step
  have hother : w' ≠ w → q < s.next → Uses s' w' q → Uses s w' q := by
    intro hne hlt huses
    rw [Uses, hstep.thread_ne hne] at huses
    exact huses.imp id fun ⟨hfallback, hin⟩ =>
      ⟨hfallback, hstep.inTree howned hlinked hlt hin⟩
  rcases halive.freed_cases hstep hfreed with ⟨hold, -⟩ | ⟨-, hput, hone⟩
  · have hlt := halive.freed_lt q hold
    by_cases hw : w' = w
    · subst hw
      intro huses
      have hobtained : (s'.thread w').pc.obtained = some q := by
        rcases huses with h | ⟨h, -⟩
        · exact Pc.obtained_of_qp h
        · rw [h]; rfl
      rcases hturn.obtained hobtained with hqp | ⟨-, -, hnew⟩
      · exact halive.unused q hold w' (.inl hqp)
      · obtain ⟨hin, hnull⟩ := hnew.resolve_left hlt.ne
        rcases halive.closed q hold with hout | htaken
        · exact hout ((hlinked.linked_iff q hlt).mp hin)
        · exact htaken _ hnull
    · exact fun huses => halive.unused q hold w' (hother hw hlt huses)
  · have hholding := holding_of_putAt hput
    have hlt := howned.lt_of_qp (Pc.qp_eq_some_iff.mpr (.inr hholding))
    by_cases hw : w' = w
    · subst hw
      rw [Uses, hturn.of_putAt hput]
      rintro (h | ⟨h, -⟩) <;> cases h
    · -- with one reference left nobody else holds one, the guard excludes the rest
      intro huses
      obtain ⟨hpending, hfallback⟩ := hguard.2 q hput w' hw
      rcases hother hw hlt huses with hqp | huses
      · rcases Pc.qp_eq_some_iff.mp hqp with h | h
        · exact hpending h
        · exact howned.not_holding_of_refCnt hholding hone hw h
      · exact hfallback huses

theorem Alive.step_closed (halive : Alive cfg s) (howned : Owned cfg s)
    (hphases : Phases cfg s) (hstep : Step cfg s w act s') (hfreed : s'.freed q ≠ 0) :
    s'.erased q ≠ 0 ∨ ∀ dir, (s'.heap q).qpDir dir ≠ .null := by
  rcases halive.freed_cases hstep hfreed with ⟨hold, -⟩ | ⟨-, hput, -⟩
  · have hlt := halive.freed_lt q hold
    have howned' := howned.step hstep
    refine (halive.closed q hold).imp hstep.erased_ne_zero fun htaken dir hnull => ?_
    rw [howned'.null_iff q dir (hlt.trans_le hstep.next_le)] at hnull
    have howners := (howned.null_iff q dir hlt).not.mp (htaken dir)
    obtain ⟨owner, howner⟩ := List.exists_mem_of_ne_nil _ howners
    have := hstep.owner_mono howner
    rw [hnull] at this
    cases this
  · have hlt := howned.lt_of_qp (Pc.qp_eq_some_iff.mpr (.inr (holding_of_putAt hput)))
    have hpaired : (s.thread w).pc.paired = some q →
        ∀ dir, (s'.heap q).qpDir dir ≠ .null := by
      intro hpaired dir hnull
      have hvalid := hstep.valid hlt (halive.paired w q hpaired dir)
      rw [hnull] at hvalid
      cases hvalid
    rcases putAt_eq_some hput with h | h | h
    · exact .inl (hstep.erased_ne_zero (hphases.expired w q h))
    · exact .inr (hpaired (by rw [h]; rfl))
    · exact .inr (hpaired (by rw [h]; rfl))

theorem Alive.step (halive : Alive cfg s) (howned : Owned cfg s)
    (hlinked : Linked cfg s) (hphases : Phases cfg s)
    (hguard : NoEarlyPut s (w, act)) (hstep : Step cfg s w act s') :
    Alive cfg s' where
  paired := fun _ _ hpc dir =>
    halive.step_paired howned hlinked hguard.1 hstep hpc dir
  freed_le := by
    intro q
    have hle := halive.freed_le q
    by_cases hfreed : s'.freed q = 0
    · omega
    · rcases halive.freed_cases hstep hfreed with ⟨-, heq⟩ | ⟨heq, -⟩ <;> omega
  freed_lt := by
    intro q hfreed
    refine lt_of_lt_of_le ?_ hstep.next_le
    rcases halive.freed_cases hstep hfreed with ⟨hold, -⟩ | ⟨-, hput, -⟩
    · exact halive.freed_lt q hold
    · exact howned.lt_of_qp (Pc.qp_eq_some_iff.mpr (.inr (holding_of_putAt hput)))
  unused := fun _ hfreed _ => halive.step_unused howned hlinked hguard hstep hfreed
  closed := fun _ hfreed => halive.step_closed howned hphases hstep hfreed

theorem alive_of_noEarlyPut
    (hreach : (rendezvous cfg).ReachableUnder (Keeping NoEarlyPut) s) : Alive cfg s := by
  refine hreach.invariant (P := Alive cfg) Alive.init ?_
  intro before label after hbefore halive hguard hnext
  have hkept := reachable_of_keeping hbefore
  exact halive.step (owned_of_reachable hkept) (linked_of_reachable hkept)
    (phases_of_reachable hkept) hguard.2 (step_of_next hguard.1 hnext)

end Step

instance [Fintype W] [DecidableEq W] (s : State W) (label : W × Act) :
    Decidable (NoEarlyPut s label) :=
  inferInstanceAs (Decidable (_ ∧ _))

/-- In every run that keeps its trees and has no early `put_qp`, no QP is used after it
was freed, and none is freed twice. -/
theorem qp_not_used_after_free [DecidableEq W] (cfg : Config W) (s : State W)
    (hreach : (rendezvous cfg).ReachableUnder (Keeping NoEarlyPut) s) :
    NoUseAfterFree s := by
  have halive := alive_of_noEarlyPut hreach
  exact fun q => ⟨halive.freed_le q, halive.unused q⟩

/-- A connection from the SYN to the last `put_qp`. -/
theorem qp_not_used_after_free_pair :
    ∃ s : State Dir, NoUseAfterFree s ∧ s.freed 0 = 1 := by
  let cfg := pairConfig .startNewConnectionSyn
  obtain ⟨s, hreach, hs⟩ := Machine.exists_reachable_of_run (rendezvous cfg)
    (Keeping NoEarlyPut)
    [(.tx, .start), (.tx, .insert 2 (oneQp 0)), (.rx, .start), (.rx, .insert 2 .nil),
      (.tx, .go), (.tx, .go), (.tx, .go), (.rx, .go), (.rx, .go),
      (.rx, .erase 2 fun _ => .nil), (.rx, .go), (.rx, .go), (.tx, .go), (.tx, .go),
      (.tx, .leave), (.rx, .leave)]
    (fun s => s.freed 0) 1 (by decide)
  exact ⟨s, qp_not_used_after_free cfg s hreach, hs⟩

/-- The RX side times out and frees the QP while the TX side is connecting. -/
theorem qp_stored_to_after_free :
    ∃ s, (rendezvous (pairConfig .startNewConnectionSyn)).Reachable s ∧
      ¬ NoUseAfterFree s := by
  let cfg := pairConfig .startNewConnectionSyn
  obtain ⟨s, hreach, hs⟩ := Machine.exists_reachable_of_run (rendezvous cfg)
    (fun _ _ => True)
    [(.rx, .start), (.rx, .insert 2 (oneQp 0)), (.rx, .go), (.rx, .go),
      (.tx, .start), (.tx, .insert 2 .nil), (.rx, .timeout),
      (.rx, .erase 2 fun _ => .nil), (.rx, .go)]
    (fun s => (s.freed 0, (s.thread .tx).pc)) (1, .connect 0) (by decide)
  simp only [Prod.mk.injEq] at hs
  refine ⟨s, hreach, fun hsafe => (hsafe 0).2 (by omega) .tx (.inl ?_)⟩
  rw [hs.2]
  rfl

end KtcpSplit.Rendezvous
