import KtcpSplit.Rendezvous.Lifetime
import KtcpSplit.Rendezvous.Pairing

/-!
# Pending connections without a worker

A QP is inserted first and removed by whoever takes the second reference or
times out.  A worker that leaves before either lets the node stay, unless the
other side is still there to remove it.
-/

namespace KtcpSplit.Rendezvous

open KtcpSplit.ConnKey
open KtcpSplit.Listner
open KtcpSplit.SearchTree
open KtcpSplit.Transition

variable {W : Type*}

/-- The worker was started and has not ended. -/
def Pc.running : Pc → Bool
  | .idle => false
  | .done => false
  | .oops => false
  | _ => true

theorem Pc.running_of_qp {pc : Pc} {q : ℕ} (hpc : pc.qp = some q) :
    pc.running = true := by
  cases pc <;> first | rfl | cases hpc

/-- Every QP in a tree has a running worker of its key and its listener. -/
def NoStale (cfg : Config W) (s : State W) : Prop :=
  ∀ i q, q ∈ inorder (s.root i) → ∃ w, (s.thread w).pc.running = true ∧
    (cfg.worker w).tuple.key = (s.tupleOf q).key ∧ (cfg.worker w).listner = i.1

/-- The QP that the worker goes on to wait for or to remove. -/
def Pc.staying : Pc → Option ℕ
  | .check q => some q
  | .get q _ => some q
  | .fin q _ => some q
  | .wait q => some q
  | .expired q => some q
  | _ => none

theorem Pc.staying_eq_some {pc : Pc} {q : ℕ} (hpc : pc.staying = some q) :
    pc.pending = some q ∨ pc = .wait q ∨ pc.removing = some q := by
  cases pc <;> cases hpc
  · exact .inl rfl
  · exact .inl rfl
  · exact .inr (.inr rfl)
  · exact .inr (.inl rfl)
  · exact .inr (.inr rfl)

/-- The QP on which a step fails after `qp_exists`. -/
def failAt : Pc → Act → Option ℕ
  | .connect q, .fail => some q
  | _, _ => none

/-- The QP that a step leaves to `start_new_connection_syn`. -/
def fallbackAt : Pc → Act → Option ℕ
  | .forward q, .fail => some q
  | _, _ => none

/-- The QP on which a step's wait is interrupted. -/
def signalAt : Pc → Act → Option ℕ
  | .wait q, .signal => some q
  | _, _ => none

/-- No worker leaves a QP in the tree behind: a failed connect needs the other
side to stay, a failed `forward_conn_info` needs it to be removing the node, an
interrupted wait needs it to be there, and `put_qp` needs it to have taken its
reference, in the tree or out of it. -/
def NoDeserter (s : State W) (label : W × Act) : Prop :=
  let pc := (s.thread label.1).pc
  (∀ q ∈ failAt pc label.2, InTree s q →
    ∃ w, w ≠ label.1 ∧ (s.thread w).pc.staying = some q) ∧
  (∀ q ∈ fallbackAt pc label.2, InTree s q →
    ∃ w, (s.thread w).pc.removing = some q) ∧
  (∀ q ∈ signalAt pc label.2, InTree s q →
    ∃ w, w ≠ label.1 ∧ (s.thread w).pc.qp = some q) ∧
  ∀ q ∈ putAt pc label.2, ∀ w, (s.thread w).pc.pending ≠ some q

/-- No collision of keys and no deserter. -/
def Orderly (cfg : Config W) (s : State W) (label : W × Act) : Prop :=
  NoCollision cfg s label ∧ NoDeserter s label

instance [Fintype W] [DecidableEq W] (cfg : Config W) (s : State W)
    (label : W × Act) : Decidable (Orderly cfg s label) :=
  inferInstanceAs (Decidable (_ ∧ _ ∧ _ ∧ _ ∧ _))

/-- A worker is on its way to its reference, or waits without a peer. -/
def Awaited (cfg : Config W) (s : State W) (q : ℕ) : Prop :=
  (∃ w, (s.thread w).pc.pending = some q) ∨ ∃ w, (s.thread w).pc = .wait q ∧
    ((s.heap q).qpDir (cfg.dir w).peer).isErrOrNull = true

/-- Somebody will take the second reference or time out. -/
structure Attended (cfg : Config W) (s : State W) (q : ℕ) : Prop where
  awaited : Awaited cfg s q
  one_held : ∀ dir, s.held q dir = true → s.held q dir.peer = false
  /-- A worker that left without its reference left no socket. -/
  gone : ∀ dir, ((s.heap q).qpDir dir).isErrOrNull = false →
    s.held q dir = true ∨ ∃ w, (s.thread w).pc.pending = some q ∧ cfg.dir w = dir

/-- What holds of a QP that is still linked. -/
def Tended (cfg : Config W) (s : State W) (q : ℕ) : Prop :=
  (∃ w, (s.thread w).pc.removing = some q) ∨ Attended cfg s q

variable {cfg : Config W} {s s' : State W} {w w' : W} {act : Act} {q : ℕ}

/-- What a step may not do to a node that is linked. -/
structure Orderly.Keeps (s : State W) (w : W) (act : Act) (q : ℕ) :
    Prop where
  connect : (s.thread w).pc = .connect q → act = .fail →
    ∃ w', w' ≠ w ∧ (s.thread w').pc.staying = some q
  forward : (s.thread w).pc = .forward q → act = .fail →
    ∃ w', (s.thread w').pc.removing = some q
  signal : (s.thread w).pc = .wait q → act = .signal →
    ∃ w', w' ≠ w ∧ (s.thread w').pc.qp = some q
  put : putAt (s.thread w).pc act = some q → ∀ w', (s.thread w').pc.pending ≠ some q

theorem NoDeserter.keeps (hguard : NoDeserter s (w, act)) (hin : InTree s q) :
    Orderly.Keeps s w act q where
  connect := fun hpc hact => hguard.1 q (by rw [hpc, hact]; rfl) hin
  forward := fun hpc hact => hguard.2.1 q (by rw [hpc, hact]; rfl) hin
  signal := fun hpc hact => hguard.2.2.1 q (by rw [hpc, hact]; rfl) hin
  put := fun hput => hguard.2.2.2 q hput

/-- No reference on an attended node is dropped. -/
theorem Attended.not_put (hattended : Attended cfg s q) (howned : Owned cfg s)
    (hkeeps : Orderly.Keeps s w act q) : putAt (s.thread w).pc act ≠ some q := by
  intro hput
  have hholding := holding_of_putAt hput
  rcases hattended.awaited with ⟨w', hpending⟩ | ⟨w', hwait, -⟩
  · exact hkeeps.put hput w' hpending
  · have hne : w' ≠ w := by
      rintro rfl
      rcases putAt_eq_some hput with hpc | hpc | hpc <;> rw [hpc] at hwait <;>
        cases hwait
    have hheld := howned.held_of_holding w q hholding
    have hheld' := howned.held_of_holding w' q (by rw [hwait]; rfl)
    rw [howned.dir_eq_peer (Pc.qp_eq_some_iff.mpr (.inr hholding))
      (by rw [hwait]; rfl) hne, hattended.one_held _ hheld] at hheld'
    cases hheld'

/-- A peer with a socket and no reference has not taken it yet. -/
theorem Attended.peer_pending (hattended : Attended cfg s q)
    (hvalid : ((s.heap q).qpDir (cfg.dir w).peer).isErrOrNull = false)
    (hfree : s.held q (cfg.dir w).peer = false) :
    ∃ w', w' ≠ w ∧ (s.thread w').pc.pending = some q := by
  rcases hattended.gone _ hvalid with hheld | ⟨w', hpending, hdir⟩
  · rw [hfree] at hheld
    cases hheld
  · refine ⟨w', ?_, hpending⟩
    rintro rfl
    exact absurd hdir.symm (Dir.peer_ne _)

/-! ## Steps -/

section Step

variable [DecidableEq W]

/-- The worker that a new QP is linked for has not taken its reference. -/
theorem Tended.fresh (howned : Owned cfg s) (hstep : Step cfg s w act s')
    (hold : s.next ≤ q) (hnew : q < s'.next) : Tended cfg s' q := by
  have hheld : ∀ dir, s'.held q dir = false := by
    intro dir
    have hfree : s.held q dir = false := by
      by_contra hheld
      obtain ⟨owner, howner⟩ := List.exists_mem_of_ne_nil _
        (howned.owner_of_held q dir (by simpa using hheld))
      exact absurd (howned.owners_lt _ _ _ howner) (by omega)
    rw [hstep.held_eq howned, hfree]
    split
    · rename_i hget
      obtain ⟨⟨waits, hpc⟩, -⟩ := getAt_eq_some hget.1
      exact absurd (howned.lt_of_qp (w := w) (q := q) (by rw [hpc]; rfl)) (by omega)
    · split <;> rfl
  cases hstep with
  | link hthread hpc hadd hcolor =>
      rename_i fn pc cpu root linked
      have hfn := howned.fn_dir w
      rw [hthread] at hfn
      obtain rfl : q = s.next := by
        simp only [State.setThread, State.link] at hnew
        omega
      refine .inr ⟨.inl ⟨w, ?_⟩, fun dir hheld' => ?_, fun dir hvalid => .inr ⟨w, ?_, ?_⟩⟩
      · rw [State.setThread_self]
        exact pending_proceed ..
      · rw [hheld dir] at hheld'
        cases hheld'
      · rw [State.setThread_self]
        exact pending_proceed ..
      · by_contra hdir
        have hnull := (cfg.pqp_eq_null_iff (w := w) fn dir).mpr (by
          rintro rfl
          exact hdir hfn.symm)
        simp only [State.setThread, State.link, State.setQp,
          Function.update_self, hnull] at hvalid
        cases hvalid
  | erase _ _ herase =>
      exact absurd hnew hold.not_gt
  | _ => exact absurd hnew hold.not_gt

/-- A socket appears on a QP while its worker has not taken its reference. -/
theorem pending_of_new_socket (howned : Owned cfg s) (hlinked : Linked cfg s)
    (hstep : Step cfg s w act s') (hlt : q < s.next) {dir : Dir}
    (hinvalid : ((s.heap q).qpDir dir).isErrOrNull = true)
    (hvalid : ((s'.heap q).qpDir dir).isErrOrNull = false) :
    cfg.dir w = dir ∧ (s'.thread w).pc.pending = some q := by
  have hturn := hstep.turn howned hlinked
  rcases hstep.qpDir_cases howned hlinked hlt dir with hsame | ⟨rfl, hstore | hclaims⟩
  · rw [hsame, hinvalid] at hvalid
    cases hvalid
  · exact ⟨rfl, by rw [hturn.of_storeAt hstore]; rfl⟩
  · exact ⟨rfl, by rw [hclaims.proceeds]; exact pending_proceed ..⟩

theorem Attended.step_one_held (hattended : Attended cfg s q) (howned : Owned cfg s)
    (hlinked : Linked cfg s) (hstep : Step cfg s w act s')
    (hnot : (s'.thread w).pc.removing ≠ some q) (dir : Dir)
    (hheld : s'.held q dir = true) : s'.held q dir.peer = false := by
  have hfrom : ∀ {dir}, s'.held q dir = true → s.held q dir = true ∨
      getAt (s.thread w).pc act = some q ∧ dir = cfg.dir w := by
    intro dir hafter
    rw [hstep.held_eq howned] at hafter
    split at hafter
    · rename_i hget
      exact .inr hget
    · split at hafter
      · cases hafter
      · exact .inl hafter
  -- the first reference is taken while nobody holds one
  have hfirst : getAt (s.thread w).pc act = some q →
      s.held q (cfg.dir w).peer ≠ true := by
    intro hget hpeer
    obtain ⟨waits, hpc, hafter⟩ := (hstep.turn howned hlinked).of_getAt hget
    have hcount := howned.refCnt_of_pending (w := w) (q := q) (by rw [hpc]; rfl)
    rw [hpeer] at hcount
    rcases hafter with ⟨-, hfin⟩ | ⟨hone, -⟩
    · exact hnot (by rw [hfin]; rfl)
    · exact hone hcount
  by_contra hpeer
  rw [Bool.not_eq_false] at hpeer
  rcases hfrom hheld with hold | ⟨hget, rfl⟩
  · rcases hfrom hpeer with hold' | ⟨hget, hdir⟩
    · rw [hattended.one_held dir hold] at hold'
      cases hold'
    · apply hfirst hget
      rw [← hdir, Dir.peer_peer]
      exact hold
  · rcases hfrom hpeer with hold' | ⟨-, hdir⟩
    · exact hfirst hget hold'
    · exact Dir.peer_ne _ hdir

theorem Attended.step_gone (hattended : Attended cfg s q) (howned : Owned cfg s)
    (hlinked : Linked cfg s) (hphases : Phases cfg s) (hlt : q < s.next)
    (hkeeps : Orderly.Keeps s w act q) (hstep : Step cfg s w act s')
    (hnone : ∀ w', (s.thread w').pc.removing ≠ some q) (dir : Dir)
    (hvalid : ((s'.heap q).qpDir dir).isErrOrNull = false) :
    s'.held q dir = true ∨ ∃ w', (s'.thread w').pc.pending = some q ∧ cfg.dir w' = dir := by
  have hturn := hstep.turn howned hlinked
  by_cases hold : ((s.heap q).qpDir dir).isErrOrNull = false
  swap
  · obtain ⟨hdir, hpending⟩ := pending_of_new_socket howned hlinked hstep hlt
      (by simpa using hold) hvalid
    exact .inr ⟨w, hpending, hdir⟩
  rcases hattended.gone dir hold with hheld | ⟨w', hpending, hdir⟩
  · refine .inl ?_
    rw [hstep.held_eq howned, hheld]
    split
    · rfl
    · rw [if_neg fun h => hattended.not_put howned hkeeps h.1]
  · by_cases hw : w' = w
    · subst hw
      rcases hturn.of_pending hpending with h | hget | ⟨hpc, -⟩ | ⟨hpc, hact⟩
      · exact .inr ⟨w', h, hdir⟩
      · refine .inl ?_
        rw [hstep.held_eq howned, if_pos ⟨hget, hdir.symm⟩]
      · have hinvalid := hphases.connecting w' q hpc
        rw [hdir, hold] at hinvalid
        cases hinvalid
      · obtain ⟨w₂, hremoving⟩ := hkeeps.forward hpc hact
        exact absurd hremoving (hnone w₂)
    · exact .inr ⟨w', by rw [hstep.thread_ne hw]; exact hpending, hdir⟩

/-- A worker that waits goes on waiting until the other side is about to take
its reference. -/
theorem waiting_after (howned : Owned cfg s) (hlinked : Linked cfg s)
    (hlt : q < s.next) (hstep : Step cfg s w act s') (hne : w' ≠ w)
    (hwait : (s.thread w').pc = .wait q)
    (hpeer : ((s.heap q).qpDir (cfg.dir w').peer).isErrOrNull = true) :
    Awaited cfg s' q := by
  by_cases hafter : ((s'.heap q).qpDir (cfg.dir w').peer).isErrOrNull = true
  · exact .inr ⟨w', by rw [hstep.thread_ne hne]; exact hwait, hafter⟩
  · obtain ⟨-, hpending⟩ := pending_of_new_socket howned hlinked hstep hlt hpeer
      (by simpa using hafter)
    exact .inl ⟨w, hpending⟩

theorem Attended.step_awaited (hattended : Attended cfg s q) (howned : Owned cfg s)
    (hlinked : Linked cfg s) (hphases : Phases cfg s) (hlt : q < s.next)
    (hkeeps : Orderly.Keeps s w act q) (hstep : Step cfg s w act s')
    (hnone : ∀ w', (s.thread w').pc.removing ≠ some q)
    (hnot : (s'.thread w).pc.removing ≠ some q) :
    Awaited cfg s' q := by
  have hturn := hstep.turn howned hlinked
  have hpendingOther : ∀ w', w' ≠ w → (s.thread w').pc.pending = some q →
      Awaited cfg s' q :=
    fun w' hw h => .inl ⟨w', by rw [hstep.thread_ne hw]; exact h⟩
  rcases hattended.awaited with ⟨w', hpending⟩ | ⟨w', hwait, hpeer⟩
  · by_cases hw : w' = w
    swap
    · exact hpendingOther w' hw hpending
    subst hw
    have hqp := Pc.qp_eq_some_iff.mpr (.inl hpending)
    rcases hturn.of_pending hpending with h | hget | ⟨hpc, hact⟩ | ⟨hpc, hact⟩
    · exact .inl ⟨w', h⟩
    · -- the first reference: the worker waits unless its peer is behind it
      obtain ⟨waits, hpc, ⟨-, hfin⟩ | ⟨hone, hafter⟩⟩ := hturn.of_getAt hget
      · exact absurd (by rw [hfin]; rfl) hnot
      have hfree : s.held q (cfg.dir w').peer = false := by
        rw [howned.refCnt_of_pending hpending] at hone
        cases hheld : s.held q (cfg.dir w').peer <;> simp_all
      cases hpeer : ((s.heap q).qpDir (cfg.dir w').peer).isErrOrNull
      · obtain ⟨w₂, hne, h₂⟩ := hattended.peer_pending hpeer hfree
        exact hpendingOther w₂ hne h₂
      · have hwaits : waits = true := by
          by_contra hfalse
          rw [Bool.not_eq_true] at hfalse
          rw [hphases.sure w' q (hfalse ▸ hpc)] at hpeer
          cases hpeer
        subst hwaits
        refine .inr ⟨w', hafter, ?_⟩
        by_contra hvalid
        obtain ⟨hdir, -⟩ := pending_of_new_socket howned hlinked hstep hlt hpeer
          (by simpa using hvalid)
        exact absurd hdir.symm (Dir.peer_ne _)
    · -- a failed connect: the other side is on its way to a timeout
      obtain ⟨w₂, hne, hstaying⟩ := hkeeps.connect hpc hact
      have hstay := Pc.staying_eq_some hstaying
      rcases hstay with h | h | h
      · exact hpendingOther w₂ hne h
      · have hqp₂ : (s.thread w₂).pc.qp = some q := by rw [h]; rfl
        refine waiting_after howned hlinked hlt hstep hne h ?_
        rw [howned.dir_eq_peer hqp hqp₂ hne, Dir.peer_peer]
        exact hphases.connecting w' q hpc
      · exact absurd h (hnone w₂)
    · obtain ⟨w₂, hremoving⟩ := hkeeps.forward hpc hact
      exact absurd hremoving (hnone w₂)
  · by_cases hw : w' = w
    swap
    · exact waiting_after howned hlinked hlt hstep hw hwait hpeer
    subst hw
    have hqp : (s.thread w').pc.qp = some q := by rw [hwait]; rfl
    rcases hturn.of_wait hwait with hexpired | hsignal | hvalid
    · exact absurd (by rw [hexpired]; rfl) hnot
    · -- an interrupted wait: the other side has not taken its reference
      obtain ⟨w₂, hne, hqp₂⟩ := hkeeps.signal hwait hsignal
      rcases Pc.qp_eq_some_iff.mp hqp₂ with h | h
      · exact hpendingOther w₂ hne h
      · have hheld := howned.held_of_holding w' q (by rw [hwait]; rfl)
        have hheld' := howned.held_of_holding w₂ q h
        rw [howned.dir_eq_peer hqp hqp₂ hne, hattended.one_held _ hheld] at hheld'
        cases hheld'
    · rw [howned.fn_dir, hpeer] at hvalid
      cases hvalid

theorem Tended.step (htended : s.erased q = 0 → Tended cfg s q) (howned : Owned cfg s)
    (hlinked : Linked cfg s) (hphases : Phases cfg s) (hlt : q < s.next)
    (hguard : NoDeserter s (w, act)) (hstep : Step cfg s w act s')
    (herased : s'.erased q = 0) : Tended cfg s' q := by
  have heq := hstep.erased_eq q
  have hbefore : s.erased q = 0 := by omega
  have hnotBefore : (s.thread w).pc.removing ≠ some q := by
    intro hremoving
    rw [if_pos hremoving] at heq
    omega
  by_cases hnot : (s'.thread w).pc.removing = some q
  · exact .inl ⟨w, hnot⟩
  by_cases hremoving : ∃ w', (s.thread w').pc.removing = some q
  · obtain ⟨w', h⟩ := hremoving
    have hne : w' ≠ w := by
      rintro rfl
      exact hnotBefore h
    exact .inl ⟨w', by rw [hstep.thread_ne hne]; exact h⟩
  have hnone := not_exists.mp hremoving
  have hattended := (htended hbefore).resolve_left hremoving
  have hkeeps := hguard.keeps ((hlinked.linked_iff q hlt).mpr hbefore)
  exact .inr
    { awaited := hattended.step_awaited howned hlinked hphases hlt hkeeps hstep hnone hnot
      one_held := hattended.step_one_held howned hlinked hstep hnot
      gone := hattended.step_gone howned hlinked hphases hlt hkeeps hstep hnone }

theorem tended_of_orderly
    (hreach : (rendezvous cfg).ReachableUnder (Keeping (Orderly cfg)) s) :
    ∀ q, q < s.next → s.erased q = 0 → Tended cfg s q := by
  refine hreach.invariant
    (P := fun s => ∀ q, q < s.next → s.erased q = 0 → Tended cfg s q) ?init ?step
  case init =>
    intro q hlt
    exact absurd hlt (Nat.not_lt_zero q)
  case step =>
    intro before label after hbefore htended hguard hnext q hlt herased
    have hkept := reachable_of_keeping hbefore
    have howned := owned_of_reachable hkept
    have hstep := step_of_next hguard.1 hnext
    by_cases hold : q < before.next
    · exact Tended.step (htended q hold) howned (linked_of_reachable hkept)
        (phases_of_reachable hkept) hold hguard.2.2 hstep herased
    · exact Tended.fresh howned hstep (by omega) hlt

/-- Every linked QP has a worker of its key on it. -/
theorem exists_worker_of_mem
    (hreach : (rendezvous cfg).ReachableUnder (Keeping (Orderly cfg)) s)
    {i : CbnListner × BitVec 32} (hmem : q ∈ inorder (s.root i)) :
    ∃ w, (s.thread w).pc.qp = some q ∧ (cfg.worker w).tuple = s.tupleOf q ∧
      (cfg.worker w).listner = i.1 := by
  have howned := owned_of_reachable (reachable_of_keeping hreach)
  have hlinked := linked_of_reachable (reachable_of_keeping hreach)
  have hpaired := paired_of_noCollision
    (hreach.mono fun _ _ horderly => ⟨horderly.1, horderly.2.1⟩)
  obtain ⟨w, hqp⟩ : ∃ w, (s.thread w).pc.qp = some q := by
    rcases tended_of_orderly hreach q (howned.root_lt i q hmem)
      (hlinked.erased_eq_zero howned hmem) with ⟨w, hremoving⟩ | hattended
    · exact ⟨w, Pc.qp_eq_some_iff.mpr (.inr (Pc.holding_of_removing hremoving))⟩
    · rcases hattended.awaited with ⟨w, hpending⟩ | ⟨w, hwait, -⟩
      · exact ⟨w, Pc.qp_eq_some_iff.mpr (.inl hpending)⟩
      · exact ⟨w, by rw [hwait]; rfl⟩
  have howner := howned.owner_of_qp hqp
  refine ⟨w, hqp, hpaired w q _ howner, ?_⟩
  rw [hlinked.owner_listner w q _ howner, hlinked.home i q hmem]
  rfl

end Step

/-- In every run that keeps its trees, without a collision and without a deserter, a QP
in a tree has a running worker of its key, so a worker that has the key for itself is
not rejected. -/
theorem no_stale_pending [DecidableEq W] (cfg : Config W) (s : State W)
    (hreach : (rendezvous cfg).ReachableUnder (Keeping (Orderly cfg)) s) :
    NoStale cfg s ∧ ∀ w, (s.thread w).pc = .enter →
      (∀ w', w' ≠ w → (cfg.worker w').tuple.key = (cfg.worker w).tuple.key →
        (s.thread w').pc.running = false) →
      ∀ cpu root, NoCollision cfg s (w, .insert cpu root) →
        ∀ q, addPqp cfg s w (s.thread w).fn cpu ≠ .duplicate q := by
  have howned := owned_of_reachable (reachable_of_keeping hreach)
  have hlinked := linked_of_reachable (reachable_of_keeping hreach)
  constructor
  · intro i q hmem
    obtain ⟨w, hqp, htuple, hlistner⟩ := exists_worker_of_mem hreach hmem
    exact ⟨w, Pc.running_of_qp hqp, congrArg _ htuple, hlistner⟩
  · intro w henter halone cpu root hcollision q hadd
    obtain ⟨hmem, hkey⟩ := (addPqp_eq_duplicate_iff howned hlinked).mp hadd
    obtain ⟨w', hqp, htuple, -⟩ := exists_worker_of_mem hreach hmem
    have hsame : s.tupleOf q = (cfg.worker w).tuple := hcollision cpu rfl q hmem hkey
    have hne : w' ≠ w := by
      rintro rfl
      rw [henter] at hqp
      cases hqp
    have hdone := halone w' hne (by rw [htuple, hsame])
    rw [Pc.running_of_qp hqp] at hdone
    cases hdone

/-- A connection from the SYN to its end; the tree is empty again. -/
theorem no_stale_pending_pair :
    ∃ s : State Dir, NoStale (pairConfig .startNewConnectionSyn) s ∧
      ((s.thread .tx).pc, (s.thread .rx).pc, s.next) = (.done, .done, 1) := by
  let cfg := pairConfig .startNewConnectionSyn
  obtain ⟨s, hreach, hs⟩ := Machine.exists_reachable_of_run (rendezvous cfg)
    (Keeping (Orderly cfg))
    [(.tx, .start), (.tx, .insert 2 (oneQp 0)), (.rx, .start), (.rx, .insert 2 .nil),
      (.tx, .go), (.tx, .go), (.tx, .go), (.rx, .go), (.rx, .go),
      (.rx, .erase 2 fun _ => .nil), (.rx, .go), (.rx, .go), (.tx, .go), (.tx, .go),
      (.tx, .leave), (.rx, .leave)]
    (fun s => ((s.thread .tx).pc, (s.thread .rx).pc, s.next)) (.done, .done, 1)
    (by decide)
  exact ⟨s, (no_stale_pending cfg s hreach).1, hs⟩

/-- The destination refuses the connection, and the QP stays in the tree. -/
theorem pending_left_behind :
    ∃ s, (rendezvous (pairConfig .startNewConnectionSyn)).Reachable s ∧
      ¬ NoStale (pairConfig .startNewConnectionSyn) s := by
  let cfg := pairConfig .startNewConnectionSyn
  obtain ⟨s, hreach, hs⟩ := Machine.exists_reachable_of_run (rendezvous cfg)
    (fun _ _ => True)
    [(.tx, .start), (.tx, .insert 2 (oneQp 0)), (.tx, .fail)]
    (fun s => (s.root (⟨0, 7⟩, 2), (s.thread .tx).pc, (s.thread .rx).pc))
    (oneQp 0, .done, .idle) (by decide)
  simp only [Prod.mk.injEq] at hs
  refine ⟨s, hreach, fun hnone => ?_⟩
  obtain ⟨w, hrunning, -⟩ := hnone (⟨0, 7⟩, 2) 0 (by rw [hs.1]; decide)
  cases w
  · rw [hs.2.1] at hrunning
    cases hrunning
  · rw [hs.2.2] at hrunning
    cases hrunning

end KtcpSplit.Rendezvous
