import KtcpSplit.Rendezvous.Listners
import KtcpSplit.Rendezvous.Removal
import KtcpSplit.Server.Connections

/-!
# Which listeners the workers use

Listeners have no reference count: QPs, probes and workers keep their address for as
long as a connection waits, and a removal does not look for them.  A listener must
therefore be unused when it is taken out of the tree; from then on nobody finds it.
-/

namespace KtcpSplit.Connections

open KtcpSplit.Listner
open KtcpSplit.SearchTree
open KtcpSplit.Transition

variable {W D K V P : Type*}

/-- No worker has the listener, no QP in a tree or with a worker does, and no probe. -/
structure Unused (s : State W D K V P) (l : ℕ) : Prop where
  listner : ∀ v, s.listner v ≠ some (some l)
  owned : ∀ v q, (s.conns.thread v).pc.qp = some q → (s.conns.heap q).listner.id ≠ l
  linked : ∀ i q, q ∈ inorder (s.conns.root i) → (s.conns.heap q).listner.id ≠ l
  probe : ∀ k, s.probes.packet k ≠ .probe l

structure Attended (s : State W D K V P) : Prop where
  notNull : s.nullListner = false
  unused : ∀ l, 0 < s.probes.servers.freed l → Unused s l

/-! ## The condition -/

/-- `Unused`, read off the workers and the trees of the listener. -/
def Idle (cfg : Config W D K V) (s : State W D K V P) (l : ℕ) : Prop :=
  (∀ v, s.listner v ≠ some (some l)) ∧
    (∀ v, ∀ q ∈ (s.conns.thread v).pc.qp, (s.conns.heap q).listner.id ≠ l) ∧
    (∀ v, ∀ cpu ∈ cfg.possibleCpus,
      inorder (s.conns.root (⟨l, (cfg.worker v).mark⟩, cpu)) = []) ∧
    ∀ k, s.probes.packet k ≠ .probe l

instance decidableIdle [Fintype V] [Fintype K] (cfg : Config W D K V) (s : State W D K V P)
    (l : ℕ) : Decidable (Idle cfg s l) :=
  -- over the list of CPUs, not over all of `BitVec 32`
  have (v : V) : Decidable (∀ cpu ∈ cfg.possibleCpus,
      inorder (s.conns.root (⟨l, (cfg.worker v).mark⟩, cpu)) = []) :=
    List.decidableBAll _ cfg.possibleCpus
  inferInstanceAs (Decidable (_ ∧ _ ∧ _ ∧ _))

/-- The listener that the next probe is made for. -/
def allocFor : Probes.PacketPc → Option ℕ
  | .alloc l => some l
  | _ => none

/-- A listener is erased when it is linked and nobody uses it, and given to no connection
or probe after that; a worker that does not check finds one.  Workers remove linked QPs. -/
def Careful (cfg : Config W D K V) (s : State W D K V P) : Label W D K V P → Prop
  | .probe (.server label) =>
      Server.EraseLinked s.probes.servers label ∧
        ∀ l ∈ s.probes.servers.erasing label.party, Idle cfg s l
  | .probe (.packet k act) =>
      act.isFail = false →
        ∀ l ∈ allocFor (s.probes.packet k), s.probes.servers.erased l = 0
  | .accept w _ => ∀ l ∈ s.probes.servers.server w, s.probes.servers.erased l = 0
  | .lookup v =>
      (s.conns.thread v).fn = .startNewConnectionSyn →
        searchRbListner s.probes.servers.root (cfg.worker v).mark ≠ none
  | .conn v act => Rendezvous.EraseLinked s.conns (v, act)
  | .pending _ => True

instance decidableCareful [Fintype V] [Fintype K] (cfg : Config W D K V)
    (s : State W D K V P) : (label : Label W D K V P) → Decidable (Careful cfg s label)
  | .probe (.server label) => inferInstanceAs (Decidable
      (Server.EraseLinked s.probes.servers label ∧
        ∀ l ∈ s.probes.servers.erasing label.party, Idle cfg s l))
  | .probe (.packet k act) => inferInstanceAs (Decidable (act.isFail = false →
      ∀ l ∈ allocFor (s.probes.packet k), s.probes.servers.erased l = 0))
  | .accept w _ => inferInstanceAs (Decidable
      (∀ l ∈ s.probes.servers.server w, s.probes.servers.erased l = 0))
  | .lookup v => inferInstanceAs (Decidable ((s.conns.thread v).fn = .startNewConnectionSyn →
      searchRbListner s.probes.servers.root (cfg.worker v).mark ≠ none))
  | .conn v act => inferInstanceAs (Decidable (Rendezvous.EraseLinked s.conns (v, act)))
  | .pending _ => isTrue trivial

/-! ## The invariant -/

/-- Where QPs are linked, and that no listener is used after `rb_erase`. -/
structure Inv (cfg : Config W D K V) (s : State W D K V P) : Prop where
  wf : Server.Wf s.probes.servers
  notNull : s.nullListner = false
  found : ∀ v, s.listner v ≠ some none
  root : ∀ i q, q ∈ inorder (s.conns.root i) →
    q < s.conns.next ∧ (s.conns.heap q).listner = i.1 ∧
      i.2 ∈ cfg.possibleCpus ∧ ∃ v, i.1.key = (cfg.worker v).mark
  qp : ∀ v q, (s.conns.thread v).pc.qp = some q → q < s.conns.next
  unused : ∀ l, 0 < s.probes.servers.erased l → Unused s l

variable {cfg : Config W D K V} {s s' : State W D K V P} {l : ℕ}

theorem Inv.attended (hinv : Inv cfg s) : Attended s where
  notNull := hinv.notNull
  unused := fun l hfreed => hinv.unused l (hinv.wf.erased_of_freed l hfreed)

theorem Inv.unused_of_idle (hinv : Inv cfg s) (hidle : Idle cfg s l) : Unused s l := by
  obtain ⟨hlistner, howned, hempty, hprobe⟩ := hidle
  refine ⟨hlistner, fun v q hpc => howned v q hpc, ?_, hprobe⟩
  rintro ⟨⟨id, key⟩, cpu⟩ q hmem heq
  obtain ⟨-, hlistner, hcpu, v, hkey⟩ := hinv.root _ q hmem
  rw [hlistner] at heq
  dsimp only at heq hkey hcpu
  rw [heq, hkey, hempty v cpu hcpu] at hmem
  exact List.not_mem_nil hmem

/-- The servers move and nothing is passed to `rb_erase`, or something unused is. -/
theorem Inv.of_servers (hinv : Inv cfg s) {servers' : Server.State W D}
    (hwf : Server.Wf servers')
    (herased : ∀ l, 0 < servers'.erased l → 0 < s.probes.servers.erased l ∨ Unused s l) :
    Inv cfg { s with probes := { s.probes with servers := servers' } } where
  wf := hwf
  notNull := hinv.notNull
  found := hinv.found
  root := hinv.root
  qp := hinv.qp
  unused := by
    intro l hpos
    have hunused : Unused s l := (herased l hpos).elim (hinv.unused l) id
    exact ⟨hunused.listner, hunused.owned, hunused.linked, hunused.probe⟩

/-! ### Servers and probes -/

section Servers

variable [DecidableEq W] [DecidableEq D] [DecidableEq K]

theorem Inv.step_server (hinv : Inv cfg s) {label : Server.Label W D}
    (hguard : Server.EraseLinked s.probes.servers label ∧
      ∀ l ∈ s.probes.servers.erasing label.party, Idle cfg s l)
    (hnext : stepProbe cfg s (.server label) = some s') : Inv cfg s' := by
  obtain ⟨probes', hprobes, rfl⟩ := Option.map_eq_some_iff.mp hnext
  obtain ⟨servers', hservers, rfl⟩ := Option.map_eq_some_iff.mp hprobes
  have heffect := Server.effect_of_next hguard.1 hservers
  refine hinv.of_servers (hinv.wf.step heffect) fun l hpos => ?_
  cases heffect.removal with
  | none _ _ _ herased => exact .inl (herased ▸ hpos)
  | free _ _ _ _ herased => exact .inl (herased ▸ hpos)
  | erase l' _ _ _ herased _ _ herasing =>
      by_cases hl : l = l'
      · subst hl
        exact .inr (hinv.unused_of_idle (hguard.2 l herasing))
      · rw [herased, Function.update_of_ne hl] at hpos
        exact .inl hpos

/-- A packet moves; the probe it becomes has a listener that was not erased. -/
theorem Inv.step_packet (hinv : Inv cfg s) {k : K} {act : Server.Act}
    (hguard : act.isFail = false →
      ∀ l ∈ allocFor (s.probes.packet k), s.probes.servers.erased l = 0)
    (hnext : stepProbe cfg s (.packet k act) = some s') : Inv cfg s' := by
  obtain ⟨probes', hprobes, rfl⟩ := Option.map_eq_some_iff.mp hnext
  obtain ⟨hservers, hprobe⟩ := Probes.stepPacket_cases hprobes
  refine ⟨hservers ▸ hinv.wf, hinv.notNull, hinv.found, hinv.root, hinv.qp, fun l hpos => ?_⟩
  dsimp only at hpos
  rw [hservers] at hpos
  have hunused := hinv.unused l hpos
  refine ⟨hunused.listner, hunused.owned, hunused.linked, fun k' hpc => ?_⟩
  rcases hprobe k' l hpc with h | ⟨halloc, rfl⟩
  · exact hunused.probe k' h
  · have hzero := hguard rfl l (by rw [halloc]; rfl)
    omega

end Servers

/-! ### Connections -/

section Workers

variable [DecidableEq V]

/-- A worker is given a listener that was not passed to `rb_erase`. -/
theorem Inv.setListner (hinv : Inv cfg s) (v : V) (herased : s.probes.servers.erased l = 0) :
    Inv cfg (s.setListner v (some (some l))) where
  wf := hinv.wf
  notNull := hinv.notNull
  found := by
    intro v' heq
    by_cases hv : v' = v
    · simp [State.setListner, hv] at heq
    · exact hinv.found v' (by simpa [State.setListner, hv] using heq)
  root := hinv.root
  qp := hinv.qp
  unused := by
    intro l' hpos
    have hunused := hinv.unused l' hpos
    refine ⟨fun v' heq => ?_, hunused.owned, hunused.linked, hunused.probe⟩
    by_cases hv : v' = v
    · simp only [State.setListner, hv, Function.update_self, Option.some.injEq] at heq
      subst heq
      exact absurd herased (Nat.ne_of_gt hpos)
    · exact hunused.listner v' (by simpa [State.setListner, hv] using heq)

/-- A worker goes to a statement at which it has no QP. -/
theorem Inv.setPc (hinv : Inv cfg s) (v : V) {pc : Rendezvous.Pc} (hpc : pc.qp = none) :
    Inv cfg (s.setPc v pc) := by
  have hqp : ∀ v' q, ((s.setPc v pc).conns.thread v').pc.qp = some q →
      (s.conns.thread v').pc.qp = some q := by
    intro v' q hq
    by_cases hv : v' = v
    · simp [State.setPc, Rendezvous.State.setThread, hv, hpc] at hq
    · simpa [State.setPc, Rendezvous.State.setThread, hv] using hq
  refine ⟨hinv.wf, hinv.notNull, hinv.found, hinv.root, fun v' q hq => hinv.qp v' q (hqp v' q hq),
    fun l hpos => ?_⟩
  have hunused := hinv.unused l hpos
  exact ⟨hunused.listner, fun v' q hq => hunused.owned v' q (hqp v' q hq), hunused.linked,
    hunused.probe⟩

/-- A search finds a listener of the tree. -/
theorem Inv.step_lookup (hinv : Inv cfg s) {v : V}
    (hguard : (s.conns.thread v).fn = .startNewConnectionSyn →
      searchRbListner s.probes.servers.root (cfg.worker v).mark ≠ none)
    (hnext : stepLookup cfg s v = some s') : Inv cfg s' := by
  unfold stepLookup at hnext
  dsimp only at hnext
  split at hnext
  · rename_i hlooks
    split at hnext
    · rename_i data hsearch
      cases hnext
      exact hinv.setListner v
        (hinv.wf.erased_of_linked _ ⟨data, (searchRbListner_sound hsearch).1, rfl⟩)
    · rename_i hsearch
      split at hnext <;> cases hnext
      · exact hinv.setPc v rfl
      · rename_i hfn
        refine absurd hsearch (hguard ?_)
        cases hthread : (s.conns.thread v).fn with
        | startNewConnectionSyn => rfl
        | startNewPreConnectionSyn => exact absurd hthread hfn
        | startNewConnection => rw [hthread] at hlooks; cases hlooks.1
  · cases hnext

/-- A worker brings the listener it has, and comes to QPs of its trees. -/
theorem Inv.step_rendezvous (hinv : Inv cfg s) {v : V} {act : Rendezvous.Act}
    (hinsert : ∀ cpu, act.insertCpu = some cpu →
      cpu ∈ cfg.possibleCpus ∧ ∃ l, s.listner v = some (some l))
    (hguard : Rendezvous.EraseLinked s.conns (v, act))
    (hnext : stepRendezvous cfg s v act = some s') : Inv cfg s' := by
  obtain ⟨conns', hconns, rfl⟩ := Option.map_eq_some_iff.mp hnext
  have hstep := Rendezvous.step_of_next hguard hconns
  have hlistner : ∀ q, q < s.conns.next →
      (conns'.heap q).listner = (s.conns.heap q).listner := fun q => hstep.listner_eq
  -- the listener of a new QP is used by the worker before the step
  have hnew : ∀ l cpu, act.insertCpu = some cpu →
      (((s.rendezvous cfg).worker v).listner).id = l → s.listner v = some (some l) := by
    rintro l cpu hact rfl
    obtain ⟨-, l, hfound⟩ := hinsert cpu hact
    simp [State.rendezvous, hfound]
  refine ⟨hinv.wf, hinv.notNull, fun v' heq => ?_, fun i q hmem => ?_, fun v' q hpc => ?_,
    fun l hpos => ⟨fun v' heq => ?_, fun v' q hpc => ?_, fun i q hmem => ?_,
      (hinv.unused l hpos).probe⟩⟩
  · by_cases hv : v' = v
    · simp [State.setListner, hv] at heq
    · exact hinv.found v' (by simpa [State.setListner, hv] using heq)
  · rcases hstep.mem_root_cases hmem with hold | ⟨cpu, hact, rfl, hnext', hlistner', rfl⟩
    · obtain ⟨hlt, heq, hv⟩ := hinv.root i q hold
      exact ⟨hlt.trans_le hstep.next_le, (hlistner q hlt).trans heq, hv⟩
    · exact ⟨by change s.conns.next < conns'.next; omega, hlistner', (hinsert cpu hact).1,
        v, rfl⟩
  · change q < conns'.next
    rcases hstep.qp_cases hpc with hold | ⟨cpu, -, hmem | ⟨rfl, hnext', -⟩⟩
    · exact (hinv.qp v' q hold).trans_le hstep.next_le
    · exact (hinv.root _ q hmem).1.trans_le hstep.next_le
    · omega
  · by_cases hv : v' = v
    · simp [State.setListner, hv] at heq
    · exact (hinv.unused l hpos).listner v' (by simpa [State.setListner, hv] using heq)
  · intro heq
    change (conns'.heap q).listner.id = l at heq
    rcases hstep.qp_cases hpc with hold | ⟨cpu, hact, hmem | ⟨rfl, -, hlistner'⟩⟩
    · rw [hlistner q (hinv.qp v' q hold)] at heq
      exact (hinv.unused l hpos).owned v' q hold heq
    · rw [hlistner q (hinv.root _ q hmem).1] at heq
      exact (hinv.unused l hpos).linked _ q hmem heq
    · rw [hlistner'] at heq
      exact (hinv.unused l hpos).listner v (hnew l cpu hact heq)
  · intro heq
    change (conns'.heap q).listner.id = l at heq
    rcases hstep.mem_root_cases hmem with hold | ⟨cpu, hact, rfl, -, hlistner', rfl⟩
    · rw [hlistner q (hinv.root i q hold).1] at heq
      exact (hinv.unused l hpos).linked i q hold heq
    · rw [hlistner'] at heq
      exact (hinv.unused l hpos).listner v (hnew l cpu hact heq)

theorem Inv.step_conn (hinv : Inv cfg s) {v : V} {act : Rendezvous.Act}
    (hguard : Rendezvous.EraseLinked s.conns (v, act))
    (hnext : stepConn cfg s v act = some s') : Inv cfg s' := by
  unfold stepConn at hnext
  split at hnext
  · split at hnext
    · cases hnext
    · exact hinv.step_rendezvous (fun _ h => by cases h) hguard hnext
  · split at hnext
    · exact hinv.step_rendezvous (fun _ h => by cases h) hguard hnext
    · cases hnext
  · split at hnext
    · rename_i l hfound
      obtain ⟨listner, hlistner, heq⟩ := Option.bind_eq_some_iff.mp hfound
      cases heq
      split at hnext
      · rename_i hpossible
        refine hinv.step_rendezvous (fun cpu hact => ?_) hguard hnext
        cases hact
        exact ⟨hpossible, l, hlistner⟩
      · cases hnext
    · rename_i hfound
      obtain ⟨listner, hlistner, heq⟩ := Option.bind_eq_some_iff.mp hfound
      cases heq
      exact absurd hlistner (hinv.found v)
    · cases hnext
  · rename_i hother
    refine hinv.step_rendezvous (fun _ h => ?_) hguard hnext
    cases act with
    | insert cpu root => exact absurd rfl (hother cpu root)
    | _ => cases h

variable [DecidableEq W] [DecidableEq D] [DecidableEq K]

theorem Inv.step_accept (hinv : Inv cfg s) {w : W} {v : V}
    (hguard : ∀ l ∈ s.probes.servers.server w, s.probes.servers.erased l = 0)
    (hnext : stepAccept cfg s w v = some s') : Inv cfg s' := by
  unfold stepAccept at hnext
  split at hnext
  · rename_i l hserver
    split at hnext
    · rename_i haccept
      obtain ⟨s₁, hprobe, rfl⟩ := Option.map_eq_some_iff.mp hnext
      have herasing : s.probes.servers.erasing (.inl w) = none := by
        rw [Server.State.erasing, if_neg (by rw [haccept.1]; exact Server.SplitPc.noConfusion)]
      have hlinked : Server.EraseLinked s.probes.servers (.split w .ok) := by
        intro l hl
        rw [Server.Label.party, herasing] at hl
        cases hl
      have hinv₁ : Inv cfg s₁ := by
        refine hinv.step_server ⟨hlinked, fun l hl => ?_⟩ hprobe
        rw [Server.Label.party, herasing] at hl
        cases hl
      have hkept : s₁.probes.servers.erased = s.probes.servers.erased := by
        obtain ⟨probes', hprobes, rfl⟩ := Option.map_eq_some_iff.mp hprobe
        obtain ⟨servers', hservers, rfl⟩ := Option.map_eq_some_iff.mp hprobes
        cases (Server.effect_of_next hlinked hservers).removal with
        | none _ _ _ h => exact h
        | free _ _ _ _ h => exact h
        | erase _ _ _ _ _ _ _ herase => cases herasing.symm.trans herase
      refine (hinv₁.setListner v ?_).setPc v rfl
      rw [hkept]
      exact hguard l (by rw [hserver]; rfl)
    · cases hnext
  · cases hnext

end Workers

theorem Inv.step_pending [DecidableEq P] (hinv : Inv cfg s) {p : P}
    (hnext : stepPending s p (s.pending p) = some s') : Inv cfg s' := by
  generalize s.pending p = pc at hnext
  unfold stepPending at hnext
  split at hnext <;> cases hnext
  · exact ⟨hinv.wf, hinv.notNull, hinv.found, hinv.root, hinv.qp, fun l hpos =>
      let h := hinv.unused l hpos
      ⟨h.listner, h.owned, h.linked, h.probe⟩⟩
  · refine ⟨hinv.wf, ?_, hinv.found, hinv.root, hinv.qp, fun l hpos =>
      let h := hinv.unused l hpos
      ⟨h.listner, h.owned, h.linked, h.probe⟩⟩
    simp [hinv.notNull, finConnectedQpDerefs]

/-! ## Runs -/

variable [DecidableEq W] [DecidableEq D] [DecidableEq K] [DecidableEq V] [DecidableEq P]

theorem Inv.init : Inv (P := P) cfg (connections cfg).init where
  wf := show Server.Wf (Server.servers cfg.probes.servers).init from Server.Wf.init
  notNull := rfl
  found := fun _ h => nomatch h
  root := fun _ _ h => absurd h List.not_mem_nil
  qp := fun _ _ h => nomatch h
  unused := fun _ h => absurd h (Nat.lt_irrefl 0)

/-- No worker meets a null listener, and a listener is freed when nobody uses it, as
long as the condition holds before every step. -/
theorem listners_attended (cfg : Config W D K V) (s : State W D K V P)
    (hreach : (connections cfg).ReachableUnder (Careful cfg) s) : Attended s := by
  have hinv : Inv cfg s := by
    refine hreach.invariant Inv.init ?_
    intro before label after _ hinv hguard hnext
    cases label with
    | probe label =>
        simp only [connections, Option.ite_none_left_eq_some] at hnext
        cases label with
        | server label => exact hinv.step_server hguard hnext.2
        | packet k act => exact hinv.step_packet hguard hnext.2
    | accept w v => exact hinv.step_accept hguard hnext
    | lookup v => exact hinv.step_lookup hguard hnext
    | conn v act => exact hinv.step_conn hguard hnext
    | pending p => exact hinv.step_pending hnext
  exact hinv.attended

/-- A server of tenant 7, a SYN, and the two workers of its connection. -/
def clientConfig : Config Bool Unit Unit Rendezvous.Dir where
  probes := Probes.synConfig
  worker := fun
    | .tx => ⟨.startNewConnectionSyn, Rendezvous.clientTuple, 7⟩
    | .rx => ⟨.startNewConnection, Rendezvous.clientTuple, 7⟩
  possibleCpus := [0, 1, 2, 3]

/-- The server is deleted after its probe was sent and its connection has ended. -/
theorem listners_attended_deleted :
    ∃ s : State Bool Unit Unit Rendezvous.Dir Unit,
      Attended s ∧ s.probes.servers.freed 0 = 1 ∧ s.conns.freed 0 = 1 := by
  obtain ⟨s, hreach, hs⟩ := Machine.exists_reachable_of_run
    (connections (P := Unit) clientConfig) (Careful clientConfig)
    [.probe (.server (.split false .ok)), .probe (.server (.split false (.slab 6))),
      .probe (.server (.split false (.tree (Server.oneListner 0)))),
      .probe (.server (.split false .ok)), .probe (.server (.split false .ok)),
      .probe (.server (.split false .ok)), .probe (.server (.split false .ok)),
      .probe (.server (.split false .ok)), .probe (.server (.split false .ok)),
      .probe (.packet () .ok), .probe (.packet () .ok), .probe (.packet () .ok),
      .conn .tx .start, .lookup .tx, .conn .tx (.insert 3 (Rendezvous.oneQp 0)),
      .accept false .rx, .conn .rx (.insert 3 .nil), .probe (.server (.split false .ok)),
      .conn .tx .go, .conn .tx .go, .conn .tx .go, .conn .rx .go, .conn .rx .go,
      .conn .rx (.erase 3 fun _ => .nil), .conn .rx .go, .conn .rx .go, .conn .tx .go,
      .conn .tx .go, .conn .tx .leave, .conn .rx .leave, .pending (), .pending (),
      .probe (.server (.remove () .ok)), .probe (.server (.remove () .ok)),
      .probe (.server (.remove () (.tree .nil))), .probe (.server (.remove () .ok))]
    (fun s => (s.probes.servers.freed 0, s.conns.freed 0)) (1, 1) (by decide +kernel)
  simp only [Prod.mk.injEq] at hs
  exact ⟨s, listners_attended clientConfig s hreach, hs⟩

/-- A marked packet of a tenant that has no server: the TX-side worker passes the null
pointer on to `qp_exists`. -/
theorem null_listner_dereferenced :
    ∃ s, (connections (P := Unit) clientConfig).Reachable s ∧ ¬ Attended s := by
  obtain ⟨s, hreach, hs⟩ := Machine.exists_reachable_of_run
    (connections (P := Unit) clientConfig) (fun _ _ => True)
    [.conn .tx .start, .lookup .tx, .conn .tx (.insert 3 .nil)]
    (fun s => s.nullListner) true (by decide +kernel)
  refine ⟨s, hreach, fun hattended => ?_⟩
  rw [hattended.notNull] at hs
  cases hs

end KtcpSplit.Connections
