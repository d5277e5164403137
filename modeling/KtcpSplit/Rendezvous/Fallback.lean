import KtcpSplit.Rendezvous.Pairing
import KtcpSplit.Rendezvous.Frames

/-!
# Falling back to a new connection

`start_new_pre_connection_syn` takes the TX direction of a QP with a
pre-connected socket.  If the send on that socket fails, it calls
`start_new_connection_syn`, which runs `qp_exists` a second time for the same
client while the first QP is still in the tree with its TX direction taken.
-/

namespace KtcpSplit.Rendezvous

open KtcpSplit.ConnKey
open KtcpSplit.RbData
open KtcpSplit.SearchTree
open KtcpSplit.Transition

variable {W : Type*}

/-! ## The failed socket -/

/-- The QP whose TX direction the worker took with a pre-connected socket. -/
def Pc.preConnected : Pc → Option ℕ
  | .forward q => some q
  | .fallback q => some q
  | _ => none

theorem Pc.obtained_of_preConnected {pc : Pc} {q : ℕ}
    (hpc : pc.preConnected = some q) : pc.obtained = some q := by
  cases pc <;> first | exact hpc | cases hpc

/-- What holds of a worker from its `qp_exists` to the end of the fallback. -/
structure Offered (cfg : Config W) (s : State W) : Prop where
  fn : ∀ w q, (s.thread w).pc = .fallback q → (s.thread w).fn = .startNewConnectionSyn
  tx : ∀ w q, (s.thread w).pc.preConnected = some q →
    (s.heap q).qpDir .tx = .sock w .startNewPreConnectionSyn
  key : ∀ w q, (s.thread w).pc.preConnected = some q →
    cString rbKeyLength (cfg.worker w).tuple.key = cString rbKeyLength (s.tupleOf q).key
  /-- Only an RX-side worker takes the QP out of the tree. -/
  peer : ∀ w q, (s.thread w).pc.preConnected = some q → ¬InTree s q →
    s.owners q .rx ≠ []

variable [DecidableEq W] {cfg : Config W} {s s' : State W} {w : W} {act : Act} {q : ℕ}

/-- How a worker comes to hold a pre-connected socket of `q`. -/
inductive Offers (cfg : Config W) (s s' : State W) (w : W) (q : ℕ) : Prop
  | fails (hforward : (s.thread w).pc = .forward q)
      (hafter : s' = s.setThread w ⟨.startNewConnectionSyn, .fallback q⟩)
  | obtains (hafter : s'.thread w = ⟨.startNewPreConnectionSyn, .forward q⟩)
      (htx : (s'.heap q).qpDir .tx = .sock w .startNewPreConnectionSyn)
      (hkey : cString rbKeyLength (cfg.worker w).tuple.key =
        cString rbKeyLength (s'.tupleOf q).key)
      (hin : InTree s' q)

theorem offers_of_proceed {fn : Fn} {q' : ℕ}
    (hpc : (fn.proceed q').preConnected = some q) :
    fn = .startNewPreConnectionSyn ∧ q' = q := by
  cases fn <;> simp_all [Fn.proceed, Pc.preConnected]

theorem Step.offers (howned : Owned cfg s) (hlinked : Linked cfg s)
    (hstep : Step cfg s w act s') (hpc : (s'.thread w).pc.preConnected = some q) :
    Offers cfg s s' w q := by
  have hlinked' := hlinked.step howned hstep
  cases hstep with
  | move hmove =>
      rw [State.setThread_self] at hpc
      generalize hbefore : s.thread w = before at hmove
      cases hmove with
      | forwardFail =>
          cases hpc
          exact .fails (by rw [hbefore]) rfl
      | rejected hinsert hadd hdir =>
          rename_i fn _ _ _ _
          cases fn <;> cases hpc
      | _ => cases hpc
  | join hthread _ hadd hdir =>
      rename_i fn _ _ _ q'
      rw [State.setThread_self] at hpc
      obtain ⟨rfl, rfl⟩ := offers_of_proceed hpc
      obtain ⟨hmem, hkey⟩ := (addPqp_eq_duplicate_iff howned hlinked).mp hadd
      refine .obtains (State.setThread_self ..) ?_ ?_ (hlinked'.inTree hmem)
      · simp [State.setThread, State.join, State.store, State.setQp, Fn.dir, Config.pqp]
      · simpa [State.tupleOf, State.setThread, State.join, State.store, State.setQp]
          using hkey
  | link hthread _ hadd hcolor =>
      rename_i _ _ cpu _ _ _
      rw [State.setThread_self] at hpc
      obtain ⟨rfl, rfl⟩ := offers_of_proceed hpc
      have hmem := (mem_of_addRbData_linked hadd hcolor s.next).mpr (.inl rfl)
      refine .obtains (State.setThread_self ..) ?_ ?_
        (hlinked'.inTree (i := connectionsRoot cpu (cfg.pqp w .startNewPreConnectionSyn)) ?_)
      · simp [State.setThread, State.link, State.setQp, Config.pqp]
      · simp [State.tupleOf, State.setThread, State.link, State.setQp, Config.pqp]
      · simpa [State.setThread, State.link] using hmem
  | store _ =>
      rw [State.setThread_self] at hpc
      cases hpc
  | get hthread =>
      rename_i fn q' waits
      rw [State.setThread_self] at hpc
      dsimp only at hpc
      split at hpc
      · cases hpc
      · cases waits <;> cases hpc
  | erase hthread herasing herase =>
      rw [State.setThread_self] at hpc
      cases herasing with
      | fin =>
          rename_i waits
          cases waits <;> cases hpc
      | expired => cases hpc
  | put _ _ =>
      rw [State.setThread_self] at hpc
      cases hpc

theorem Offered.init : Offered cfg (rendezvous cfg).init := by
  constructor <;> simp [rendezvous, Pc.preConnected]

omit [DecidableEq W] in
theorem Offered.dir_eq_tx (hoffered : Offered cfg s) (howned : Owned cfg s)
    (hpc : (s.thread w).pc.preConnected = some q) : cfg.dir w = .tx := by
  cases hthread : (s.thread w).pc <;> rw [hthread] at hpc <;> cases hpc
  · rw [← howned.fn_dir, hoffered.fn w q hthread]
    rfl
  · exact howned.tx_side w q (.inr hthread)

/-- What other workers do leaves the offer as it is. -/
theorem Offered.step_other (hoffered : Offered cfg s) (howned : Owned cfg s)
    (hlinked : Linked cfg s) (hstep : Step cfg s w act s') {w' : W} (hne : w' ≠ w)
    (hpc : (s.thread w').pc.preConnected = some q) :
    (s'.heap q).qpDir .tx = .sock w' .startNewPreConnectionSyn ∧
      s'.tupleOf q = s.tupleOf q ∧ (¬InTree s' q → s'.owners q .rx ≠ []) := by
  have howner := howned.owner w' q (Pc.obtained_of_preConnected hpc)
  have htx := hoffered.dir_eq_tx howned hpc
  have hlt := howned.owners_lt _ _ _ howner
  rw [htx] at howner
  refine ⟨?_, hstep.tupleOf hlt, fun hout => ?_⟩
  · rw [hstep.qpDir_of_owner howned hlinked howner hne]
    exact hoffered.tx w' q hpc
  · by_cases hin : InTree s q
    · -- This step erases `q`, so its worker holds `q`, and not for the TX side.
      have herasing := hstep.removing_of_inTree howned hlinked hin hout
      have howner' := howned.owner_of_qp (Pc.qp_eq_some_iff.mpr
        (.inr (Pc.holding_of_removing herasing)))
      have hrx : cfg.dir w = .rx := by
        by_contra hrx
        have hsame : cfg.dir w = .tx := by cases h : cfg.dir w <;> simp_all
        rw [hsame] at howner'
        exact hne (howned.eq_of_owner howner' howner)
      rw [hrx] at howner'
      exact List.ne_nil_of_mem (hstep.owner_mono howner')
    · obtain ⟨w'', hw''⟩ := List.exists_mem_of_ne_nil _ (hoffered.peer w' q hpc hin)
      exact List.ne_nil_of_mem (hstep.owner_mono hw'')

theorem Offered.step (hoffered : Offered cfg s) (howned : Owned cfg s)
    (hlinked : Linked cfg s) (hstep : Step cfg s w act s') : Offered cfg s' := by
  constructor
  case fn =>
    intro w' q' hpc
    by_cases hw : w' = w
    · subst hw
      cases hstep.offers howned hlinked (q := q') (by rw [hpc]; rfl) with
      | fails _ hafter => rw [hafter, State.setThread_self]
      | obtains hafter _ _ _ =>
          rw [hafter] at hpc
          cases hpc
    · rw [hstep.thread_ne hw] at hpc ⊢
      exact hoffered.fn w' q' hpc
  case tx =>
    intro w' q' hpc
    by_cases hw : w' = w
    · subst hw
      cases hstep.offers howned hlinked hpc with
      | fails hforward hafter =>
          rw [hafter]
          exact hoffered.tx w' q' (by rw [hforward]; rfl)
      | obtains _ htx _ _ => exact htx
    · rw [hstep.thread_ne hw] at hpc
      exact (hoffered.step_other howned hlinked hstep hw hpc).1
  case key =>
    intro w' q' hpc
    by_cases hw : w' = w
    · subst hw
      cases hstep.offers howned hlinked hpc with
      | fails hforward hafter =>
          rw [hafter]
          exact hoffered.key w' q' (by rw [hforward]; rfl)
      | obtains _ _ hkey _ => exact hkey
    · rw [hstep.thread_ne hw] at hpc
      rw [(hoffered.step_other howned hlinked hstep hw hpc).2.1]
      exact hoffered.key w' q' hpc
  case peer =>
    intro w' q' hpc hout
    by_cases hw : w' = w
    · subst hw
      cases hstep.offers howned hlinked hpc with
      | fails hforward hafter =>
          rw [hafter] at hout ⊢
          exact hoffered.peer w' q' (by rw [hforward]; rfl) hout
      | obtains _ _ _ hin => exact absurd hin hout
    · rw [hstep.thread_ne hw] at hpc
      exact (hoffered.step_other howned hlinked hstep hw hpc).2.2 hout

theorem offered_of_reachable (hreach : (rendezvous cfg).ReachableUnder EraseLinked s) :
    Offered cfg s :=
  hreach.invariant (P := Offered cfg) Offered.init
    fun _ _ _ hbefore hoffered hguard hnext =>
      hoffered.step (owned_of_reachable hbefore) (linked_of_reachable hbefore)
        (step_of_next hguard hnext)

/-! ## The second `qp_exists` -/

/-- The fallback goes on to connect a new socket, and the failed one is not the
TX socket of the QP that it connects for. -/
def FallbackWorks (s' : State W) (w : W) : Prop :=
  ∃ q, (s'.thread w).pc = .connect q ∧
    (s'.heap q).qpDir .tx ≠ .sock w .startNewPreConnectionSyn

/-- The first QP is not in the tree of the CPU, and no other one that the client's
key leads to there has a TX-side worker. -/
def Vacated (cfg : Config W) (s : State W) (w : W) (q : ℕ) (cpu : BitVec 32) : Prop :=
  let i := connectionsRoot cpu (cfg.pqp w .startNewConnectionSyn)
  q ∉ inorder (s.root i) ∧ ∀ q' ∈ inorder (s.root i),
    cString rbKeyLength (cfg.worker w).tuple.key =
        cString rbKeyLength (s.tupleOf q').key →
      (s.heap q').qpDir .tx = .null

instance decidableVacated (cfg : Config W) (s : State W) (w : W) (q : ℕ)
    (cpu : BitVec 32) : Decidable (Vacated cfg s w q cpu) :=
  inferInstanceAs (Decidable (_ ∧ ∀ q' ∈ _, _))

/-- `qp_exists` of the fallback, by what `add_rb_data` found. -/
theorem fallback_cases (hthread : s.thread w = ⟨.startNewConnectionSyn, .fallback q⟩)
    {cpu : BitVec 32} {root : BinaryTree ℕ} (hstep : Step cfg s w (.insert cpu root) s') :
    (∃ q', addPqp cfg s w .startNewConnectionSyn cpu = .duplicate q' ∧
      (s.heap q').qpDir .tx ≠ .null ∧ (s'.thread w).pc = .done ∧ s'.heap = s.heap) ∨
    ∃ q', (∀ q'', addPqp cfg s w .startNewConnectionSyn cpu = .duplicate q'' →
        q'' = q' ∧ (s.heap q'').qpDir .tx = .null) ∧
      (s'.thread w).pc = .connect q' ∧ (s'.heap q').qpDir .tx = .einval := by
  cases hstep with
  | move hmove =>
      rw [hthread] at hmove
      cases hmove with
      | rejected _ hadd hdir => exact .inl ⟨_, hadd, hdir, by rw [State.setThread_self]; rfl, rfl⟩
  | join hthread' _ hadd hdir =>
      rw [hthread] at hthread'
      cases hthread'
      refine .inr ⟨_, fun q'' hadd' => ?_, by rw [State.setThread_self]; rfl, ?_⟩
      · rw [hadd] at hadd'
        cases hadd'
        exact ⟨rfl, hdir⟩
      · simp [State.setThread, State.join, State.store, State.setQp, Config.pqp, Fn.dir]
  | link hthread' _ hadd _ =>
      rw [hthread] at hthread'
      cases hthread'
      refine .inr ⟨_, fun q'' hadd' => ?_, by rw [State.setThread_self]; rfl, ?_⟩
      · rw [hadd] at hadd'
        cases hadd'
      · simp [State.setThread, State.link, State.setQp, Config.pqp]
  | put hthread' hpc =>
      rw [hthread] at hthread'
      cases hthread'
      cases hpc

/-- The fallback works if and only if the first QP is not in the tree that it searches
and the client's place there is free on the TX side.  On the CPU that linked the
first QP this means that an RX-side worker took it out of the tree in the meantime.
The first QP keeps the failed socket in any case. -/
theorem fallback_works_iff (cfg : Config W) (s s' : State W)
    (hreach : (rendezvous cfg).ReachableUnder EraseLinked s) (w : W) (q : ℕ)
    (cpu : BitVec 32) (root : BinaryTree ℕ) (hfallback : (s.thread w).pc = .fallback q)
    (hnext : (rendezvous cfg).next s (w, .insert cpu root) = some s') :
    (FallbackWorks s' w ↔ Vacated cfg s w q cpu) ∧
      (Vacated cfg s w q cpu → cpu = s.cpuOf q → s.owners q .rx ≠ []) ∧
      (s'.heap q).qpDir .tx = .sock w .startNewPreConnectionSyn := by
  have howned := owned_of_reachable hreach
  have hlinked := linked_of_reachable hreach
  have hoffered := offered_of_reachable hreach
  have hpre : (s.thread w).pc.preConnected = some q := by rw [hfallback]; rfl
  have hthread : s.thread w = ⟨.startNewConnectionSyn, .fallback q⟩ := by
    rw [← hfallback, ← hoffered.fn w q hfallback]
  have hduplicate : ∀ {q'},
      addPqp cfg s w .startNewConnectionSyn cpu = .duplicate q' ↔ _ :=
    addPqp_eq_duplicate_iff howned hlinked
  have hstep := step_of_next (eraseLinked_of_none rfl) hnext
  have howner := howned.owner w q (Pc.obtained_of_preConnected hpre)
  have hlt := howned.owners_lt _ _ _ howner
  refine ⟨⟨?_, ?_⟩, ?_, ?_⟩
  · rintro ⟨q', hconnect, -⟩
    rcases fallback_cases hthread hstep with
      ⟨-, -, -, hdone, -⟩ | ⟨_, hfree, -, -⟩
    · rw [hdone] at hconnect
      cases hconnect
    · have hnull : ∀ q'' ∈ inorder (s.root
          (connectionsRoot cpu (cfg.pqp w .startNewConnectionSyn))),
          cString rbKeyLength (cfg.worker w).tuple.key =
            cString rbKeyLength (s.tupleOf q'').key → (s.heap q'').qpDir .tx = .null :=
        fun q'' hmem hkey => (hfree q'' (hduplicate.mpr ⟨hmem, hkey⟩)).2
      refine ⟨fun hmem => ?_, hnull⟩
      -- The first QP is where the search of the second `qp_exists` ends.
      have htaken := hnull q hmem (hoffered.key w q hpre)
      rw [hoffered.tx w q hpre] at htaken
      cases htaken
  · rintro ⟨-, hnull⟩
    rcases fallback_cases hthread hstep with
      ⟨q', hadd, htaken, -, -⟩ | ⟨q', -, hconnect, heinval⟩
    · obtain ⟨hmem, hkey⟩ := hduplicate.mp hadd
      exact absurd (hnull q' hmem hkey) htaken
    · exact ⟨q', hconnect, by rw [heinval]; exact fun h => by cases h⟩
  · rintro ⟨hout, -⟩ rfl
    refine hoffered.peer w q hpre fun hin => hout ?_
    rw [connectionsRoot]
    rwa [InTree, State.home, connectionsRoot, ← hlinked.owner_listner w q _ howner] at hin
  · have htx := hoffered.tx w q hpre
    rcases hstep.qpDir_cases howned hlinked hlt .tx with
      hsame | ⟨-, hstore | hclaims⟩
    · rw [hsame, htx]
    · rw [hfallback] at hstore
      cases hstore
    · have hnull := (hclaims.new.resolve_left hlt.ne).2
      rw [hthread, Fn.dir, htx] at hnull
      cases hnull

/-- An RX-side worker times out, the pre-connected TX side joins its QP before the
QP is removed, and the send fails: the fallback links a QP of its own. -/
theorem fallback_works_iff_expired :
    ∃ s' : State Dir, FallbackWorks s' .tx ∧ (s'.thread .tx).pc = .connect 1 := by
  let cfg := pairConfig .startNewPreConnectionSyn
  obtain ⟨s, hreach, hs⟩ := Machine.exists_reachable_of_run (rendezvous cfg)
    EraseLinked
    [(.rx, .start), (.rx, .insert 2 (oneQp 0)), (.rx, .go), (.rx, .go), (.rx, .timeout),
      (.tx, .start), (.tx, .insert 2 .nil), (.tx, .fail), (.rx, .erase 2 fun _ => .nil)]
    (fun s => ((s.thread .tx).pc, decide (Vacated cfg s .tx 0 2),
      ((rendezvous cfg).next s (.tx, .insert 2 (oneQp 1))).map
        fun s' => (s'.thread .tx).pc))
    (.fallback 0, true, some (.connect 1)) (by decide)
  simp only [Prod.mk.injEq, decide_eq_true_eq] at hs
  obtain ⟨hpc, hvacated, hnext⟩ := hs
  obtain ⟨s', hs', hconnect⟩ := Option.map_eq_some_iff.mp hnext
  exact ⟨s', (fallback_works_iff cfg s s' hreach .tx 0 2 (oneQp 1) hpc hs').1.mpr hvacated,
    hconnect⟩

/-- Without an RX-side worker, the fallback ends as a double SYN. -/
theorem fallback_rejected :
    ¬∀ (cfg : Config Dir) (s s' : State Dir), (rendezvous cfg).Reachable s →
      ∀ w q cpu root, (s.thread w).pc = .fallback q →
        (rendezvous cfg).next s (w, .insert cpu root) = some s' → FallbackWorks s' w := by
  intro hworks
  let cfg := pairConfig .startNewPreConnectionSyn
  obtain ⟨s, hreach, hs⟩ := Machine.exists_reachable_of_run (rendezvous cfg)
    (fun _ _ => True)
    [(.tx, .start), (.tx, .insert 2 (oneQp 0)), (.tx, .fail)]
    (fun s => ((s.thread .tx).pc, ((rendezvous cfg).next s (.tx, .insert 2 .nil)).map
      fun s' => (s'.thread .tx).pc))
    (.fallback 0, some .done) (by decide)
  simp only [Prod.mk.injEq] at hs
  obtain ⟨hpc, hnext⟩ := hs
  obtain ⟨s', hs', hdone⟩ := Option.map_eq_some_iff.mp hnext
  obtain ⟨q', hconnect, -⟩ := hworks cfg s s' hreach .tx 0 2 .nil hpc hs'
  rw [hdone] at hconnect
  cases hconnect

end KtcpSplit.Rendezvous
