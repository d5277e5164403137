import KtcpSplit.Server.Listners

/-!
# Registration and removal of listeners

The search before the registration is not repeated, the result of the insertion is
dropped, and a `del_server_cb` command removes a listener without a word to its thread.
So a run has to avoid that two threads of a tenant pass the search together, and that
a listener is deleted while its thread is going to use it.
-/

namespace KtcpSplit.Server

open KtcpSplit.Listner
open KtcpSplit.SearchTree
open KtcpSplit.Transition

variable {W D : Type*}

namespace State

/-- The thread passed registration and has not exited. -/
def Live (s : State W D) (w : W) : Prop := s.server w ≠ none ∧ s.pc w ≠ .over

instance decidableLive (s : State W D) (w : W) : Decidable (s.Live w) :=
  inferInstanceAs (Decidable (s.server w ≠ none ∧ s.pc w ≠ .over))

/-- The listener that a party has passed to `rb_erase` and not to `kmem_cache_free`. -/
def freeing (s : State W D) : W ⊕ D → Option ℕ
  | .inl w => if s.pc w = .free then s.server w else none
  | .inr d => (s.remover d).freeing

end State

structure Exclusive (cfg : Config W D) (s : State W D) : Prop where
  alone : ∀ w w', s.Live w → s.Live w' → cfg.mark w = cfg.mark w' → w = w'
  /-- A registered listener is linked until it is removed, once. -/
  removed : ∀ w l, s.server w = some l →
    s.Linked l ∧ s.erased l = 0 ∧ s.freed l = 0 ∨
      ¬ s.Linked l ∧ s.erased l = 1 ∧
        (s.freed l = 0 ∧ (∃ p, s.freeing p = some l) ∨ s.freed l = 1)
  linked : ∀ l, s.stray l = false
  untouched : ∀ l, s.late l = false

/-- A listener is added when the tenant has none and no thread; a thread that is told to
stop still has its listener; a listener is deleted once, and while its thread accepts
or is on its way out. -/
def Orderly (cfg : Config W D) (s : State W D) : Label W D → Prop
  | .split w act =>
      ((s.pc w).adding ≠ none →
        searchRbListner s.root (cfg.mark w) = none ∧
          ∀ w', s.Live w' → cfg.mark w' ≠ cfg.mark w) ∧
      (s.pc w = .test → act.isFail = true → ∀ l ∈ s.server w, s.erased l = 0)
  | .remove d _ =>
      ∀ l ∈ (s.remover d).erasing,
        s.Linked l ∧ ∀ w, s.server w = some l → (s.pc w).quiet = true

instance decidableOrderly [Fintype W] (cfg : Config W D) (s : State W D) :
    (label : Label W D) → Decidable (Orderly cfg s label)
  | .split w act => inferInstanceAs (Decidable (((s.pc w).adding ≠ none →
        searchRbListner s.root (cfg.mark w) = none ∧
          ∀ w', s.Live w' → cfg.mark w' ≠ cfg.mark w) ∧
      (s.pc w = .test → act.isFail = true → ∀ l ∈ s.server w, s.erased l = 0)))
  | .remove d _ => inferInstanceAs (Decidable (∀ l ∈ (s.remover d).erasing,
        s.Linked l ∧ ∀ w, s.server w = some l → (s.pc w).quiet = true))

/-! ## The life of a listener -/

/-- A listener is linked, passed to `rb_erase` by one party, and freed by it. -/
inductive Phase (s : State W D) (l : ℕ) : Prop
  | linked (hlinked : s.Linked l) (herased : s.erased l = 0) (hfreed : s.freed l = 0)
      (hfreeing : ∀ p, s.freeing p ≠ some l)
  | erased (p : W ⊕ D) (hlinked : ¬ s.Linked l) (herased : s.erased l = 1)
      (hfreed : s.freed l = 0) (hfreeing : ∀ q, s.freeing q = some l ↔ q = p)
  | freed (hlinked : ¬ s.Linked l) (herased : s.erased l = 1) (hfreed : s.freed l = 1)
      (hfreeing : ∀ p, s.freeing p ≠ some l)

/-- What a party does about listeners in one step. -/
inductive Removal (s s' : State W D) (p : W ⊕ D) : Prop
  | none (hfreeing : s.freeing p = none) (hfreeing' : s'.freeing p = none)
      (hlinked : ∀ l, s.Linked l → s'.Linked l) (herased : s'.erased = s.erased)
      (hfreed : s'.freed = s.freed) (hstray : s'.stray = s.stray)
  | erase (l : ℕ) (hfreeing : s.freeing p = none) (hfreeing' : s'.freeing p = some l)
      (hlinked : ∀ l', s'.Linked l' ↔ s.Linked l' ∧ l' ≠ l)
      (herased : s'.erased = Function.update s.erased l (s.erased l + 1))
      (hfreed : s'.freed = s.freed) (hstray : s'.stray = s.stray)
      (herasing : s.erasing p = some l) (hbefore : s.Linked l)
  | free (l : ℕ) (hfreeing : s.freeing p = some l) (hfreeing' : s'.freeing p = none)
      (hlinked : ∀ l', s'.Linked l' ↔ s.Linked l') (herased : s'.erased = s.erased)
      (hfreed : s'.freed = Function.update s.freed l (s.freed l + 1))
      (hstray : s'.stray = s.stray)

variable {cfg : Config W D} {s s' : State W D} {w w' : W} {l : ℕ} {label : Label W D}

theorem freeing_of_pc (hpc : s.pc w ≠ .free) : s.freeing (.inl w) = none := if_neg hpc

/-- The listener that a party is about to free was passed to `rb_erase`. -/
theorem Wf.erased_of_party (hwf : Wf s) {p : W ⊕ D} (hfreeing : s.freeing p = some l) :
    0 < s.erased l := by
  cases p with
  | inl w =>
      rw [State.freeing] at hfreeing
      split at hfreeing
      · rename_i hpc
        exact hwf.erased_of_freeing w l hfreeing hpc
      · cases hfreeing
  | inr d => exact hwf.erased_of_remover d l hfreeing

/-- Nobody has done anything to a listener that is about to be added. -/
theorem Wf.fresh_of_add (hwf : Wf s) (hpc : s.pc w = .add l) :
    s.erased l = 0 ∧ s.freed l = 0 ∧ ∀ p, s.freeing p ≠ some l := by
  have herased := hwf.erased_eq_zero_of_add hpc
  refine ⟨herased, ?_, fun p hfreeing => ?_⟩
  · by_contra hfreed
    have hpos := hwf.erased_of_freed l (by omega)
    omega
  · have hpos := hwf.erased_of_party hfreeing
    omega

theorem linked_mono_of_add {root : BinaryTree CbnListner} {data : CbnListner}
    (hroot : (∃ this, addRbListner s.root data = .duplicate this) ∧ root = s.root ∨
      ∃ linked, addRbListner s.root data = .linked linked ∧ inorder root = inorder linked)
    {this : CbnListner} (hmem : this ∈ inorder s.root) : this ∈ inorder root := by
  rcases hroot with ⟨-, rfl⟩ | ⟨linked, hadd, heq⟩
  · exact hmem
  · rw [heq]
    exact (mem_inorder_of_linked hadd this).mpr (.inr hmem)

/-! ## Steps -/

variable [DecidableEq W] [DecidableEq D]

theorem Effect.freeing_other (heffect : Effect cfg s label s') {q : W ⊕ D}
    (hq : q ≠ label.party) : s'.freeing q = s.freeing q := by
  cases q with
  | inl w =>
      obtain ⟨hpc, hserver⟩ := heffect.thread_ne (w := w) fun act heq => hq (heq ▸ rfl)
      rw [State.freeing, State.freeing, hpc, hserver]
  | inr d =>
      have hupdate : ∀ d' (pc : RemovePc), label.party = .inr d' →
          Function.update s.remover d' pc d = s.remover d := by
        intro d' pc hparty
        exact Function.update_of_ne (fun heq : d = d' => hq (by rw [heq, hparty])) _ _
      cases heffect with
      | remove d' act sock pc' => exact congrArg RemovePc.freeing (hupdate d' pc' rfl)
      | removeErase d' act => exact congrArg RemovePc.freeing (hupdate d' _ rfl)
      | removeFree d' act l pc' => exact congrArg RemovePc.freeing (hupdate d' pc' rfl)
      | _ => rfl

/-- A step is a step of the life of one listener at most. -/
theorem Effect.removal (heffect : Effect cfg s label s') : Removal s s' label.party := by
  cases heffect with
  | move w act pc' hmoves =>
      have hspec := moves_spec hmoves
      refine .none (freeing_of_pc hspec.notFree) (freeing_of_pc ?_) (fun _ h => h) rfl rfl rfl
      simpa [State.setPc] using hspec.free
  | alloc w status hpc =>
      exact .none (freeing_of_pc (by simp [hpc])) (freeing_of_pc (by simp [State.setPc]))
        (fun _ h => h) rfl rfl rfl
  | add w l root hpc hroot act =>
      refine .none (freeing_of_pc (by simp [hpc])) (freeing_of_pc (by simp [State.setPc]))
        ?_ rfl rfl rfl
      rintro l' ⟨data, hmem, rfl⟩
      exact ⟨data, linked_mono_of_add hroot hmem, rfl⟩
  | access w act l fields sock pc' hserver hpc hquiet hpc' =>
      refine .none (freeing_of_pc hpc.2.1) (freeing_of_pc ?_) (fun _ h => h) rfl rfl rfl
      simpa [State.setPc] using hpc'.2.1
  | erase w act l root hserver hpc hlinked hroot =>
      refine .erase l (freeing_of_pc (by simp [hpc])) ?_ (linked_unlink hroot) rfl rfl rfl ?_
        hlinked
      · simpa [State.freeing, State.setPc, State.unlink, Label.party] using hserver
      · simpa [State.erasing, Label.party, hpc] using hserver
  | free w act l hserver hpc =>
      refine .free l ?_ (freeing_of_pc (by simp [State.setPc])) (fun _ => Iff.rfl) rfl rfl rfl
      simpa [State.freeing, Label.party, hpc] using hserver
  | out w act sock hpc =>
      exact .none (freeing_of_pc (by simp [hpc])) (freeing_of_pc (by simp [State.setPc]))
        (fun _ h => h) rfl rfl rfl
  | remove d act sock pc' hfree hfree' htarget =>
      refine .none hfree ?_ (fun _ h => h) rfl rfl rfl
      simpa [State.freeing, State.setRemover, Label.party] using hfree'
  | removeErase d act l root hpc hlinked hroot =>
      refine .erase l ?_ ?_ (linked_unlink hroot) rfl rfl rfl ?_ hlinked
      · simp [State.freeing, Label.party, hpc, RemovePc.freeing]
      · simp [State.freeing, Label.party, State.setRemover, RemovePc.freeing]
      · simp [State.erasing, Label.party, hpc, RemovePc.erasing]
  | removeFree d act l pc' hpc hpc' =>
      refine .free l ?_ ?_ (fun _ => Iff.rfl) rfl rfl rfl
      · simp [State.freeing, Label.party, hpc, RemovePc.freeing]
      · simp only [State.freeing, Label.party, State.setRemover, Function.update_self]
        cases pc' <;> first | rfl | cases hpc'

/-! ## The invariant -/

/-- The thread of a listener that was removed only waits to exit. -/
structure Inv (cfg : Config W D) (s : State W D) : Prop where
  alone : ∀ w w', s.Live w → s.Live w' → cfg.mark w = cfg.mark w' → w = w'
  phase : ∀ w l, s.server w = some l → Phase s l
  quiet : ∀ w l, s.server w = some l →
    s.erased l = 0 ∨ (s.pc w).quiet = true ∨ s.pc w = .free
  linked : ∀ l, s.stray l = false
  untouched : ∀ l, s.late l = false

omit [DecidableEq W] [DecidableEq D] in
theorem Inv.exclusive (hinv : Inv cfg s) : Exclusive cfg s where
  alone := hinv.alone
  removed := by
    intro w l hserver
    cases hinv.phase w l hserver with
    | linked hlinked herased hfreed => exact .inl ⟨hlinked, herased, hfreed⟩
    | erased p hlinked herased hfreed hfreeing =>
        exact .inr ⟨hlinked, herased, .inl ⟨hfreed, p, (hfreeing p).mpr rfl⟩⟩
    | freed hlinked herased hfreed => exact .inr ⟨hlinked, herased, .inr hfreed⟩
  linked := hinv.linked
  untouched := hinv.untouched

omit [DecidableEq W] [DecidableEq D] in
theorem Inv.init [DecidableEq W] [DecidableEq D] : Inv cfg (servers cfg).init := by
  constructor <;> simp [servers, State.Live]

omit [DecidableEq W] [DecidableEq D] in
/-- `rb_erase` is run on linked listeners: a party that comes to it has not been
preceded by another. -/
theorem Inv.eraseLinked (hinv : Inv cfg s) (hguard : Orderly cfg s label) :
    EraseLinked s label := by
  intro l herasing
  cases label with
  | split w act =>
      obtain ⟨hpc, hserver⟩ : s.pc w = .erase ∧ s.server w = some l := by
        simpa [Label.party, State.erasing] using herasing
      have herased : s.erased l = 0 := by
        rcases hinv.quiet w l hserver with h | h | h
        · exact h
        · rw [hpc] at h
          cases h
        · rw [hpc] at h
          cases h
      cases hinv.phase w l hserver with
      | linked hlinked => exact hlinked
      | erased p _ hone => omega
      | freed _ hone => omega
  | remove d act => exact (hguard l herasing).1

/-! ### Phases -/

omit [DecidableEq W] [DecidableEq D] in
theorem Phase.of_eq (hphase : Phase s l) (hlinked : s'.Linked l ↔ s.Linked l)
    (herased : s'.erased l = s.erased l) (hfreed : s'.freed l = s.freed l)
    (hfreeing : ∀ p, s'.freeing p = some l ↔ s.freeing p = some l) : Phase s' l := by
  cases hphase with
  | linked h h₁ h₂ h₃ =>
      exact .linked (hlinked.mpr h) (herased.trans h₁) (hfreed.trans h₂)
        fun p hp => h₃ p ((hfreeing p).mp hp)
  | erased p h h₁ h₂ h₃ =>
      exact .erased p (fun hl => h (hlinked.mp hl)) (herased.trans h₁) (hfreed.trans h₂)
        fun q => (hfreeing q).trans (h₃ q)
  | freed h h₁ h₂ h₃ =>
      exact .freed (fun hl => h (hlinked.mp hl)) (herased.trans h₁) (hfreed.trans h₂)
        fun p hp => h₃ p ((hfreeing p).mp hp)

/-- The thread that obtains a listener makes the step. -/
theorem Effect.label_of_add (heffect : Effect cfg s label s') (hwf : Wf s)
    (hpc : s.pc w = .add l) (hserver : s'.server w = some l) :
    ∃ act, label = .split w act := by
  by_contra hne
  have heq := (heffect.thread_ne fun act h => hne ⟨act, h⟩).2
  rw [hwf.early w (by rw [hpc]; rfl), hserver] at heq
  cases heq

/-- A listener that is registered while its mark is free starts its life linked. -/
theorem Effect.phase_of_add (heffect : Effect cfg s label s') (hwf : Wf s)
    (hguard : Orderly cfg s label) (hpc : s.pc w = .add l) (hserver : s'.server w = some l) :
    Phase s' l ∧ s'.erased l = 0 := by
  obtain ⟨herased, hfreed, hfreeing⟩ := hwf.fresh_of_add hpc
  obtain ⟨act, rfl⟩ := heffect.label_of_add hwf hpc hserver
  have hsearch := (hguard.1 (by rw [hpc]; exact Option.some_ne_none l)).1
  have hother := fun q => heffect.freeing_other (q := q)
  cases heffect with
  | add _ l' root hpc' hroot =>
      obtain rfl : l = l' := by cases hpc.symm.trans hpc'; rfl
      refine ⟨.linked ?_ herased hfreed fun p hp => ?_, herased⟩
      · rcases hroot with ⟨⟨this, hadd⟩, -⟩ | ⟨linked, hadd, heq⟩
        · cases hsearch.symm.trans (insert_eq_duplicate_iff.mp hadd)
        · refine ⟨⟨l, cfg.mark w⟩, ?_, rfl⟩
          rw [heq]
          exact (mem_inorder_of_linked hadd _).mpr (.inl rfl)
      · by_cases hw : p = .inl w
        · subst hw
          simp [State.freeing, State.setPc] at hp
        · exact hfreeing p ((hother p hw) ▸ hp)
  | move _ _ pc' hmoves =>
      have hnot := (moves_spec hmoves).notAdding
      rw [hpc] at hnot
      cases hnot
  | alloc _ _ hpc' => cases hpc.symm.trans hpc'
  | access _ _ l' fields sock pc' _ hlate => rw [hpc] at hlate; cases hlate.1
  | erase _ _ l' root _ hpc' => cases hpc.symm.trans hpc'
  | free _ _ l' _ hpc' => cases hpc.symm.trans hpc'
  | out _ _ sock hpc' => cases hpc.symm.trans hpc'

theorem Inv.step_phase (hinv : Inv cfg s) (hwf : Wf s)
    (heffect : Effect cfg s label s') (hserver : s.server w = some l) : Phase s' l := by
  have hphase := hinv.phase w l hserver
  have hlinkedBack : s'.Linked l → s.Linked l := by
    intro hlinked
    rcases heffect.linked_cases hlinked with h | ⟨w', hpc, -⟩
    · exact h
    · have heq := hwf.held_inj w w' l (hwf.held_of_server hserver) (held_of_add hpc)
      subst heq
      cases (hwf.early w' (by rw [hpc]; rfl)).symm.trans hserver
  -- the party of the step has nothing to do with `l` before and after
  have hsame : ∀ {l₁ l₂ : Option ℕ}, s.freeing label.party = l₁ →
      s'.freeing label.party = l₂ → l₁ ≠ some l → l₂ ≠ some l →
      ∀ p, s'.freeing p = some l ↔ s.freeing p = some l := by
    intro l₁ l₂ hbefore hafter hne₁ hne₂ p
    by_cases hp : p = label.party
    · rw [hp, hbefore, hafter]
      exact ⟨fun h => absurd h hne₂, fun h => absurd h hne₁⟩
    · rw [heffect.freeing_other hp]
  cases heffect.removal with
  | none hbefore hafter hlinked herased hfreed =>
      exact hphase.of_eq ⟨hlinkedBack, hlinked l⟩ (by rw [herased]) (by rw [hfreed])
        (hsame hbefore hafter (fun h => nomatch h) (fun h => nomatch h))
  | erase l' hbefore hafter hlinked herased hfreed _ _ hin =>
      by_cases hl : l = l'
      · subst hl
        cases hphase with
        | linked _ hzero hzero' hnone =>
            refine .erased label.party (fun h => ((hlinked l).mp h).2 rfl) ?_ ?_ fun q => ?_
            · rw [herased, Function.update_self, hzero]
            · rw [hfreed, hzero']
            · by_cases hq : q = label.party
              · exact ⟨fun _ => hq, fun _ => hq ▸ hafter⟩
              · rw [heffect.freeing_other hq]
                exact ⟨fun h => absurd h (hnone q), fun h => absurd h hq⟩
        | erased p hnot => exact absurd hin hnot
        | freed hnot => exact absurd hin hnot
      · refine hphase.of_eq ⟨hlinkedBack, fun h => (hlinked l).mpr ⟨h, hl⟩⟩ ?_ (by rw [hfreed])
          (hsame hbefore hafter (fun h => nomatch h) fun h => hl (Option.some.inj h).symm)
        rw [herased, Function.update_of_ne hl]
  | free l' hbefore hafter hlinked herased hfreed =>
      by_cases hl : l = l'
      · subst hl
        cases hphase with
        | linked _ _ _ hnone => exact absurd hbefore (hnone label.party)
        | erased p hnot hone hzero honly =>
            refine .freed (fun h => hnot ((hlinked l).mp h)) ?_ ?_ fun q hq => ?_
            · rw [herased, hone]
            · rw [hfreed, Function.update_self, hzero]
            · by_cases hp : q = label.party
              · rw [hp, hafter] at hq
                cases hq
              · rw [heffect.freeing_other hp] at hq
                exact hp (((honly q).mp hq).trans ((honly _).mp hbefore).symm)
        | freed _ _ _ hnone => exact absurd hbefore (hnone label.party)
      · refine hphase.of_eq (hlinked l) (by rw [herased]) ?_
          (hsame hbefore hafter (fun h => hl (Option.some.inj h).symm) (fun h => nomatch h))
        rw [hfreed, Function.update_of_ne hl]

/-! ### Threads -/

/-- A thread passes registration by adding its listener. -/
theorem Effect.live_cases (heffect : Effect cfg s label s') (hlive : s'.Live w) :
    s.Live w ∨ (s.pc w).adding ≠ none ∧ ∃ act, label = .split w act := by
  by_cases hlabel : ∃ act, label = .split w act
  case neg =>
    obtain ⟨hpc, hserver⟩ := heffect.thread_ne fun act heq => hlabel ⟨act, heq⟩
    exact .inl ⟨hserver ▸ hlive.1, hpc ▸ hlive.2⟩
  case pos =>
    obtain ⟨act, rfl⟩ := hlabel
    cases heffect with
    | add _ l root hpc => exact .inr ⟨by simp [hpc, SplitPc.adding], act, rfl⟩
    | move _ _ pc' hmoves => exact .inl ⟨hlive.1, (moves_spec hmoves).notOver⟩
    | alloc _ _ hpc => exact .inl ⟨hlive.1, by simp [hpc]⟩
    | access _ _ l fields sock pc' _ hpc => exact .inl ⟨hlive.1, hpc.2.2⟩
    | erase _ _ l root hserver hpc => exact .inl ⟨by simp [hserver], by simp [hpc]⟩
    | free _ _ l _ hpc => exact .inl ⟨hlive.1, by simp [hpc]⟩
    | out _ _ sock hpc => exact .inl ⟨hlive.1, by simp [hpc]⟩

/-- A thread that waits to exit goes on doing so, unless it is told to stop. -/
theorem Effect.quiet_cases (heffect : Effect cfg s label s')
    (hquiet : (s.pc w).quiet = true ∨ s.pc w = .free) :
    (s'.pc w).quiet = true ∨ s'.pc w = .free ∨
      s.pc w = .test ∧ ∃ act, label = .split w act ∧ act.isFail = true := by
  by_cases hlabel : ∃ act, label = .split w act
  case neg =>
    rw [(heffect.thread_ne fun act heq => hlabel ⟨act, heq⟩).1, ← or_assoc]
    exact .inl hquiet
  case pos =>
    obtain ⟨act, rfl⟩ := hlabel
    cases heffect with
    | move _ _ pc' hmoves =>
        have hspec := moves_spec hmoves
        left
        simpa [State.setPc] using hspec.quiet (hquiet.resolve_right hspec.notFree)
    | access _ _ l fields sock pc' _ hpc htest =>
        obtain ⟨hpc', hfail⟩ := htest (hquiet.resolve_right hpc.2.1)
        exact .inr (.inr ⟨hpc', act, rfl, hfail⟩)
    | free _ _ l _ hpc => simp [State.setPc, State.kmemCacheFree, SplitPc.quiet]
    | out _ _ sock hpc => simp [State.setPc, SplitPc.quiet]
    | erase _ _ l root hserver hpc => simp [hpc, SplitPc.quiet] at hquiet
    | alloc _ _ hpc => simp [hpc, SplitPc.quiet] at hquiet
    | add _ l root hpc => simp [hpc, SplitPc.quiet] at hquiet

/-- A listener is accessed by its thread only. -/
theorem Effect.late_cases (heffect : Effect cfg s label s') (l : ℕ) :
    s'.late l = s.late l ∨
      s'.late l = (s.late l || decide (0 < s.erased l)) ∧
        ∃ w act, label = .split w act ∧ s.server w = some l ∧ s.pc w ≠ .free ∧
          ((s.pc w).quiet = true → s.pc w = .test ∧ act.isFail = true) := by
  cases heffect with
  | access w act l' fields sock pc' hserver hpc hquiet =>
      by_cases hl : l = l'
      · subst hl
        exact .inr ⟨Function.update_self _ _ _, w, act, rfl, hserver, hpc.2.1, hquiet⟩
      · exact .inl (Function.update_of_ne hl _ _)
  | _ => exact .inl rfl

theorem Inv.step_alone (hinv : Inv cfg s) (hguard : Orderly cfg s label)
    (heffect : Effect cfg s label s') (hlive : s'.Live w) (hlive' : s'.Live w')
    (hmark : cfg.mark w = cfg.mark w') : w = w' := by
  rcases heffect.live_cases hlive with h | ⟨hadding, act, rfl⟩ <;>
    rcases heffect.live_cases hlive' with h' | ⟨hadding', act', hlabel'⟩
  · exact hinv.alone w w' h h' hmark
  · rw [hlabel'] at hguard
    exact absurd hmark ((hguard.1 hadding').2 w h)
  · exact absurd hmark.symm ((hguard.1 hadding).2 w' h')
  · cases hlabel'
    rfl

theorem Inv.step_quiet (hinv : Inv cfg s) (hwf : Wf s) (hguard : Orderly cfg s label)
    (heffect : Effect cfg s label s') (hserver : s.server w = some l) :
    s'.erased l = 0 ∨ (s'.pc w).quiet = true ∨ s'.pc w = .free := by
  have hcases : s'.erased l = s.erased l →
      s'.erased l = 0 ∨ (s'.pc w).quiet = true ∨ s'.pc w = .free := by
    intro hkept
    rw [hkept]
    rcases hinv.quiet w l hserver with hzero | hquiet
    · exact .inl hzero
    · rcases heffect.quiet_cases hquiet with h | h | ⟨hpc, act, rfl, hfail⟩
      · exact .inr (.inl h)
      · exact .inr (.inr h)
      · exact .inl (hguard.2 hpc hfail l (by rw [hserver]; rfl))
  cases heffect.removal with
  | none _ _ _ herased => exact hcases (by rw [herased])
  | free l' _ _ _ herased => exact hcases (by rw [herased])
  | erase l' _ hafter _ herased _ _ herasing =>
      by_cases hl : l = l'
      case neg => exact hcases (by rw [herased, Function.update_of_ne hl])
      subst hl
      cases label with
      | split w' act =>
          obtain ⟨-, hserver'⟩ : s.pc w' = .erase ∧ s.server w' = some l := by
            simpa [Label.party, State.erasing] using herasing
          obtain rfl := hwf.server_inj hserver' hserver
          rw [Label.party, State.freeing] at hafter
          by_cases hfree : s'.pc w = .free
          · exact .inr (.inr hfree)
          · rw [if_neg hfree] at hafter
            cases hafter
      | remove d act =>
          have hother : ∀ act', Label.remove d act ≠ .split w act' := by
            intro act' heq
            cases heq
          rw [(heffect.thread_ne hother).1]
          exact .inr (.inl ((hguard l herasing).2 w hserver))

theorem Inv.step (hinv : Inv cfg s) (hwf : Wf s) (hguard : Orderly cfg s label)
    (heffect : Effect cfg s label s') : Inv cfg s' where
  alone := fun w w' => hinv.step_alone hguard heffect
  phase := by
    intro w l hserver
    rcases heffect.server_cases w with hkept | ⟨l', hpc, hserver'⟩
    · exact hinv.step_phase hwf heffect (hkept ▸ hserver)
    · cases hserver'.symm.trans hserver
      exact (heffect.phase_of_add hwf hguard hpc hserver).1
  quiet := by
    intro w l hserver
    rcases heffect.server_cases w with hkept | ⟨l', hpc, hserver'⟩
    · exact hinv.step_quiet hwf hguard heffect (hkept ▸ hserver)
    · cases hserver'.symm.trans hserver
      exact .inl (heffect.phase_of_add hwf hguard hpc hserver).2
  linked := by
    intro l
    cases heffect.removal with
    | none _ _ _ _ _ hstray => exact hstray ▸ hinv.linked l
    | free _ _ _ _ _ _ hstray => exact hstray ▸ hinv.linked l
    | erase l' _ _ _ _ _ hstray => exact hstray ▸ hinv.linked l
  untouched := by
    intro l
    rcases heffect.late_cases l with h | ⟨h, w, act, rfl, hserver, hfree, htest⟩
    · rw [h]
      exact hinv.untouched l
    · have herased : s.erased l = 0 := by
        rcases hinv.quiet w l hserver with hzero | hquiet | hpc
        · exact hzero
        · obtain ⟨hpc, hfail⟩ := htest hquiet
          exact hguard.2 hpc hfail l (by rw [hserver]; rfl)
        · exact absurd hpc hfree
      rw [h, hinv.untouched l, herased]
      rfl

/-! ## Runs -/

/-- A tenant has one server at a time, and each of its listeners is removed once, as
long as the commands keep to the order. -/
theorem registration_exclusive (cfg : Config W D) (s : State W D)
    (hreach : (servers cfg).ReachableUnder (Orderly cfg) s) : Exclusive cfg s := by
  have hinv : Wf s ∧ Inv cfg s := by
    refine hreach.invariant (P := fun s => Wf s ∧ Inv cfg s) ⟨Wf.init, Inv.init⟩ ?_
    rintro before label after - ⟨hwf, hinv⟩ hguard hnext
    have heffect := effect_of_next (hinv.eraseLinked hguard) hnext
    exact ⟨hwf.step heffect, hinv.step hwf hguard heffect⟩
  exact hinv.2.exclusive

/-- Two commands to add a server for tenant 7, and one to delete it. -/
def tenant : Config Bool Unit where
  mark := fun _ => 7
  remover := fun _ => .delServerCb 7

/-- The tree that holds one listener of tenant 7. -/
def oneListner (l : ℕ) : BinaryTree CbnListner := .node ⟨l, 7⟩ .nil .nil

/-- A server is added, set up and deleted, and after its thread has exited a second one
is added. -/
theorem registration_exclusive_readded :
    ∃ s, Exclusive tenant s ∧ s.server true = some 1 ∧ s.erased 0 = 1 ∧ s.freed 0 = 1 := by
  obtain ⟨s, hreach, hs⟩ := Machine.exists_reachable_of_run (servers tenant) (Orderly tenant)
    [.split false .ok, .split false (.slab 0), .split false (.tree (oneListner 0)),
      .split false .ok, .split false .ok, .split false .ok, .split false .ok,
      .split false .ok, .split false .ok,
      .remove () .ok, .remove () .ok, .remove () (.tree .nil), .remove () .ok,
      .split false .fail, .split false .ok,
      .split true .ok, .split true (.slab 6), .split true (.tree (oneListner 1))]
    (fun s => (s.server true, s.erased 0, s.freed 0)) (some 1, 1, 1) (by decide +kernel)
  simp only [Prod.mk.injEq] at hs
  exact ⟨s, registration_exclusive tenant s hreach, hs⟩

/-- Two commands for one tenant pass the search together, and the second is told that
its listener is registered. -/
theorem second_listner_not_linked :
    ∃ s, (servers tenant).Reachable s ∧ ¬ Exclusive tenant s := by
  obtain ⟨s, hreach, hs⟩ := Machine.exists_reachable_of_run (servers tenant)
    (fun _ _ => True)
    [.split false .ok, .split true .ok, .split false (.slab 0), .split true (.slab 0),
      .split false (.tree (oneListner 0)), .split true (.tree (oneListner 0))]
    (fun s => (s.server true, decide (s.Linked 1), s.erased 1)) (some 1, false, 0)
    (by decide +kernel)
  simp only [Prod.mk.injEq, decide_eq_false_iff_not] at hs
  obtain ⟨hserver, hlinked, herased⟩ := hs
  refine ⟨s, hreach, fun hexclusive => ?_⟩
  rcases hexclusive.removed true 1 hserver with h | h
  · exact hlinked h.1
  · omega

end KtcpSplit.Server
