import KtcpSplit.Server.Steps
import Mathlib.Data.Fintype.Defs

/-!
# What holds of the listeners in every run

A listener has one thread: the one that allocated it, and to which
`register_server_sock` returned it.  Only a listener that was returned gets into the
tree, to `rb_erase`, or into the hands of a remover.  As with `Effect`, this is so as
long as `rb_erase` is called on linked listeners.
-/

namespace KtcpSplit.Server

open KtcpSplit.Listner
open KtcpSplit.SearchTree
open KtcpSplit.Transition

variable {W D : Type*}

namespace State

/-- The listener that a thread allocated. -/
def held (s : State W D) (w : W) : Option ℕ := (s.pc w).adding <|> s.server w

/-- The listener is in the tree, or it was, or somebody found it there. -/
def Known (s : State W D) (l : ℕ) : Prop :=
  s.Linked l ∨ 0 < s.erased l ∨ ∃ d, (s.remover d).target = some l

end State

structure Wf (s : State W D) : Prop where
  held_lt : ∀ w l, s.held w = some l → l < s.next
  held_inj : ∀ w w' l, s.held w = some l → s.held w' = some l → w' = w
  early : ∀ w, (s.pc w).early = true → s.server w = none
  known : ∀ l, s.Known l → ∃ w, s.server w = some l
  erased_of_linked : ∀ l, s.Linked l → s.erased l = 0
  erased_of_freed : ∀ l, 0 < s.freed l → 0 < s.erased l
  erased_of_freeing : ∀ w l, s.server w = some l → s.pc w = .free → 0 < s.erased l
  erased_of_remover : ∀ d l, (s.remover d).freeing = some l → 0 < s.erased l
  fields : ∀ w l, s.held w = some l → (s.fields l).Truthful w (s.pc w)

variable {cfg : Config W D} {s s' : State W D} {w w' : W} {l : ℕ}

theorem target_of_freeing {pc : RemovePc} (h : pc.freeing = some l) : pc.target = some l := by
  cases pc <;> cases h
  rfl

theorem adding_of_not_early {pc : SplitPc} (h : pc.early = false) : pc.adding = none := by
  cases pc <;> first | rfl | cases h

theorem held_of_add (hpc : s.pc w = .add l) : s.held w = some l := by
  rw [State.held, hpc]
  rfl

/-- Nothing was stored into a new listener. -/
theorem newFields_truthful (status : ℕ) (w : W) (l : ℕ) :
    (newFields status : Fields W).Truthful w (.add l) where
  status := fun h => Bool.noConfusion h
  accepting := fun h => Bool.noConfusion h
  settingUp := fun h => Bool.noConfusion h

/-- A listener that was returned is held by the thread to which it was. -/
theorem Wf.held_of_server (hwf : Wf s) (hserver : s.server w = some l) :
    s.held w = some l := by
  have hearly : (s.pc w).early = false := by
    by_contra h
    have hnone := hwf.early w (Bool.eq_true_of_not_eq_false h)
    cases hnone.symm.trans hserver
  rw [State.held, adding_of_not_early hearly, hserver]
  rfl

theorem Wf.server_inj (hwf : Wf s) (hserver : s.server w = some l)
    (hserver' : s.server w' = some l) : w' = w :=
  hwf.held_inj w w' l (hwf.held_of_server hserver) (hwf.held_of_server hserver')

/-- A listener that is about to be added is not known to anybody else. -/
theorem Wf.not_known_of_add (hwf : Wf s) (hpc : s.pc w = .add l) : ¬ s.Known l := by
  intro hknown
  obtain ⟨w', hserver⟩ := hwf.known l hknown
  have heq := hwf.held_inj w w' l (held_of_add hpc) (hwf.held_of_server hserver)
  subst heq
  have hnone := hwf.early w' (by rw [hpc]; rfl)
  cases hnone.symm.trans hserver

theorem Wf.erased_eq_zero_of_add (hwf : Wf s) (hpc : s.pc w = .add l) : s.erased l = 0 := by
  by_contra h
  exact hwf.not_known_of_add hpc (.inr (.inl (by omega)))

/-! ## The tree -/

/-- After `add_rb_listner`, the tree has at most the new listener in addition. -/
theorem linked_of_add {root : BinaryTree CbnListner} {data : CbnListner}
    (hroot : (∃ this, addRbListner s.root data = .duplicate this) ∧ root = s.root ∨
      ∃ linked, addRbListner s.root data = .linked linked ∧ inorder root = inorder linked)
    {this : CbnListner} (hmem : this ∈ inorder root) :
    this ∈ inorder s.root ∨ this = data := by
  rcases hroot with ⟨-, rfl⟩ | ⟨linked, hadd, heq⟩
  · exact .inl hmem
  · rw [heq] at hmem
    exact ((mem_inorder_of_linked hadd this).mp hmem).symm

/-- `rb_erase` unlinks the listener and no other. -/
theorem linked_unlink {root : BinaryTree CbnListner}
    (hroot : inorder root = (inorder s.root).filter (·.id ≠ l)) (l' : ℕ) :
    (s.unlink l root).Linked l' ↔ s.Linked l' ∧ l' ≠ l := by
  constructor
  · rintro ⟨data, hmem, rfl⟩
    change data ∈ inorder root at hmem
    rw [hroot, List.mem_filter] at hmem
    exact ⟨⟨data, hmem.1, rfl⟩, of_decide_eq_true hmem.2⟩
  · rintro ⟨⟨data, hmem, rfl⟩, hne⟩
    refine ⟨data, ?_, rfl⟩
    change data ∈ inorder root
    rw [hroot, List.mem_filter]
    exact ⟨hmem, decide_eq_true hne⟩

/-! ## Steps -/

variable [DecidableEq W] [DecidableEq D] {label : Label W D}

theorem Effect.next_le (heffect : Effect cfg s label s') : s.next ≤ s'.next := by
  cases heffect with
  | alloc w status hpc => exact Nat.le_succ s.next
  | _ => exact Nat.le_refl s.next

/-- A step concerns the program counter and the listener of one thread at most. -/
theorem Effect.thread_ne (heffect : Effect cfg s label s')
    (hne : ∀ act, label ≠ .split w act) : s'.pc w = s.pc w ∧ s'.server w = s.server w := by
  have hupdate : ∀ w₁ (act : Act) (pc : SplitPc), label = .split w₁ act →
      Function.update s.pc w₁ pc w = s.pc w := by
    rintro w₁ act pc rfl
    exact Function.update_of_ne (fun heq : w = w₁ => hne act (by rw [heq])) _ _
  cases heffect with
  | add w₁ l root hpc hroot act =>
      exact ⟨hupdate w₁ act _ rfl,
        Function.update_of_ne (fun heq : w = w₁ => hne act (by rw [heq])) _ _⟩
  | erase w₁ act => exact ⟨hupdate w₁ act _ rfl, rfl⟩
  | move w₁ act => exact ⟨hupdate w₁ act _ rfl, rfl⟩
  | alloc w₁ status hpc => exact ⟨hupdate w₁ _ _ rfl, rfl⟩
  | access w₁ act => exact ⟨hupdate w₁ act _ rfl, rfl⟩
  | free w₁ act => exact ⟨hupdate w₁ act _ rfl, rfl⟩
  | out w₁ act => exact ⟨hupdate w₁ act _ rfl, rfl⟩
  | _ => exact ⟨rfl, rfl⟩

/-- Only an allocation gives a thread a listener. -/
theorem Effect.held_cases (heffect : Effect cfg s label s') (w : W) :
    s'.held w = s.held w ∨
      (∃ act, label = .split w act) ∧ s.pc w = .alloc ∧ s'.held w = some s.next ∧
        s'.next = s.next + 1 := by
  by_cases hlabel : ∃ act, label = .split w act
  case neg =>
    obtain ⟨hpc, hserver⟩ := heffect.thread_ne fun act heq => hlabel ⟨act, heq⟩
    left
    rw [State.held, State.held, hpc, hserver]
  case pos =>
    obtain ⟨act, rfl⟩ := hlabel
    cases heffect with
    | move _ _ pc' hmoves =>
        have hspec := moves_spec hmoves
        left
        simp only [State.held, State.setPc, Function.update_self, hspec.notAdding,
          hspec.adding]
    | alloc _ status hpc =>
        right
        refine ⟨⟨_, rfl⟩, hpc, ?_, rfl⟩
        simp only [State.held, State.setPc, Function.update_self, SplitPc.adding]
        rfl
    | add _ l root hpc =>
        left
        simp only [State.held, State.setPc, Function.update_self, SplitPc.adding, hpc]
        rfl
    | access _ _ l fields sock pc' hserver hpc _ hpc' =>
        left
        simp only [State.held, State.setPc, State.access, Function.update_self,
          adding_of_not_early hpc.1, adding_of_not_early hpc'.1]
    | erase _ _ l root hserver hpc =>
        left
        simp only [State.held, State.setPc, State.unlink, Function.update_self, hpc,
          SplitPc.adding]
    | free _ _ l hserver hpc =>
        left
        simp only [State.held, State.setPc, State.kmemCacheFree, Function.update_self, hpc,
          SplitPc.adding]
    | out _ _ sock hpc =>
        left
        simp only [State.held, State.setPc, Function.update_self, hpc, SplitPc.adding]

/-- Only `add_rb_listner` is followed by a return of the listener. -/
theorem Effect.server_cases (heffect : Effect cfg s label s') (w : W) :
    s'.server w = s.server w ∨ ∃ l, s.pc w = .add l ∧ s'.server w = some l := by
  by_cases hlabel : ∃ act, label = .split w act
  case neg => exact .inl (heffect.thread_ne fun act heq => hlabel ⟨act, heq⟩).2
  case pos =>
    obtain ⟨act, rfl⟩ := hlabel
    cases heffect with
    | add _ l root hpc => exact .inr ⟨l, hpc, Function.update_self _ _ _⟩
    | _ => exact .inl rfl

theorem Wf.server_mono (hwf : Wf s) (heffect : Effect cfg s label s')
    (hserver : s.server w = some l) : s'.server w = some l := by
  rcases heffect.server_cases w with heq | ⟨l', hpc, -⟩
  · exact heq.trans hserver
  · have hnone := hwf.early w (by rw [hpc]; rfl)
    cases hnone.symm.trans hserver

theorem Effect.early (heffect : Effect cfg s label s')
    (hwf : ∀ w, (s.pc w).early = true → s.server w = none)
    (hearly : (s'.pc w).early = true) : s'.server w = none := by
  by_cases hlabel : ∃ act, label = .split w act
  case neg =>
    obtain ⟨hpc, hserver⟩ := heffect.thread_ne fun act heq => hlabel ⟨act, heq⟩
    rw [hserver]
    exact hwf w (hpc ▸ hearly)
  case pos =>
    obtain ⟨act, rfl⟩ := hlabel
    cases heffect with
    | move _ _ pc' hmoves =>
        simp only [State.setPc, Function.update_self] at hearly
        exact hwf w ((moves_spec hmoves).early hearly)
    | alloc _ status hpc => exact hwf w (by rw [hpc]; rfl)
    | erase => simp [State.setPc, State.unlink, SplitPc.early] at hearly
    | access _ _ l fields sock pc' hserver hpc _ hpc' =>
        simp only [State.setPc, Function.update_self] at hearly
        cases hpc'.1.symm.trans hearly
    | add => simp [State.setPc, SplitPc.early] at hearly
    | free => simp [State.setPc, State.kmemCacheFree, SplitPc.early] at hearly
    | out => simp [State.setPc, SplitPc.early] at hearly

/-- A listener gets into the tree when it is added. -/
theorem Effect.linked_cases (heffect : Effect cfg s label s') (hlinked : s'.Linked l) :
    s.Linked l ∨ ∃ w, s.pc w = .add l ∧ s'.server w = some l := by
  cases heffect with
  | add w l' root hpc hroot act =>
      obtain ⟨data, hmem, rfl⟩ := hlinked
      rcases linked_of_add hroot hmem with hold | rfl
      · exact .inl ⟨data, hold, rfl⟩
      · exact .inr ⟨w, hpc, Function.update_self _ _ _⟩
  | erase w act l' root hserver hpc hlinked' hroot =>
      exact .inl ((linked_unlink hroot l).mp hlinked).1
  | removeErase d act l' root hpc hlinked' hroot =>
      exact .inl ((linked_unlink hroot l).mp hlinked).1
  | _ => exact .inl hlinked

/-- A listener that is passed to `rb_erase` is not linked afterwards. -/
theorem Effect.erased_cases (heffect : Effect cfg s label s') (l : ℕ) :
    s'.erased l = s.erased l ∨
      s'.erased l = s.erased l + 1 ∧ ¬ s'.Linked l ∧
        ((∃ w, s.server w = some l ∧ s.pc w = .erase) ∨ ∃ d, s.remover d = .erase l) := by
  have hcount : ∀ {l' root}, inorder root = (inorder s.root).filter (·.id ≠ l') →
      (s.unlink l' root).erased l = s.erased l ∨
        l = l' ∧ (s.unlink l' root).erased l = s.erased l + 1 ∧
          ¬ (s.unlink l' root).Linked l := by
    intro l' root hroot
    by_cases heq : l = l'
    · subst heq
      exact .inr ⟨rfl, Function.update_self _ _ _, fun h => ((linked_unlink hroot l).mp h).2 rfl⟩
    · exact .inl (Function.update_of_ne heq _ _)
  cases heffect with
  | erase w act l' root hserver hpc _ hroot =>
      rcases hcount hroot with hkept | ⟨rfl, hadded, hnot⟩
      · exact .inl hkept
      · exact .inr ⟨hadded, hnot, .inl ⟨w, hserver, hpc⟩⟩
  | removeErase d act l' root hpc _ hroot =>
      rcases hcount hroot with hkept | ⟨rfl, hadded, hnot⟩
      · exact .inl hkept
      · exact .inr ⟨hadded, hnot, .inr ⟨d, hpc⟩⟩
  | _ => exact .inl rfl

/-- A listener that is passed to `kmem_cache_free` was passed to `rb_erase`. -/
theorem Effect.freed_cases (heffect : Effect cfg s label s') (l : ℕ) :
    s'.freed l = s.freed l ∨
      s'.freed l = s.freed l + 1 ∧
        ((∃ w, s.server w = some l ∧ s.pc w = .free ∧ s'.pc w = .out) ∨
          ∃ d, s.remover d = .free l ∧ (s'.remover d).target = none) := by
  cases heffect with
  | free w act l' hserver hpc =>
      by_cases heq : l = l'
      · subst heq
        exact .inr ⟨Function.update_self _ _ _,
          .inl ⟨w, hserver, hpc, Function.update_self _ _ _⟩⟩
      · exact .inl (Function.update_of_ne heq _ _)
  | removeFree d act l' pc' hpc hpc' =>
      by_cases heq : l = l'
      · subst heq
        refine .inr ⟨Function.update_self _ _ _, .inr ⟨d, hpc, ?_⟩⟩
        simp only [State.setRemover, Function.update_self, hpc']
      · exact .inl (Function.update_of_ne heq _ _)
  | _ => exact .inl rfl

/-- A remover turns to a listener of the tree. -/
theorem Effect.target_cases (heffect : Effect cfg s label s') {d : D}
    (htarget : (s'.remover d).target = some l) :
    (s.remover d).target = some l ∨ s.Linked l := by
  cases heffect with
  | remove d' act sock pc' hfree hfree' htarget' =>
      by_cases heq : d = d'
      · subst heq
        simp only [State.setRemover, Function.update_self] at htarget
        exact htarget' l htarget
      · simp only [State.setRemover, Function.update_of_ne heq] at htarget
        exact .inl htarget
  | removeErase d' act l' root hpc =>
      by_cases heq : d = d'
      · subst heq
        simp only [State.setRemover, Function.update_self] at htarget
        left
        rw [hpc]
        exact htarget
      · simp only [State.setRemover, State.unlink, Function.update_of_ne heq] at htarget
        exact .inl htarget
  | removeFree d' act l' pc' hpc hpc' =>
      by_cases heq : d = d'
      · subst heq
        simp only [State.setRemover, Function.update_self, hpc'] at htarget
        cases htarget
      · simp only [State.setRemover, State.kmemCacheFree, Function.update_of_ne heq] at htarget
        exact .inl htarget
  | _ => exact .inl htarget

/-- Whoever is about to free a listener has passed it to `rb_erase`. -/
theorem Effect.freeing_cases (heffect : Effect cfg s label s') {d : D}
    (hfreeing : (s'.remover d).freeing = some l) :
    (s.remover d).freeing = some l ∨ s.remover d = .erase l ∧ 0 < s'.erased l := by
  cases heffect with
  | remove d' act sock pc' hfree hfree' htarget' =>
      by_cases heq : d = d'
      · subst heq
        simp only [State.setRemover, Function.update_self, hfree'] at hfreeing
        cases hfreeing
      · simp only [State.setRemover, Function.update_of_ne heq] at hfreeing
        exact .inl hfreeing
  | removeErase d' act l' root hpc =>
      by_cases heq : d = d'
      · subst heq
        simp only [State.setRemover, Function.update_self, RemovePc.freeing,
          Option.some.injEq] at hfreeing
        subst hfreeing
        refine .inr ⟨hpc, ?_⟩
        simp only [State.setRemover, State.unlink, Function.update_self]
        omega
      · simp only [State.setRemover, State.unlink, Function.update_of_ne heq] at hfreeing
        exact .inl hfreeing
  | removeFree d' act l' pc' hpc hpc' =>
      by_cases heq : d = d'
      · subst heq
        simp only [State.setRemover, Function.update_self] at hfreeing
        rw [target_of_freeing hfreeing] at hpc'
        cases hpc'
      · simp only [State.setRemover, State.kmemCacheFree, Function.update_of_ne heq] at hfreeing
        exact .inl hfreeing
  | _ => exact .inl hfreeing

theorem Effect.free_cases (heffect : Effect cfg s label s') (hpc' : s'.pc w = .free)
    (hserver : s'.server w = some l) :
    s.server w = some l ∧ (s.pc w = .free ∨ s.pc w = .erase ∧ 0 < s'.erased l) := by
  by_cases hlabel : ∃ act, label = .split w act
  case neg =>
    obtain ⟨hpc, heq⟩ := heffect.thread_ne fun act heq => hlabel ⟨act, heq⟩
    exact ⟨heq ▸ hserver, .inl (hpc ▸ hpc')⟩
  case pos =>
    obtain ⟨act, rfl⟩ := hlabel
    cases heffect with
    | move _ _ pc' hmoves =>
        simp only [State.setPc, Function.update_self] at hpc'
        exact absurd hpc' (moves_spec hmoves).free
    | erase _ _ l' root hserver' hpc =>
        simp only [State.setPc, State.unlink] at hserver
        have heq : l' = l := Option.some.inj (hserver'.symm.trans hserver)
        subst heq
        refine ⟨hserver, .inr ⟨hpc, ?_⟩⟩
        simp only [State.setPc, State.unlink, Function.update_self]
        omega
    | access _ _ l' fields sock pc' hserver' hpc _ hnext =>
        simp only [State.setPc, Function.update_self] at hpc'
        exact absurd hpc' hnext.2.1
    | alloc => simp [State.setPc] at hpc'
    | add => simp [State.setPc] at hpc'
    | free => simp [State.setPc, State.kmemCacheFree] at hpc'
    | out => simp [State.setPc] at hpc'

/-- The fields of a listener are written by its thread. -/
theorem Effect.truthful (heffect : Effect cfg s label s') (hwf : Wf s)
    (hheld : s'.held w = some l) : (s'.fields l).Truthful w (s'.pc w) := by
  rcases heffect.held_cases w with hkept | ⟨⟨act, rfl⟩, hpc, hfresh, -⟩
  case inr =>
    obtain rfl : s.next = l := Option.some.inj (hfresh.symm.trans hheld)
    cases heffect with
    | alloc _ status _ =>
        simp only [State.setPc, Function.update_self]
        exact newFields_truthful status w s.next
    | move _ _ pc' hmoves =>
        simp only [State.held, State.setPc, Function.update_self, (moves_spec hmoves).adding,
          hwf.early w (by rw [hpc]; rfl)] at hheld
        cases hheld
    | access _ _ _ _ _ _ _ hlate => rw [hpc] at hlate; cases hlate.1
    | add _ _ _ hadd => rw [hpc] at hadd; cases hadd
    | erase _ _ _ _ _ hne => rw [hpc] at hne; cases hne
    | free _ _ _ _ hne => rw [hpc] at hne; cases hne
    | out _ _ _ hne => rw [hpc] at hne; cases hne
  case inl =>
    rw [hkept] at hheld
    have hold := hwf.fields w l hheld
    have hpcs : ∀ w₁ pc', (w = w₁ → (s.fields l).Truthful w pc') →
        (s.fields l).Truthful w (Function.update s.pc w₁ pc' w) := by
      intro w₁ pc' hsame
      by_cases hw : w = w₁
      · rw [hw, Function.update_self, ← hw]
        exact hsame hw
      · rw [Function.update_of_ne hw]
        exact hold
    cases heffect with
    | move w₁ act pc' hmoves =>
        refine hpcs w₁ pc' fun hw => ?_
        subst hw
        have hspec := moves_spec hmoves
        exact hold.move hspec.written hspec.accepting hspec.settingUp
    | alloc w₁ status hpc =>
        have hne : l ≠ s.next := (hwf.held_lt w l hheld).ne
        dsimp only [State.setPc]
        rw [Function.update_of_ne hne]
        exact hpcs w₁ _ fun _ => ⟨fun h => Bool.noConfusion h, fun h => Bool.noConfusion h,
          fun h => Bool.noConfusion h⟩
    | add w₁ l₁ root hpc hroot act =>
        exact hpcs w₁ _ fun _ => ⟨fun h => Bool.noConfusion h, fun h => Bool.noConfusion h,
          fun h => Bool.noConfusion h⟩
    | access w₁ act l₁ fields sock pc' hserver hpc hquiet hpc' hfields =>
        dsimp only [State.setPc, State.access]
        by_cases hl : l = l₁
        · subst hl
          obtain rfl := hwf.held_inj w w₁ l hheld (hwf.held_of_server hserver)
          rw [Function.update_self, Function.update_self]
          exact hfields hold
        · rw [Function.update_of_ne hl]
          refine hpcs w₁ pc' fun hw => ?_
          subst hw
          exact absurd (Option.some.inj (hheld.symm.trans (hwf.held_of_server hserver))) hl
    | erase w₁ act l₁ root hserver hpc =>
        exact hpcs w₁ _ fun hw => hold.move (by rw [hw, hpc]; rfl)
          (fun h => Bool.noConfusion h) fun h => Bool.noConfusion h
    | free w₁ act l₁ hserver hpc =>
        exact hpcs w₁ _ fun hw => hold.move (by rw [hw, hpc]; rfl)
          (fun h => Bool.noConfusion h) fun h => Bool.noConfusion h
    | out w₁ act sock hpc =>
        exact hpcs w₁ _ fun hw => hold.move (by rw [hw, hpc]; rfl)
          (fun h => Bool.noConfusion h) fun h => Bool.noConfusion h
    | remove => exact hold
    | removeErase => exact hold
    | removeFree => exact hold

theorem Effect.erased_mono (heffect : Effect cfg s label s') (l : ℕ) :
    s.erased l ≤ s'.erased l := by
  rcases heffect.erased_cases l with h | ⟨h, -⟩ <;> omega

theorem Wf.step (hwf : Wf s) (heffect : Effect cfg s label s') : Wf s' where
  held_lt := by
    intro w l hheld
    rcases heffect.held_cases w with hkept | ⟨-, -, hfresh, hnext⟩
    · have hlt := hwf.held_lt w l (hkept ▸ hheld)
      have hle := heffect.next_le
      omega
    · have heq := Option.some.inj (hfresh.symm.trans hheld)
      omega
  held_inj := by
    intro w w' l hheld hheld'
    rcases heffect.held_cases w with hkept | ⟨⟨act, hlabel⟩, -, hfresh, -⟩ <;>
      rcases heffect.held_cases w' with hkept' | ⟨⟨act', hlabel'⟩, -, hfresh', -⟩
    · exact hwf.held_inj w w' l (hkept ▸ hheld) (hkept' ▸ hheld')
    · have hlt := hwf.held_lt w l (hkept ▸ hheld)
      have heq := Option.some.inj (hfresh'.symm.trans hheld')
      omega
    · have hlt := hwf.held_lt w' l (hkept' ▸ hheld')
      have heq := Option.some.inj (hfresh.symm.trans hheld)
      omega
    · cases hlabel.symm.trans hlabel'
      rfl
  early := fun w => heffect.early hwf.early
  known := by
    have hold : ∀ l, s.Known l → ∃ w, s'.server w = some l := by
      intro l hknown
      obtain ⟨w, hserver⟩ := hwf.known l hknown
      exact ⟨w, hwf.server_mono heffect hserver⟩
    rintro l (hlinked | herased | ⟨d, htarget⟩)
    · rcases heffect.linked_cases hlinked with h | ⟨w, -, hserver⟩
      · exact hold l (.inl h)
      · exact ⟨w, hserver⟩
    · rcases heffect.erased_cases l with h | ⟨-, -, ⟨w, hserver, -⟩ | ⟨d, hpc⟩⟩
      · exact hold l (.inr (.inl (h ▸ herased)))
      · exact ⟨w, hwf.server_mono heffect hserver⟩
      · exact hold l (.inr (.inr ⟨d, by rw [hpc]; rfl⟩))
    · rcases heffect.target_cases htarget with h | hlinked
      · exact hold l (.inr (.inr ⟨d, h⟩))
      · exact hold l (.inl hlinked)
  erased_of_linked := by
    intro l hlinked
    rcases heffect.erased_cases l with h | ⟨-, hnot, -⟩
    · rw [h]
      rcases heffect.linked_cases hlinked with hlinked' | ⟨w, hpc, -⟩
      · exact hwf.erased_of_linked l hlinked'
      · exact hwf.erased_eq_zero_of_add hpc
    · exact absurd hlinked hnot
  erased_of_freed := by
    intro l hfreed
    have hmono := heffect.erased_mono l
    rcases heffect.freed_cases l with h | ⟨-, ⟨w, hserver, hpc, -⟩ | ⟨d, hpc, -⟩⟩
    · have herased := hwf.erased_of_freed l (h ▸ hfreed)
      omega
    · have herased := hwf.erased_of_freeing w l hserver hpc
      omega
    · have herased := hwf.erased_of_remover d l (by rw [hpc]; rfl)
      omega
  erased_of_freeing := by
    intro w l hserver hpc
    obtain ⟨hserver', hpc' | ⟨-, herased⟩⟩ := heffect.free_cases hpc hserver
    · exact (hwf.erased_of_freeing w l hserver' hpc').trans_le (heffect.erased_mono l)
    · exact herased
  erased_of_remover := by
    intro d l hfreeing
    rcases heffect.freeing_cases hfreeing with h | ⟨-, herased⟩
    · exact (hwf.erased_of_remover d l h).trans_le (heffect.erased_mono l)
    · exact herased
  fields := fun w l => heffect.truthful hwf

theorem Wf.init : Wf (servers cfg).init := by
  constructor <;>
    simp [servers, State.held, State.Known, State.Linked, SplitPc.adding, RemovePc.target,
      RemovePc.freeing]

theorem wf_of_reachable (hreach : (servers cfg).ReachableUnder EraseLinked s) : Wf s :=
  hreach.invariant Wf.init fun _ _ _ _ hwf hguard hnext =>
    hwf.step (effect_of_next hguard hnext)

end KtcpSplit.Server
