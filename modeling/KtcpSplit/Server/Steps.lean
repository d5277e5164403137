import KtcpSplit.Server.Model

/-!
# What a step of the servers does

Every step is a move of one party, an access to a listener by its thread, or an
operation on the tree or the slab, in runs in which `rb_erase` is called on linked
listeners only; after any other call nothing is known of the tree.
-/

namespace KtcpSplit.Server

open KtcpSplit.Listner
open KtcpSplit.SearchTree
open KtcpSplit.Transition

/-- The listener that is allocated and not added yet. -/
def SplitPc.adding : SplitPc → Option ℕ
  | .add l => some l
  | _ => none

/-- No listener was returned by `register_server_sock` yet. -/
def SplitPc.early : SplitPc → Bool
  | .search => true
  | .alloc => true
  | .add _ => true
  | _ => false

/-- The thread does not access its listener any more, unless it is stopped. -/
def SplitPc.quiet : SplitPc → Bool
  | .accept => true
  | .test => true
  | .out => true
  | .over => true
  | _ => false

/-- The status of the listener was not written yet. -/
def SplitPc.unwritten : SplitPc → Bool
  | .add _ => true
  | .registered => true
  | _ => false

/-- The thread has written a status, and has not created its raw socket yet. -/
def SplitPc.settingUp : SplitPc → Bool
  | .sockCreate => true
  | .setMark => true
  | .bind => true
  | .listen => true
  | .createProbe => true
  | _ => false

/-- The thread is in its loop. -/
def SplitPc.accepting : SplitPc → Bool
  | .accept => true
  | .test => true
  | _ => false

/-- The listener that a party is about to remove. -/
def RemovePc.target : RemovePc → Option ℕ
  | .shutdown l => some l
  | .erase l => some l
  | .free l => some l
  | _ => none

def RemovePc.erasing : RemovePc → Option ℕ
  | .erase l => some l
  | _ => none

def RemovePc.freeing : RemovePc → Option ℕ
  | .free l => some l
  | _ => none

def Act.isFail : Act → Bool
  | .fail => true
  | _ => false

/-- The statements of a thread that change nothing but its program counter. -/
def SplitPc.moves : SplitPc → SplitPc → Bool
  | .search, .alloc => true
  | .search, .error => true
  | .alloc, .error => true
  | .sockCreate, .error => true
  | .setMark, .error => true
  | .bind, .error => true
  | .listen, .error => true
  | .accept, .test => true
  | .accept, .out => true
  | .test, .accept => true
  | .error, .out => true
  | _, _ => false

structure Moves (pc pc' : SplitPc) : Prop where
  notAdding : pc.adding = none
  written : pc.unwritten = false
  adding : pc'.adding = none
  notFree : pc ≠ .free
  free : pc' ≠ .free
  early : pc'.early = true → pc.early = true
  quiet : pc.quiet = true → pc'.quiet = true
  notOver : pc ≠ .over
  notOver' : pc' ≠ .over
  settingUp : pc'.settingUp = true → pc.settingUp = true
  accepting : pc'.accepting = true → pc.accepting = true

theorem moves_spec {pc pc' : SplitPc} (hmoves : pc.moves pc' = true) : Moves pc pc' := by
  unfold SplitPc.moves at hmoves
  split at hmoves
  case h_12 => cases hmoves
  all_goals
    exact ⟨rfl, rfl, rfl, by decide, by decide, by decide, by decide, by decide, by decide,
      by decide, by decide⟩

variable {W D : Type*}

/-- What the fields of a listener say about the raw socket, by the next statement of
its thread. -/
structure Fields.Truthful (fields : Fields W) (w : W) (pc : SplitPc) : Prop where
  status : pc.unwritten = false → fields.status = 6 → fields.raw = .sock w
  accepting : pc.accepting = true → fields.raw = .sock w
  settingUp : pc.settingUp = true → fields.status ≠ 6

/-- Statements of the set-up that leave the raw socket alone. -/
theorem Fields.Truthful.of_settingUp {fields fields' : Fields W} {w : W} {pc pc' : SplitPc}
    (_ : fields.Truthful w pc) (hpc' : pc'.accepting = false)
    (hstatus : fields'.status ≠ 6) : fields'.Truthful w pc' where
  status := fun _ h => absurd h hstatus
  accepting := fun h => absurd (hpc'.symm.trans h) (by decide)
  settingUp := fun _ => hstatus

theorem Fields.Truthful.move {fields : Fields W} {w : W} {pc pc' : SplitPc}
    (h : fields.Truthful w pc) (hwritten : pc.unwritten = false)
    (haccepting : pc'.accepting = true → pc.accepting = true)
    (hsettingUp : pc'.settingUp = true → pc.settingUp = true) : fields.Truthful w pc' where
  status := fun _ => h.status hwritten
  accepting := fun h' => h.accepting (haccepting h')
  settingUp := fun h' => h.settingUp (hsettingUp h')

/-- The party that makes a step. -/
def Label.party : Label W D → W ⊕ D
  | .split w _ => .inl w
  | .remove d _ => .inr d

/-- The listener that the next step of a party passes to `rb_erase`. -/
def State.erasing (s : State W D) : W ⊕ D → Option ℕ
  | .inl w => if s.pc w = .erase then s.server w else none
  | .inr d => (s.remover d).erasing

/-- `rb_erase` is called on listeners that are linked. -/
def EraseLinked (s : State W D) (label : Label W D) : Prop :=
  ∀ l ∈ s.erasing label.party, s.Linked l

instance decidableEraseLinked (s : State W D) (label : Label W D) :
    Decidable (EraseLinked s label) :=
  inferInstanceAs (Decidable (∀ l ∈ s.erasing label.party, s.Linked l))

variable [DecidableEq W] [DecidableEq D]

/-- The kinds of steps. -/
inductive Effect (cfg : Config W D) (s : State W D) : Label W D → State W D → Prop
  | move (w : W) (act : Act) (pc' : SplitPc) (hmoves : (s.pc w).moves pc' = true) :
      Effect cfg s (.split w act) (s.setPc w pc')
  | alloc (w : W) (status : ℕ) (hpc : s.pc w = .alloc) :
      Effect cfg s (.split w (.slab status))
        { s.setPc w (.add s.next) with
          next := s.next + 1
          fields := Function.update s.fields s.next (newFields status) }
  | add (w : W) (l : ℕ) (root : BinaryTree CbnListner) (hpc : s.pc w = .add l)
      (hroot : (∃ this, addRbListner s.root ⟨l, cfg.mark w⟩ = .duplicate this) ∧
          root = s.root ∨
        ∃ linked, addRbListner s.root ⟨l, cfg.mark w⟩ = .linked linked ∧
          inorder root = inorder linked) (act : Act) :
      Effect cfg s (.split w act)
        { s.setPc w .registered with
          server := Function.update s.server w (some l)
          root := root }
  | access (w : W) (act : Act) (l : ℕ) (fields : Fields W) (sock : W → Sock)
      (pc' : SplitPc) (hserver : s.server w = some l)
      (hpc : (s.pc w).early = false ∧ s.pc w ≠ .free ∧ s.pc w ≠ .over)
      (hquiet : (s.pc w).quiet = true → s.pc w = .test ∧ act.isFail = true)
      (hpc' : pc'.early = false ∧ pc' ≠ .free ∧ pc' ≠ .over)
      (hfields : (s.fields l).Truthful w (s.pc w) → fields.Truthful w pc') :
      Effect cfg s (.split w act) { (s.access l fields).setPc w pc' with sock := sock }
  | erase (w : W) (act : Act) (l : ℕ) (root : BinaryTree CbnListner)
      (hserver : s.server w = some l) (hpc : s.pc w = .erase) (hlinked : s.Linked l)
      (hroot : inorder root = (inorder s.root).filter (·.id ≠ l)) :
      Effect cfg s (.split w act) ((s.unlink l root).setPc w .free)
  | free (w : W) (act : Act) (l : ℕ) (hserver : s.server w = some l) (hpc : s.pc w = .free) :
      Effect cfg s (.split w act) ((s.kmemCacheFree l).setPc w .out)
  | out (w : W) (act : Act) (sock : W → Sock) (hpc : s.pc w = .out) :
      Effect cfg s (.split w act) { s.setPc w .over with sock := sock }
  | remove (d : D) (act : Act) (sock : W → Sock) (pc' : RemovePc)
      (hfree : (s.remover d).freeing = none) (hfree' : pc'.freeing = none)
      (htarget : ∀ l, pc'.target = some l → (s.remover d).target = some l ∨ s.Linked l) :
      Effect cfg s (.remove d act) { s.setRemover d pc' with sock := sock }
  | removeErase (d : D) (act : Act) (l : ℕ) (root : BinaryTree CbnListner)
      (hpc : s.remover d = .erase l) (hlinked : s.Linked l)
      (hroot : inorder root = (inorder s.root).filter (·.id ≠ l)) :
      Effect cfg s (.remove d act) ((s.unlink l root).setRemover d (.free l))
  | removeFree (d : D) (act : Act) (l : ℕ) (pc' : RemovePc) (hpc : s.remover d = .free l)
      (hpc' : pc'.target = none) :
      Effect cfg s (.remove d act) ((s.kmemCacheFree l).setRemover d pc')

variable {cfg : Config W D} {s s' : State W D}

omit [DecidableEq W] [DecidableEq D] in
theorem erasing_of_pc {w : W} {l : ℕ} {act : Act} (hpc : s.pc w = .erase)
    (hserver : s.server w = some l) : s.erasing (Label.split (D := D) w act).party = some l := by
  rw [Label.party, State.erasing, if_pos hpc, hserver]

omit [DecidableEq W] [DecidableEq D] in
theorem erasing_of_remover {d : D} {l : ℕ} {act : Act} (hpc : s.remover d = .erase l) :
    s.erasing (Label.remove (W := W) d act).party = some l := by
  rw [Label.party, State.erasing, hpc]
  rfl

omit [DecidableEq D] in
/-- A shutdown changes at most the sockets. -/
theorem shutdown_eq (s : State W D) (l : ℕ) : ∃ sock, s.shutdown l = { s with sock := sock } := by
  unfold State.shutdown
  split
  · split
    · exact ⟨_, rfl⟩
    · exact ⟨_, rfl⟩
  · exact ⟨_, rfl⟩

omit [DecidableEq W] [DecidableEq D] in
/-- `rb_erase` of a listener that is linked. -/
theorem rbErase_of_linked {l : ℕ} {root : BinaryTree CbnListner} {s₁ : State W D}
    (hlinked : s.Linked l) (herase : s.rbErase l root = some s₁) :
    inorder root = (inorder s.root).filter (·.id ≠ l) ∧ s₁ = s.unlink l root := by
  rw [State.rbErase, if_pos hlinked] at herase
  split at herase <;> cases herase
  rename_i hroot
  exact ⟨hroot, rfl⟩

theorem effect_of_stepServer {w : W} {l : ℕ} {act : Act} (hserver : s.server w = some l)
    (hguard : s.pc w = .erase → s.Linked l)
    (hnext : stepServer s w l (s.pc w) act = some s') : Effect cfg s (.split w act) s' := by
  generalize hpc : s.pc w = pc at hnext
  have hmove : ∀ pc', pc.moves pc' = true → Effect cfg s (.split w act) (s.setPc w pc') :=
    fun pc' hmoves => .move w act pc' (hpc ▸ hmoves)
  have haccess : ∀ fields sock pc', (pc.early = false ∧ pc ≠ .free ∧ pc ≠ .over) →
      (pc.quiet = true → pc = .test ∧ act.isFail = true) →
      (pc'.early = false ∧ pc' ≠ .free ∧ pc' ≠ .over) →
      ((s.fields l).Truthful w pc → fields.Truthful w pc') →
      Effect cfg s (.split w act)
        { (s.access l fields).setPc w pc' with sock := sock } := by
    subst hpc
    exact fun fields sock pc' => .access w act l fields sock pc' hserver
  -- a statement of the set-up stores a status below six
  have hsetup : ∀ fields sock pc', (pc.early = false ∧ pc ≠ .free ∧ pc ≠ .over) →
      pc.quiet = false → (pc'.early = false ∧ pc' ≠ .free ∧ pc' ≠ .over) →
      pc'.accepting = false → ∀ status, fields.status = status → status ≠ 6 →
      Effect cfg s (.split w act)
        { (s.access l fields).setPc w pc' with sock := sock } :=
    fun fields sock pc' hlate hquiet hlate' haccepting status hstatus hne =>
      haccess fields sock pc' hlate (fun h => absurd (hquiet.symm.trans h) (by decide)) hlate'
        fun h => h.of_settingUp haccepting (hstatus ▸ hne)
  cases pc with
  | registered =>
      cases act <;> cases hnext
      exact hsetup _ s.sock _ (by decide) rfl (by decide) rfl 1 rfl (by decide)
  | sockCreate =>
      cases act <;> cases hnext
      · exact hsetup _ _ _ (by decide) rfl (by decide) rfl 2 rfl (by decide)
      · exact hmove _ rfl
  | setMark =>
      cases act <;> cases hnext
      · exact hsetup _ s.sock _ (by decide) rfl (by decide) rfl 3 rfl (by decide)
      · exact hmove _ rfl
  | bind =>
      cases act <;> cases hnext
      · exact hsetup _ s.sock _ (by decide) rfl (by decide) rfl 4 rfl (by decide)
      · exact hmove _ rfl
  | listen =>
      cases act <;> cases hnext
      · exact hsetup _ s.sock _ (by decide) rfl (by decide) rfl 5 rfl (by decide)
      · exact hmove _ rfl
  | createProbe =>
      cases act <;> cases hnext
      · exact haccess _ s.sock _ (by decide) (by decide) (by decide)
          fun _ => ⟨fun _ _ => rfl, fun _ => rfl, fun h => Bool.noConfusion h⟩
      · exact haccess _ s.sock _ (by decide) (by decide) (by decide)
          fun h => ⟨fun _ hsix => absurd hsix (h.settingUp rfl), fun h => Bool.noConfusion h,
            fun h => Bool.noConfusion h⟩
  | accept =>
      cases act with
      | ok =>
          simp only [stepServer] at hnext
          split at hnext <;> cases hnext
          exact hmove _ rfl
      | fail =>
          cases hnext
          exact hmove _ rfl
      | _ => cases hnext
  | test =>
      cases act <;> cases hnext
      · exact hmove _ rfl
      · exact haccess _ s.sock _ (by decide) (fun _ => ⟨rfl, rfl⟩) (by decide)
          fun h => ⟨fun _ _ => h.accepting rfl, fun h => Bool.noConfusion h,
            fun h => Bool.noConfusion h⟩
  | error =>
      cases act <;> cases hnext
      obtain ⟨sock, hsock⟩ := shutdown_eq (s.access l (s.fields l)) l
      rw [hsock]
      exact haccess _ sock _ (by decide) (by decide) (by decide)
        fun h => ⟨fun _ => h.status rfl, fun h => Bool.noConfusion h,
          fun h => Bool.noConfusion h⟩
  | erase =>
      cases act with
      | tree root =>
          obtain ⟨s₁, herase, rfl⟩ := Option.map_eq_some_iff.mp hnext
          obtain ⟨hroot, rfl⟩ := rbErase_of_linked (hguard hpc) herase
          exact .erase w _ l root hserver hpc (hguard hpc) hroot
      | _ => cases hnext
  | free =>
      cases act <;> cases hnext
      exact .free w _ l hserver hpc
  | _ => cases act <;> cases hnext

theorem effect_of_stepSplit {w : W} {act : Act} (hguard : EraseLinked s (.split w act))
    (hnext : stepSplit cfg s w (s.pc w) act = some s') : Effect cfg s (.split w act) s' := by
  generalize hpc : s.pc w = pc at hnext
  have hmove : ∀ pc', pc.moves pc' = true → Effect cfg s (.split w act) (s.setPc w pc') :=
    fun pc' hmoves => .move w act pc' (hpc ▸ hmoves)
  unfold stepSplit at hnext
  split at hnext
  case h_1 => split at hnext <;> cases hnext <;> exact hmove _ rfl
  case h_2 => cases hnext; exact .alloc w _ hpc
  case h_3 => cases hnext; exact hmove _ rfl
  case h_4 l root =>
    dsimp only at hnext
    split at hnext
    · rename_i this hadd
      cases hnext
      exact .add w l s.root hpc (.inl ⟨⟨this, hadd⟩, rfl⟩) _
    · rename_i linked hadd
      split at hnext <;> cases hnext
      rename_i hroot
      exact .add w l root hpc (.inr ⟨linked, hadd, hroot⟩) _
  case h_5 =>
    cases hnext
    split
    · exact .out w _ s.sock hpc
    · exact .out w _ _ hpc
  case h_6 =>
    split at hnext
    · rename_i l hserver
      exact effect_of_stepServer hserver
        (fun herase => hguard l (erasing_of_pc herase hserver)) (hpc ▸ hnext)
    · split at hnext <;> cases hnext
      rename_i herror
      subst herror
      exact hmove _ rfl

theorem effect_of_stepRemove {d : D} {act : Act} (hguard : EraseLinked s (.remove d act))
    (hnext : stepRemove cfg s d (s.remover d) act = some s') :
    Effect cfg s (.remove d act) s' := by
  generalize hpc : s.remover d = pc at hnext
  have hremove : ∀ sock pc', pc.freeing = none → pc'.freeing = none →
      (∀ l, pc'.target = some l → pc.target = some l ∨ s.Linked l) →
      Effect cfg s (.remove d act) { s.setRemover d pc' with sock := sock } := by
    subst hpc
    exact fun sock pc' => .remove d act sock pc'
  cases pc with
  | start =>
      cases act with
      | ok =>
          simp only [stepRemove] at hnext
          split at hnext
          · split at hnext <;> cases hnext
            · rename_i data hsearch
              refine hremove s.sock _ rfl rfl fun l htarget => .inr ?_
              cases htarget
              exact ⟨data, (searchRbListner_sound hsearch).1, rfl⟩
            · exact hremove s.sock _ rfl rfl fun l htarget => nomatch htarget
          · cases hnext
            exact hremove s.sock _ rfl rfl fun l htarget => nomatch htarget
      | pick l =>
          simp only [stepRemove] at hnext
          split at hnext
          · cases hnext
          · split at hnext <;> cases hnext
            rename_i hlinked
            refine hremove s.sock _ rfl rfl fun l htarget => .inr ?_
            cases htarget
            exact hlinked
      | _ => cases hnext
  | shutdown l =>
      cases act <;> cases hnext
      obtain ⟨sock, hsock⟩ := shutdown_eq s l
      rw [hsock]
      exact hremove sock _ rfl rfl fun _ htarget => .inl htarget
  | erase l =>
      cases act with
      | tree root =>
          obtain ⟨s₁, herase, rfl⟩ := Option.map_eq_some_iff.mp hnext
          have hlinked : s.Linked l := hguard l (erasing_of_remover hpc)
          obtain ⟨hroot, rfl⟩ := rbErase_of_linked hlinked herase
          exact .removeErase d _ l root hpc hlinked hroot
      | _ => cases hnext
  | free l =>
      cases act <;> cases hnext
      refine .removeFree d _ l _ hpc ?_
      split <;> rfl
  | _ => cases act <;> cases hnext

/-- A step is of one of the kinds. -/
theorem effect_of_next {label : Label W D} (hguard : EraseLinked s label)
    (hnext : (servers cfg).next s label = some s') : Effect cfg s label s' := by
  cases label with
  | split w act => exact effect_of_stepSplit hguard hnext
  | remove d act => exact effect_of_stepRemove hguard hnext

end KtcpSplit.Server
