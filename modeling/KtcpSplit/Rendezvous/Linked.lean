import KtcpSplit.Rendezvous.Owners

/-!
# The trees of the rendezvous

As long as `rb_erase` is called on linked nodes only, every tree stays ordered, and
every QP is linked in the tree of its listener and of the CPU that inserted it, from
its insertion to the `rb_erase` on it.
-/

namespace KtcpSplit.Rendezvous

open KtcpSplit.ConnKey
open KtcpSplit.Listner
open KtcpSplit.RbData
open KtcpSplit.SearchTree
open KtcpSplit.Transition

variable {W : Type*}

/-- The tree that a QP was linked in. -/
def State.home (s : State W) (q : ℕ) : CbnListner × BitVec 32 :=
  connectionsRoot (s.cpuOf q) (s.heap q)

def State.tupleOf (s : State W) (q : ℕ) : Tuple := (s.heap q).tuple

/-- The node is linked in the tree that its QP belongs to. -/
def InTree (s : State W) (q : ℕ) : Prop :=
  q ∈ inorder (s.root (s.home q))

instance (s : State W) (q : ℕ) : Decidable (InTree s q) :=
  inferInstanceAs (Decidable (q ∈ _))

structure Linked (cfg : Config W) (s : State W) : Prop where
  home : ∀ i q, q ∈ inorder (s.root i) → i = s.home q
  ordered : ∀ i, KeyOrdered s.tupleOf (s.root i)
  owner_listner : ∀ w q dir, w ∈ s.owners q dir →
    (cfg.worker w).listner = (s.heap q).listner
  linked_iff : ∀ q, q < s.next → (InTree s q ↔ s.erased q = 0)
  not_erased : ∀ q, s.next ≤ q → s.erased q = 0
  stray : ∀ q, s.stray q = 0

variable {cfg : Config W} {s s' : State W} {w : W} {act : Act} {q : ℕ}

theorem Linked.nodup (hlinked : Linked cfg s) (i : CbnListner × BitVec 32) :
    (inorder (s.root i)).Nodup :=
  (hlinked.ordered i).nodup (compareKeys_threeWay _)

theorem Linked.inTree (hlinked : Linked cfg s) {i : CbnListner × BitVec 32}
    (hmem : q ∈ inorder (s.root i)) : InTree s q := by
  rw [InTree, ← hlinked.home i q hmem]
  exact hmem

theorem Linked.erased_eq_zero (howned : Owned cfg s) (hlinked : Linked cfg s)
    {i : CbnListner × BitVec 32} (hmem : q ∈ inorder (s.root i)) :
    s.erased q = 0 :=
  (hlinked.linked_iff q (howned.root_lt i q hmem)).mp (hlinked.inTree hmem)

/-! ## The search of `add_rb_data` -/

section AddPqp

/-- The record that is looked up, among those of the heap. -/
def withPqp (cfg : Config W) (s : State W) (w : W) (fn : Fn) : ℕ → Tuple :=
  fun q => ((Function.update s.heap s.next (cfg.pqp w fn)) q).tuple

theorem withPqp_next (fn : Fn) :
    withPqp cfg s w fn s.next = (cfg.worker w).tuple := by
  simp [withPqp, Config.pqp]

theorem withPqp_of_lt {fn : Fn} (hq : q < s.next) :
    withPqp cfg s w fn q = s.tupleOf q := by
  simp [withPqp, State.tupleOf, hq.ne]

theorem ordered_withPqp (howned : Owned cfg s) (hlinked : Linked cfg s) (fn : Fn)
    (i : CbnListner × BitVec 32) : KeyOrdered (withPqp cfg s w fn) (s.root i) := by
  apply (hlinked.ordered i).congr
  intro a ha b hb
  simp only [compareKeys, withPqp_of_lt (howned.root_lt i a ha),
    withPqp_of_lt (howned.root_lt i b hb)]

/-- `add_rb_data` returns the QP of the tree that agrees with the worker's key
up to the first zero byte. -/
theorem addPqp_eq_duplicate_iff (howned : Owned cfg s) (hlinked : Linked cfg s)
    {fn : Fn} {cpu : BitVec 32} : addPqp cfg s w fn cpu = .duplicate q ↔
      q ∈ inorder (s.root (connectionsRoot cpu (cfg.pqp w fn))) ∧
        cString rbKeyLength (cfg.worker w).tuple.key =
          cString rbKeyLength (s.tupleOf q).key := by
  have hadd : addPqp cfg s w fn cpu = .duplicate q ↔ _ :=
    addRbData_eq_duplicate_iff (ordered_withPqp (w := w) howned hlinked fn
      (connectionsRoot cpu (cfg.pqp w fn)))
  refine Iff.trans hadd (and_congr_right fun hmem => ?_)
  rw [compareKeys_eq_zero_iff, withPqp_next,
    withPqp_of_lt (howned.root_lt _ _ hmem)]

end AddPqp

/-! ## Steps -/

theorem Linked.init [DecidableEq W] : Linked cfg (rendezvous cfg).init := by
  constructor <;> simp [rendezvous, KeyOrdered, Ordered]

/-- Steps that leave the trees, the owners and the names of QPs alone. -/
theorem Linked.of_eq (hlinked : Linked cfg s)
    (htuple : ∀ q, (s'.heap q).tuple = (s.heap q).tuple)
    (hlistner : ∀ q, (s'.heap q).listner = (s.heap q).listner)
    (hnext : s'.next = s.next) (hroot : s'.root = s.root)
    (howners : s'.owners = s.owners) (herased : s'.erased = s.erased)
    (hstray : s'.stray = s.stray) (hcpu : s'.cpuOf = s.cpuOf) : Linked cfg s' := by
  have hhome : ∀ q, s'.home q = s.home q := by
    intro q
    rw [State.home, State.home, connectionsRoot, connectionsRoot, hlistner, hcpu]
  have htupleOf : s'.tupleOf = s.tupleOf := funext htuple
  constructor
  · intro i q hmem
    rw [hhome]
    exact hlinked.home i q (hroot ▸ hmem)
  · intro i
    rw [htupleOf, hroot]
    exact hlinked.ordered i
  · intro w q dir howner
    rw [hlistner]
    exact hlinked.owner_listner w q dir (howners ▸ howner)
  · intro q hq
    rw [InTree, hhome, hroot, herased]
    exact hlinked.linked_iff q (hnext ▸ hq)
  · intro q hq
    rw [herased]
    exact hlinked.not_erased q (hnext ▸ hq)
  · intro q
    rw [hstray]
    exact hlinked.stray q

/-- An owner is the worker that joined the QP, or was one before. -/
theorem mem_owners_join {w' : W} {q' : ℕ} {dir dir' : Dir} (pqp : Qp W)
    (howner : w' ∈ (s.join w q dir pqp).owners q' dir') :
    (w' = w ∧ q' = q) ∨ w' ∈ s.owners q' dir' := by
  simp only [State.join, setAt_apply] at howner
  split at howner
  · rename_i heq
    rcases List.mem_cons.mp howner with rfl | hold
    · exact .inl ⟨rfl, heq.1⟩
    · exact .inr (by rwa [heq.1, heq.2])
  · exact .inr howner

variable [DecidableEq W]

theorem Linked.join (howned : Owned cfg s) (hlinked : Linked cfg s) {fn : Fn}
    {cpu : BitVec 32} (hadd : addPqp cfg s w fn cpu = .duplicate q) :
    Linked cfg ((s.join w q fn.dir (cfg.pqp w fn)).setThread w
      ⟨fn, fn.proceed q⟩) := by
  have hmem := ((addPqp_eq_duplicate_iff howned hlinked).mp hadd).1
  have hhome : (cfg.pqp w fn).listner = (s.heap q).listner :=
    congrArg Prod.fst (hlinked.home _ _ hmem)
  have htuple : ∀ q', ((s.join w q fn.dir (cfg.pqp w fn)).heap q').tuple =
      (s.heap q').tuple := by
    intro q'
    by_cases hq : q' = q <;> simp [State.join, State.store, State.setQp, hq]
  have hlistner : ∀ q', ((s.join w q fn.dir (cfg.pqp w fn)).heap q').listner =
      (s.heap q').listner := by
    intro q'
    by_cases hq : q' = q <;> simp [State.join, State.store, State.setQp, hq]
  -- the joined QP gains an owner, everything else is as before
  have hsame : Linked cfg { (s.join w q fn.dir (cfg.pqp w fn)) with
      owners := s.owners } :=
    hlinked.of_eq htuple hlistner rfl rfl rfl rfl rfl rfl
  refine { hsame with owner_listner := ?listner }
  intro w' q' dir howner
  rcases mem_owners_join (cfg.pqp w fn) howner with ⟨rfl, rfl⟩ | hold
  · exact hhome.trans (hlistner q').symm
  · exact hsame.owner_listner w' q' dir hold

theorem Linked.link (howned : Owned cfg s) (hlinked : Linked cfg s) {fn : Fn}
    {cpu : BitVec 32} {root linked : BinaryTree ℕ}
    (hadd : addPqp cfg s w fn cpu = .linked linked)
    (hcolor : InsertColor linked root) :
    Linked cfg ((s.link w fn.dir (cfg.pqp w fn) cpu root).setThread w
      ⟨fn, fn.proceed s.next⟩) := by
  have hmem := mem_of_addRbData_linked hadd hcolor
  have hrootLt := howned.root_lt
  constructor
  case home =>
    intro i q' hq'
    simp only [State.home, State.setThread, State.link, State.setQp,
      Function.update_apply] at hq' ⊢
    by_cases hnext : q' = s.next
    · subst hnext
      rw [if_pos rfl, if_pos rfl]
      split at hq'
      · rename_i hi
        exact hi
      · exact absurd (hrootLt _ _ hq') (lt_irrefl _)
    · rw [if_neg hnext, if_neg hnext]
      split at hq'
      · rename_i hi
        subst hi
        exact hlinked.home _ _ (((hmem q').mp hq').resolve_left hnext)
      · exact hlinked.home _ _ hq'
  case ordered =>
    intro i
    have hold := ordered_withPqp (w := w) howned hlinked fn
    simp only [State.setThread, State.link, Function.update_apply]
    split
    · exact (hold _).add hadd hcolor
    · exact hold i
  case owner_listner =>
    intro w' q' dir howner
    simp only [State.setThread, State.link, State.setQp, Function.update_apply]
    rcases howned.owner_of_link howner with ⟨rfl, rfl⟩ | ⟨hne, hold⟩
    · simp [Config.pqp]
    · rw [if_neg hne]
      exact hlinked.owner_listner w' q' dir hold
  case linked_iff =>
    intro q' hq'
    simp only [InTree, State.home, State.setThread, State.link, State.setQp,
      Function.update_apply] at hq' ⊢
    by_cases hnext : q' = s.next
    · subst hnext
      simp only [if_true]
      exact iff_of_true ((hmem _).mpr (.inl rfl)) (hlinked.not_erased _ le_rfl)
    · rw [if_neg hnext, if_neg hnext]
      have hold := hlinked.linked_iff q' (by omega)
      rw [InTree, State.home] at hold
      split
      · rename_i hhome
        rw [hmem, ← hhome, hold]
        exact or_iff_right hnext
      · exact hold
  case not_erased =>
    intro q' hq'
    exact hlinked.not_erased q' (Nat.le_of_succ_le hq')
  case stray => exact hlinked.stray

theorem Linked.erase (howned : Owned cfg s) (hlinked : Linked cfg s)
    {i : CbnListner × BitVec 32} {root : BinaryTree ℕ} {thread : Thread}
    (herase : DeTree q (s.root i) root) :
    Linked cfg ((s.unlink q i root).setThread w thread) := by
  obtain ⟨hlinks, hde⟩ := herase
  have hlt := howned.root_lt i q hlinks
  obtain rfl := hlinked.home i q hlinks
  have hmem : ∀ q', q' ∈ inorder root ↔
      q' ≠ q ∧ q' ∈ inorder (s.root (s.home q)) := by
    intro q'
    rw [hde]
    exact (hlinked.nodup _).mem_erase_iff
  refine { hlinked with
    home := ?home, ordered := ?ordered, linked_iff := ?linked
    not_erased := ?notErased }
  all_goals simp only [State.setThread, State.unlink, Function.update_apply]
  case home =>
    intro i q' hq'
    split at hq'
    · rename_i hi
      subst hi
      exact hlinked.home _ _ ((hmem q').mp hq').2
    · exact hlinked.home _ _ hq'
  case ordered =>
    intro i
    by_cases hi : i = s.home q
    · rw [if_pos hi]
      exact Ordered.erase (hlinked.ordered (s.home q)) hde
    · rw [if_neg hi]
      exact hlinked.ordered i
  case linked =>
    intro q' hq'
    have hold := hlinked.linked_iff q' hq'
    simp only [InTree, State.home, Function.update_apply] at hold ⊢
    by_cases hq : q' = q
    · subst hq
      simp [State.home, hmem]
    · rw [if_neg hq]
      split
      · rename_i heq
        rw [hmem, ← hold, heq]
        exact and_iff_right hq
      · exact hold
  case notErased =>
    intro q' hq'
    rw [if_neg (by omega)]
    exact hlinked.not_erased q' hq'

theorem Linked.step (howned : Owned cfg s) (hlinked : Linked cfg s)
    (hstep : Step cfg s w act s') : Linked cfg s' := by
  cases hstep with
  | move _ =>
      exact hlinked.of_eq (fun _ => rfl) (fun _ => rfl) rfl rfl rfl rfl rfl rfl
  | join _ _ hadd _ => exact hlinked.join howned hadd
  | link _ _ hadd hcolor => exact hlinked.link howned hadd hcolor
  | store _ =>
      refine hlinked.of_eq ?_ ?_ rfl rfl rfl rfl rfl rfl <;> intro q' <;>
        simp only [State.setThread, State.store, State.setQp,
          Function.update_apply] <;> split <;> simp_all
  | get _ =>
      refine hlinked.of_eq ?_ ?_ rfl rfl rfl rfl rfl rfl <;> intro q' <;>
        simp only [State.setThread, State.getQp, State.setHeld, State.setQp,
          Function.update_apply] <;> split <;> simp_all
  | erase _ _ herase => exact hlinked.erase howned herase
  | put _ _ =>
      refine hlinked.of_eq ?_ ?_ rfl rfl rfl rfl rfl rfl <;> intro q' <;>
        simp only [State.setThread, State.putQp, State.setHeld, State.setQp,
          Function.update_apply] <;> split <;> simp_all

theorem linked_of_reachable (hreach : (rendezvous cfg).ReachableUnder EraseLinked s) :
    Linked cfg s :=
  hreach.invariant (P := Linked cfg) Linked.init
    fun _ _ _ hbefore hlinked hguard hnext =>
      hlinked.step (owned_of_reachable hbefore) (step_of_next hguard hnext)

end KtcpSplit.Rendezvous
