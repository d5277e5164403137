import KtcpSplit.Core.ConnKey
import KtcpSplit.Lib.Transition

/-!
# The tree of pending connections

Each listener keeps one tree of pending QPs per CPU, sorted by `strncmp` over
the twelve key bytes.  `addRbData` and `DeTree` are the two operations on such
a tree.  `rb_insert_color` and `rb_erase` may restructure it in any way that
keeps the in-order sequence, so the tree after an operation is a choice of the
run and only its in-order sequence is fixed.
-/

namespace KtcpSplit.RbData

open KtcpSplit.ConnKey
open KtcpSplit.SearchTree
open KtcpSplit.Transition

variable {Qp : Type*}

/-- The comparison made at each node of the descent. -/
def compareKeys (key : Qp → Tuple) (data this : Qp) : ℤ :=
  strncmp (key data).key (key this).key rbKeyLength

/-- `add_rb_data`: a QP that is already there, or the tree with `data` linked,
before `rb_insert_color`. -/
def addRbData (key : Qp → Tuple) (root : BinaryTree Qp) (data : Qp) :
    Insertion Qp :=
  insert (compareKeys key data) data root

/-- `rb_insert_color` turns `linked` into `root`. -/
def InsertColor (linked root : BinaryTree Qp) : Prop :=
  inorder root = inorder linked

/-- `de_tree_qp` on a node of `before` turns it into `after`.  Nothing is known of
what `rb_erase` makes of a tree from a node that is not linked in it. -/
def DeTree [DecidableEq Qp] (data : Qp) (before after : BinaryTree Qp) : Prop :=
  data ∈ inorder before ∧ inorder after = (inorder before).erase data

instance [DecidableEq Qp] (linked root : BinaryTree Qp) :
    Decidable (InsertColor linked root) :=
  inferInstanceAs (Decidable (inorder root = inorder linked))

instance [DecidableEq Qp] (data : Qp) (before after : BinaryTree Qp) :
    Decidable (DeTree data before after) :=
  inferInstanceAs (Decidable (_ ∧ _))

theorem compareKeys_threeWay (key : Qp → Tuple) :
    ThreeWay (compareKeys key) :=
  strncmp_threeWay (fun qp => (key qp).key) rbKeyLength

theorem compareKeys_eq_zero_iff (key : Qp → Tuple) (data this : Qp) :
    compareKeys key data this = 0 ↔
      cString rbKeyLength (key data).key = cString rbKeyLength (key this).key :=
  strncmp_eq_zero_iff (key data).length_key (key this).length_key

/-- The in-order sequence is strictly increasing under the comparison of the
code. -/
abbrev KeyOrdered (key : Qp → Tuple) (root : BinaryTree Qp) : Prop :=
  Ordered (compareKeys key) root

theorem addRbData_duplicate_sound {key : Qp → Tuple} {root : BinaryTree Qp}
    {data this : Qp} (hadd : addRbData key root data = .duplicate this) :
    this ∈ inorder root ∧ compareKeys key data this = 0 :=
  search_sound (insert_eq_duplicate_iff.mp hadd)

/-- On an ordered tree the returned QP is the node that compares equal. -/
theorem addRbData_eq_duplicate_iff {key : Qp → Tuple} {root : BinaryTree Qp}
    (hordered : KeyOrdered key root) {data this : Qp} :
    addRbData key root data = .duplicate this ↔
      this ∈ inorder root ∧ compareKeys key data this = 0 := by
  constructor
  · exact addRbData_duplicate_sound
  · rintro ⟨hmem, hzero⟩
    exact insert_eq_duplicate_iff.mpr (search_complete
      (hordered.guided (compareKeys_threeWay key) data) hmem hzero)

theorem mem_of_addRbData_linked {key : Qp → Tuple}
    {root linked root' : BinaryTree Qp} {data : Qp}
    (hadd : addRbData key root data = .linked linked)
    (hcolor : InsertColor linked root') (qp : Qp) :
    qp ∈ inorder root' ↔ qp = data ∨ qp ∈ inorder root := by
  rw [hcolor]
  exact mem_inorder_of_linked hadd qp

theorem KeyOrdered.add {key : Qp → Tuple} {root linked root' : BinaryTree Qp}
    {data : Qp} (hordered : KeyOrdered key root)
    (hadd : addRbData key root data = .linked linked)
    (hcolor : InsertColor linked root') : KeyOrdered key root' :=
  (Ordered.insert (compareKeys_threeWay key) hordered hadd).of_inorder_eq hcolor

/-! ## The two halves of a connection meet -/

/-- A QP of the tree with the same twelve bytes stops the descent. -/
theorem addRbData_of_key_eq {key : Qp → Tuple} {root : BinaryTree Qp}
    (hordered : KeyOrdered key root) {data this : Qp} (hmem : this ∈ inorder root)
    (hkey : (key this).key = (key data).key) :
    addRbData key root data = .duplicate this := by
  rw [addRbData_eq_duplicate_iff hordered, compareKeys_eq_zero_iff, hkey]
  exact ⟨hmem, rfl⟩

/-- QPs in sequence compare less, so they do not have the same bytes. -/
theorem KeyOrdered.pairwise_key_ne {key : Qp → Tuple} {root : BinaryTree Qp}
    (hordered : KeyOrdered key root) :
    (inorder root).Pairwise fun a b => (key a).key ≠ (key b).key := by
  apply List.Pairwise.imp _ hordered
  intro a b hlt hkey
  have hzero : compareKeys key a b = 0 := by
    rw [compareKeys_eq_zero_iff, hkey]
  omega

/-! ## All trees that the two operations can build -/

section Runs

variable [DecidableEq Qp]

inductive TreeOp (Qp : Type*)
  | add (data : Qp) (root : BinaryTree Qp)
  | deTree (data : Qp) (root : BinaryTree Qp)

/-- One locked operation on the tree. -/
def treeStep (key : Qp → Tuple) (before : BinaryTree Qp) :
    TreeOp Qp → Option (BinaryTree Qp)
  | .add data root =>
      match addRbData key before data with
      | .duplicate _ => some before
      | .linked linked => if InsertColor linked root then some root else none
  | .deTree data root =>
      if DeTree data before root then some root else none

def treeMachine (key : Qp → Tuple) : Machine (BinaryTree Qp) (TreeOp Qp) where
  init := .nil
  next := treeStep key

theorem treeStep_ordered {key : Qp → Tuple} {before after : BinaryTree Qp}
    {op : TreeOp Qp} (hordered : KeyOrdered key before)
    (hstep : treeStep key before op = some after) : KeyOrdered key after := by
  cases op with
  | add data root =>
      simp only [treeStep] at hstep
      cases hadd : addRbData key before data with
      | duplicate this =>
          simp only [hadd, Option.some.injEq] at hstep
          exact hstep ▸ hordered
      | linked linked =>
          simp only [hadd, Option.ite_none_right_eq_some, Option.some.injEq] at hstep
          obtain ⟨hcolor, rfl⟩ := hstep
          exact hordered.add hadd hcolor
  | deTree data root =>
      simp only [treeStep, Option.ite_none_right_eq_some, Option.some.injEq] at hstep
      obtain ⟨⟨-, herase⟩, rfl⟩ := hstep
      exact Ordered.erase hordered herase

theorem treeMachine_ordered {key : Qp → Tuple} {root : BinaryTree Qp}
    (hreach : (treeMachine key).Reachable root) : KeyOrdered key root :=
  hreach.invariant (P := KeyOrdered key) ordered_nil
    fun _ _ _ _ hordered _ hstep => treeStep_ordered hordered hstep

/-- The QP that `add_rb_data` returns has the key of the new one exactly when
no QP of the tree agrees with it up to the first zero byte only. -/
theorem returned_key_eq_iff {key : Qp → Tuple} {root : BinaryTree Qp}
    (hreach : (treeMachine key).Reachable root) (data : Qp) :
    (∀ this, addRbData key root data = .duplicate this →
        (key this).key = (key data).key) ↔
      ∀ this ∈ inorder root,
        cString rbKeyLength (key data).key = cString rbKeyLength (key this).key →
          (key this).key = (key data).key := by
  have hordered := treeMachine_ordered hreach
  constructor
  · intro hreturned this hmem hprefix
    apply hreturned this
    rw [addRbData_eq_duplicate_iff hordered, compareKeys_eq_zero_iff]
    exact ⟨hmem, hprefix⟩
  · intro hprefix this hadd
    obtain ⟨hmem, hzero⟩ := addRbData_duplicate_sound hadd
    exact hprefix this hmem ((compareKeys_eq_zero_iff key data this).mp hzero)

/-- Whatever was added and removed before, a QP whose key is in the tree is not
inserted again, no two QPs of the tree have the same key, and the tree stays
ordered. -/
theorem equal_keys_meet (key : Qp → Tuple) (root : BinaryTree Qp)
    (hreach : (treeMachine key).Reachable root) :
    (∀ data, (∃ this ∈ inorder root, (key this).key = (key data).key) →
        (∃ this ∈ inorder root, addRbData key root data = .duplicate this) ∧
          ∀ after, treeStep key root (.add data after) = some root) ∧
      ((inorder root).Pairwise fun a b => (key a).key ≠ (key b).key) ∧
      KeyOrdered key root := by
  have hordered := treeMachine_ordered hreach
  refine ⟨?_, hordered.pairwise_key_ne, hordered⟩
  rintro data ⟨this, hmem, hkey⟩
  have hadd := addRbData_of_key_eq hordered hmem hkey
  refine ⟨⟨this, hmem, hadd⟩, fun after => ?_⟩
  simp only [treeStep, hadd]

/-- The RX half finds the TX half after an unrelated QP was removed. -/
theorem equal_keys_meet_pair :
    let tuple : Byte → Tuple := fun b => ⟨⟨48, b⟩, ⟨31, 144⟩, ⟨10, 1, 1, 1⟩, ⟨10, 1, 1, 2⟩⟩
    let key : ℕ → Tuple := fun qp => tuple (if qp = 1 then 58 else 57)
    ∃ root, inorder root = [0] ∧
      ∃ this ∈ inorder root, addRbData key root 2 = .duplicate this := by
  intro tuple key
  obtain ⟨root, hreach, hroot⟩ := Machine.exists_reachable_of_run (treeMachine key)
    (fun _ _ => True)
    [.add 0 (.node 0 .nil .nil), .add 1 (.node 1 (.node 0 .nil .nil) .nil),
      .deTree 1 (.node 0 .nil .nil)]
    inorder [0] (by decide +kernel)
  refine ⟨root, hroot, ((equal_keys_meet key root hreach).1 2 ⟨0, ?_, rfl⟩).1⟩
  rw [hroot]
  exact List.mem_singleton_self 0

end Runs

end KtcpSplit.RbData
