import Mathlib.Data.Int.Notation
import Mathlib.Data.Tree.Basic
import Mathlib.Data.List.Basic
import Mathlib.Tactic.Common

/-!
# Search trees driven by a three-way comparison

A descent through a binary tree that follows the sign of a comparison result,
the way an intrusive tree is searched in C: negative goes left, positive goes
right, zero stops.  The comparison is an arbitrary integer-valued function, so
nothing here assumes that it comes from an order.  Rebalancing is only known by
what it keeps, the in-order sequence.
-/

namespace KtcpSplit.SearchTree

variable {α : Type*}

def inorder : BinaryTree α → List α
  | .nil => []
  | .node value left right => inorder left ++ value :: inorder right

@[simp]
theorem inorder_nil : inorder (.nil : BinaryTree α) = [] := rfl

@[simp]
theorem inorder_node (value : α) (left right : BinaryTree α) :
    inorder (.node value left right) =
      inorder left ++ value :: inorder right := rfl

/-- Every sequence is that of some tree. -/
theorem exists_inorder (values : List α) : ∃ tree, inorder tree = values := by
  induction values with
  | nil => exact ⟨.nil, rfl⟩
  | cons value values ih =>
      obtain ⟨tree, rfl⟩ := ih
      exact ⟨.node value .nil tree, rfl⟩

/-- Descend by the sign of `cmp this`, the result of comparing the key that is
looked for with the node `this`. -/
def search (cmp : α → ℤ) : BinaryTree α → Option α
  | .nil => none
  | .node this left right =>
      if cmp this < 0 then search cmp left
      else if 0 < cmp this then search cmp right
      else some this

/-- An insertion either stops at a node that compares equal or links a leaf. -/
inductive Insertion (α : Type*)
  | duplicate (this : α)
  | linked (root : BinaryTree α)
  deriving DecidableEq

def Insertion.mapRoot (f : BinaryTree α → BinaryTree α) :
    Insertion α → Insertion α
  | .duplicate this => .duplicate this
  | .linked root => .linked (f root)

def insert (cmp : α → ℤ) (data : α) : BinaryTree α → Insertion α
  | .nil => .linked (.node data .nil .nil)
  | .node this left right =>
      if cmp this < 0 then
        (insert cmp data left).mapRoot fun root => .node this root right
      else if 0 < cmp this then
        (insert cmp data right).mapRoot fun root => .node this left root
      else .duplicate this

/-- The search key splits the in-order sequence: past a node that it does not
exceed it is below every node. -/
def Guided (cmp : α → ℤ) (tree : BinaryTree α) : Prop :=
  (inorder tree).Pairwise fun a b => cmp a ≤ 0 → cmp b < 0

theorem search_sound {cmp : α → ℤ} {tree : BinaryTree α} {this : α}
    (hsearch : search cmp tree = some this) :
    this ∈ inorder tree ∧ cmp this = 0 := by
  induction tree with
  | nil => simp [search] at hsearch
  | node value left right ihLeft ihRight =>
      simp only [search] at hsearch
      by_cases hneg : cmp value < 0
      · rw [if_pos hneg] at hsearch
        obtain ⟨hmem, hzero⟩ := ihLeft hsearch
        exact ⟨by simp [hmem], hzero⟩
      rw [if_neg hneg] at hsearch
      by_cases hpos : 0 < cmp value
      · rw [if_pos hpos] at hsearch
        obtain ⟨hmem, hzero⟩ := ihRight hsearch
        exact ⟨by simp [hmem], hzero⟩
      rw [if_neg hpos] at hsearch
      cases hsearch
      exact ⟨by simp, by omega⟩

/-- On a guided tree every node that compares equal is found. -/
theorem search_complete {cmp : α → ℤ} {tree : BinaryTree α}
    (hguided : Guided cmp tree) {this : α} (hmem : this ∈ inorder tree)
    (hzero : cmp this = 0) : search cmp tree = some this := by
  induction tree with
  | nil => simp at hmem
  | node value left right ihLeft ihRight =>
      simp only [Guided, inorder_node, List.pairwise_append,
        List.pairwise_cons] at hguided
      obtain ⟨hleft, ⟨hvalue, hright⟩, hcross⟩ := hguided
      simp only [inorder_node, List.mem_append, List.mem_cons] at hmem
      rcases hmem with hmem | rfl | hmem
      · have hneg : cmp value < 0 :=
          hcross this hmem value List.mem_cons_self (by omega)
        simp only [search, if_pos hneg]
        exact ihLeft hleft hmem
      · simp [search, hzero]
      · have hpos : 0 < cmp value := by
          by_contra hle
          have := hvalue this hmem (by omega)
          omega
        have hneg : ¬ cmp value < 0 := by omega
        simp only [search, if_neg hneg, if_pos hpos]
        exact ihRight hright hmem

/-- An insertion reports a duplicate exactly when the search finds one. -/
theorem insert_eq_duplicate_iff {cmp : α → ℤ} {data this : α}
    {tree : BinaryTree α} :
    insert cmp data tree = .duplicate this ↔ search cmp tree = some this := by
  induction tree with
  | nil => simp [insert, search]
  | node value left right ihLeft ihRight =>
      simp only [insert, search]
      split_ifs
      · rw [← ihLeft]
        cases insert cmp data left <;> simp [Insertion.mapRoot]
      · rw [← ihRight]
        cases insert cmp data right <;> simp [Insertion.mapRoot]
      · simp

/-- A linked node sits between the nodes that precede it and those that
follow it; on a guided tree these are separated by the comparison. -/
theorem insert_linked {cmp : α → ℤ} {data : α} {tree root : BinaryTree α}
    (hinsert : insert cmp data tree = .linked root) :
    ∃ before after, inorder tree = before ++ after ∧
      inorder root = before ++ data :: after ∧
      (Guided cmp tree →
        (∀ a ∈ before, 0 < cmp a) ∧ ∀ b ∈ after, cmp b < 0) := by
  induction tree generalizing root with
  | nil =>
      simp only [insert, Insertion.linked.injEq] at hinsert
      subst hinsert
      exact ⟨[], [], rfl, rfl, by simp⟩
  | node value left right ihLeft ihRight =>
      simp only [insert] at hinsert
      by_cases hneg : cmp value < 0
      · rw [if_pos hneg] at hinsert
        cases hleft : insert cmp data left with
        | duplicate this => simp [hleft, Insertion.mapRoot] at hinsert
        | linked root' =>
            simp only [hleft, Insertion.mapRoot, Insertion.linked.injEq] at hinsert
            subst hinsert
            obtain ⟨before, after, hold, hnew, hsep⟩ := ihLeft hleft
            refine ⟨before, after ++ value :: inorder right, by simp [hold],
              by simp [hnew], fun hguided => ?_⟩
            simp only [Guided, inorder_node, List.pairwise_append,
              List.pairwise_cons] at hguided
            obtain ⟨hgl, ⟨hvalue, -⟩, -⟩ := hguided
            refine ⟨(hsep hgl).1, fun b hb => ?_⟩
            simp only [List.mem_append, List.mem_cons] at hb
            rcases hb with hb | rfl | hb
            · exact (hsep hgl).2 b hb
            · exact hneg
            · exact hvalue b hb (by omega)
      rw [if_neg hneg] at hinsert
      by_cases hpos : 0 < cmp value
      · rw [if_pos hpos] at hinsert
        cases hright : insert cmp data right with
        | duplicate this => simp [hright, Insertion.mapRoot] at hinsert
        | linked root' =>
            simp only [hright, Insertion.mapRoot, Insertion.linked.injEq] at hinsert
            subst hinsert
            obtain ⟨before, after, hold, hnew, hsep⟩ := ihRight hright
            refine ⟨inorder left ++ value :: before, after, by simp [hold],
              by simp [hnew], fun hguided => ?_⟩
            simp only [Guided, inorder_node, List.pairwise_append,
              List.pairwise_cons] at hguided
            obtain ⟨-, ⟨-, hgr⟩, hcross⟩ := hguided
            refine ⟨fun a ha => ?_, (hsep hgr).2⟩
            simp only [List.mem_append, List.mem_cons] at ha
            rcases ha with ha | rfl | ha
            · by_contra hle
              have := hcross a ha value List.mem_cons_self (by omega)
              omega
            · exact hpos
            · exact (hsep hgr).1 a ha
      · rw [if_neg hpos] at hinsert
        cases hinsert

theorem mem_inorder_of_linked {cmp : α → ℤ} {data : α}
    {tree root : BinaryTree α}
    (hinsert : insert cmp data tree = .linked root) (a : α) :
    a ∈ inorder root ↔ a = data ∨ a ∈ inorder tree := by
  obtain ⟨before, after, hold, hnew, -⟩ := insert_linked hinsert
  simp only [hold, hnew, List.mem_append, List.mem_cons]
  tauto

/-! ## Trees ordered by a lawful comparison -/

section Ordered

variable {compare : α → α → ℤ}

/-- The laws of a comparison that identifies some values and orders the rest. -/
structure ThreeWay (compare : α → α → ℤ) : Prop where
  swap : ∀ a b, compare a b < 0 ↔ 0 < compare b a
  trans : ∀ a b c, compare a b ≤ 0 → compare b c < 0 → compare a c < 0

def Ordered (compare : α → α → ℤ) (tree : BinaryTree α) : Prop :=
  (inorder tree).Pairwise fun a b => compare a b < 0

theorem ordered_nil : Ordered compare (.nil : BinaryTree α) := List.Pairwise.nil

theorem Ordered.guided (hlaw : ThreeWay compare) {tree : BinaryTree α}
    (hordered : Ordered compare tree) (key : α) : Guided (compare key) tree :=
  hordered.imp fun {_ _} hlt hle => hlaw.trans _ _ _ hle hlt

theorem Ordered.of_inorder_eq {tree tree' : BinaryTree α}
    (hordered : Ordered compare tree) (hinorder : inorder tree' = inorder tree) :
    Ordered compare tree' := by
  rw [Ordered, hinorder]
  exact hordered

/-- A value that occurs twice would compare below itself. -/
theorem Ordered.nodup (hlaw : ThreeWay compare) {tree : BinaryTree α}
    (hordered : Ordered compare tree) : (inorder tree).Nodup := by
  apply List.Pairwise.imp _ hordered
  rintro a b hlt rfl
  have hgt := (hlaw.swap a a).mp hlt
  omega

theorem Ordered.congr {compare' : α → α → ℤ} {tree : BinaryTree α}
    (hordered : Ordered compare tree)
    (heq : ∀ a ∈ inorder tree, ∀ b ∈ inorder tree, compare' a b = compare a b) :
    Ordered compare' tree := by
  apply List.Pairwise.imp_of_mem _ hordered
  intro a b ha hb hlt
  rw [heq a ha b hb]
  exact hlt

theorem Ordered.insert (hlaw : ThreeWay compare) {tree root : BinaryTree α}
    {data : α} (hordered : Ordered compare tree)
    (hinsert : SearchTree.insert (compare data) data tree = .linked root) :
    Ordered compare root := by
  obtain ⟨before, after, hold, hnew, hsep⟩ := insert_linked hinsert
  obtain ⟨hbefore, hafter⟩ := hsep (hordered.guided hlaw data)
  rw [Ordered, hold, List.pairwise_append] at hordered
  obtain ⟨hb, ha, hcross⟩ := hordered
  rw [Ordered, hnew, List.pairwise_append, List.pairwise_cons]
  refine ⟨hb, ⟨hafter, ha⟩, fun a hamem b hbmem => ?_⟩
  rcases List.mem_cons.mp hbmem with rfl | hbmem
  · exact (hlaw.swap a b).mpr (hbefore a hamem)
  · exact hcross a hamem b hbmem

theorem Ordered.erase [DecidableEq α] {tree root : BinaryTree α} {data : α}
    (hordered : Ordered compare tree)
    (herase : inorder root = (inorder tree).erase data) :
    Ordered compare root := by
  rw [Ordered, herase]
  exact hordered.sublist List.erase_sublist

end Ordered

end KtcpSplit.SearchTree
