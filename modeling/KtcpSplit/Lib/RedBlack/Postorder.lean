import KtcpSplit.Lib.RedBlack.Balance

/-!
# Walking in postorder

The first node and the step from a node to the next one, as the library finds them, and
the list of nodes that they walk through.
-/

namespace KtcpSplit.RedBlack

open RbTree

variable {α : Type*}

def postorder : RbTree α → List α
  | .nil => []
  | .node _ l v r => postorder l ++ (postorder r ++ [v])

/-- `rb_left_deepest_node`. -/
def rbLeftDeepestNode : RbTree α → Option α
  | .nil => none
  | .node _ .nil v .nil => some v
  | .node _ .nil _ r => rbLeftDeepestNode r
  | .node _ l _ _ => rbLeftDeepestNode l

def rbFirstPostorder (t : RbTree α) : Option α := rbLeftDeepestNode t

/-- `rb_next_postorder` of the node at the end of a path. -/
def rbNextPostorderAt : Path α → Option α
  | [] => none
  | ⟨.left, _, v, sibling⟩ :: _ =>
      match rbLeftDeepestNode sibling with
      | some next => some next
      | none => some v
  | ⟨.right, _, v, _⟩ :: _ => some v

def rbNextPostorder [DecidableEq α] (x : α) (t : RbTree α) : Option α :=
  match locate x t [] with
  | some (path, _) => rbNextPostorderAt path
  | none => none

variable {t t' : RbTree α} {path : Path α}

@[simp]
theorem postorder_nil : postorder (.nil : RbTree α) = [] := rfl

@[simp]
theorem postorder_node {c : Color} {l r : RbTree α} {v : α} :
    postorder (.node c l v r) = postorder l ++ (postorder r ++ [v]) := rfl

theorem postorder_eq_nil_iff : postorder t = [] ↔ t = .nil := by
  cases t <;> simp

theorem rbLeftDeepestNode_eq (t : RbTree α) : rbLeftDeepestNode t = (postorder t).head? := by
  fun_induction rbLeftDeepestNode t with
  | case1 => rfl
  | case2 c v => rfl
  | case3 c v r hr ih =>
      have hne : postorder r ≠ [] := fun hnil => hr (postorder_eq_nil_iff.mp hnil)
      rw [ih, postorder_node, postorder_nil, List.nil_append, List.head?_append_of_ne_nil _ hne]
  | case4 c l v r hr hl ih =>
      have hne : postorder l ≠ [] := fun hnil => by
        cases postorder_eq_nil_iff.mp hnil
        cases r with
        | nil => exact hr rfl rfl
        | node => exact hl rfl
      rw [ih, postorder_node, List.head?_append_of_ne_nil _ hne]

/-- The nodes that a walk in postorder has passed at the end of a path, and those that
come after the subtree there. -/
def passed : Path α → List α
  | [] => []
  | ⟨.left, _, _, _⟩ :: path => passed path
  | ⟨.right, _, _, sibling⟩ :: path => passed path ++ postorder sibling

def toCome : Path α → List α
  | [] => []
  | ⟨.left, _, v, sibling⟩ :: path => postorder sibling ++ v :: toCome path
  | ⟨.right, _, v, _⟩ :: path => v :: toCome path

theorem postorder_plug (path : Path α) (t : RbTree α) :
    postorder (plug path t) = passed path ++ postorder t ++ toCome path := by
  induction path generalizing t with
  | nil => simp [plug, passed, toCome]
  | cons f path ih =>
      rcases f with ⟨_ | _, c, v, sibling⟩ <;>
        simp [plug, Frame.fill, join, passed, toCome, ih]

theorem rbNextPostorderAt_eq (path : Path α) : rbNextPostorderAt path = (toCome path).head? := by
  match path with
  | [] => rfl
  | ⟨.left, _, v, sibling⟩ :: path =>
      rw [rbNextPostorderAt, rbLeftDeepestNode_eq, toCome]
      cases postorder sibling <;> rfl
  | ⟨.right, _, v, _⟩ :: path => rfl

theorem perm_postorder (t : RbTree α) : (postorder t).Perm t.inorder := by
  induction t with
  | nil => exact .refl _
  | node c l v r ihLeft ihRight =>
      rw [postorder_node, inorder_node]
      refine ihLeft.append ?_
      exact (List.perm_append_singleton v (postorder r)).trans (ihRight.cons v)

/-- The node after the one at the end of a path. -/
theorem exists_postorder_of_locate [DecidableEq α] {x : α} {l r : RbTree α} {c : Color}
    (hlocate : locate x t [] = some (path, c, l, r)) :
    ∃ pre, postorder t = pre ++ x :: toCome path := by
  have hplug := plug_locate hlocate
  rw [plug] at hplug
  refine ⟨passed path ++ postorder l ++ postorder r, ?_⟩
  rw [← hplug, postorder_plug]
  simp

end KtcpSplit.RedBlack
