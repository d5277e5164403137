import KtcpSplit.Lib.RedBlack.Postorder
import Mathlib.Data.List.Infix

/-!
# The lowest nodes of a tree

The nodes that come first in postorder.  A removal may rotate nodes that were still to
come to places that a walk has passed, but the nodes that it makes lowest were lowest
before, unless the node that is removed is itself one of the lowest.
-/

namespace KtcpSplit.RedBlack

open RbTree

variable {α : Type*} {t t' : RbTree α} {path : Path α}

/-- The leftmost node and what is below it, which comes first in postorder. -/
def lowest : RbTree α → List α
  | .nil => []
  | .node _ .nil v r => postorder r ++ [v]
  | .node _ l _ _ => lowest l

theorem lowest_isPrefix (t : RbTree α) : lowest t <+: postorder t := by
  fun_induction lowest t with
  | case1 => exact List.prefix_rfl
  | case2 c v r => exact List.prefix_rfl
  | case3 c l v r hl ih => exact ih.trans (List.prefix_append _ _)

theorem lowest_ne_nil (hne : t ≠ .nil) : lowest t ≠ [] := by
  fun_induction lowest t with
  | case1 => exact absurd rfl hne
  | case2 c v r => simp
  | case3 c l v r hl ih => exact ih hl

theorem lowest_node_left {c : Color} {l r : RbTree α} {v : α} (hne : l ≠ .nil) :
    lowest (.node c l v r) = lowest l := by
  cases l with
  | nil => exact absurd rfl hne
  | node => rfl

theorem node_ne_nil {c : Color} {l r : RbTree α} {v : α} : RbTree.node c l v r ≠ .nil := nofun

theorem join_ne_nil {d : Side} {c : Color} {l r : RbTree α} {v : α} :
    join d c l v r ≠ .nil := by
  cases d <;> exact node_ne_nil

/-- Going up a path from the root, the first parent to the left has a left child. -/
def Guarded : Path α → Prop
  | [] => False
  | f :: path => Guarded path ∨ (∀ g ∈ path, g.side = .left) ∧ f.side = .right ∧ f.sibling ≠ .nil

theorem lowest_plug_of_left (hleft : ∀ f ∈ path, f.side = .left) (hne : t ≠ .nil) :
    lowest (plug path t) = lowest t := by
  induction path generalizing t with
  | nil => rfl
  | cons f path ih =>
      obtain ⟨hf, hpath⟩ := List.forall_mem_cons.mp hleft
      rw [plug, Frame.fill, hf, ih hpath join_ne_nil, join, lowest_node_left hne]

/-- Behind a guard, the lowest nodes are elsewhere. -/
theorem Guarded.lowest_plug (hguarded : Guarded path) (t t' : RbTree α) :
    lowest (plug path t) = lowest (plug path t') := by
  induction path generalizing t t' with
  | nil => exact hguarded.elim
  | cons f path ih =>
      rcases hguarded with hguarded | ⟨hleft, hright, hne⟩
      · exact ih hguarded _ _
      · rw [plug, plug, Frame.fill, Frame.fill, hright,
          lowest_plug_of_left hleft join_ne_nil,
          lowest_plug_of_left hleft join_ne_nil, join, join, lowest_node_left hne,
          lowest_node_left hne]

/-- A subtree with fewer of its nodes lowest makes a tree with fewer lowest nodes. -/
theorem lowest_plug_subset (path : Path α) (hne : t ≠ .nil) (hne' : t' ≠ .nil)
    (hpostorder : postorder t ⊆ postorder t') (hlowest : lowest t ⊆ lowest t') :
    lowest (plug path t) ⊆ lowest (plug path t') := by
  induction path generalizing t t' with
  | nil => exact hlowest
  | cons f path ih =>
      rcases f with ⟨_ | _, c, v, sibling⟩
      · refine ih join_ne_nil join_ne_nil ?_ ?_
        · exact List.append_subset.mpr ⟨List.subset_append_of_subset_left _ hpostorder,
            List.subset_append_right _ _⟩
        · simpa only [Frame.fill, join, lowest_node_left hne, lowest_node_left hne'] using hlowest
      · refine ih join_ne_nil join_ne_nil ?_ ?_
        · exact List.append_subset.mpr ⟨List.subset_append_left _ _,
            List.subset_append_of_subset_right _ (List.append_subset.mpr
              ⟨List.subset_append_of_subset_left _ hpostorder, List.subset_append_right _ _⟩)⟩
        · cases sibling with
          | nil =>
              exact List.append_subset.mpr ⟨List.subset_append_of_subset_left _ hpostorder,
                List.subset_append_right _ _⟩
          | node => exact List.Subset.refl _

theorem lowest_blacken (t : RbTree α) : lowest t.blacken = lowest t := by
  cases t with
  | nil => rfl
  | node c l v r => cases l <;> rfl

theorem postorder_blacken (t : RbTree α) : postorder t.blacken = postorder t := by
  cases t <;> rfl

theorem settleSibling_ne_nil {d : Side} {c : Color} {near far : RbTree α} {v s : α} :
    (settleSibling d c t v near s far).2 ≠ .nil :=
  settleSibling_cases (P := fun settled => settled.2 ≠ .nil) (fun _ => join_ne_nil)
    (fun _ _ _ _ _ => join_ne_nil) fun _ _ => join_ne_nil

/-- With the node to the left, it stays lowest. -/
theorem lowest_settleSibling_left {c : Color} {v s : α} {near far : RbTree α} (hne : t ≠ .nil) :
    lowest (settleSibling .left c t v near s far).2 = lowest t := by
  refine settleSibling_cases (P := fun settled => lowest settled.2 = lowest t) ?_ ?_ ?_
  · intro _
    exact (lowest_node_left node_ne_nil).trans (lowest_node_left hne)
  · intro _ a n b _
    exact (lowest_node_left node_ne_nil).trans (lowest_node_left hne)
  · intro _ _
    exact lowest_node_left hne

/-- With the node to the right, no node becomes one of the lowest. -/
theorem lowest_settleSibling_right {c cs : Color} {v s : α} {near far : RbTree α} :
    lowest (settleSibling .right c t v near s far).2 ⊆ lowest (.node cs far s near) := by
  refine settleSibling_cases
    (P := fun settled => lowest settled.2 ⊆ lowest (.node cs far s near)) ?_ ?_ ?_
  · intro hred
    have hne : far ≠ .nil := by
      rintro rfl
      cases hred
    have hne' : far.blacken ≠ .nil := by
      cases far with
      | nil => cases hred
      | node => exact node_ne_nil
    simp only [join]
    rw [lowest_node_left hne', lowest_blacken, lowest_node_left hne]
    exact List.Subset.refl _
  · rintro - a n b rfl
    simp only [join]
    rw [lowest_node_left node_ne_nil]
    cases far with
    | nil =>
        simp only [lowest, postorder_blacken, postorder_node]
        intro x hx
        simp only [List.mem_append] at hx ⊢
        tauto
    | node => exact List.Subset.refl _
  · intro _ _
    simp only [join]
    rw [lowest_node_left node_ne_nil]
    cases far <;> exact List.Subset.refl _

theorem Rotates.inorder {f : Frame α} (hrotates : Rotates t f t') :
    t'.inorder = (f.fill t).inorder := by
  cases hrotates with
  | red hsibling hfar' => exact inorder_rotate_fill hsibling t
  | black hsibling hdone => exact inorder_settle_fill hsibling t

theorem Rotates.ne_nil {f : Frame α} (hrotates : Rotates t f t') : t' ≠ .nil := by
  cases hrotates with
  | red => exact join_ne_nil
  | black => exact settleSibling_ne_nil

theorem lowest_settle_subset {f : Frame α} {near far : RbTree α} {s : α} {cs : Color}
    (hsibling : f.sibling = join f.side cs near s far) (hne : f.side = .left → t ≠ .nil) :
    lowest (settleSibling f.side f.color t f.value near s far).2 ⊆ lowest (f.fill t) := by
  rcases f with ⟨_ | _, c, v, sibling⟩
  · rw [lowest_settleSibling_left (hne rfl), Frame.fill, join, lowest_node_left (hne rfl)]
    exact List.Subset.refl _
  · simp only at hsibling
    rw [Frame.fill, hsibling]
    simp only [join]
    rw [lowest_node_left node_ne_nil]
    exact lowest_settleSibling_right

/-- Where the loop stops, no node becomes one of the lowest. -/
theorem Rotates.lowest_subset {f : Frame α} (hrotates : Rotates t f t')
    (hne : f.side = .left → t ≠ .nil) : lowest t' ⊆ lowest (f.fill t) := by
  cases hrotates with
  | black hsibling hdone => exact lowest_settle_subset hsibling hne
  | red hsibling hfar' =>
      rcases f with ⟨_ | _, c, v, sibling⟩
      · rw [Frame.fill, join, join, lowest_node_left settleSibling_ne_nil,
          lowest_settleSibling_left (hne rfl), lowest_node_left (hne rfl)]
        exact List.Subset.refl _
      · simp only at hsibling
        rw [Frame.fill, hsibling]
        simp only [join]
        rw [lowest_node_left hfar', lowest_node_left node_ne_nil, lowest_node_left hfar']
        exact List.Subset.refl _

/-- A node that is not lowest of all lies behind a guard, or has nodes to its left. -/
theorem lowest_replace {f : Frame α} (hor : Guarded (f :: path) ∨ t ≠ .nil) (hne : t' ≠ .nil)
    (hinorder : t'.inorder = (f.fill t).inorder)
    (hlowest : (f.side = .left → t ≠ .nil) → lowest t' ⊆ lowest (f.fill t)) :
    lowest (plug path t') ⊆ lowest (plug path (f.fill t)) := by
  by_cases hguarded : Guarded path
  · rw [hguarded.lowest_plug]
    exact List.Subset.refl _
  · refine lowest_plug_subset path hne join_ne_nil ?_ (hlowest fun hleft => ?_)
    · have hperm := (perm_postorder t').trans (hinorder ▸ (perm_postorder (f.fill t)).symm)
      exact hperm.subset
    · rcases hor with (h | ⟨-, hright, -⟩) | hne
      · exact absurd h hguarded
      · cases hleft.symm.trans hright
      · exact hne

theorem Balanced.lowest_eraseColor {n : ℕ} (h : Balanced t .black n)
    (hfits : Fits path .black (n + 1)) (hor : Guarded path ∨ t ≠ .nil) :
    lowest (RedBlack.eraseColor t path) ⊆ lowest (RedBlack.plug path t) := by
  refine h.eraseColor_induct (P := fun t path root => (Guarded path ∨ t ≠ .nil) →
    lowest root ⊆ lowest (RedBlack.plug path t)) ?_ ?_ ?_ hfits hor
  · exact fun t n _ _ => List.Subset.refl _
  · intro t f path t' c n hrotates _ _ hor
    exact lowest_replace hor hrotates.ne_nil hrotates.inorder hrotates.lowest_subset
  · intro t f path near s far root hsibling _ ih hor
    exact List.Subset.trans (ih (.inr settleSibling_ne_nil)) (lowest_replace hor
      settleSibling_ne_nil
      (inorder_settle_fill hsibling t) (lowest_settle_subset hsibling))

/-- Where a node that is not lowest hangs. -/
theorem guarded_of_not_lowest {x : α} (hmem : x ∈ postorder t)
    (hnot : x ∉ lowest (plug path t)) :
    Guarded path ∨ (∀ f ∈ path, f.side = .left) ∧ x ∉ lowest t := by
  induction path generalizing t with
  | nil => exact .inr ⟨fun _ h => absurd h List.not_mem_nil, hnot⟩
  | cons f path ih =>
      have hne : t ≠ .nil := by
        rintro rfl
        exact absurd hmem List.not_mem_nil
      have hfill : x ∈ postorder (f.fill t) := by
        rcases f with ⟨_ | _, c, v, sibling⟩ <;> simp [Frame.fill, join, hmem]
      rcases ih hfill hnot with hguarded | ⟨hleft, hlowest⟩
      · exact .inl (.inl hguarded)
      · rcases f with ⟨_ | _, c, v, sibling⟩
        · rw [Frame.fill, join, lowest_node_left hne] at hlowest
          exact .inr ⟨List.forall_mem_cons.mpr ⟨rfl, hleft⟩, hlowest⟩
        · refine .inl (.inr ⟨hleft, rfl, ?_⟩)
          rintro rfl
          simp [Frame.fill, join, lowest, hmem] at hlowest

theorem Guarded.append (hguarded : Guarded path) (spath : Path α) : Guarded (spath ++ path) := by
  induction spath with
  | nil => exact hguarded
  | cons f spath ih => exact .inl ih

/-- A left child keeps what is lowest from the rest of its parent. -/
theorem lowest_plug_node {c c' : Color} {l r r' : RbTree α} {v v' : α} (hne : l ≠ .nil)
    (hpath : Guarded path ∨ ∀ f ∈ path, f.side = .left) :
    lowest (plug path (.node c l v r)) = lowest (plug path (.node c' l v' r')) := by
  rcases hpath with hguarded | hleft
  · exact hguarded.lowest_plug _ _
  · rw [lowest_plug_of_left hleft node_ne_nil, lowest_plug_of_left hleft node_ne_nil,
      lowest_node_left hne, lowest_node_left hne]

theorem Balanced.lowest_unlink {n : ℕ} {c c' : Color} {v : α}
    (h : Balanced (.node c .nil v .nil : RbTree α) c' n) (hfits : Fits path c' n)
    (hguarded : Guarded path) :
    lowest (RedBlack.unlink c path) ⊆ lowest (RedBlack.plug path t) := by
  rw [hguarded.lowest_plug t .nil]
  cases h with
  | red => exact List.Subset.refl _
  | black left right =>
      cases left
      exact Balanced.nil.lowest_eraseColor hfits (.inl hguarded)

/-- The removal of a node that is not one of the lowest makes no other node one. -/
theorem Balanced.lowest_rbEraseAt {n : ℕ} {c c' : Color} {l r : RbTree α} {x : α}
    (h : Balanced (.node c l x r) c' n) (hfits : Fits path c' n)
    (hnot : x ∉ lowest (RedBlack.plug path (.node c l x r))) :
    lowest (RedBlack.rbEraseAt path c l r) ⊆ lowest (RedBlack.plug path (.node c l x r)) := by
  have hplace := guarded_of_not_lowest (by simp) hnot
  cases l with
  | nil =>
      have hguarded : Guarded path := by
        refine hplace.resolve_right fun hlowest => hlowest.2 ?_
        simp [lowest]
      cases r with
      | nil => exact h.lowest_unlink hfits hguarded
      | node rc rl rv rr =>
          rw [hguarded.lowest_plug (.node c .nil x _), RedBlack.rbEraseAt]
          exact List.Subset.refl _
  | node lc ll lv lr =>
      have hpath : Guarded path ∨ ∀ f ∈ path, f.side = .left := hplace.imp_right And.left
      cases r with
      | nil =>
          rcases hpath with hguarded | hleft
          · rw [hguarded.lowest_plug (.node c _ x _), RedBlack.rbEraseAt]
            exact List.Subset.refl _
          · rw [RedBlack.rbEraseAt, lowest_plug_of_left hleft node_ne_nil,
              lowest_plug_of_left hleft node_ne_nil, lowest_node_left node_ne_nil]
            cases ll <;> exact List.Subset.refl _
      | node rc rl rv rr =>
          rcases hminimum : minimum rc rv rr rl [] with ⟨spath, sc, s, child⟩
          obtain ⟨c'', m, hsuccessor, hfits'⟩ := h.successor hfits hminimum
          have hsame : ∀ t, lowest (RedBlack.plug
              (spath ++ ⟨.right, c, s, .node lc ll lv lr⟩ :: path) t) =
              lowest (RedBlack.plug path
                (.node c (.node lc ll lv lr) x (.node rc rl rv rr))) := by
            intro t
            rw [plug_append]
            exact lowest_plug_node node_ne_nil hpath
          rw [← hsame .nil]
          simp only [RedBlack.rbEraseAt, hminimum]
          cases child with
          | nil =>
              refine hsuccessor.lowest_unlink hfits' (Guarded.append ?_ spath)
              exact hpath.imp_right fun hleft => ⟨hleft, rfl, node_ne_nil⟩
          | node cc l v r =>
              rw [hsame, hsame]
              exact List.Subset.refl _

/-! ## A walk that has passed a node -/

variable [DecidableEq α] {n : ℕ} {x y : α}

/-- The lowest nodes were passed before `y`, and are still there. -/
def Behind (t : RbTree α) (y : α) : Prop := y ∈ t.inorder ∧ y ∉ lowest t

omit [DecidableEq α] in
theorem postorder_nodup (hnodup : t.inorder.Nodup) : (postorder t).Nodup :=
  (perm_postorder t).nodup_iff.mpr hnodup

omit [DecidableEq α] in
theorem mem_postorder : x ∈ postorder t ↔ x ∈ t.inorder := (perm_postorder t).mem_iff

/-- The next node is another node, after the current one. -/
theorem next_spec (hnodup : t.inorder.Nodup) (hnext : rbNextPostorder x t = some y) :
    ∃ pre rest, postorder t = pre ++ x :: y :: rest ∧ y ∉ pre ∧ y ≠ x := by
  unfold rbNextPostorder at hnext
  split at hnext
  · rename_i path found hlocate
    obtain ⟨c, l, r⟩ := found
    obtain ⟨pre, hpostorder⟩ := exists_postorder_of_locate hlocate
    rw [rbNextPostorderAt_eq] at hnext
    obtain ⟨rest, hrest⟩ := List.head?_eq_some_iff.mp hnext
    rw [hrest] at hpostorder
    refine ⟨pre, rest, hpostorder, ?_⟩
    have hall := postorder_nodup hnodup
    rw [hpostorder, List.nodup_append] at hall
    obtain ⟨-, htail, hdisjoint⟩ := hall
    refine ⟨fun hmem => hdisjoint y hmem y (by simp) rfl, ?_⟩
    rintro rfl
    simp at htail
  · cases hnext

theorem Balanced.lowest_rbErase (h : Balanced t .black n) (hnot : x ∉ lowest t) :
    lowest (RedBlack.rbErase x t) ⊆ lowest t := by
  unfold RedBlack.rbErase
  split
  · rename_i path c l r hlocate
    have hplug := plug_locate hlocate
    rw [RedBlack.plug] at hplug
    rw [← hplug] at h hnot ⊢
    obtain ⟨c', m, hnode, hfits⟩ := h.of_plug
    exact hnode.lowest_rbEraseAt hfits hnot
  · exact List.Subset.refl _

/-- What was passed stays behind. -/
theorem Behind.next (hbehind : Behind t x) (h : Balanced t .black n) (hnodup : t.inorder.Nodup)
    (hnext : rbNextPostorder x t = some y) : Behind (rbErase x t) y := by
  obtain ⟨pre, rest, hpostorder, hpre, hne⟩ := next_spec hnodup hnext
  have hpassed : pre ++ [x] <+: postorder t := ⟨y :: rest, by simp [hpostorder]⟩
  have hy : y ∉ lowest t := by
    intro hmem
    rcases List.prefix_or_prefix_of_prefix (lowest_isPrefix t) hpassed with hle | hle
    · have hin := hle.subset hmem
      simp [hpre, hne] at hin
    · exact hbehind.2 (hle.subset (by simp))
  refine ⟨?_, fun hmem => hy (h.lowest_rbErase hbehind.2 hmem)⟩
  rw [inorder_rbErase hnodup, List.mem_erase_of_ne hne, ← mem_postorder, hpostorder]
  simp

theorem Behind.rbErase_ne_nil (hbehind : Behind t x) (hnodup : t.inorder.Nodup) :
    rbErase x t ≠ .nil := by
  have hne : t ≠ .nil := by
    rintro rfl
    exact absurd hbehind.1 List.not_mem_nil
  obtain ⟨m, hm⟩ := List.exists_mem_of_ne_nil _ (lowest_ne_nil hne)
  have hmx : m ≠ x := by
    rintro rfl
    exact hbehind.2 hm
  have hmem : m ∈ (rbErase x t).inorder := by
    rw [inorder_rbErase hnodup, List.mem_erase_of_ne hmx]
    exact mem_postorder.mp ((lowest_isPrefix t).subset hm)
  intro hnil
  rw [hnil] at hmem
  cases hmem

end KtcpSplit.RedBlack
