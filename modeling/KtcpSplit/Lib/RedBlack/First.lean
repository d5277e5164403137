import KtcpSplit.Lib.RedBlack.Lowest

/-!
# Removing the first node

The node that comes next is fetched before the first one is removed.  Either the removal
leaves it first, or a rotation takes the parent of the first node down to a place that
the walk has passed.
-/

namespace KtcpSplit.RedBlack

open RbTree

variable {α : Type*} [DecidableEq α] {t t' : RbTree α} {path : Path α} {n : ℕ} {x y : α}

/-- The path to the node that comes first in postorder, and its colour. -/
def deepest : RbTree α → Path α → Option (Path α × Color)
  | .nil, _ => none
  | .node c .nil _ .nil, path => some (path, c)
  | .node c .nil v r, path => deepest r (⟨.right, c, v, .nil⟩ :: path)
  | .node c l v r, path => deepest l (⟨.left, c, v, r⟩ :: path)

def hasOneChild : RbTree α → Bool
  | .node _ .nil _ (.node ..) => true
  | .node _ (.node ..) _ .nil => true
  | _ => false

/-- The sibling after the rotation that turns a red one away. -/
def blackSibling (f : Frame α) : RbTree α :=
  match f.sibling with
  | .node .red l _ r => (sides f.side l r).1
  | sibling => sibling

/-- The removal of the first node rotates its parent down, and takes what was to come next
past the parent. -/
def skips (t : RbTree α) : Bool :=
  match deepest t [] with
  | some (f :: _, .black) => hasOneChild (blackSibling f)
  | _ => false

omit [DecidableEq α] in
/-- Every parent of the first node has it to the left, or has no other child. -/
theorem deepest_spec {c : Color} {path path' : Path α}
    (hdeepest : deepest t path = some (path', c)) :
    ∃ spath x, path' = spath ++ path ∧ plug spath (.node c .nil x .nil) = t ∧
      ∀ f ∈ spath, f.side = .left ∨ f.sibling = .nil := by
  fun_induction deepest t path with
  | case1 => cases hdeepest
  | case2 c' v path =>
      cases hdeepest
      exact ⟨[], v, rfl, rfl, fun _ h => absurd h List.not_mem_nil⟩
  | case3 c' v r path hr ih =>
      obtain ⟨spath, x, hpath, hplug, hsides⟩ := ih hdeepest
      refine ⟨spath ++ [⟨.right, c', v, .nil⟩], x, ?_, ?_, ?_⟩
      · rw [hpath, List.append_assoc]
        rfl
      · rw [plug_append, hplug]
        rfl
      · exact List.forall_mem_append.mpr ⟨hsides, List.forall_mem_singleton.mpr (.inr rfl)⟩
  | case4 c' l v r path hr hl ih =>
      obtain ⟨spath, x, hpath, hplug, hsides⟩ := ih hdeepest
      refine ⟨spath ++ [⟨.left, c', v, r⟩], x, ?_, ?_, ?_⟩
      · rw [hpath, List.append_assoc]
        rfl
      · rw [plug_append, hplug]
        rfl
      · exact List.forall_mem_append.mpr ⟨hsides, List.forall_mem_singleton.mpr (.inl rfl)⟩

omit [DecidableEq α] in
theorem deepest_ne_none (hne : t ≠ .nil) (path : Path α) : deepest t path ≠ none := by
  fun_induction deepest t path with
  | case1 => exact absurd rfl hne
  | case2 => exact Option.some_ne_none _
  | case3 c v r path hr ih => exact ih fun hnil => hr hnil
  | case4 c l v r path hr hl ih =>
      refine ih ?_
      rintro rfl
      cases r with
      | nil => exact hr rfl rfl
      | node => exact hl rfl

omit [DecidableEq α] in
theorem passed_eq_nil (hsides : ∀ f ∈ path, f.side = .left ∨ f.sibling = .nil) :
    passed path = [] := by
  induction path with
  | nil => rfl
  | cons f path ih =>
      obtain ⟨hf, hpath⟩ := List.forall_mem_cons.mp hsides
      rcases f with ⟨_ | _, c, v, sibling⟩
      · exact ih hpath
      · obtain rfl : sibling = .nil := hf.resolve_left Side.noConfusion
        rw [passed, ih hpath]
        rfl

omit [DecidableEq α] in
/-- The first node of a tree is one of the lowest. -/
theorem first_eq_head_lowest (t : RbTree α) : rbFirstPostorder t = (lowest t).head? := by
  rw [rbFirstPostorder, rbLeftDeepestNode_eq]
  cases t with
  | nil => rfl
  | node c l v r =>
      obtain ⟨rest, hrest⟩ := lowest_isPrefix (.node c l v r)
      rw [← hrest, List.head?_append_of_ne_nil _ (lowest_ne_nil node_ne_nil)]

omit [DecidableEq α] in
/-- A place under a parent with a black height has a sibling. -/
theorem Fits.sibling_ne_nil {c : Color} (hfits : Fits path c (n + 1)) :
    ∀ f ∈ path, f.sibling ≠ .nil := by
  induction path generalizing c n with
  | nil => exact fun _ h => absurd h List.not_mem_nil
  | cons f path ih =>
      rcases f with ⟨d, _ | _, v, sibling⟩
      · refine List.forall_mem_cons.mpr ⟨?_, ih hfits.2.2⟩
        rintro rfl
        cases hfits.2.1
      · refine List.forall_mem_cons.mpr ⟨?_, ih hfits.2⟩
        rintro rfl
        obtain ⟨⟨c', hnil⟩, -⟩ := hfits
        cases hnil

omit [DecidableEq α] in
theorem Rotates.lowest_left {f : Frame α} (hrotates : Rotates t f t') (hleft : f.side = .left)
    (hne : t ≠ .nil) : lowest t' = lowest t := by
  rcases f with ⟨d, c, v, sibling⟩
  obtain rfl : d = .left := hleft
  cases hrotates with
  | red => exact (lowest_node_left settleSibling_ne_nil).trans (lowest_settleSibling_left hne)
  | black => exact lowest_settleSibling_left hne

omit [DecidableEq α] in
/-- Rotations on the way up leave the lowest nodes alone. -/
theorem Balanced.lowest_eraseColor_left (h : Balanced t .black n)
    (hfits : Fits path .black (n + 1)) (hleft : ∀ f ∈ path, f.side = .left) (hne : t ≠ .nil) :
    lowest (RedBlack.eraseColor t path) = lowest t := by
  refine h.eraseColor_induct (P := fun t path root => (∀ f ∈ path, f.side = .left) →
    t ≠ .nil → lowest root = lowest t) ?_ ?_ ?_ hfits hleft hne
  · exact fun _ _ _ _ _ => rfl
  · intro t f path t' c n hrotates _ _ hleft hne
    obtain ⟨hf, hpath⟩ := List.forall_mem_cons.mp hleft
    rw [lowest_plug_of_left hpath hrotates.ne_nil, hrotates.lowest_left hf hne]
  · intro t f path near s far root hsibling _ ih hleft hne
    obtain ⟨hf, hpath⟩ := List.forall_mem_cons.mp hleft
    rw [ih hpath settleSibling_ne_nil, hf, lowest_settleSibling_left hne]

omit [DecidableEq α] in
theorem Balanced.eq_of_zero {c : Color} (h : Balanced t c 0) :
    t = .nil ∨ ∃ v, t = .node .red .nil v .nil := by
  cases h with
  | nil => exact .inl rfl
  | red left right =>
      cases left
      cases right
      exact .inr ⟨_, rfl⟩

omit [DecidableEq α] in
/-- The parent of the first node is rotated down and left alone, or what was to come next
comes next. -/
theorem settleSibling_first {c cl cr : Color} {l r : RbTree α} {v s : α}
    (hleft : Balanced l cl 0) (hright : Balanced r cr 0) :
    let settled := settleSibling .left c .nil v l s r
    hasOneChild (.node .black l s r) = true ∧ settled.1 = false ∧ lowest settled.2 = [v] ∨
      hasOneChild (.node .black l s r) = false ∧
        (lowest settled.2).head? = (lowest (.node .black l s r)).head? := by
  rcases hleft.eq_of_zero with rfl | ⟨a, rfl⟩
  · rcases hright.eq_of_zero with rfl | ⟨b, rfl⟩
    · exact .inr ⟨rfl, rfl⟩
    · exact .inl ⟨rfl, rfl, rfl⟩
  · rcases hright.eq_of_zero with rfl | ⟨b, rfl⟩
    · exact .inl ⟨rfl, rfl, rfl⟩
    · exact .inr ⟨rfl, rfl⟩

omit [DecidableEq α] in
/-- The lowest nodes after the first node, a black one, was unlinked. -/
theorem lowest_of_first {f : Frame α} (hfits : Fits (f :: path) .black 1)
    (hleft : ∀ g ∈ f :: path, g.side = .left) :
    hasOneChild (blackSibling f) = true ∧ lowest (eraseColor .nil (f :: path)) = [f.value] ∨
      hasOneChild (blackSibling f) = false ∧
        (lowest (eraseColor .nil (f :: path))).head? = (lowest f.sibling).head? := by
  rcases f with ⟨d, c, v, sibling⟩
  obtain ⟨hd, hpath⟩ := List.forall_mem_cons.mp hleft
  obtain rfl : d = .left := hd
  obtain ⟨⟨cs, hsibling, -⟩, hplace⟩ := hfits.parent
  simp only at hsibling
  cases hsibling with
  | @black l r s cl cr n hl hr =>
      have hloop : eraseColor .nil (⟨.left, c, v, .node .black l s r⟩ :: path) =
          if (settleSibling .left c .nil v l s r).1 then
            eraseColor (settleSibling .left c .nil v l s r).2 path
          else plug path (settleSibling .left c .nil v l s r).2 := rfl
      rw [hloop]
      rcases settleSibling_first hl hr with ⟨hone, hdone, hlowest⟩ | ⟨hone, hhead⟩
      · refine .inl ⟨hone, ?_⟩
        rw [hdone, if_neg Bool.false_ne_true, lowest_plug_of_left hpath settleSibling_ne_nil,
          hlowest]
      · refine .inr ⟨hone, ?_⟩
        rcases Balanced.nil.settleSibling hl hr .left c v s with
          ⟨hdone, -⟩ | ⟨hgoOn, rfl, hsettled⟩
        · rw [hdone, if_neg Bool.false_ne_true, lowest_plug_of_left hpath settleSibling_ne_nil,
            hhead]
        · rw [hgoOn, if_pos rfl,
            hsettled.lowest_eraseColor_left hplace hpath settleSibling_ne_nil, hhead]
  | @red l r s n hl hr =>
      cases hl with
      | @black ll lr m cl cr n hll hlr =>
          have hloop : eraseColor .nil
              (⟨.left, c, v, .node .red (.node .black ll m lr) s r⟩ :: path) =
              plug path (.node c (settleSibling .left .red .nil v ll m lr).2 s r) := rfl
          rw [hloop, lowest_plug_of_left hpath node_ne_nil,
            lowest_node_left settleSibling_ne_nil, lowest_node_left node_ne_nil]
          exact (settleSibling_first hll hlr).imp_left fun h => ⟨h.1, h.2.2⟩

/-- Where the first node is, what is found next, and what its removal leaves. -/
theorem exists_first (hnodup : t.inorder.Nodup) (hfirst : rbFirstPostorder t = some x) :
    ∃ path c, deepest t [] = some (path, c) ∧ plug path (.node c .nil x .nil) = t ∧
      (∀ f ∈ path, f.side = .left ∨ f.sibling = .nil) ∧
      rbNextPostorder x t = (toCome path).head? ∧ rbErase x t = unlink c path := by
  have hne : t ≠ .nil := by
    rintro rfl
    cases hfirst
  obtain ⟨⟨path, c⟩, hdeepest⟩ := Option.ne_none_iff_exists'.mp (deepest_ne_none hne [])
  obtain ⟨spath, v, hpath, hplug, hsides⟩ := deepest_spec hdeepest
  obtain rfl : path = spath := hpath.trans (List.append_nil _)
  have hpostorder : postorder t = v :: toCome path := by
    rw [← hplug, postorder_plug, passed_eq_nil hsides]
    rfl
  obtain rfl : v = x := by
    rw [rbFirstPostorder, rbLeftDeepestNode_eq, hpostorder] at hfirst
    exact Option.some_inj.mp hfirst
  have hlocate : locate v t [] = some (path, c, .nil, .nil) := by
    rw [← hplug] at hnodup ⊢
    exact locate_plug_node hnodup
  refine ⟨path, c, hdeepest, hplug, hsides, ?_, ?_⟩
  · rw [rbNextPostorder, hlocate]
    exact rbNextPostorderAt_eq path
  · rw [rbErase, hlocate]
    rfl

omit [DecidableEq α] in
/-- Above a black first node only left turns are made, and the sibling comes next. -/
theorem next_of_black {f : Frame α} (hfits : Fits (f :: path) .black 1)
    (hsides : ∀ g ∈ f :: path, g.side = .left ∨ g.sibling = .nil)
    (hnodup : (toCome (f :: path)).Nodup) :
    (∀ g ∈ f :: path, g.side = .left) ∧ ∃ y, (toCome (f :: path)).head? = some y ∧
      (postorder f.sibling).head? = some y ∧ y ≠ f.value := by
  have hleft : ∀ g ∈ f :: path, g.side = .left := fun g hmem =>
    (hsides g hmem).resolve_right (hfits.sibling_ne_nil g hmem)
  refine ⟨hleft, ?_⟩
  have hne := hfits.sibling_ne_nil f List.mem_cons_self
  rcases f with ⟨d, c, v, sibling⟩
  obtain rfl : d = .left := hleft _ List.mem_cons_self
  obtain ⟨y, rest, hpostorder⟩ :=
    List.exists_cons_of_ne_nil fun hnil => hne (postorder_eq_nil_iff.mp hnil)
  rw [toCome, hpostorder] at hnodup ⊢
  refine ⟨y, rfl, rfl, ?_⟩
  rintro rfl
  simp at hnodup

/-- The node that comes first, and what is found when it is removed. -/
theorem Balanced.first_cases (h : Balanced t .black n) (hnodup : t.inorder.Nodup)
    (hfirst : rbFirstPostorder t = some x) :
    skips t = true ∧ (∃ y, rbNextPostorder x t = some y ∧ Behind (RedBlack.rbErase x t) y) ∨
      skips t = false ∧ rbNextPostorder x t = rbFirstPostorder (RedBlack.rbErase x t) := by
  obtain ⟨path, c, hdeepest, hplug, hsides, hnext, herase⟩ := exists_first hnodup hfirst
  rw [skips, hdeepest]
  cases c with
  | red =>
      refine .inr ⟨by cases path <;> rfl, ?_⟩
      rw [hnext, herase, RedBlack.unlink, rbFirstPostorder, rbLeftDeepestNode_eq, postorder_plug,
        passed_eq_nil hsides]
      rfl
  | black =>
      rw [RedBlack.unlink] at herase
      cases path with
      | nil => exact .inr ⟨rfl, hnext.trans (congrArg rbFirstPostorder herase).symm⟩
      | cons f path =>
          rw [← hplug] at h
          obtain ⟨c', m, hnode, hfits⟩ := h.of_plug
          cases hnode with
          | black hl hr =>
              cases hl
              have htoCome : (toCome (f :: path)).Nodup := by
                have hall := postorder_nodup hnodup
                rw [← hplug, postorder_plug] at hall
                exact hall.sublist (List.sublist_append_right _ _)
              obtain ⟨hleft, y, hhead, hsibling, hne⟩ := next_of_black hfits hsides htoCome
              rcases lowest_of_first hfits hleft with ⟨hone, hlowest⟩ | ⟨hone, hlowest⟩
              · refine .inl ⟨hone, y, hnext.trans hhead, ?_, ?_⟩
                · obtain ⟨pre, rest, hpostorder, -, hyx⟩ := next_spec hnodup (hnext.trans hhead)
                  rw [inorder_rbErase hnodup, List.mem_erase_of_ne hyx, ← mem_postorder,
                    hpostorder]
                  simp
                · rw [herase, hlowest]
                  exact fun hmem => hne (List.mem_singleton.mp hmem)
              · refine .inr ⟨hone, ?_⟩
                rw [hnext, hhead, herase, first_eq_head_lowest, hlowest, ← first_eq_head_lowest,
                  rbFirstPostorder, rbLeftDeepestNode_eq, hsibling]

end KtcpSplit.RedBlack
