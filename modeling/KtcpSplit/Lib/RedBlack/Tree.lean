import KtcpSplit.Lib.SearchTree

/-!
# Red-black trees as the Linux library balances them

A node is given by the path from it to the root, which is how the library walks up
with parent pointers.  The left and the right case of a loop are one case here, with
the side of the parent on which the node hangs as a parameter.
-/

namespace KtcpSplit.RedBlack

open KtcpSplit.SearchTree (Insertion search)

inductive Color
  | red
  | black
  deriving DecidableEq

inductive Side
  | left
  | right
  deriving DecidableEq

inductive RbTree (α : Type*)
  | nil
  | node (color : Color) (left : RbTree α) (value : α) (right : RbTree α)
  deriving DecidableEq

variable {α : Type*}

namespace RbTree

/-- `tmp && rb_is_red(tmp)`. -/
def isRed : RbTree α → Bool
  | .node .red _ _ _ => true
  | _ => false

/-- `if (tmp) rb_set_parent_color(tmp, .., RB_BLACK)`. -/
def blacken : RbTree α → RbTree α
  | .nil => .nil
  | .node _ l v r => .node .black l v r

def inorder : RbTree α → List α
  | .nil => []
  | .node _ l v r => l.inorder ++ v :: r.inorder

def map {β : Type*} (f : α → β) : RbTree α → RbTree β
  | .nil => .nil
  | .node c l v r => .node c (l.map f) (f v) (r.map f)

/-- The tree without its colours. -/
def uncolored : RbTree α → BinaryTree α
  | .nil => .nil
  | .node _ l v r => .node v l.uncolored r.uncolored

end RbTree

open RbTree

/-- A node with the child `near` on the side `d`. -/
def join (d : Side) (c : Color) (near : RbTree α) (v : α) (far : RbTree α) : RbTree α :=
  match d with
  | .left => .node c near v far
  | .right => .node c far v near

/-- The children of a node, that on the side `d` first. -/
def sides (d : Side) (l r : RbTree α) : RbTree α × RbTree α :=
  match d with
  | .left => (l, r)
  | .right => (r, l)

/-- The parent of a node: the side on which the node hangs, and the other child. -/
structure Frame (α : Type*) where
  side : Side
  color : Color
  value : α
  sibling : RbTree α

def Frame.fill (f : Frame α) (t : RbTree α) : RbTree α := join f.side f.color t f.value f.sibling

/-- The parents of a node, up to the root. -/
abbrev Path (α : Type*) := List (Frame α)

def plug : Path α → RbTree α → RbTree α
  | [], t => t
  | f :: path, t => plug path (f.fill t)

/-! ## Insertion -/

/-- The loop of `__rb_insert` with the red node `t`. -/
def insertColor : RbTree α → Path α → RbTree α
  | t, [] => t.blacken
  -- The root is black.
  | t, [f] => f.fill t
  | t, f :: g :: path =>
      if f.color = .black then plug (f :: g :: path) t
      -- Case 1: the uncle is red.
      else if g.sibling.isRed then
        insertColor (join g.side .red (join f.side .black t f.value f.sibling) g.value
          g.sibling.blacken) path
      else if f.side = g.side then
        -- Case 3: rotation at the grandparent.
        plug path (join g.side g.color t f.value
          (join g.side .red f.sibling.blacken g.value g.sibling))
      else
        match t with
        | .nil => plug (f :: g :: path) .nil
        | .node _ l v r =>
            -- Case 2: rotation at the parent first.
            let (near, far) := sides g.side l r
            plug path (join g.side g.color (join g.side .red f.sibling f.value near.blacken) v
              (join g.side .red far.blacken g.value g.sibling))

/-- The loop that looks for the place of a new node: a node that compares equal, or the
path to the place. -/
def descend (cmp : α → ℤ) : RbTree α → Path α → Except α (Path α)
  | .nil, path => .ok path
  | .node c l this r, path =>
      if cmp this < 0 then descend cmp l (⟨.left, c, this, r⟩ :: path)
      else if 0 < cmp this then descend cmp r (⟨.right, c, this, l⟩ :: path)
      else .error this

/-- `rb_link_node` and `rb_insert_color`. -/
def link (data : α) (path : Path α) : RbTree α := insertColor (.node .red .nil data .nil) path

/-! ## Removal -/

/-- The body of the loop of `____rb_erase_color` once the sibling is black: whether the
loop goes on with the parent, and what becomes of the parent. -/
def settleSibling (d : Side) (c : Color) (t : RbTree α) (v : α) (near : RbTree α) (s : α)
    (far : RbTree α) : Bool × RbTree α :=
  -- Case 4: rotation at the parent.
  if far.isRed then (false, join d c (join d .black t v near) s far.blacken)
  else
    match near with
    | .node .red l n r =>
        -- Case 3: rotation at the sibling first.
        let (a, b) := sides d l r
        (false, join d c (join d .black t v a) n (join d .black b.blacken s far))
    -- Case 2: the sibling turns red.
    | near => (decide (c = .black), join d .black t v (join d .red near s far))

/-- The loop of `____rb_erase_color` with the node `t`, which lacks a black node.  A
sibling without the nodes that the loop looks at does not occur in a balanced tree. -/
def eraseColor : RbTree α → Path α → RbTree α
  | t, [] => t
  | t, f :: path =>
      match f.sibling with
      | .nil => plug (f :: path) t
      | .node c l s r =>
          let (near, far) := sides f.side l r
          match c, near with
          | .red, .nil => plug (f :: path) t
          -- Case 1: rotation at the parent, which is red from then on.
          | .red, .node _ l' n r' =>
              let (near', far') := sides f.side l' r'
              plug path (join f.side f.color
                (settleSibling f.side .red t f.value near' n far').2 s far)
          | .black, near =>
              let (goesOn, t') := settleSibling f.side f.color t f.value near s far
              if goesOn then eraseColor t' path else plug path t'

/-- A node without children is unlinked. -/
def unlink (c : Color) (path : Path α) : RbTree α :=
  match c with
  | .red => plug path .nil
  | .black => eraseColor .nil path

/-- The leftmost node below a node, with its colour and its right child. -/
def minimum (c : Color) (v : α) (r : RbTree α) :
    RbTree α → Path α → Path α × Color × α × RbTree α
  | .nil, path => (path, c, v, r)
  | .node c' l' v' r', path => minimum c' v' r' l' (⟨.left, c, v, r⟩ :: path)

/-- `rb_erase` of a node with the children `l` and `r`. -/
def rbEraseAt (path : Path α) (c : Color) : RbTree α → RbTree α → RbTree α
  | .nil, .nil => unlink c path
  | .nil, .node _ rl rv rr => plug path (.node c rl rv rr)
  | .node _ ll lv lr, .nil => plug path (.node c ll lv lr)
  | .node lc ll lv lr, .node rc rl rv rr =>
      -- The successor takes the place and the colour of the node.
      let (spath, sc, s, child) := minimum rc rv rr rl []
      let path' := spath ++ ⟨.right, c, s, .node lc ll lv lr⟩ :: path
      match child with
      | .nil => unlink sc path'
      | .node _ l v r => plug path' (.node .black l v r)

variable [DecidableEq α]

/-- Where a node is. -/
def locate (x : α) : RbTree α → Path α → Option (Path α × Color × RbTree α × RbTree α)
  | .nil, _ => none
  | .node c l v r, path =>
      if v = x then some (path, c, l, r)
      else
        match locate x l (⟨.left, c, v, r⟩ :: path) with
        | some found => some found
        | none => locate x r (⟨.right, c, v, l⟩ :: path)

def rbErase (x : α) (t : RbTree α) : RbTree α :=
  match locate x t [] with
  | some (path, c, l, r) => rbEraseAt path c l r
  | none => t

/-! ## The order of the nodes -/

omit [DecidableEq α]

variable {t t' : RbTree α}

@[simp]
theorem inorder_nil : (.nil : RbTree α).inorder = [] := rfl

@[simp]
theorem inorder_node {c : Color} {l r : RbTree α} {v : α} :
    (RbTree.node c l v r).inorder = l.inorder ++ v :: r.inorder := rfl

theorem inorder_map {β : Type*} (f : α → β) (t : RbTree α) :
    (t.map f).inorder = t.inorder.map f := by
  induction t with
  | nil => rfl
  | node c l v r ihl ihr => simp [RbTree.map, ihl, ihr]

theorem inorder_uncolored (t : RbTree α) : SearchTree.inorder t.uncolored = t.inorder := by
  induction t with
  | nil => rfl
  | node c l v r ihLeft ihRight => simp [uncolored, ihLeft, ihRight]

@[simp]
theorem inorder_blacken : t.blacken.inorder = t.inorder := by
  cases t <;> rfl

/-- The nodes before and after the place to which a path leads. -/
def before : Path α → List α
  | [] => []
  | ⟨.left, _, _, _⟩ :: path => before path
  | ⟨.right, _, v, sibling⟩ :: path => before path ++ (sibling.inorder ++ [v])

def after : Path α → List α
  | [] => []
  | ⟨.left, _, v, sibling⟩ :: path => v :: sibling.inorder ++ after path
  | ⟨.right, _, _, _⟩ :: path => after path

theorem inorder_plug (path : Path α) (t : RbTree α) :
    (plug path t).inorder = before path ++ t.inorder ++ after path := by
  induction path generalizing t with
  | nil => simp [plug, before, after]
  | cons f path ih =>
      rcases f with ⟨_ | _, c, v, sibling⟩ <;>
        simp [plug, Frame.fill, join, before, after, ih]

theorem inorder_plug_congr (path : Path α) (h : t.inorder = t'.inorder) :
    (plug path t).inorder = (plug path t').inorder := by
  rw [inorder_plug, inorder_plug, h]

theorem plug_append (path path' : Path α) (t : RbTree α) :
    plug (path ++ path') t = plug path' (plug path t) := by
  induction path generalizing t with
  | nil => rfl
  | cons f path ih => exact ih (f.fill t)

theorem inorder_insertColor (t : RbTree α) (path : Path α) :
    (insertColor t path).inorder = (plug path t).inorder := by
  fun_induction insertColor t path with
  | case1 t => simp [plug]
  | case2 t f => rfl
  | case3 t f g path hblack => rfl
  | case4 t f g path hblack hred ih =>
      rw [ih]
      refine inorder_plug_congr path ?_
      cases hf : f.side <;> cases hg : g.side <;> simp [Frame.fill, join, hf, hg]
  | case5 t f g path hblack hred hside =>
      refine inorder_plug_congr path ?_
      cases hf : f.side <;> simp [Frame.fill, join, hf, ← hside]
  | case6 => rfl
  | case7 f g path hblack hred hside c l v r near far hsides =>
      refine inorder_plug_congr path ?_
      cases hf : f.side <;> cases hg : g.side <;>
        simp_all [Frame.fill, join, sides]

theorem inorder_link (data : α) (path : Path α) :
    (link data path).inorder = before path ++ data :: after path := by
  rw [link, inorder_insertColor, inorder_plug]
  simp

theorem plug_descend {cmp : α → ℤ} {path path' : Path α}
    (hdescend : descend cmp t path = .ok path') : plug path' .nil = plug path t := by
  fun_induction descend cmp t path with
  | case1 path =>
      cases hdescend
      rfl
  | case2 c l this r path hneg ih => exact ih hdescend
  | case3 c l this r path hneg hpos ih => exact ih hdescend
  | case4 => cases hdescend

/-- The descent stops at a node exactly when the search without colours finds it. -/
theorem descend_eq_error_iff {cmp : α → ℤ} {this : α} (path : Path α) :
    descend cmp t path = .error this ↔ search cmp t.uncolored = some this := by
  fun_induction descend cmp t path with
  | case1 path => simp [uncolored, search]
  | case2 c l this' r path hneg ih => simpa [uncolored, search, hneg] using ih
  | case3 c l this' r path hneg hpos ih => simpa [uncolored, search, hneg, hpos] using ih
  | case4 c l this' r path hneg hpos => simp [uncolored, search, hneg, hpos]

/-- The place of a new node is where the insertion without colours links it. -/
theorem insert_of_descend {cmp : α → ℤ} {path path' : Path α} (data : α)
    (hdescend : descend cmp t path = .ok path') :
    ∃ linked, SearchTree.insert cmp data t.uncolored = .linked linked ∧
      before path ++ SearchTree.inorder linked ++ after path =
        before path' ++ data :: after path' := by
  fun_induction descend cmp t path with
  | case1 path =>
      cases hdescend
      exact ⟨_, rfl, by simp⟩
  | case2 c l this r path hneg ih =>
      obtain ⟨linked, hlinked, hinorder⟩ := ih hdescend
      refine ⟨.node this linked r.uncolored, by simp [uncolored, SearchTree.insert,
        hneg, hlinked, Insertion.mapRoot], ?_⟩
      rw [← hinorder]
      simp [before, after, inorder_uncolored]
  | case3 c l this r path hneg hpos ih =>
      obtain ⟨linked, hlinked, hinorder⟩ := ih hdescend
      refine ⟨.node this l.uncolored linked, by simp [uncolored, SearchTree.insert,
        hneg, hpos, hlinked, Insertion.mapRoot], ?_⟩
      rw [← hinorder]
      simp [before, after, inorder_uncolored]
  | case4 => cases hdescend

/-- The three outcomes once the sibling is black. -/
theorem settleSibling_cases {d : Side} {c : Color} {t : RbTree α} {v : α} {near : RbTree α}
    {s : α} {far : RbTree α} {P : Bool × RbTree α → Prop}
    (rotate : far.isRed = true → P (false, join d c (join d .black t v near) s far.blacken))
    (rotateTwice : ¬ far.isRed = true → ∀ a n b, near = join d .red a n b →
      P (false, join d c (join d .black t v a) n (join d .black b.blacken s far)))
    (flip : ¬ far.isRed = true → ¬ near.isRed = true →
      P (decide (c = .black), join d .black t v (join d .red near s far))) :
    P (settleSibling d c t v near s far) := by
  unfold settleSibling
  split
  · rename_i hfar
    exact rotate hfar
  · rename_i hfar
    split
    · rename_i l n r
      cases d with
      | left => exact rotateTwice hfar l n r rfl
      | right => exact rotateTwice hfar r n l rfl
    · rename_i hnear
      refine flip hfar fun hred => ?_
      match near, hred with
      | .node .red l n r, _ => exact hnear l n r rfl

theorem inorder_join (d : Side) (c : Color) (near : RbTree α) (v : α) (far : RbTree α) :
    (join d c near v far).inorder =
      match d with
      | .left => near.inorder ++ v :: far.inorder
      | .right => far.inorder ++ v :: near.inorder := by
  cases d <;> rfl

theorem inorder_settleSibling (d : Side) (c : Color) (t : RbTree α) (v : α) (near : RbTree α)
    (s : α) (far : RbTree α) (cs : Color) :
    (settleSibling d c t v near s far).2.inorder =
      (join d c t v (join d cs near s far)).inorder := by
  refine settleSibling_cases (P := fun settled => settled.2.inorder = _) ?_ ?_ ?_
  · intro _
    cases d <;> simp [inorder_join]
  · rintro _ a n b rfl
    cases d <;> simp [inorder_join]
  · intro _ _
    cases d <;> simp [inorder_join]

/-- What the sibling lacks when the loop stops without a result. -/
def Stuck (f : Frame α) : Prop :=
  f.sibling = .nil ∨ ∃ s far, f.sibling = join f.side .red .nil s far

/-- The cases of the loop of `____rb_erase_color`, for a property of the node, the path
and the resulting tree. -/
theorem eraseColor_induct {P : RbTree α → Path α → RbTree α → Prop}
    (root : ∀ t, P t [] t)
    (stuck : ∀ t f path, Stuck f → P t (f :: path) (plug (f :: path) t))
    (red : ∀ t f path c near n far s far',
      f.sibling = join f.side .red (join f.side c near n far) s far' →
      P t (f :: path) (plug path (join f.side f.color
        (settleSibling f.side .red t f.value near n far).2 s far')))
    (done : ∀ t f path near s far, f.sibling = join f.side .black near s far →
      (settleSibling f.side f.color t f.value near s far).1 = false →
      P t (f :: path) (plug path (settleSibling f.side f.color t f.value near s far).2))
    (goOn : ∀ t f path near s far root, f.sibling = join f.side .black near s far →
      (settleSibling f.side f.color t f.value near s far).1 = true →
      P (settleSibling f.side f.color t f.value near s far).2 path root →
      P t (f :: path) root)
    (t : RbTree α) (path : Path α) : P t path (eraseColor t path) := by
  induction path generalizing t with
  | nil => exact root t
  | cons f path ih =>
      rcases f with ⟨d, c, v, sibling⟩
      have hblack : ∀ near s far, sibling = join d .black near s far →
          P t (⟨d, c, v, sibling⟩ :: path)
            (if (settleSibling d c t v near s far).1 then
              eraseColor (settleSibling d c t v near s far).2 path
            else plug path (settleSibling d c t v near s far).2) := by
        intro near s far hsibling
        split
        · rename_i hgoesOn
          exact goOn t _ path near s far _ hsibling hgoesOn (ih _)
        · rename_i hdone
          exact done t _ path near s far hsibling (Bool.eq_false_iff.mpr hdone)
      cases sibling with
      | nil => exact stuck t _ path (.inl rfl)
      | node cs l s r =>
          cases cs with
          | black =>
              cases d with
              | left => exact hblack l s r rfl
              | right => exact hblack r s l rfl
          | red =>
              cases d with
              | left =>
                  cases l with
                  | nil => exact stuck t _ path (.inr ⟨s, r, rfl⟩)
                  | node c' l' n r' => exact red t _ path c' l' n r' s r rfl
              | right =>
                  cases r with
                  | nil => exact stuck t _ path (.inr ⟨s, l, rfl⟩)
                  | node c' l' n r' => exact red t _ path c' r' n l' s l rfl

theorem inorder_settle_fill {f : Frame α} {near far : RbTree α} {s : α} {cs : Color}
    (hsibling : f.sibling = join f.side cs near s far) (t : RbTree α) :
    (settleSibling f.side f.color t f.value near s far).2.inorder = (f.fill t).inorder := by
  rw [inorder_settleSibling _ _ _ _ _ _ _ cs, Frame.fill, hsibling]

/-- A red sibling takes the place of the parent. -/
theorem inorder_rotate_fill {f : Frame α} {near far far' : RbTree α} {m s : α} {c : Color}
    (hsibling : f.sibling = join f.side .red (join f.side c near m far) s far')
    (t : RbTree α) :
    (join f.side f.color (settleSibling f.side .red t f.value near m far).2 s far').inorder =
      (f.fill t).inorder := by
  have hsub := inorder_settleSibling f.side .red t f.value near m far c
  rw [Frame.fill, hsibling]
  cases hd : f.side <;> simp_all [inorder_join]

theorem inorder_eraseColor (t : RbTree α) (path : Path α) :
    (eraseColor t path).inorder = (plug path t).inorder := by
  refine eraseColor_induct (P := fun t path root => root.inorder = (plug path t).inorder)
    (fun _ => rfl) (fun _ _ _ _ => rfl) ?_ ?_ ?_ t path
  · intro t f path c near m far s far' hsibling
    exact inorder_plug_congr path (inorder_rotate_fill hsibling t)
  · intro t f path near s far hsibling _
    exact inorder_plug_congr path (inorder_settle_fill hsibling t)
  · intro t f path near s far root hsibling _ ih
    rw [ih]
    exact inorder_plug_congr path (inorder_settle_fill hsibling t)

theorem inorder_unlink (c : Color) (path : Path α) :
    (unlink c path).inorder = before path ++ after path := by
  cases c with
  | red => simp [unlink, inorder_plug]
  | black => simp [unlink, inorder_eraseColor, inorder_plug]

/-- The path to the leftmost node, from where the search began. -/
theorem plug_minimum {c c' : Color} {l r child : RbTree α} {v s : α} {path path' : Path α}
    (hminimum : minimum c v r l path = (path', c', s, child)) :
    plug path' (.node c' .nil s child) = plug path (.node c l v r) := by
  induction l generalizing c v r path with
  | nil =>
      cases hminimum
      rfl
  | node cl ll vl rl ih => exact ih hminimum

theorem before_minimum {c c' : Color} {l r child : RbTree α} {v s : α} {path path' : Path α}
    (hminimum : minimum c v r l path = (path', c', s, child)) : before path' = before path := by
  induction l generalizing c v r path with
  | nil =>
      cases hminimum
      rfl
  | node cl ll vl rl ih =>
      exact (ih hminimum : before path' = before (⟨.left, c, v, r⟩ :: path))

theorem inorder_rbEraseAt (path : Path α) (c : Color) (l r : RbTree α) :
    (rbEraseAt path c l r).inorder =
      before path ++ (l.inorder ++ r.inorder) ++ after path := by
  cases l with
  | nil =>
      cases r with
      | nil => simp [rbEraseAt, inorder_unlink]
      | node rc rl rv rr => simp [rbEraseAt, inorder_plug]
  | node lc ll lv lr =>
      cases r with
      | nil => simp [rbEraseAt, inorder_plug]
      | node rc rl rv rr =>
          rcases hminimum : minimum rc rv rr rl [] with ⟨spath, sc, s, child⟩
          have hright : (RbTree.node rc rl rv rr).inorder =
              s :: child.inorder ++ after spath := by
            have hplug := plug_minimum hminimum
            rw [plug] at hplug
            rw [← hplug, inorder_plug, before_minimum hminimum]
            rfl
          have hplace : ∀ t, (plug (spath ++ ⟨.right, c, s, .node lc ll lv lr⟩ :: path) t).inorder =
              before path ++ ((RbTree.node lc ll lv lr).inorder ++
                s :: t.inorder ++ after spath) ++ after path := by
            intro t
            rw [plug_append, plug, inorder_plug, Frame.fill, inorder_join, inorder_plug,
              before_minimum hminimum]
            simp [before]
          rw [hright]
          simp only [rbEraseAt, hminimum]
          cases child with
          | nil =>
              have hnil := hplace .nil
              rw [inorder_plug] at hnil
              rw [inorder_unlink]
              simpa using hnil
          | node cc l v r =>
              rw [hplace]
              simp

theorem plug_locate [DecidableEq α] {x : α} {t l r : RbTree α} {c : Color}
    {path path' : Path α} (hlocate : locate x t path = some (path', c, l, r)) :
    plug path' (.node c l x r) = plug path t := by
  induction t generalizing path with
  | nil => cases hlocate
  | node ct lt v rt ihLeft ihRight =>
      rw [locate] at hlocate
      split at hlocate
      · rename_i hv
        cases hlocate
        rw [hv]
      · split at hlocate
        · rename_i found hfound
          cases hlocate
          exact ihLeft hfound
        · exact ihRight hlocate

theorem locate_eq_none_iff [DecidableEq α] {x : α} {t : RbTree α} {path : Path α} :
    locate x t path = none ↔ x ∉ t.inorder := by
  induction t generalizing path with
  | nil => simp [locate]
  | node c l v r ihLeft ihRight =>
      rw [locate]
      split
      · rename_i hv
        simp [hv]
      · rename_i hv
        have hleft := @ihLeft (⟨.left, c, v, r⟩ :: path)
        split
        · rename_i found hfound
          have hmem : x ∈ l.inorder := by
            by_contra hnot
            rw [hleft.mpr hnot] at hfound
            cases hfound
          simp [hmem]
        · rename_i hnone
          simp [ihRight, hleft.mp hnone, Ne.symm hv]

/-- `rb_erase` takes out the node and keeps the order of the others. -/
theorem inorder_rbErase [DecidableEq α] {t : RbTree α} (hnodup : t.inorder.Nodup) (x : α) :
    (rbErase x t).inorder = t.inorder.erase x := by
  unfold rbErase
  split
  · rename_i path c l r hlocate
    have hplug := plug_locate hlocate
    rw [plug] at hplug
    have hinorder : t.inorder = (before path ++ l.inorder) ++ x :: (r.inorder ++ after path) := by
      rw [← hplug, inorder_plug]
      simp
    have hnot : x ∉ before path ++ l.inorder := by
      rw [hinorder, List.nodup_append] at hnodup
      exact fun hmem => hnodup.2.2 x hmem x (List.mem_cons_self ..) rfl
    rw [inorder_rbEraseAt, hinorder, List.erase_append_right _ hnot, List.erase_cons_head]
    simp
  · rename_i hnone
    exact (List.erase_of_not_mem (locate_eq_none_iff.mp hnone)).symm

/-- A node that is not outside of a subtree is located inside. -/
theorem locate_plug [DecidableEq α] {x : α} {t : RbTree α} (path rest : Path α)
    (hbefore : x ∉ before path) (hafter : x ∉ after path) (hmem : x ∈ t.inorder) :
    locate x (plug path t) rest = locate x t (path ++ rest) := by
  induction path generalizing t with
  | nil => rfl
  | cons f path ih =>
      rcases f with ⟨_ | _, c, v, sibling⟩
      · simp only [after, List.cons_append, List.mem_cons, List.mem_append, not_or] at hafter
        rw [plug, ih hbefore hafter.2.2 (by simp [Frame.fill, join, hmem]), Frame.fill, join,
          locate, if_neg (Ne.symm hafter.1)]
        split
        · rename_i found hfound
          exact hfound.symm
        · rename_i hnone
          exact absurd hmem (locate_eq_none_iff.mp hnone)
      · simp only [before, List.mem_append, List.mem_singleton, not_or] at hbefore
        rw [plug, ih hbefore.1 hafter (by simp [Frame.fill, join, hmem]), Frame.fill, join,
          locate, if_neg (Ne.symm hbefore.2.2), locate_eq_none_iff.mpr hbefore.2.1]
        rfl

/-- A node that is there once is located at its place. -/
theorem locate_plug_node [DecidableEq α] {x : α} {c : Color} {l r : RbTree α} {path : Path α}
    (hnodup : (plug path (.node c l x r)).inorder.Nodup) :
    locate x (plug path (.node c l x r)) [] = some (path, c, l, r) := by
  have houtside : x ∉ before path ∧ x ∉ after path := by
    rw [inorder_plug] at hnodup
    simp only [inorder_node, List.nodup_append, List.nodup_cons] at hnodup
    grind
  rw [locate_plug path [] houtside.1 houtside.2 (by simp), locate, if_pos rfl, List.append_nil]

end KtcpSplit.RedBlack
