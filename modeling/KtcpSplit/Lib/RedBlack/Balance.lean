import KtcpSplit.Lib.RedBlack.Tree

/-!
# Insertion and removal keep red-black trees balanced

A path fits a colour and a black height if a subtree with both makes a balanced tree at
its end.
-/

namespace KtcpSplit.RedBlack

open RbTree

variable {α : Type*}

/-- No red node has a red child, and so many black nodes lie on every way down. -/
inductive Balanced : RbTree α → Color → ℕ → Prop
  | nil : Balanced .nil .black 0
  | red {l r : RbTree α} {v : α} {n : ℕ} (left : Balanced l .black n)
      (right : Balanced r .black n) : Balanced (.node .red l v r) .red n
  | black {l r : RbTree α} {v : α} {cl cr : Color} {n : ℕ} (left : Balanced l cl n)
      (right : Balanced r cr n) : Balanced (.node .black l v r) .black (n + 1)

def Fits : Path α → Color → ℕ → Prop
  | [], c, _ => c = .black
  | ⟨_, .red, _, sibling⟩ :: path, c, n =>
      c = .black ∧ Balanced sibling .black n ∧ Fits path .red n
  | ⟨_, .black, _, sibling⟩ :: path, _, n =>
      (∃ c, Balanced sibling c n) ∧ Fits path .black (n + 1)

variable {t near far : RbTree α} {path : Path α} {c : Color} {n : ℕ}

theorem Balanced.join_red (hnear : Balanced near .black n) (hfar : Balanced far .black n)
    (d : Side) (v : α) : Balanced (join d .red near v far) .red n := by
  cases d with
  | left => exact .red hnear hfar
  | right => exact .red hfar hnear

theorem Balanced.join_black {c' : Color} (hnear : Balanced near c n) (hfar : Balanced far c' n)
    (d : Side) (v : α) : Balanced (join d .black near v far) .black (n + 1) := by
  cases d with
  | left => exact .black hnear hfar
  | right => exact .black hfar hnear

/-- The children of a node, whatever the side. -/
theorem Balanced.of_join_red {d : Side} {v : α} (h : Balanced (join d .red near v far) c n) :
    c = .red ∧ Balanced near .black n ∧ Balanced far .black n := by
  cases d with
  | left => cases h with | red left right => exact ⟨rfl, left, right⟩
  | right => cases h with | red left right => exact ⟨rfl, right, left⟩

theorem Balanced.of_join_black {d : Side} {v : α}
    (h : Balanced (join d .black near v far) c n) :
    c = .black ∧ ∃ m c₁ c₂, n = m + 1 ∧ Balanced near c₁ m ∧ Balanced far c₂ m := by
  cases d with
  | left => cases h with | black left right => exact ⟨rfl, _, _, _, rfl, left, right⟩
  | right => cases h with | black left right => exact ⟨rfl, _, _, _, rfl, right, left⟩

theorem Balanced.blacken_eq (h : Balanced t .black n) : t.blacken = t := by
  cases h with
  | nil => rfl
  | black => rfl

theorem Balanced.isRed_iff (h : Balanced t c n) : t.isRed = true ↔ c = .red := by
  cases h <;> simp [isRed]

theorem Balanced.of_not_isRed (h : Balanced t c n) (hred : ¬ t.isRed = true) :
    Balanced t .black n := by
  cases h with
  | nil => exact .nil
  | red => exact absurd rfl hred
  | black left right => exact .black left right

/-- A red node that turns black adds to the black height. -/
theorem Balanced.blacken (h : Balanced t .red n) : Balanced t.blacken .black (n + 1) := by
  cases h with
  | red left right => exact .black left right

/-- A black subtree fits wherever any does. -/
theorem Fits.black (h : Fits path c n) : Fits path .black n := by
  cases c with
  | black => exact h
  | red =>
      match path, h with
      | ⟨_, .black, _, _⟩ :: _, h => exact h

theorem Balanced.fill {f : Frame α} (h : Balanced t c n) (hfits : Fits (f :: path) c n) :
    ∃ n', Balanced (f.fill t) f.color n' ∧ Fits path f.color n' := by
  rcases f with ⟨d, _ | _, v, sibling⟩
  · obtain ⟨rfl, hsibling, hpath⟩ := hfits
    exact ⟨n, h.join_red hsibling d v, hpath⟩
  · obtain ⟨⟨c', hsibling⟩, hpath⟩ := hfits
    exact ⟨n + 1, h.join_black hsibling d v, hpath⟩

theorem Balanced.plug (h : Balanced t c n) (hfits : Fits path c n) :
    ∃ n', Balanced (plug path t) .black n' := by
  induction path generalizing t c n with
  | nil =>
      obtain rfl : c = .black := hfits
      exact ⟨n, h⟩
  | cons f path ih =>
      obtain ⟨n', hfill, hpath⟩ := h.fill hfits
      exact ih hfill hpath

/-- A subtree of a balanced tree is balanced, and its place fits it. -/
theorem Balanced.of_plug (h : Balanced (RedBlack.plug path t) .black n) :
    ∃ c m, Balanced t c m ∧ Fits path c m := by
  induction path generalizing t with
  | nil => exact ⟨.black, n, h, rfl⟩
  | cons f path ih =>
      obtain ⟨c, m, hfill, hpath⟩ := ih h
      rcases f with ⟨d, _ | _, v, sibling⟩
      · obtain ⟨rfl, ht, hsibling⟩ := Balanced.of_join_red hfill
        exact ⟨.black, m, ht, rfl, hsibling, hpath⟩
      · obtain ⟨rfl, m', c₁, c₂, rfl, ht, hsibling⟩ := Balanced.of_join_black hfill
        exact ⟨c₁, m', ht, ⟨c₂, hsibling⟩, hpath⟩

/-! ## Insertion -/

/-- Above a red parent the grandparent is black. -/
theorem Fits.parents {f g : Frame α} (hfits : Fits (f :: g :: path) .black n)
    (hred : ¬ f.color = .black) :
    g.color = .black ∧ Balanced f.sibling .black n ∧ (∃ c, Balanced g.sibling c n) ∧
      Fits path .black (n + 1) := by
  rcases f with ⟨_, _ | _, _, _⟩
  · rcases g with ⟨_, _ | _, _, _⟩
    · cases hfits.2.2.1
    · exact ⟨rfl, hfits.2.1, hfits.2.2⟩
  · exact absurd rfl hred

theorem Balanced.insertColor (h : Balanced t .red n) (hfits : Fits path .black n) :
    ∃ n', Balanced (insertColor t path) .black n' := by
  fun_induction RedBlack.insertColor t path generalizing n with
  | case1 t => exact ⟨n + 1, h.blacken⟩
  | case2 t f =>
      rcases f with ⟨d, _ | _, v, sibling⟩
      · cases hfits.2.2
      · obtain ⟨⟨c, hsibling⟩, -⟩ := hfits
        exact ⟨n + 1, h.join_black hsibling d v⟩
  | case3 t f g path hblack =>
      rcases f with ⟨d, _ | _, v, sibling⟩
      · cases hblack
      · exact Balanced.plug h hfits
  | case4 t f g path hblack hred ih =>
      obtain ⟨-, hsibling, ⟨c, huncle⟩, hpath⟩ := hfits.parents hblack
      obtain rfl := huncle.isRed_iff.mp hred
      exact ih ((h.join_black hsibling f.side f.value).join_red huncle.blacken _ _) hpath
  | case5 t f g path hblack hred hside =>
      obtain ⟨hg, hsibling, ⟨c, huncle⟩, hpath⟩ := hfits.parents hblack
      rw [hsibling.blacken_eq, hg]
      exact (h.join_black (hsibling.join_red (huncle.of_not_isRed hred) _ _) _ _).plug hpath
  | case6 => cases h
  | case7 f g path hblack hred hside c l v r near far hsides =>
      obtain ⟨hg, hsibling, ⟨c, huncle⟩, hpath⟩ := hfits.parents hblack
      obtain ⟨hnear, hfar⟩ : Balanced near .black n ∧ Balanced far .black n := by
        cases h with
        | red left right =>
            cases hd : g.side <;> rw [hd] at hsides <;> cases hsides
            · exact ⟨left, right⟩
            · exact ⟨right, left⟩
      rw [hnear.blacken_eq, hfar.blacken_eq, hg]
      exact ((hsibling.join_red hnear _ _).join_black
        (hfar.join_red (huncle.of_not_isRed hred) _ _) _ _).plug hpath

theorem Balanced.link {cmp : α → ℤ} (h : Balanced t .black n)
    (hdescend : descend cmp t [] = .ok path) (data : α) :
    ∃ n', Balanced (link data path) .black n' := by
  have hplug : RedBlack.plug path .nil = t := plug_descend hdescend
  rw [← hplug] at h
  obtain ⟨c, m, hnil, hfits⟩ := h.of_plug
  cases hnil
  exact (Balanced.red .nil .nil).insertColor hfits

/-! ## Removal -/

/-- The black height of a node of a colour over children of one black height. -/
def Color.above (c : Color) (n : ℕ) : ℕ := if c = .black then n + 1 else n

/-- Black children suit a node of either colour. -/
theorem Balanced.join (hnear : Balanced near .black n) (hfar : Balanced far .black n)
    (d : Side) (c : Color) (v : α) : Balanced (join d c near v far) c (c.above n) := by
  cases c with
  | red => exact hnear.join_red hfar d v
  | black => exact hnear.join_black hfar d v

variable {cn cf : Color}

/-- The loop stops with a subtree that suits the place of the parent, or goes on from a
black parent with a subtree that lacks a black node. -/
theorem Balanced.settleSibling (h : Balanced t .black n) (hnear : Balanced near cn n)
    (hfar : Balanced far cf n) (d : Side) (c : Color) (v s : α) :
    let settled := settleSibling d c t v near s far
    settled.1 = false ∧ (∃ c', (c' = c ∨ c' = .black) ∧
        Balanced settled.2 c' (c.above (n + 1))) ∨
      settled.1 = true ∧ c = .black ∧ Balanced settled.2 .black (n + 1) := by
  refine settleSibling_cases (P := fun settled : Bool × RbTree α =>
    settled.1 = false ∧ (∃ c', (c' = c ∨ c' = .black) ∧
        Balanced settled.2 c' (c.above (n + 1))) ∨
      settled.1 = true ∧ c = .black ∧ Balanced settled.2 .black (n + 1)) ?_ ?_ ?_
  · intro hred
    obtain rfl := hfar.isRed_iff.mp hred
    exact .inl ⟨rfl, c, .inl rfl, (h.join_black hnear d v).join hfar.blacken d c s⟩
  · rintro - a m b rfl
    obtain ⟨rfl, ha, hb⟩ := Balanced.of_join_red hnear
    rw [hb.blacken_eq]
    exact .inl ⟨rfl, c, .inl rfl, (h.join_black ha d v).join (hb.join_black hfar d s) d c m⟩
  · intro hnotFar hnotNear
    have hflipped := h.join_black
      ((hnear.of_not_isRed hnotNear).join_red (hfar.of_not_isRed hnotFar) d s) d v
    cases c with
    | red => exact .inl ⟨rfl, .black, .inr rfl, hflipped⟩
    | black => exact .inr ⟨rfl, rfl, hflipped⟩

/-- The sibling and the place of the parent. -/
theorem Fits.parent {f : Frame α} (hfits : Fits (f :: path) .black n) :
    (∃ c, Balanced f.sibling c n ∧ (f.color = .red → c = .black)) ∧
      Fits path f.color (f.color.above n) := by
  rcases f with ⟨d, _ | _, v, sibling⟩
  · exact ⟨⟨.black, hfits.2.1, fun _ => rfl⟩, hfits.2.2⟩
  · obtain ⟨⟨c, hsibling⟩, hpath⟩ := hfits
    exact ⟨⟨c, hsibling, fun hred => Color.noConfusion hred⟩, hpath⟩

/-- What becomes of the parent where the loop stops: after a rotation under a red sibling,
or at once. -/
inductive Rotates (t : RbTree α) (f : Frame α) : RbTree α → Prop
  | red {near far far' : RbTree α} {m s : α}
      (hsibling : f.sibling = join f.side .red (join f.side .black near m far) s far')
      (hfar' : far' ≠ .nil) :
      Rotates t f (join f.side f.color (settleSibling f.side .red t f.value near m far).2 s far')
  | black {near far : RbTree α} {s : α} (hsibling : f.sibling = join f.side .black near s far)
      (hdone : (settleSibling f.side f.color t f.value near s far).1 = false) :
      Rotates t f (settleSibling f.side f.color t f.value near s far).2

/-- The cases of the loop of `____rb_erase_color` in a balanced tree, where a node lacks a
black node. -/
theorem Balanced.eraseColor_induct {P : RbTree α → Path α → RbTree α → Prop}
    (root : ∀ t n, Balanced t .black n → P t [] t)
    (rotate : ∀ t f path t' c n, Rotates t f t' → Balanced t' c n → Fits path c n →
      P t (f :: path) (RedBlack.plug path t'))
    (goOn : ∀ t f path near s far root, f.sibling = RedBlack.join f.side .black near s far →
      (RedBlack.settleSibling f.side f.color t f.value near s far).1 = true →
      P (RedBlack.settleSibling f.side f.color t f.value near s far).2 path root →
      P t (f :: path) root)
    (h : Balanced t .black n) (hfits : Fits path .black (n + 1)) :
    P t path (eraseColor t path) := by
  refine RedBlack.eraseColor_induct (P := fun t path root => ∀ n, Balanced t .black n →
    Fits path .black (n + 1) → P t path root) ?_ ?_ ?_ ?_ ?_ t path n h hfits
  · exact fun t n h _ => root t n h
  · intro t f path hstuck n _ hfits
    obtain ⟨⟨c, hsibling, -⟩, -⟩ := hfits.parent
    rcases hstuck with hnil | ⟨s, far, hjoin⟩
    · rw [hnil] at hsibling
      cases hsibling
    · rw [hjoin] at hsibling
      obtain ⟨-, hnear, -⟩ := Balanced.of_join_red hsibling
      cases hnear
  · intro t f path cm near m far s far' hsibling n h hfits
    obtain ⟨⟨c, hbalanced, hc⟩, hpath⟩ := hfits.parent
    rw [hsibling] at hbalanced
    obtain ⟨rfl, hmiddle, hfar'⟩ := Balanced.of_join_red hbalanced
    -- A red node has black children, and a black parent.
    have hf : f.color = .black := by
      cases hf : f.color with
      | red => cases hc hf
      | black => rfl
    cases cm with
    | red => cases (Balanced.of_join_red hmiddle).1
    | black =>
        obtain ⟨-, m', c₁, c₂, hm, hnear, hfar⟩ := Balanced.of_join_black hmiddle
        obtain rfl : n = m' := Nat.succ.inj hm
        have hne : far' ≠ .nil := by
          rintro rfl
          cases hfar'
        rcases h.settleSibling hnear hfar f.side .red f.value m with
          ⟨-, c', -, hsettled⟩ | ⟨-, hblack, -⟩
        · rw [hf] at hpath
          refine rotate t f path _ .black (n + 2) (.red hsibling hne) ?_ hpath
          rw [hf]
          exact hsettled.join_black hfar' f.side s
        · cases hblack
  · intro t f path near s far hsibling hdone n h hfits
    obtain ⟨⟨c, hbalanced, -⟩, hpath⟩ := hfits.parent
    rw [hsibling] at hbalanced
    obtain ⟨-, m, c₁, c₂, hm, hnear, hfar⟩ := Balanced.of_join_black hbalanced
    obtain rfl : n = m := Nat.succ.inj hm
    rcases h.settleSibling hnear hfar f.side f.color f.value s with
      ⟨-, c', rfl | rfl, hsettled⟩ | ⟨hgoOn, -⟩
    · exact rotate t f path _ _ _ (.black hsibling hdone) hsettled hpath
    · exact rotate t f path _ _ _ (.black hsibling hdone) hsettled hpath.black
    · cases hdone.symm.trans hgoOn
  · intro t f path near s far root hsibling hgoOn ih n h hfits
    obtain ⟨⟨c, hbalanced, -⟩, hpath⟩ := hfits.parent
    rw [hsibling] at hbalanced
    obtain ⟨-, m, c₁, c₂, hm, hnear, hfar⟩ := Balanced.of_join_black hbalanced
    obtain rfl : n = m := Nat.succ.inj hm
    refine goOn t f path near s far root hsibling hgoOn ?_
    rcases h.settleSibling hnear hfar f.side f.color f.value s with
      ⟨hdone, -⟩ | ⟨-, hblack, hsettled⟩
    · cases hdone.symm.trans hgoOn
    · rw [hblack] at hpath hsettled
      exact ih (n + 1) (hblack ▸ hsettled) hpath

theorem Balanced.eraseColor (h : Balanced t .black n) (hfits : Fits path .black (n + 1)) :
    ∃ n', Balanced (eraseColor t path) .black n' :=
  h.eraseColor_induct (P := fun _ _ root => ∃ n', Balanced root .black n')
    (fun _ n h => ⟨n, h⟩) (fun _ _ _ _ _ _ _ h hpath => h.plug hpath)
    (fun _ _ _ _ _ _ _ _ _ ih => ih) hfits

/-- The place of a node without children, black or red. -/
theorem Balanced.unlink {v : α} {c' : Color}
    (h : Balanced (.node c .nil v .nil : RbTree α) c' n)
    (hfits : Fits path c' n) : ∃ n', Balanced (unlink c path) .black n' := by
  cases h with
  | red left right =>
      cases left
      exact Balanced.nil.plug hfits.black
  | black left right =>
      cases left
      exact Balanced.nil.eraseColor hfits

/-- Whether a path fits does not depend on the values of its nodes. -/
theorem Fits.of_value {d : Side} {cf : Color} {v : α} {sibling : RbTree α} {spath : Path α}
    (hfits : Fits (spath ++ ⟨d, cf, v, sibling⟩ :: path) c n) (v' : α) :
    Fits (spath ++ ⟨d, cf, v', sibling⟩ :: path) c n := by
  induction spath generalizing c n with
  | nil => cases cf <;> exact hfits
  | cons g spath ih =>
      rcases g with ⟨d, _ | _, v, sibling⟩
      · exact ⟨hfits.1, hfits.2.1, ih hfits.2.2⟩
      · exact ⟨hfits.1, ih hfits.2⟩

/-- An only child hangs on a black node, and is red. -/
theorem Balanced.only_child {l r : RbTree α} {d : Side} {v w : α} {cc c' : Color}
    (h : Balanced (RedBlack.join d c .nil v (.node cc l w r)) c' n) :
    c = .black ∧ Balanced (.node .black l w r) c' n := by
  cases c with
  | red =>
      obtain ⟨-, hnil, hnode⟩ := Balanced.of_join_red h
      cases hnil
      cases hnode
  | black =>
      obtain ⟨rfl, m, c₁, c₂, rfl, hnil, hnode⟩ := Balanced.of_join_black h
      cases hnil
      cases hnode with
      | red left right => exact ⟨rfl, .black left right⟩

/-- The successor before it takes the place of a node, on the path that it leaves. -/
theorem Balanced.successor {l rl rr child : RbTree α} {x rv s : α} {c' rc sc : Color}
    {spath : Path α} (h : Balanced (.node c l x (.node rc rl rv rr)) c' n)
    (hfits : Fits path c' n) (hminimum : minimum rc rv rr rl [] = (spath, sc, s, child)) :
    ∃ c'' m, Balanced (.node sc .nil s child) c'' m ∧
      Fits (spath ++ ⟨.right, c, s, l⟩ :: path) c'' m := by
  have hright := plug_minimum hminimum
  rw [RedBlack.plug] at hright
  obtain ⟨n', hwhole⟩ := h.plug hfits
  have hplace : RedBlack.plug path (.node c l x (.node rc rl rv rr)) =
      RedBlack.plug (spath ++ ⟨.right, c, x, l⟩ :: path) (.node sc .nil s child) := by
    rw [plug_append, hright]
    rfl
  rw [hplace] at hwhole
  obtain ⟨c'', m, hsuccessor, hpath⟩ := hwhole.of_plug
  exact ⟨c'', m, hsuccessor, hpath.of_value s⟩

theorem Balanced.rbEraseAt {l r : RbTree α} {x : α} {c' : Color}
    (h : Balanced (.node c l x r) c' n) (hfits : Fits path c' n) :
    ∃ n', Balanced (rbEraseAt path c l r) .black n' := by
  cases l with
  | nil =>
      cases r with
      | nil => exact h.unlink hfits
      | node rc rl rv rr =>
          obtain ⟨rfl, hchild⟩ := Balanced.only_child (d := .left) h
          exact hchild.plug hfits
  | node lc ll lv lr =>
      cases r with
      | nil =>
          obtain ⟨rfl, hchild⟩ := Balanced.only_child (d := .right) h
          exact hchild.plug hfits
      | node rc rl rv rr =>
          rcases hminimum : minimum rc rv rr rl [] with ⟨spath, sc, s, child⟩
          obtain ⟨c'', m, hsuccessor, hpath⟩ := h.successor hfits hminimum
          simp only [RedBlack.rbEraseAt, hminimum]
          cases child with
          | nil => exact hsuccessor.unlink hpath
          | node cc l v r =>
              obtain ⟨-, hchild⟩ := Balanced.only_child (d := .left) hsuccessor
              exact hchild.plug hpath

theorem Balanced.rbErase [DecidableEq α] (h : Balanced t .black n) (x : α) :
    ∃ n', Balanced (rbErase x t) .black n' := by
  unfold RedBlack.rbErase
  split
  · rename_i path c l r hlocate
    have hplug := plug_locate hlocate
    rw [RedBlack.plug] at hplug
    rw [← hplug] at h
    obtain ⟨c', m, hnode, hfits⟩ := h.of_plug
    exact hnode.rbEraseAt hfits
  · exact ⟨n, h⟩

end KtcpSplit.RedBlack
