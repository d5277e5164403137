import KtcpSplit.Lib.RedBlack.First

/-!
# Walks that remove what they visit

A walk in postorder that fetches the next node before it removes the current one.
The removal rebalances the tree, so the node that was fetched need not be the one
that comes next.
-/

namespace KtcpSplit.RedBlack

open RbTree

variable {α : Type*} [DecidableEq α]

/-- The nodes that were visited, each with the tree it was found in, the tree that is
left, and the node that the walk would visit next. -/
structure Walk (α : Type*) where
  visits : List (α × RbTree α)
  root : RbTree α
  pos : Option α

/-- `rbtree_postorder_for_each_entry_safe` with a body that calls `rb_erase`. -/
def drainFrom : ℕ → Option α → RbTree α → Walk α
  | fuel + 1, some pos, t =>
      let n := rbNextPostorder pos t
      let walk := drainFrom fuel n (rbErase pos t)
      { walk with visits := (pos, t) :: walk.visits }
  | _, pos, t => ⟨[], t, pos⟩

/-- The walk from the first node; a visit for each node suffices. -/
def drain (t : RbTree α) : Walk α := drainFrom t.inorder.length (rbFirstPostorder t) t

/-- Removing the first node over and over never skips one. -/
inductive Drains : RbTree α → Prop
  | nil : Drains .nil
  | step {t : RbTree α} {x : α} : rbFirstPostorder t = some x → skips t = false →
      Drains (rbErase x t) → Drains t

variable {t : RbTree α} {fuel n : ℕ} {x y : α} {pos : Option α}

@[simp]
theorem drainFrom_none : drainFrom fuel none t = ⟨[], t, none⟩ := by
  cases fuel <;> rfl

theorem drainFrom_some : drainFrom (fuel + 1) (some x) t =
    { drainFrom fuel (rbNextPostorder x t) (rbErase x t) with
      visits := (x, t) :: (drainFrom fuel (rbNextPostorder x t) (rbErase x t)).visits } := rfl

/-- The node that was fetched is still there after the removal. -/
theorem next_mem (hnodup : t.inorder.Nodup) (hnext : rbNextPostorder x t = some y) :
    y ∈ (rbErase x t).inorder := by
  obtain ⟨pre, rest, hpostorder, -, hne⟩ := next_spec hnodup hnext
  rw [inorder_rbErase hnodup, List.mem_erase_of_ne hne, ← mem_postorder, hpostorder]
  simp

theorem nodup_rbErase (hnodup : t.inorder.Nodup) (x : α) : (rbErase x t).inorder.Nodup := by
  rw [inorder_rbErase hnodup]
  exact hnodup.erase x

omit [DecidableEq α] in
theorem first_mem (hfirst : rbFirstPostorder t = some x) : x ∈ t.inorder := by
  rw [rbFirstPostorder, rbLeftDeepestNode_eq] at hfirst
  exact mem_postorder.mp (List.mem_of_mem_head? hfirst)

/-- The induction over a walk: the node at the cursor is in the tree. -/
theorem drainFrom_induct {P : Option α → RbTree α → Walk α → Prop}
    (hdone : ∀ t, P none t ⟨[], t, none⟩)
    (hvisit : ∀ x t walk, t.inorder.Nodup → x ∈ t.inorder →
      P (rbNextPostorder x t) (rbErase x t) walk →
      P (some x) t { walk with visits := (x, t) :: walk.visits })
    (hnodup : t.inorder.Nodup) (hpos : ∀ x, pos = some x → x ∈ t.inorder)
    (hfuel : t.inorder.length ≤ fuel) : P pos t (drainFrom fuel pos t) := by
  induction fuel generalizing t pos with
  | zero =>
      cases pos with
      | none => exact hdone t
      | some x =>
          have hpositive := List.length_pos_of_mem (hpos x rfl)
          omega
  | succ fuel ih =>
      cases pos with
      | none => exact hdone t
      | some x =>
          have hx := hpos x rfl
          refine hvisit x t _ hnodup hx (ih (nodup_rbErase hnodup x) ?_ ?_)
          · exact fun y hnext => next_mem hnodup hnext
          · rw [inorder_rbErase hnodup, List.length_erase_of_mem hx]
            omega

/-- The walk ends. -/
theorem drain_pos (hnodup : t.inorder.Nodup) : (drain t).pos = none :=
  drainFrom_induct (P := fun _ _ walk => walk.pos = none) (fun _ => rfl)
    (fun _ _ _ _ _ hwalk => hwalk) hnodup (fun _ => first_mem) (Nat.le_refl _)

/-- Every node was visited once or is still there. -/
theorem drain_perm (hnodup : t.inorder.Nodup) :
    ((drain t).visits.map Prod.fst ++ (drain t).root.inorder).Perm t.inorder := by
  refine drainFrom_induct (P := fun _ t walk =>
    (walk.visits.map Prod.fst ++ walk.root.inorder).Perm t.inorder) (fun _ => List.Perm.refl _)
    ?_ hnodup (fun _ => first_mem) (Nat.le_refl _)
  intro x t walk hnodup hx hwalk
  rw [inorder_rbErase hnodup] at hwalk
  exact (hwalk.cons x).trans (List.perm_cons_erase hx).symm

/-- Behind the lowest nodes no walk empties the tree. -/
theorem Behind.root_ne_nil (hbehind : Behind t x) (h : Balanced t .black n)
    (hnodup : t.inorder.Nodup) : (drainFrom fuel (some x) t).root ≠ .nil := by
  induction fuel generalizing t x n with
  | zero =>
      rintro rfl
      cases hbehind.1
  | succ fuel ih =>
      have hleft := hbehind.rbErase_ne_nil hnodup
      rw [drainFrom_some]
      cases hnext : rbNextPostorder x t with
      | none =>
          rw [drainFrom_none]
          exact hleft
      | some y =>
          obtain ⟨m, hbalanced⟩ := h.rbErase x
          exact ih (hbehind.next h hnodup hnext) hbalanced (nodup_rbErase hnodup x)

theorem drains_iff (hfirst : rbFirstPostorder t = some x) :
    Drains t ↔ skips t = false ∧ Drains (rbErase x t) := by
  constructor
  · intro hdrains
    cases hdrains with
    | nil => cases hfirst
    | step hx hnot hrest =>
        obtain rfl := Option.some_inj.mp (hfirst.symm.trans hx)
        exact ⟨hnot, hrest⟩
  · exact fun ⟨hnot, hrest⟩ => .step hfirst hnot hrest

omit [DecidableEq α] in
theorem first_eq_none_iff : rbFirstPostorder t = none ↔ t = .nil := by
  rw [rbFirstPostorder, rbLeftDeepestNode_eq, List.head?_eq_none_iff, postorder_eq_nil_iff]

/-- A walk from the first node empties the tree exactly when it never skips a node. -/
theorem Balanced.drainFrom_root_eq_nil_iff (h : Balanced t .black n) (hnodup : t.inorder.Nodup)
    (hfuel : t.inorder.length ≤ fuel) :
    (RedBlack.drainFrom fuel (rbFirstPostorder t) t).root = .nil ↔ Drains t := by
  induction fuel generalizing t n with
  | zero =>
      obtain rfl : t = .nil := by
        cases t with
        | nil => rfl
        | node => simp [inorder] at hfuel
      exact iff_of_true rfl .nil
  | succ fuel ih =>
      cases hfirst : rbFirstPostorder t with
      | none =>
          obtain rfl := first_eq_none_iff.mp hfirst
          exact iff_of_true rfl .nil
      | some x =>
          obtain ⟨m, hbalanced⟩ := h.rbErase x
          have hremaining := nodup_rbErase hnodup x
          rw [drainFrom_some, drains_iff hfirst]
          rcases h.first_cases hnodup hfirst with ⟨hskips, y, hnext, hbehind⟩ | ⟨hskips, hnext⟩
          · rw [hnext, hskips]
            exact iff_of_false (hbehind.root_ne_nil hbalanced hremaining)
              fun ⟨hnot, _⟩ => Bool.noConfusion hnot
          · have hlength : (RedBlack.rbErase x t).inorder.length ≤ fuel := by
              rw [inorder_rbErase hnodup, List.length_erase_of_mem (first_mem hfirst)]
              omega
            rw [hnext, hskips, ih hbalanced hremaining hlength]
            exact (and_iff_right rfl).symm

theorem Balanced.drain_root_eq_nil_iff (h : Balanced t .black n) (hnodup : t.inorder.Nodup) :
    (RedBlack.drain t).root = .nil ↔ Drains t :=
  h.drainFrom_root_eq_nil_iff hnodup (Nat.le_refl _)

end KtcpSplit.RedBlack
