import KtcpSplit.Lib.Transition
import Mathlib.Algebra.BigOperators.Fin
import Mathlib.Algebra.Order.Group.Multiset
import Mathlib.Tactic.Abel

/-!
# Bags that hand out what was put into them

The abstract allocator of reusable elements: it holds a multiset, an element is
put into it or taken out of it, and a request may fail.  The ledger remembers
what was ever put in and taken out.
-/

namespace KtcpSplit.Bag

open KtcpSplit.Transition

variable {α : Type*}

inductive Call (α : Type*)
  | put (elem : α)
  | take (elem : α)
  | fail

structure Ledger (α : Type*) where
  held : Multiset α
  freed : Multiset α
  returned : Multiset α

section Machine

variable [DecidableEq α]

/-- Only an element that is held is taken out. -/
def bag : Machine (Ledger α) (Call α) where
  init := ⟨0, 0, 0⟩
  next := fun ledger call =>
    match call with
    | .put elem =>
        some ⟨elem ::ₘ ledger.held, elem ::ₘ ledger.freed, ledger.returned⟩
    | .take elem =>
        if elem ∈ ledger.held then
          some ⟨ledger.held.erase elem, ledger.freed, elem ::ₘ ledger.returned⟩
        else none
    | .fail => some ledger

/-- No element is put in while it is inside. -/
def NotInside (ledger : Ledger α) : Call α → Prop
  | .put elem => elem ∉ ledger.held
  | _ => True

variable {ledger : Ledger α}

/-- Nothing is lost and nothing is made up. -/
theorem held_add_returned (hreach : bag.Reachable ledger) :
    ledger.held + ledger.returned = ledger.freed := by
  refine hreach.invariant
    (P := fun ledger => ledger.held + ledger.returned = ledger.freed) rfl ?_
  intro before call after _ hbefore _ hnext
  cases call with
  | put elem =>
      cases hnext
      simp only [Multiset.cons_add, hbefore]
  | take elem =>
      simp only [bag] at hnext
      split at hnext
      · rename_i hmem
        cases hnext
        calc
          before.held.erase elem + elem ::ₘ before.returned =
              elem ::ₘ before.held.erase elem + before.returned := by
            rw [Multiset.add_cons, Multiset.cons_add]
          _ = before.freed := by rw [Multiset.cons_erase hmem, hbefore]
      · cases hnext
  | fail =>
      cases hnext
      exact hbefore

theorem held_eq_sub (hreach : bag.Reachable ledger) :
    ledger.held = ledger.freed - ledger.returned := by
  rw [← held_add_returned hreach, Multiset.add_sub_cancel_right]

theorem returned_le_freed (hreach : bag.Reachable ledger) :
    ledger.returned ≤ ledger.freed := by
  rw [← held_add_returned hreach]
  exact Multiset.le_add_left _ _

/-- No element is inside twice, so none is handed out twice before it is put in
again. -/
theorem held_nodup (hreach : bag.ReachableUnder NotInside ledger) :
    ledger.held.Nodup := by
  refine hreach.invariant (P := fun ledger => ledger.held.Nodup)
    Multiset.nodup_zero ?_
  intro before call after _ hbefore hguard hnext
  cases call with
  | put elem =>
      cases hnext
      exact Multiset.nodup_cons.mpr ⟨hguard, hbefore⟩
  | take elem =>
      simp only [bag] at hnext
      split at hnext
      · cases hnext
        exact hbefore.erase elem
      · cases hnext
  | fail =>
      cases hnext
      exact hbefore

end Machine

/-! ## Bags spread over a family -/

section Sum

variable {ι β M : Type*} [DecidableEq ι] [AddCommMonoid M]

/-- Replacing one member of a family changes a total by the difference. -/
theorem sum_update_add_of_mem (f : β → M) (p : ι → β) {s : Finset ι} {i : ι}
    (hi : i ∈ s) (x : β) :
    ∑ k ∈ s, f (Function.update p i x k) + f (p i) = ∑ k ∈ s, f (p k) + f x := by
  have hrest : ∑ k ∈ s.erase i, f (Function.update p i x k) =
      ∑ k ∈ s.erase i, f (p k) := by
    apply Finset.sum_congr rfl
    intro k hk
    rw [Function.update_of_ne (Finset.ne_of_mem_erase hk)]
  rw [← Finset.add_sum_erase _ _ hi, ← Finset.add_sum_erase _ (fun k => f (p k)) hi,
    hrest, Function.update_self]
  abel

theorem sum_update_add [Fintype ι] (f : β → M) (p : ι → β) (i : ι) (x : β) :
    ∑ k, f (Function.update p i x k) + f (p i) = ∑ k, f (p k) + f x :=
  sum_update_add_of_mem f p (Finset.mem_univ i) x

omit [DecidableEq ι] in
/-- An element is replaced by those of a list. -/
theorem sum_map_erase_add [DecidableEq α] (f : α → M) {m : Multiset α} {x : α} (hx : x ∈ m)
    (list : List α) :
    ((m.erase x + ↑list).map f).sum + f x = (m.map f).sum + (list.map f).sum := by
  have hold : (m.map f).sum = f x + ((m.erase x).map f).sum := by
    rw [← Multiset.sum_cons, ← Multiset.map_cons, Multiset.cons_erase hx]
  rw [hold, Multiset.map_add, Multiset.sum_add, Multiset.map_coe, Multiset.sum_coe]
  abel

end Sum

/-! ## Taking one out of a list -/

section Pick

/-- The element at `k`, and the others. -/
def pick (list : List α) (k : ℕ) : Option (α × List α) :=
  list[k]?.map fun x => (x, list.eraseIdx k)

theorem coe_of_pick {list rest : List α} {k : ℕ} {x : α}
    (hpick : pick list k = some (x, rest)) : (list : Multiset α) = x ::ₘ ↑rest := by
  obtain ⟨y, hy, hpair⟩ := Option.map_eq_some_iff.mp hpick
  obtain ⟨hk, rfl⟩ := List.getElem?_eq_some_iff.mp hy
  cases hpair
  rw [Multiset.cons_coe, Multiset.coe_eq_coe]
  exact (List.getElem_cons_eraseIdx_perm hk).symm

theorem mem_iff_of_pick {list rest : List α} {k : ℕ} {x y : α}
    (hpick : pick list k = some (x, rest)) : y ∈ list ↔ y = x ∨ y ∈ rest := by
  rw [← Multiset.mem_coe, coe_of_pick hpick, Multiset.mem_cons, Multiset.mem_coe]

end Pick

end KtcpSplit.Bag
