import KtcpSplit.Tree.Listner
import KtcpSplit.Tree.Preconn

/-!
# Lookups in the trees of listeners and of pre-connection pools

Both trees compare their keys by the same wrapping subtraction, and both are
instances of the tree over a wrapping difference.
-/

namespace KtcpSplit.Lookups

open KtcpSplit.Listner
open KtcpSplit.Preconn
open KtcpSplit.SearchTree
open KtcpSplit.Transition
open KtcpSplit.WrappingTree

/-- Every sequence of `add_rb_listner` calls with listeners of the set keeps the
lookups correct. -/
def ListnerLookups (listners : Set CbnListner) : Prop :=
  ∀ s, (inserting addRbListner).ReachableUnder (fun _ label => label.1 ∈ listners) s →
    LookupsCorrect CbnListner.key searchRbListner addRbListner s

/-- Every sequence of `add_rb_preconn` calls with pools of the set keeps the lookups
correct. -/
def PreconnLookups (preconns : Set CbnPreconnection) : Prop :=
  ∀ s, (inserting addRbPreconn).ReachableUnder (fun _ label => label.1 ∈ preconns) s →
    LookupsCorrect CbnPreconnection.key searchRbPreconn addRbPreconn s

theorem listnerLookups_eq : ListnerLookups = Safe CbnListner.key := rfl

theorem preconnLookups_eq : PreconnLookups = Safe CbnPreconnection.key := rfl

/-- Lookups are correct in all runs over a set of nodes exactly when the wrapping
comparison does not go round on their keys. -/
theorem lookups_correct_iff (listners : Set CbnListner) (preconns : Set CbnPreconnection) :
    (ListnerLookups listners ↔ Chained (CbnListner.key '' listners)) ∧
      (PreconnLookups preconns ↔ Chained (CbnPreconnection.key '' preconns)) := by
  constructor
  · rw [listnerLookups_eq]
    exact safe_iff_chained
  · rw [preconnLookups_eq]
    exact safe_iff_chained

/-- Tenants with marks below `CBN_CORE_ROUTE_MARK` find their listeners. -/
theorem low_marks_found : ListnerLookups {data | 0 ≤ data.key.toInt} := by
  rw [listnerLookups_eq, safe_iff_chained]
  apply chained_nonneg.mono
  rintro _ ⟨data, hdata, rfl⟩
  exact hdata

/-! ## A tenant whose listener is not found -/

/-- The leaf of a listener for the mark. -/
def leaf (mark : Mark) : BinaryTree CbnListner := .node ⟨mark.toNat, mark⟩ .nil .nil

/-- A listener above two subtrees. -/
def above (mark : Mark) (left right : BinaryTree CbnListner) : BinaryTree CbnListner :=
  .node ⟨mark.toNat, mark⟩ left right

/-- Eight tenants in the order in which they register, with the trees of the
red-black balancing; the last insertion rotates at the root. -/
def eightTenants : List (CbnListner × BinaryTree CbnListner) :=
  [(0x10000000, leaf 0x10000000),
    (0xA0000000, above 0x10000000 (leaf 0xA0000000) .nil),
    (0x60000000, above 0x10000000 (leaf 0xA0000000) (leaf 0x60000000)),
    (0x70000000, above 0x10000000 (leaf 0xA0000000)
      (above 0x60000000 .nil (leaf 0x70000000))),
    (0x78000000, above 0x10000000 (leaf 0xA0000000)
      (above 0x70000000 (leaf 0x60000000) (leaf 0x78000000))),
    (0x7C000000, above 0x10000000 (leaf 0xA0000000)
      (above 0x70000000 (leaf 0x60000000) (above 0x78000000 .nil (leaf 0x7C000000)))),
    (0x7E000000, above 0x10000000 (leaf 0xA0000000)
      (above 0x70000000 (leaf 0x60000000)
        (above 0x7C000000 (leaf 0x78000000) (leaf 0x7E000000)))),
    (0x7F000000, above 0x70000000
      (above 0x10000000 (leaf 0xA0000000) (leaf 0x60000000))
      (above 0x7C000000 (leaf 0x78000000)
        (above 0x7E000000 .nil (leaf 0x7F000000))))].map
    fun (mark, root) => (⟨BitVec.toNat mark, mark⟩, root)

/-- The listener of the second tenant was inserted and is not found. -/
theorem registered_tenant_not_found :
    ¬∀ s, (inserting addRbListner).Reachable s →
      LookupsCorrect CbnListner.key searchRbListner addRbListner s := by
  intro hcorrect
  obtain ⟨s, hreach, hs⟩ := Machine.exists_reachable_of_run (inserting addRbListner)
    (fun _ _ => True) eightTenants
    (fun s => (searchRbListner s.root 0xA0000000,
      s.inserted.any fun data => data.key = 0xA0000000))
    (none, true) (by decide +kernel)
  simp only [Prod.mk.injEq, List.any_eq_true, decide_eq_true_eq] at hs
  obtain ⟨hsearch, hinserted⟩ := hs
  obtain ⟨this, hfound⟩ := ((hcorrect s hreach).found _).mpr hinserted
  rw [hsearch] at hfound
  cases hfound

end KtcpSplit.Lookups
