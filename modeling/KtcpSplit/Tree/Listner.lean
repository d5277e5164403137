import KtcpSplit.Lib.SearchTree
import Mathlib.Data.BitVec

/-!
# The tree of listeners

Listeners are kept in one tree keyed by the tenant's mark, an `int32_t`.  The
descent compares by a subtraction that wraps.
-/

namespace KtcpSplit.Listner

open KtcpSplit.SearchTree

abbrev Mark := BitVec 32

/-- What the lookups read of `struct cbn_listner`; `id` stands for its
address. -/
structure CbnListner where
  id : ℕ
  key : Mark
  deriving DecidableEq

/-- `int32_t result = key - this->key`. -/
def keyDiff (key : Mark) (this : CbnListner) : ℤ := (key - this.key).toInt

def searchRbListner (root : BinaryTree CbnListner) (key : Mark) :
    Option CbnListner :=
  search (keyDiff key) root

/-- The listener that is already there, or the tree before `rb_insert_color`. -/
def addRbListner (root : BinaryTree CbnListner) (data : CbnListner) :
    Insertion CbnListner :=
  insert (keyDiff data.key) data root

theorem keyDiff_eq_zero_iff (key : Mark) (this : CbnListner) :
    keyDiff key this = 0 ↔ this.key = key := by
  rw [keyDiff, ← BitVec.toInt_zero (w := 32), BitVec.toInt_inj]
  constructor <;> intro h <;> bv_omega

/-- Whatever the shape of the tree, a listener that is found has the mark that
was looked for. -/
theorem searchRbListner_sound {root : BinaryTree CbnListner} {key : Mark}
    {this : CbnListner} (hsearch : searchRbListner root key = some this) :
    this ∈ inorder root ∧ this.key = key := by
  obtain ⟨hmem, hzero⟩ := search_sound hsearch
  exact ⟨hmem, (keyDiff_eq_zero_iff key this).mp hzero⟩

end KtcpSplit.Listner
