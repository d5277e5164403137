import KtcpSplit.Lib.WrappingTree

/-!
# The tree of pre-connection pools

The pools of pre-connections stand in one tree, keyed by the address of the next
hop as an `int32_t`.
-/

namespace KtcpSplit.Preconn

open KtcpSplit.SearchTree

/-- The address of a next hop. -/
abbrev NextHop := BitVec 32

/-- What the lookups read of `struct cbn_preconnection`; `id` stands for its
address. -/
structure CbnPreconnection where
  id : ℕ
  key : NextHop
  deriving DecidableEq

/-- `int32_t result = key - this->key`. -/
def keyDiff (key : NextHop) (this : CbnPreconnection) : ℤ := (key - this.key).toInt

def searchRbPreconn (root : BinaryTree CbnPreconnection) (key : NextHop) :
    Option CbnPreconnection :=
  search (keyDiff key) root

def addRbPreconn (root : BinaryTree CbnPreconnection) (data : CbnPreconnection) :
    Insertion CbnPreconnection :=
  insert (keyDiff data.key) data root

theorem keyDiff_eq_zero_iff (key : NextHop) (this : CbnPreconnection) :
    keyDiff key this = 0 ↔ this.key = key :=
  WrappingTree.diff_eq_zero_iff CbnPreconnection.key key this

end KtcpSplit.Preconn
