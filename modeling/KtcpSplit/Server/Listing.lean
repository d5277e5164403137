import KtcpSplit.Lib.Format
import KtcpSplit.Lib.RedBlack.Postorder
import Mathlib.Algebra.Group.Action.Defs
import Mathlib.Algebra.Order.BigOperators.Group.List
import Mathlib.Algebra.Order.Group.Nat

/-!
# The listing of the servers

`proc_read_string` prints a line for each listener into one page, and `sprintf` does not
know where the page ends.  How much room the lines take depends only on how wide their
numbers are.
-/

namespace KtcpSplit.Listing

open KtcpSplit.Format
open KtcpSplit.RedBlack

/-- What the listing reads of `struct cbn_listner`. -/
structure CbnListner where
  key : BitVec 32
  port : BitVec 16
  status : BitVec 16
  deriving DecidableEq

def pageSize : ℕ := 4096

/-- `"tid=%d port=%d status=%d\n"`. -/
def line (pos : CbnListner) : List Char :=
  "tid=".toList ++ signed pos.key.toInt ++ " port=".toList ++ signed pos.port.toNat ++
    " status=".toList ++ signed pos.status.toNat ++ ['\n']

/-- `sprintf(&buffer[idx], ..)`. -/
structure Sprintf where
  idx : BitVec 32
  str : List Char
  deriving DecidableEq

/-- The text and its terminating zero stay in the page. -/
def Sprintf.Inside (write : Sprintf) : Prop :=
  0 ≤ write.idx.toInt ∧ write.idx.toInt + (write.str.length + 1 : ℕ) ≤ pageSize

instance decidableInside : DecidablePred Sprintf.Inside :=
  fun _ => inferInstanceAs (Decidable (_ ∧ _))

/-- The loop, and what it leaves in `idx`. -/
def printFrom : BitVec 32 → List CbnListner → List Sprintf × BitVec 32
  | idx, [] => ([], idx)
  | idx, pos :: rest =>
      let (writes, loc) := printFrom (idx + BitVec.ofNat 32 (line pos).length) rest
      (⟨idx, line pos⟩ :: writes, loc)

/-- Nothing is printed if `kzalloc` fails. -/
def procReadString (allocated : Bool) (listnerRoot : RbTree CbnListner) :
    Option (List Sprintf × BitVec 32) :=
  if allocated then some (printFrom 0 (postorder listnerRoot)) else none

/-! ## The width of a line -/

def width (pos : CbnListner) : ℕ :=
  19 + (signed pos.key.toInt).length + (signed pos.port.toNat).length +
    (signed pos.status.toNat).length

theorem length_line (pos : CbnListner) : (line pos).length = width pos := by
  have htid : "tid=".toList.length = 4 := rfl
  have hport : " port=".toList.length = 6 := rfl
  have hstatus : " status=".toList.length = 8 := rfl
  unfold line width
  simp only [List.length_append, List.length_singleton, htid, hport, hstatus]
  omega

theorem le_width (pos : CbnListner) : 22 ≤ width pos := by
  have hkey := length_signed_pos pos.key.toInt
  have hport := length_signed_pos pos.port.toNat
  have hstatus := length_signed_pos pos.status.toNat
  rw [width]
  omega

theorem length_uint16_le (n : BitVec 16) : (signed n.toNat).length ≤ 5 := by
  have hlt := n.isLt
  rw [signed, if_neg (by omega), Int.natAbs_natCast]
  exact length_unsigned_le (by decide) (by omega)

theorem length_int32_le (n : BitVec 32) : (signed n.toInt).length ≤ 11 := by
  have hle := BitVec.le_toInt n
  have hlt := BitVec.toInt_lt (x := n)
  have habs : (unsigned n.toInt.natAbs).length ≤ 10 :=
    length_unsigned_le (by decide) (by omega)
  rw [signed]
  split
  · rw [List.length_cons]
    omega
  · omega

theorem width_le (pos : CbnListner) : width pos ≤ 40 := by
  have hkey := length_int32_le pos.key
  have hport := length_uint16_le pos.port
  have hstatus := length_uint16_le pos.status
  rw [width]
  omega

/-! ## The page -/

/-- The lines from an index inside the page on. -/
theorem printFrom_inside_iff (start : ℕ) (hstart : start < pageSize) (rest : List CbnListner) :
    (∀ write ∈ (printFrom (BitVec.ofNat 32 start) rest).1, write.Inside) ↔
      start + (rest.map width).sum < pageSize := by
  induction rest generalizing start with
  | nil => exact iff_of_true (fun _ hmem => by cases hmem) hstart
  | cons pos rest ih =>
      have hidx : (BitVec.ofNat 32 start).toInt = start := by
        rw [pageSize] at hstart
        have hnat : (BitVec.ofNat 32 start).toNat = start := by
          rw [BitVec.toNat_ofNat, Nat.mod_eq_of_lt (by omega)]
        rw [BitVec.toInt_eq_toNat_of_lt (by omega), hnat]
      have hinside : (⟨BitVec.ofNat 32 start, line pos⟩ : Sprintf).Inside ↔
          start + width pos < pageSize := by
        rw [Sprintf.Inside, hidx, length_line]
        omega
      rw [printFrom, List.forall_mem_cons, hinside, length_line, ← BitVec.ofNat_add,
        List.map_cons, List.sum_cons]
      by_cases hfits : start + width pos < pageSize
      · rw [ih _ hfits, Nat.add_assoc, and_iff_right hfits]
      · exact iff_of_false (fun hwrites => hfits hwrites.1) (by omega)

/-- The listing fits as long as the widths add up to less than a page: always for 102
listeners, and never for 187. -/
theorem listing_fits_iff (listnerRoot : RbTree CbnListner) :
    ((∀ allocated, ∀ result ∈ procReadString allocated listnerRoot,
        ∀ write ∈ result.1, write.Inside) ↔
      (listnerRoot.inorder.map width).sum < pageSize) ∧
    (listnerRoot.inorder.length ≤ 102 → (listnerRoot.inorder.map width).sum < pageSize) ∧
    (187 ≤ listnerRoot.inorder.length →
      ¬(listnerRoot.inorder.map width).sum < pageSize) := by
  have hsum : (listnerRoot.inorder.map width).sum = ((postorder listnerRoot).map width).sum :=
    ((perm_postorder listnerRoot).map width).sum_eq.symm
  refine ⟨?_, fun hfew => ?_, fun hmany => ?_⟩
  · rw [hsum]
    have hpage := printFrom_inside_iff 0 (by decide) (postorder listnerRoot)
    rw [Nat.zero_add] at hpage
    rw [← hpage]
    constructor
    · intro hinside
      exact hinside true _ rfl
    · intro hinside allocated result hresult
      rw [procReadString] at hresult
      split at hresult
      · cases hresult
        exact hinside
      · cases hresult
  · have hle := List.sum_le_card_nsmul (listnerRoot.inorder.map width) 40 (by
      simpa using fun pos _ => width_le pos)
    rw [List.length_map, smul_eq_mul] at hle
    rw [pageSize]
    omega
  · have hle := List.card_nsmul_le_sum (listnerRoot.inorder.map width) 22 (by
      simpa using fun pos _ => le_width pos)
    rw [List.length_map, smul_eq_mul] at hle
    rw [pageSize]
    omega

/-- `add_rb_listner` of `n` listeners with marks of ten digits, each of which accepts on a port
of its own. -/
def accepting (n : ℕ) : RbTree CbnListner :=
  (List.range n).foldl (fun root i =>
    let data : CbnListner := ⟨BitVec.ofNat 32 (2000000000 + i), BitVec.ofNat 16 (50000 + i), 6⟩
    match descend (fun this => (data.key - this.key).toInt) root [] with
    | .error _ => root
    | .ok path => link data path) .nil

/-- 117 lines of 35 bytes and the zero fill the page. -/
theorem listing_overflows :
    ¬∀ result ∈ procReadString true (accepting 118), ∀ write ∈ result.1, write.Inside := by
  have hsum : ¬0 + ((postorder (accepting 118)).map width).sum < pageSize := by decide +kernel
  intro hinside
  exact hsum ((printFrom_inside_iff 0 (by decide) _).mp (hinside _ rfl))

end KtcpSplit.Listing
