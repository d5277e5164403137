import KtcpSplit.Lib.SearchTree
import Mathlib.Algebra.GroupWithZero.Nat
import Mathlib.Data.Fin.Basic
import Mathlib.Data.List.TakeWhile
import Mathlib.Order.Fin.Basic

/-!
# The connection key of a QP

`struct cbn_qp` overlays the two ports and the two addresses of a connection
with the byte array `key`.  All four fields are in network order, so they are
modelled by the bytes that stand in memory, and `key` reads these bytes in
layout order.  The tree of pending connections compares keys with `strncmp`.
-/

namespace KtcpSplit.ConnKey

abbrev Byte := Fin 256

instance neZeroByte : NeZero 256 := Nat.instNeZeroSucc

/-- A `__be16` as the two bytes in memory. -/
structure Be16 where
  b0 : Byte
  b1 : Byte
  deriving DecidableEq

/-- A `__be32` (also `struct in_addr`) as the four bytes in memory. -/
structure Be32 where
  b0 : Byte
  b1 : Byte
  b2 : Byte
  b3 : Byte
  deriving DecidableEq

def ntohs (value : Be16) : ℕ := value.b0 * 256 + value.b1

def htons (value : ℕ) : Be16 :=
  ⟨Fin.ofNat 256 (value / 256), Fin.ofNat 256 value⟩

def Be16.bytes (value : Be16) : List Byte := [value.b0, value.b1]

def Be32.bytes (value : Be32) : List Byte :=
  [value.b0, value.b1, value.b2, value.b3]

/-- The named half of the union in `struct cbn_qp`. -/
structure Tuple where
  portS : Be16
  portD : Be16
  addrS : Be32
  addrD : Be32
  deriving DecidableEq

def rbKeyLength : ℕ := 12

/-- The `key` half of the union. -/
def Tuple.key (tuple : Tuple) : List Byte :=
  tuple.portS.bytes ++ tuple.portD.bytes ++ tuple.addrS.bytes ++
    tuple.addrD.bytes

@[simp]
theorem Tuple.length_key (tuple : Tuple) : tuple.key.length = rbKeyLength := rfl

/-! ## `strncmp` -/

/-- The result of `strncmp` at the first difference. -/
def byteSign (c d : Byte) : ℤ := if c < d then -1 else 1

/-- The C library function on unsigned characters; a list that ends is read as
a terminated string. -/
def strncmp (cs ct : List Byte) : ℕ → ℤ
  | 0 => 0
  | count + 1 =>
      if cs.headD 0 ≠ ct.headD 0 then
        byteSign (cs.headD 0) (ct.headD 0)
      else if cs.headD 0 = 0 then 0
      else strncmp cs.tail ct.tail count

/-- The part of an array of `count` bytes that a string function sees. -/
def cString (count : ℕ) (bytes : List Byte) : List Byte :=
  (bytes.take count).takeWhile (· ≠ 0)

@[simp]
theorem byteSign_ne_zero (c d : Byte) : byteSign c d ≠ 0 := by
  unfold byteSign
  split <;> decide

theorem byteSign_neg_iff (c d : Byte) : byteSign c d < 0 ↔ c < d := by
  unfold byteSign
  split <;> simp_all

theorem byteSign_pos_iff (c d : Byte) : 0 < byteSign c d ↔ d ≤ c := by
  unfold byteSign
  split <;> simp_all

theorem byteSign_nonpos_iff (c d : Byte) : byteSign c d ≤ 0 ↔ c < d := by
  unfold byteSign
  split <;> simp_all

/-- Two arrays compare equal exactly when they agree up to the first zero
byte. -/
theorem strncmp_eq_zero_iff {count : ℕ} {cs ct : List Byte}
    (hcs : cs.length = count) (hct : ct.length = count) :
    strncmp cs ct count = 0 ↔ cString count cs = cString count ct := by
  induction count generalizing cs ct with
  | zero => simp [strncmp, cString]
  | succ count ih =>
      obtain ⟨c, cs, rfl⟩ := List.exists_cons_of_length_eq_add_one hcs
      obtain ⟨d, ct, rfl⟩ := List.exists_cons_of_length_eq_add_one hct
      simp only [List.length_cons, Nat.add_right_cancel_iff] at hcs hct
      have htail := ih hcs hct
      simp only [cString] at htail
      simp only [strncmp, cString, List.headD_cons, List.tail_cons,
        List.take_succ_cons, List.takeWhile_cons]
      by_cases hcd : c = d
      · subst hcd
        by_cases hzero : c = 0
        · simp [hzero]
        · simp [hzero, htail]
      · by_cases hc : c = 0
        · subst hc
          have hd : d ≠ 0 := fun h => hcd h.symm
          simp [hcd, hd]
        · by_cases hd : d = 0
          · subst hd
            simp [hc]
          · simp [hcd, hc, hd]

theorem strncmp_neg_iff_swap_pos (cs ct : List Byte) (count : ℕ) :
    strncmp cs ct count < 0 ↔ 0 < strncmp ct cs count := by
  induction count generalizing cs ct with
  | zero => simp [strncmp]
  | succ count ih =>
      simp only [strncmp]
      generalize cs.headD 0 = c
      generalize ct.headD 0 = d
      rcases lt_trichotomy c d with hlt | rfl | hgt
      · have hne : c ≠ d := ne_of_lt hlt
        simp [byteSign_neg_iff, byteSign_pos_iff, hne, hne.symm, hlt, le_of_lt hlt]
      · by_cases hzero : c = 0
        · simp [hzero]
        · simp [hzero, ih]
      · have hne : c ≠ d := (ne_of_lt hgt).symm
        simp [byteSign_neg_iff, byteSign_pos_iff, hne, hne.symm, hgt, not_lt_of_gt hgt]

theorem strncmp_trans (cs ct cu : List Byte) (count : ℕ)
    (hle : strncmp cs ct count ≤ 0) (hlt : strncmp ct cu count < 0) :
    strncmp cs cu count < 0 := by
  induction count generalizing cs ct cu with
  | zero => simp [strncmp] at hlt
  | succ count ih =>
      simp only [strncmp] at hle hlt ⊢
      generalize cs.headD 0 = c at *
      generalize ct.headD 0 = d at *
      generalize cu.headD 0 = e at *
      rcases lt_trichotomy c d with hcd | rfl | hcd
      · rcases lt_trichotomy d e with hde | rfl | hde
        · have hce := lt_trans hcd hde
          simp [byteSign_neg_iff, ne_of_lt hce, hce]
        · simp [byteSign_neg_iff, ne_of_lt hcd, hcd]
        · simp [byteSign_neg_iff, (ne_of_lt hde).symm, not_lt_of_gt hde] at hlt
      · rcases lt_trichotomy c e with hde | rfl | hde
        · simp [byteSign_neg_iff, ne_of_lt hde, hde]
        · by_cases hzero : c = 0
          · simp [hzero] at hlt
          · simp only [ne_eq, not_true_eq_false, if_false, hzero] at hle hlt ⊢
            exact ih _ _ _ hle hlt
        · simp [byteSign_neg_iff, (ne_of_lt hde).symm, not_lt_of_gt hde] at hlt
      · simp [byteSign_nonpos_iff, (ne_of_lt hcd).symm, not_lt_of_gt hcd] at hle

/-- `strncmp` over a field of the nodes is a lawful three-way comparison. -/
theorem strncmp_threeWay {α : Type*} (key : α → List Byte) (count : ℕ) :
    SearchTree.ThreeWay fun a b => strncmp (key a) (key b) count where
  swap _ _ := strncmp_neg_iff_swap_pos _ _ count
  trans _ _ _ := strncmp_trans _ _ _ count

end KtcpSplit.ConnKey
