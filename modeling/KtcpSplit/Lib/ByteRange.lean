import Mathlib.Algebra.BigOperators.Group.List.Basic
import Mathlib.Algebra.Ring.Nat

/-!
# Ranges of bytes

A message that is not contiguous is a list of ranges of memory.  Its bytes are named by
their addresses, so that two lists of ranges with the same bytes describe the same memory
in the same order.
-/

namespace KtcpSplit.ByteRange

/-- `size` bytes from `base` on. -/
structure Span where
  base : ℕ
  size : ℕ
  deriving DecidableEq

namespace Span

def bytes (span : Span) : List ℕ := List.range' span.base span.size

/-- The range without its first `n` bytes. -/
def drop (span : Span) (n : ℕ) : Span := ⟨span.base + n, span.size - n⟩

/-- The first `n` bytes of the range. -/
def take (span : Span) (n : ℕ) : Span := ⟨span.base, min n span.size⟩

@[simp]
theorem length_bytes (span : Span) : span.bytes.length = span.size := List.length_range'

@[simp]
theorem drop_zero (span : Span) : span.drop 0 = span := rfl

theorem bytes_take_append_drop (span : Span) (n : ℕ) :
    (span.take n).bytes ++ (span.drop n).bytes = span.bytes := by
  obtain hle | hlt := Nat.lt_or_ge span.size n |>.symm
  · have happend := List.range'_append_1 (s := span.base) (m := n) (n := span.size - n)
    rw [Nat.add_sub_cancel' hle] at happend
    rw [bytes, bytes, bytes, take, drop, Nat.min_eq_left hle]
    exact happend
  · rw [bytes, bytes, bytes, take, drop, Nat.min_eq_right (Nat.le_of_lt hlt),
      Nat.sub_eq_zero_of_le (Nat.le_of_lt hlt),
      List.range'_zero, List.append_nil]

theorem bytes_drop (span : Span) {n : ℕ} (hle : n ≤ span.size) :
    (span.drop n).bytes = span.bytes.drop n := by
  have hlength : (span.take n).bytes.length = n := by
    rw [length_bytes]
    exact Nat.min_eq_left hle
  rw [← span.bytes_take_append_drop n, List.drop_left' hlength]

end Span

def bytes (spans : List Span) : List ℕ := spans.flatMap Span.bytes

def total (spans : List Span) : ℕ := (spans.map Span.size).sum

@[simp]
theorem bytes_nil : bytes [] = [] := rfl

@[simp]
theorem bytes_cons (span : Span) (spans : List Span) :
    bytes (span :: spans) = span.bytes ++ bytes spans := rfl

@[simp]
theorem bytes_append (front back : List Span) :
    bytes (front ++ back) = bytes front ++ bytes back := List.flatMap_append

@[simp]
theorem total_nil : total [] = 0 := rfl

@[simp]
theorem total_cons (span : Span) (spans : List Span) :
    total (span :: spans) = span.size + total spans := by
  rw [total, total, List.map_cons, List.sum_cons]

@[simp]
theorem total_append (front back : List Span) :
    total (front ++ back) = total front + total back := by
  rw [total, total, total, List.map_append, List.sum_append]

@[simp]
theorem length_bytes (spans : List Span) : (bytes spans).length = total spans := by
  induction spans with
  | nil => rfl
  | cons span spans ih => rw [bytes_cons, List.length_append, span.length_bytes, ih, total_cons]

/-- What the ranges hold after the first `n` bytes, the range that is cut first. -/
def after : ℕ → List Span → List Span
  | _, [] => []
  | n, span :: spans => if n < span.size then span.drop n :: spans else after (n - span.size) spans

theorem bytes_after (n : ℕ) (spans : List Span) : bytes (after n spans) = (bytes spans).drop n := by
  induction spans generalizing n with
  | nil => rw [after, bytes_nil, List.drop_nil]
  | cons span spans ih =>
      rw [after, bytes_cons]
      split
      · rename_i hlt
        have hle : n ≤ span.bytes.length := by
          rw [span.length_bytes]
          exact Nat.le_of_lt hlt
        rw [bytes_cons, span.bytes_drop (Nat.le_of_lt hlt), List.drop_append_of_le_length hle]
      · rename_i hge
        have hlength : span.bytes.length ≤ n := by
          rw [span.length_bytes]
          exact Nat.not_lt.mp hge
        rw [ih, List.drop_append, List.drop_of_length_le hlength, List.nil_append,
          span.length_bytes]

/-- The first `k` ranges are passed as a whole. -/
theorem after_total_take (spans : List Span) (hsize : ∀ span ∈ spans, 0 < span.size) (k : ℕ) :
    after (total (spans.take k)) spans = spans.drop k := by
  induction spans generalizing k with
  | nil => rw [after, List.drop_nil]
  | cons span spans ih =>
      rw [List.forall_mem_cons] at hsize
      rw [after]
      cases k with
      | zero =>
          rw [List.take_zero, total_nil, if_pos hsize.1, span.drop_zero, List.drop_zero]
      | succ k =>
          rw [List.take_succ_cons, total_cons, if_neg (Nat.not_lt.mpr (Nat.le_add_right _ _)),
            Nat.add_sub_cancel_left, ih hsize.2, List.drop_succ_cons]

/-- The first ranges hold the first bytes. -/
theorem bytes_take (spans : List Span) (n : ℕ) :
    bytes (spans.take n) = (bytes spans).take (total (spans.take n)) := by
  conv_rhs => rw [← List.take_append_drop n spans, bytes_append]
  rw [List.take_left']
  rw [length_bytes, List.take_append_drop]

end KtcpSplit.ByteRange
