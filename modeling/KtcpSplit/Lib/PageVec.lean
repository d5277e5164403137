import Mathlib.Data.List.Basic

/-!
# Vectors of pages

A message is placed in order into pages of one size and taken out again from the
front.  Pages keep what they held where no byte of the message is placed.
-/

namespace KtcpSplit.PageVec

variable {α : Type*}

/-- The bytes of every page, by the number of the page and the offset in it. -/
abbrev Pages (α : Type*) := ℕ → ℕ → α

/-- Place a message from the start of the first page on. -/
def scatter (size : ℕ) (pages : Pages α) (bytes : List α) : Pages α :=
  fun i j => bytes[i * size + j]?.getD (pages i j)

/-- The leading `count` bytes. -/
def gather (size : ℕ) (pages : Pages α) (count : ℕ) : List α :=
  (List.range count).map fun k => pages (k / size) (k % size)

@[simp]
theorem length_gather (size : ℕ) (pages : Pages α) (count : ℕ) :
    (gather size pages count).length = count := by
  rw [gather, List.length_map, List.length_range]

/-- The front of the pages is the front of the message that was placed last. -/
theorem gather_scatter (size : ℕ) (pages : Pages α) (bytes : List α) {count : ℕ}
    (hcount : count ≤ bytes.length) :
    gather size (scatter size pages bytes) count = bytes.take count := by
  apply List.ext_getElem
  · rw [length_gather, List.length_take, Nat.min_eq_left hcount]
  · intro k hk hk'
    rw [length_gather] at hk
    have hlt : k < bytes.length := Nat.lt_of_lt_of_le hk hcount
    calc
      (gather size (scatter size pages bytes) count)[k] =
          bytes[k / size * size + k % size]?.getD (pages (k / size) (k % size)) := by
        simp only [gather, scatter, List.getElem_map, List.getElem_range]
      _ = bytes[k] := by
        rw [Nat.div_add_mod', List.getElem?_eq_getElem hlt, Option.getD_some]
      _ = (bytes.take count)[k] := List.getElem_take.symm

/-- Fewer bytes are the front of more. -/
theorem gather_take (size : ℕ) (pages : Pages α) {count total : ℕ} (hle : count ≤ total) :
    gather size pages count = (gather size pages total).take count := by
  rw [gather, gather, ← List.map_take, List.take_range, Nat.min_eq_left hle]

end KtcpSplit.PageVec
