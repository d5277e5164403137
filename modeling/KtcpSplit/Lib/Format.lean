import Mathlib.Data.BitVec

/-!
# Formatted numbers

The conversions of the `printf` family as lists of characters, and how wide they get.
-/

namespace KtcpSplit.Format

/-- `%u`. -/
def unsigned (n : ℕ) : List Char := Nat.toDigits 10 n

/-- `%d`. -/
def signed (n : ℤ) : List Char := if n < 0 then '-' :: unsigned n.natAbs else unsigned n.natAbs

/-- `%p` of a pointer of 64 bits. -/
def pointer (p : BitVec 64) : List Char :=
  let digits := Nat.toDigits 16 p.toNat
  List.replicate (16 - digits.length) '0' ++ digits

/-- What `scnprintf` leaves in a buffer of `size` bytes, without the terminating zero; it
returns the length. -/
def scnprintf (size : ℕ) (text : List Char) : List Char := text.take (size - 1)

theorem length_scnprintf_le (size : ℕ) (text : List Char) :
    (scnprintf size text).length ≤ size - 1 :=
  List.length_take_le ..

theorem length_unsigned_le {n k : ℕ} (hk : 0 < k) (hlt : n < 10 ^ k) :
    (unsigned n).length ≤ k :=
  (Nat.length_toDigits_le_iff (by decide) hk).mpr hlt

theorem length_unsigned_pos (n : ℕ) : 0 < (unsigned n).length := Nat.length_toDigits_pos

theorem length_signed_pos (n : ℤ) : 0 < (signed n).length := by
  rw [signed]
  split
  · exact Nat.succ_pos _
  · exact length_unsigned_pos _

/-! ## Reading numbers back -/

def readLiteral : List Char → List Char → Option (List Char)
  | [], text => some text
  | _ :: _, [] => none
  | c :: literal, c' :: text => if c = c' then readLiteral literal text else none

/-- A number and the text behind it. -/
def readUnsigned (text : List Char) : Option (ℕ × List Char) :=
  if text.takeWhile Char.isDigit = [] then none
  else some (Nat.ofDigitChars 10 (text.takeWhile Char.isDigit) 0, text.dropWhile Char.isDigit)

def readSigned (text : List Char) : Option (ℤ × List Char) :=
  match readLiteral ['-'] text with
  | some text => (readUnsigned text).map fun (n, rest) => (-n, rest)
  | none => (readUnsigned text).map fun (n, rest) => (n, rest)

theorem readLiteral_append (literal rest : List Char) :
    readLiteral literal (literal ++ rest) = some rest := by
  induction literal with
  | nil => rfl
  | cons c literal ih => rw [List.cons_append, readLiteral, if_pos rfl, ih]

theorem isDigit_of_mem_unsigned {n : ℕ} {c : Char} (hc : c ∈ unsigned n) : c.isDigit = true :=
  Nat.isDigit_of_mem_toDigits (by decide) (by decide) hc

theorem readUnsigned_append (n : ℕ) {rest : List Char}
    (hrest : ∀ c ∈ rest.head?, c.isDigit = false) :
    readUnsigned (unsigned n ++ rest) = some (n, rest) := by
  have hdigits : ∀ c ∈ unsigned n, c.isDigit = true := fun c => isDigit_of_mem_unsigned
  have htake : rest.takeWhile Char.isDigit = [] := by
    cases rest with
    | nil => rfl
    | cons c rest => exact List.takeWhile_cons_of_neg (by simp [hrest c rfl])
  have hdrop : rest.dropWhile Char.isDigit = rest := by
    cases rest with
    | nil => rfl
    | cons c rest => exact List.dropWhile_cons_of_neg (by simp [hrest c rfl])
  have hne : unsigned n ≠ [] := List.ne_nil_of_length_pos (length_unsigned_pos n)
  rw [readUnsigned, List.takeWhile_append_of_pos hdigits, List.dropWhile_append_of_pos hdigits,
    htake, hdrop, List.append_nil, if_neg hne]
  rw [unsigned, Nat.ofDigitChars_ten_toDigits]

/-- A number that is printed is read back, as long as no digit follows it. -/
theorem readSigned_append (n : ℤ) {rest : List Char}
    (hrest : ∀ c ∈ rest.head?, c.isDigit = false) :
    readSigned (signed n ++ rest) = some (n, rest) := by
  rw [signed]
  split
  · rename_i hneg
    rw [readSigned, List.cons_append]
    have hsign : readLiteral ['-'] ('-' :: (unsigned n.natAbs ++ rest)) =
        some (unsigned n.natAbs ++ rest) := readLiteral_append ['-'] _
    simp only [hsign, readUnsigned_append _ hrest, Option.map_some]
    rw [Int.ofNat_natAbs_of_nonpos hneg.le, Int.neg_neg]
  · rename_i hpos
    have hsign : readLiteral ['-'] (unsigned n.natAbs ++ rest) = none := by
      obtain ⟨c, digits, hdigits⟩ :=
        List.exists_cons_of_length_pos (length_unsigned_pos n.natAbs)
      have hc : c.isDigit = true := isDigit_of_mem_unsigned (n := n.natAbs) (by simp [hdigits])
      rw [hdigits, List.cons_append, readLiteral, if_neg]
      rintro rfl
      exact absurd hc (by decide)
    simp only [readSigned, hsign, readUnsigned_append _ hrest, Option.map_some]
    rw [Int.natAbs_of_nonneg (not_lt.mp hpos)]

end KtcpSplit.Format
