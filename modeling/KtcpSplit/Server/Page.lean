import KtcpSplit.Server.Listing

/-!
# The text of the listing

`cbn_proc_show` hands the page that `proc_read_string` filled to the reader of the file and
puts the length behind it.  As long as the lines fit, the listeners can be read back from
the text.
-/

namespace KtcpSplit.Listing

open KtcpSplit.Format
open KtcpSplit.RedBlack

/-! ## The page -/

def nul : Char := Char.ofNat 0

/-- `kzalloc(PAGE_SIZE, GFP_KERNEL)`. -/
def zeroedPage : List Char := List.replicate pageSize nul

/-- `sprintf` in a page; nothing can be said about one that leaves it. -/
def Sprintf.store (page : List Char) (write : Sprintf) : Option (List Char) :=
  if write.Inside then
    some (page.take write.idx.toNat ++ write.str ++ nul ::
      page.drop (write.idx.toNat + write.str.length + 1))
  else none

/-- What `%s` prints of a page. -/
def cString (page : List Char) : List Char := page.takeWhile (· ≠ nul)

def eagain : ℤ := 11

/-- The text that `cbn_proc_show` writes, and what it returns. -/
def cbnProcShow (allocated : Bool) (listnerRoot : RbTree CbnListner) :
    Option (List Char × ℤ) :=
  match procReadString allocated listnerRoot with
  | none => some ([], -eagain)
  | some (writes, idx) =>
      (writes.foldlM Sprintf.store zeroedPage).map fun buffer =>
        ((if idx = 0 then [] else cString buffer) ++ "buffer len = ".toList ++
          signed idx.toInt ++ "/4096".toList, idx.toInt)

/-! ## Reading the text -/

/-- A line of the listing and the text behind it. -/
def readLine (text : List Char) : Option (CbnListner × List Char) := do
  let text ← readLiteral "tid=".toList text
  let (key, text) ← readSigned text
  let text ← readLiteral " port=".toList text
  let (port, text) ← readSigned text
  let text ← readLiteral " status=".toList text
  let (status, text) ← readSigned text
  let text ← readLiteral ['\n'] text
  return (⟨BitVec.ofInt 32 key, BitVec.ofInt 16 port, BitVec.ofInt 16 status⟩, text)

/-- As many lines as there are, `n` at most. -/
def readLines : ℕ → List Char → List CbnListner × List Char
  | 0, text => ([], text)
  | n + 1, text =>
      match readLine text with
      | none => ([], text)
      | some (pos, rest) =>
          let (listed, rest) := readLines n rest
          (pos :: listed, rest)

/-- The listeners of a text, and the length that stands behind them. -/
def readListing (text : List Char) : Option (List CbnListner × ℤ) := do
  let (listed, rest) := readLines text.length text
  let rest ← readLiteral "buffer len = ".toList rest
  let (length, rest) ← readSigned rest
  let rest ← readLiteral "/4096".toList rest
  if rest = [] then some (listed, length) else none

theorem ofInt_toNat (n : BitVec 16) : BitVec.ofInt 16 n.toNat = n := by
  rw [BitVec.ofInt_natCast, BitVec.ofNat_toNat, BitVec.setWidth_eq]

/-- A text that starts with a literal does not start with a digit if that does not. -/
theorem not_digit_append {literal rest : List Char} {c : Char} (hliteral : literal = c :: rest)
    (hc : c.isDigit = false) (text : List Char) :
    ∀ c ∈ (literal ++ text).head?, c.isDigit = false := by
  subst hliteral
  rintro c' ⟨⟩
  exact hc

theorem readLine_append (pos : CbnListner) (rest : List Char) :
    readLine (line pos ++ rest) = some (pos, rest) := by
  have hport := not_digit_append (show " port=".toList = ' ' :: "port=".toList from rfl) rfl
  have hstatus :=
    not_digit_append (show " status=".toList = ' ' :: "status=".toList from rfl) rfl
  have hline := not_digit_append (show ['\n'] = '\n' :: [] from rfl) rfl
  unfold line
  rw [readLine]
  simp only [List.append_assoc, readLiteral_append, Option.bind_eq_bind, Option.bind_some,
    readSigned_append _ (hport _), readSigned_append _ (hstatus _),
    readSigned_append _ (hline _), BitVec.ofInt_toInt, ofInt_toNat]
  rfl

theorem readLines_append (listed : List CbnListner) {rest : List Char} {n : ℕ}
    (hrest : readLine rest = none) (hn : listed.length ≤ n) :
    readLines n (listed.flatMap line ++ rest) = (listed, rest) := by
  induction listed generalizing n with
  | nil =>
      rw [List.flatMap_nil, List.nil_append]
      cases n with
      | zero => rfl
      | succ n => rw [readLines, hrest]
  | cons pos listed ih =>
      obtain ⟨n, rfl⟩ := Nat.exists_eq_add_one.mpr (Nat.lt_of_lt_of_le (Nat.succ_pos _) hn)
      rw [List.flatMap_cons, List.append_assoc, readLines, readLine_append]
      simp only [ih (Nat.le_of_succ_le_succ hn)]

/-! ## What the page holds -/

/-- A page that starts with a text. -/
def filled (text : List Char) : List Char :=
  text ++ List.replicate (pageSize - text.length) nul

theorem store_filled {text : List Char} {pos : CbnListner}
    (hfits : text.length + width pos < pageSize) :
    Sprintf.store (filled text) ⟨BitVec.ofNat 32 text.length, line pos⟩ =
      some (filled (text ++ line pos)) := by
  have hinside : Sprintf.Inside ⟨BitVec.ofNat 32 text.length, line pos⟩ := by
    have hall := (printFrom_inside_iff text.length (by omega) [pos]).mpr (by simpa using hfits)
    exact hall _ (List.mem_singleton_self _)
  have hidx : (BitVec.ofNat 32 text.length).toNat = text.length := by
    rw [pageSize] at hfits
    rw [BitVec.toNat_ofNat, Nat.mod_eq_of_lt (by omega)]
  obtain ⟨left, hleft⟩ : ∃ left, pageSize - text.length = width pos + 1 + left :=
    ⟨pageSize - text.length - (width pos + 1), by omega⟩
  have hlength := length_line pos
  rw [Sprintf.store, if_pos hinside, hidx, hlength, filled, filled, List.take_left,
    Nat.add_assoc, ← List.drop_drop, List.drop_left, List.drop_replicate, List.length_append,
    hlength, hleft, Nat.add_sub_cancel_left, ← Nat.sub_sub, hleft, Nat.add_assoc,
    Nat.add_sub_cancel_left, Nat.add_comm, List.replicate_succ]

/-- The loop of `proc_read_string`, from a text on. -/
theorem foldlM_printFrom (rest : List CbnListner) (text : List Char)
    (hfits : text.length + (rest.map width).sum < pageSize) :
    (printFrom (BitVec.ofNat 32 text.length) rest).1.foldlM Sprintf.store (filled text) =
        some (filled (text ++ rest.flatMap line)) ∧
      (printFrom (BitVec.ofNat 32 text.length) rest).2 =
        BitVec.ofNat 32 (text.length + (rest.map width).sum) := by
  induction rest generalizing text with
  | nil =>
      rw [List.flatMap_nil, List.append_nil]
      exact ⟨rfl, rfl⟩
  | cons pos rest ih =>
      rw [List.map_cons, List.sum_cons] at hfits ⊢
      have hlength : (text ++ line pos).length = text.length + width pos := by
        rw [List.length_append, length_line]
      have hrest := ih (text ++ line pos) (by omega)
      rw [hlength, BitVec.ofNat_add, ← length_line] at hrest
      rw [printFrom, List.foldlM_cons, store_filled (by omega), List.flatMap_cons]
      refine ⟨?_, ?_⟩
      · rw [← List.append_assoc]
        exact hrest.1
      · rw [← Nat.add_assoc, ← length_line]
        exact hrest.2

theorem ne_nul_of_mem_signed {n : ℤ} {c : Char} (hc : c ∈ signed n) : c ≠ nul := by
  have hdigit : ∀ c ∈ unsigned n.natAbs, c ≠ nul := by
    rintro c hc rfl
    exact absurd (isDigit_of_mem_unsigned hc) (by decide)
  rw [signed] at hc
  split at hc
  · rcases List.mem_cons.mp hc with rfl | hc
    · decide
    · exact hdigit c hc
  · exact hdigit c hc

theorem ne_nul_of_mem_line {pos : CbnListner} : ∀ c ∈ line pos, c ≠ nul := by
  have hall : ∀ {text : List Char}, text.all (· != nul) = true → ∀ c ∈ text, c ≠ nul :=
    fun htext => by simpa using htext
  have htid : ∀ c ∈ "tid=".toList, c ≠ nul := hall rfl
  have hport : ∀ c ∈ " port=".toList, c ≠ nul := hall rfl
  have hstatus : ∀ c ∈ " status=".toList, c ≠ nul := hall rfl
  have hline : ∀ c ∈ ['\n'], c ≠ nul := hall rfl
  unfold line
  simp only [List.forall_mem_append]
  exact ⟨⟨⟨⟨⟨⟨htid, fun _ => ne_nul_of_mem_signed⟩, hport⟩, fun _ => ne_nul_of_mem_signed⟩,
    hstatus⟩, fun _ => ne_nul_of_mem_signed⟩, hline⟩

theorem cString_filled {text : List Char} (htext : ∀ c ∈ text, c ≠ nul) :
    cString (filled text) = text := by
  have hzeros : (List.replicate (pageSize - text.length) nul).takeWhile (· ≠ nul) = [] := by
    cases pageSize - text.length with
    | zero => rfl
    | succ n => exact List.takeWhile_cons_of_neg (by simp)
  rw [cString, filled, List.takeWhile_append_of_pos (by simpa using htext), hzeros,
    List.append_nil]

/-- What `cbn_proc_show` writes when the lines fit into the page. -/
theorem cbnProcShow_of_fits {listnerRoot : RbTree CbnListner} {n : ℕ}
    (hn : (listnerRoot.inorder.map width).sum = n) (hfits : n < pageSize) :
    cbnProcShow true listnerRoot = some ((postorder listnerRoot).flatMap line ++
      "buffer len = ".toList ++ signed n ++ "/4096".toList, (n : ℤ)) := by
  have hsum : ((postorder listnerRoot).map width).sum = n :=
    hn ▸ ((perm_postorder listnerRoot).map width).sum_eq
  obtain ⟨hstored, hidx⟩ := foldlM_printFrom (postorder listnerRoot) [] (by
    rwa [List.length_nil, Nat.zero_add, hsum])
  rw [List.length_nil, List.nil_append] at hstored
  rw [List.length_nil, Nat.zero_add, hsum] at hidx
  have hint : (BitVec.ofNat 32 n).toInt = n := by
    rw [pageSize] at hfits
    have hnat : (BitVec.ofNat 32 n).toNat = n := by
      rw [BitVec.toNat_ofNat, Nat.mod_eq_of_lt (by omega)]
    rw [BitVec.toInt_eq_toNat_of_lt (by omega), hnat]
  -- an empty listing is printed as no text at all
  have htext : (if BitVec.ofNat 32 n = 0 then []
      else cString (filled ((postorder listnerRoot).flatMap line))) =
      (postorder listnerRoot).flatMap line := by
    split
    · rename_i hzero
      have hnone : n = 0 := by
        rw [hzero] at hint
        exact Int.ofNat_eq_zero.mp hint.symm
      cases hlisted : postorder listnerRoot with
      | nil => rfl
      | cons pos rest =>
          rw [hlisted, List.map_cons, List.sum_cons] at hsum
          have hwide := le_width pos
          omega
    · exact cString_filled fun c hc => by
        obtain ⟨pos, -, hc⟩ := List.mem_flatMap.mp hc
        exact ne_nul_of_mem_line c hc
  have hwrites : procReadString true listnerRoot =
      some ((printFrom (BitVec.ofNat 32 0) (postorder listnerRoot)).1, BitVec.ofNat 32 n) := by
    rw [← hidx]
    rfl
  have hzeroed : zeroedPage = filled [] := rfl
  unfold cbnProcShow
  simp only [hwrites, hzeroed, hstored, Option.map_some, htext, hint]

/-- The listeners can be read back from what `cbn_proc_show` writes. -/
theorem readListing_of_fits {listnerRoot : RbTree CbnListner}
    (hfits : (listnerRoot.inorder.map width).sum < pageSize) :
    ∃ text rc, cbnProcShow true listnerRoot = some (text, rc) ∧
      readListing text = some (postorder listnerRoot, rc) := by
  refine ⟨_, _, cbnProcShow_of_fits rfl hfits, ?_⟩
  have hslash := not_digit_append (show "/4096".toList = '/' :: "4096".toList from rfl) rfl []
  rw [List.append_nil] at hslash
  have hlast : readLiteral "/4096".toList "/4096".toList = some [] := by
    simpa using readLiteral_append "/4096".toList []
  have hother : ∀ rest, readLine ("buffer len = ".toList ++ rest) = none := fun rest => rfl
  have hlines : ∀ rest : List Char, (postorder listnerRoot).length ≤
      ((postorder listnerRoot).flatMap line ++ rest).length := by
    intro rest
    rw [List.length_append, List.length_flatMap]
    have hle := List.card_nsmul_le_sum
      ((postorder listnerRoot).map fun pos => (line pos).length) 1 (by
        simpa [length_line] using fun pos _ => Nat.le_trans (by decide) (le_width pos))
    rw [List.length_map, smul_eq_mul, Nat.mul_one] at hle
    omega
  rw [List.append_assoc, List.append_assoc, readListing,
    readLines_append _ (hother _) (hlines _)]
  simp only [readLiteral_append, Option.bind_eq_bind, Option.bind_some,
    readSigned_append _ hslash, hlast]
  rfl

end KtcpSplit.Listing
