import KtcpSplit.Logger.Buffer

/-!
# What a write to the log file reports

A write returns its size whatever `trvlb_log_formated_string` made of the string.  It lets in
strings up to the size of a page, and the buffer is smaller.
-/

namespace KtcpSplit.LogBuffer

open KtcpSplit.ConnKey (Byte)
open KtcpSplit.Logger (pageSize trvlBufferSize toUnsignedLong)

variable {mgr : TrvlBufferMgr} {buf : List Byte}

/-! ## The write -/

/-- The result of `memdup_user_nul`; a failure has an error number. -/
inductive Memdup
  | copied
  | failed (errno : ℕ)
  deriving DecidableEq

/-- The memory that `memdup_user_nul` returns. -/
def memdupUserNul (buf : List Byte) (index : ℕ) : Byte := buf[index]?.getD 0

/-- The buffer and the result after a write of the bytes `buf`. -/
def loggerLogWrite (mgr : TrvlBufferMgr) (buf : List Byte) (memdup : Memdup) :
    Option (TrvlBufferMgr × ℤ) :=
  let size := buf.length
  if size ≤ 1 ∨ pageSize ≤ size then some (mgr, -einval)
  else
    match memdup with
    | .failed errno => some (mgr, -errno)
    | .copied =>
        (trvlbLogFormatedString mgr (memdupUserNul buf) (BitVec.ofNat 32 size)).map
          fun (mgr, _) => (mgr, size)

/-- The string is behind the content, or alone where it did not fit there. -/
structure Appended (mgr mgr' : TrvlBufferMgr) (buf : List Byte) : Prop where
  content : content mgr' =
    (if mgr.len.toInt + buf.length ≤ trvlBufferSize then content mgr else []) ++ buf
  len : mgr'.len.toInt = (LogBuffer.content mgr').length

/-- A write that reports its size has appended the string. -/
def Truthful (mgr : TrvlBufferMgr) (buf : List Byte) (memdup : Memdup) : Prop :=
  ∀ mgr', loggerLogWrite mgr buf memdup = some (mgr', (buf.length : ℤ)) → Appended mgr mgr' buf

/-! ## The string -/

theorem map_memdupUserNul (buf : List Byte) :
    (List.range buf.length).map (memdupUserNul buf) = buf := by
  apply List.ext_getElem
  · rw [List.length_map, List.length_range]
  · intro index _ hindex
    rw [List.getElem_map, List.getElem_range, memdupUserNul, List.getElem?_eq_getElem hindex,
      Option.getD_some]

/-- A string that is no longer than the buffer is appended. -/
theorem trvlbLogFormatedString_of_le (hbounded : Bounded mgr)
    (hsize : buf.length ≤ trvlBufferSize) :
    ∃ mgr', trvlbLogFormatedString mgr (memdupUserNul buf) (BitVec.ofNat 32 buf.length) =
        some (mgr', BitVec.ofNat 32 buf.length) ∧ Bounded mgr' ∧ Appended mgr mgr' buf := by
  have hlen := toInt_ofNat_of_lt (hsize.trans_lt (by decide))
  have hcount : toUnsignedLong (BitVec.ofNat 32 buf.length).toInt = buf.length := by
    have hcast := toUnsignedLong_of_nonneg (hlen ▸ Int.natCast_nonneg buf.length)
    rw [hlen] at hcast ⊢
    exact Int.ofNat_inj.mp hcast
  obtain ⟨mgr', hlog, hkept, hcontent⟩ := content_trvlbLogFormatedString hbounded
    (memdupUserNul buf) (BitVec.ofNat 32 buf.length) (by omega)
  rw [hcount, map_memdupUserNul, hlen] at hcontent
  exact ⟨mgr', hlog, hkept, hcontent, (length_content hkept).symm⟩

/-- A longer one is dropped. -/
theorem trvlbLogFormatedString_of_lt (mgr : TrvlBufferMgr) (buff : ℕ → Byte)
    (hlarge : trvlBufferSize < buf.length) (hsize : buf.length < 2 ^ 31) :
    trvlbLogFormatedString mgr buff (BitVec.ofNat 32 buf.length) = some (mgr, 0) := by
  refine if_pos ?_
  rw [toInt_ofNat_of_lt hsize, toUnsignedLong]
  omega

/-! ## The buffer of the files -/

theorem content_logger (lmgr : Logger.TrvlBufferMgr) (hsize : buf.length ≤ trvlBufferSize) :
    (Logger.trvlbLogFormatedString lmgr buf).1.content =
      (if lmgr.len + buf.length ≤ trvlBufferSize then lmgr.content else []) ++ buf := by
  have hiff := Logger.intAdd_le_iff lmgr.len_le (hsize.trans_lt (by decide) : buf.length < 2 ^ 31)
  rw [Logger.trvlbLogFormatedString, dif_pos hsize]
  by_cases hfits : toUnsignedLong (Logger.intAdd lmgr.len buf.length) ≤ trvlBufferSize
  · rw [dif_pos hfits, if_pos (hiff.mp hfits)]
    exact lmgr.content_copy_advance _
  · rw [dif_neg hfits, if_neg (mt hiff.mpr hfits)]
    exact lmgr.reset.content_copy_advance _

/-- The log file sees the same content as a buffer whose length is a number. -/
theorem trvlbLogFormatedString_refines (hbounded : Bounded mgr) {lmgr : Logger.TrvlBufferMgr}
    (hsame : content mgr = lmgr.content) (hsize : buf.length < 2 ^ 31) :
    ∃ mgr' rc, trvlbLogFormatedString mgr (memdupUserNul buf) (BitVec.ofNat 32 buf.length) =
        some (mgr', rc) ∧ Bounded mgr' ∧
      content mgr' = (Logger.trvlbLogFormatedString lmgr buf).1.content := by
  by_cases hlarge : trvlBufferSize < buf.length
  · refine ⟨mgr, 0, trvlbLogFormatedString_of_lt mgr _ hlarge hsize, hbounded, ?_⟩
    rw [Logger.trvlbLogFormatedString, dif_neg (not_le.mpr hlarge)]
    exact hsame
  · rw [not_lt] at hlarge
    obtain ⟨mgr', hlog, hkept, happended⟩ := trvlbLogFormatedString_of_le hbounded hlarge
    have hlen : mgr.len.toInt = lmgr.len := by
      rw [← length_content hbounded, hsame, lmgr.length_content]
    refine ⟨mgr', _, hlog, hkept, ?_⟩
    rw [happended.content, content_logger lmgr hlarge, hsame, hlen]
    norm_cast

/-! ## The result -/

theorem loggerLogWrite_of_lt (mgr : TrvlBufferMgr) (hlarge : trvlBufferSize < buf.length)
    (hpage : buf.length < pageSize) :
    loggerLogWrite mgr buf .copied = some (mgr, (buf.length : ℤ)) := by
  have hnot : ¬(buf.length ≤ 1 ∨ pageSize ≤ buf.length) := by
    have hcapacity : trvlBufferSize = 3968 := rfl
    omega
  have hsize : buf.length < 2 ^ 31 := by
    have hpageSize : pageSize = 4096 := rfl
    omega
  simp only [loggerLogWrite, if_neg hnot, trvlbLogFormatedString_of_lt mgr _ hlarge hsize,
    Option.map_some]

/-- A write that reports success was logged, unless the string is longer than the buffer and
not than a page. -/
theorem write_truthful_iff (mgr : TrvlBufferMgr) (hbounded : Bounded mgr) (buf : List Byte)
    (memdup : Memdup) :
    Truthful mgr buf memdup ↔
      buf.length ≤ trvlBufferSize ∨ pageSize ≤ buf.length ∨ memdup ≠ .copied := by
  constructor
  · intro htruthful
    by_contra hnot
    rw [not_or, not_or, not_le, not_le, not_not] at hnot
    obtain ⟨hlarge, hpage, rfl⟩ := hnot
    have happended := htruthful mgr (loggerLogWrite_of_lt mgr hlarge hpage)
    have hlength := congrArg List.length happended.content
    have hcontent := length_content hbounded
    have hle := hbounded.2
    rw [List.length_append] at hlength
    omega
  · intro hcases mgr' hwrite
    simp only [loggerLogWrite] at hwrite
    split at hwrite
    · have hresult := (Prod.mk.inj (Option.some.inj hwrite)).2
      rw [einval] at hresult
      omega
    · next hadmitted =>
        rw [not_or, not_le, not_le] at hadmitted
        cases memdup with
        | failed errno =>
            have hresult := (Prod.mk.inj (Option.some.inj hwrite)).2
            omega
        | copied =>
            have hsize : buf.length ≤ trvlBufferSize := by
              rcases hcases with hsize | hpage | hcopied
              · exact hsize
              · exact absurd hpage (not_le.mpr hadmitted.2)
              · exact absurd rfl hcopied
            obtain ⟨logged, hlog, -, happended⟩ := trvlbLogFormatedString_of_le hbounded hsize
            rw [hlog, Option.map_some, Option.some.injEq, Prod.mk.injEq] at hwrite
            exact hwrite.1 ▸ happended

/-- One byte is free. -/
def fullMgr : TrvlBufferMgr := { emptyMgr with len := 3967 }

/-- Two bytes do not fit behind the content, which is given up for them. -/
theorem write_truthful_iff_short :
    trvlBufferSize < (content fullMgr).length + 2 ∧ Truthful fullMgr [104, 105] .copied := by
  have hbounded : Bounded fullMgr := ⟨by decide, by decide⟩
  refine ⟨?_, (write_truthful_iff fullMgr hbounded [104, 105] .copied).mpr (.inl (by decide))⟩
  have hcapacity : trvlBufferSize = 3968 := rfl
  have hlength : fullMgr.len.toInt = 3967 := by decide
  have hcontent := length_content hbounded
  omega

/-- Nearly a page of the letter A. -/
def longString : List Byte := List.replicate 4000 65

/-- The long string is reported as written, and the buffer is still empty. -/
theorem long_write_lost :
    loggerLogWrite emptyMgr longString .copied = some (emptyMgr, 4000) ∧
      content emptyMgr = [] ∧ ¬Truthful emptyMgr longString .copied := by
  have hlength : longString.length = 4000 := List.length_replicate
  have hcapacity : trvlBufferSize = 3968 := rfl
  have hpageSize : pageSize = 4096 := rfl
  have hlarge : trvlBufferSize < longString.length := by omega
  have hwrite := loggerLogWrite_of_lt emptyMgr hlarge (by omega)
  refine ⟨?_, rfl, fun htruthful => ?_⟩
  · rw [hwrite, hlength]
    rfl
  · have hcontent := (htruthful emptyMgr hwrite).content
    rw [(List.append_eq_nil_iff.mp hcontent.symm).2] at hlength
    cases hlength

end KtcpSplit.LogBuffer
