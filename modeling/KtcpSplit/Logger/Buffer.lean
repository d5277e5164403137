import KtcpSplit.Logger.Delivery

/-!
# The bounds of the log buffer

The operations of `struct trvl_buffer_mgr` get lengths that nobody checked.  They add them as
`int`s, and what they compare with the capacity is converted to an unsigned number, so that
a negative length or sum is too large.
-/

namespace KtcpSplit.LogBuffer

open KtcpSplit.ConnKey (Byte)
open KtcpSplit.Logger (trvlBufferSize toUnsignedLong)
open KtcpSplit.Transition

/-! ## The operations -/

/-- `struct trvl_buffer_mgr`, whose length is whatever the operations make of it. -/
structure TrvlBufferMgr where
  len : BitVec 32
  buffer : List Byte
  length_buffer : buffer.length = trvlBufferSize

/-- An empty buffer in memory that is zero. -/
def emptyMgr : TrvlBufferMgr := ⟨0, List.replicate trvlBufferSize 0, List.length_replicate⟩

def einval : ℤ := 22

def trvlbInit (mgr : TrvlBufferMgr) : TrvlBufferMgr := { mgr with len := 0 }

/-- The index of `&mgr->buffer[mgr->len]`, and `*tailroom`. -/
structure BuffHead where
  index : ℤ
  tailroom : BitVec 32

/-- The difference is one of `unsigned long`s. -/
def trvlbGetBuffHead (mgr : TrvlBufferMgr) : BuffHead where
  index := mgr.len.toInt
  tailroom := (BitVec.ofNat 64 trvlBufferSize - mgr.len.signExtend 64).setWidth 32

/-- A store of `data` at an index; `none` where it leaves the buffer. -/
def store (mgr : TrvlBufferMgr) (index : ℤ) (data : List Byte) : Option TrvlBufferMgr :=
  if hinside : 0 ≤ index ∧ index + data.length ≤ trvlBufferSize then
    some { mgr with
      buffer := mgr.buffer.take index.toNat ++ data ++ mgr.buffer.drop (index.toNat + data.length)
      length_buffer := by
        have hlength := mgr.length_buffer
        simp only [List.length_append, List.length_take, List.length_drop]
        omega }
  else none

/-- `memcpy(&mgr->buffer[mgr->len], buff, len)`, with the memory that stands at `buff`. -/
def memcpy (mgr : TrvlBufferMgr) (buff : ℕ → Byte) (len : BitVec 32) : Option TrvlBufferMgr :=
  store mgr mgr.len.toInt ((List.range (toUnsignedLong len.toInt)).map buff)

/-- The new buffer and the result; `none` where `memcpy` leaves the buffer. -/
def trvlbLogFormatedString (mgr : TrvlBufferMgr) (buff : ℕ → Byte) (len : BitVec 32) :
    Option (TrvlBufferMgr × BitVec 32) :=
  if trvlBufferSize < toUnsignedLong len.toInt then some (mgr, 0)
  else
    let mgr :=
      if trvlBufferSize < toUnsignedLong (len + mgr.len).toInt then { mgr with len := 0 }
      else mgr
    (memcpy mgr buff len).map fun mgr => ({ mgr with len := mgr.len + len }, len)

def trvlbPutFormatedBuffer (mgr : TrvlBufferMgr) (flag : BitVec 32) : TrvlBufferMgr :=
  if flag ≠ 0 then { mgr with len := 0 } else mgr

/-- The result is 0 or `-EINVAL`. -/
def trvlbPutBuffHead (mgr : TrvlBufferMgr) (len : BitVec 32) : TrvlBufferMgr × ℤ :=
  if trvlBufferSize < toUnsignedLong (mgr.len + len).toInt then (mgr, -einval)
  else ({ mgr with len := mgr.len + len }, 0)

/-- A callback writes no more than it is told, and returns any size. -/
structure GetStat where
  written : BitVec 32 → List Byte
  size : BitVec 32 → BitVec 32
  written_le : ∀ tailroom, ((written tailroom).length : ℤ) ≤ max tailroom.toInt 0

def scbmCollectStats : TrvlBufferMgr → List GetStat → Option TrvlBufferMgr
  | mgr, [] => some mgr
  | mgr, entry :: entries =>
      let head := trvlbGetBuffHead mgr
      (store mgr head.index (entry.written head.tailroom)).bind fun mgr =>
        scbmCollectStats (trvlbPutBuffHead mgr (entry.size head.tailroom)).1 entries

inductive Call
  | logFormatedString (buff : ℕ → Byte) (len : BitVec 32)
  | putFormatedBuffer (flag : BitVec 32)
  | getBuffHead
  | putBuffHead (len : BitVec 32)
  | collectStats (entries : List GetStat)

/-- The calls stop where one of them leaves the buffer. -/
def manager (mgr : TrvlBufferMgr) : Machine TrvlBufferMgr Call where
  init := trvlbInit mgr
  next := fun mgr call =>
    match call with
    | .logFormatedString buff len => (trvlbLogFormatedString mgr buff len).map Prod.fst
    | .putFormatedBuffer flag => some (trvlbPutFormatedBuffer mgr flag)
    | .getBuffHead => some mgr
    | .putBuffHead len => some (trvlbPutBuffHead mgr len).1
    | .collectStats entries => scbmCollectStats mgr entries

/-! ## Comparisons -/

/-- What passes the comparison with the capacity is neither negative nor too large. -/
theorem not_lt_toUnsignedLong_iff (value : BitVec 32) :
    ¬trvlBufferSize < toUnsignedLong value.toInt ↔
      0 ≤ value.toInt ∧ value.toInt ≤ trvlBufferSize := by
  have hle := BitVec.le_toInt value
  have hlt := BitVec.toInt_lt (x := value)
  have hsize : trvlBufferSize = 3968 := rfl
  rw [toUnsignedLong]
  omega

theorem toUnsignedLong_of_nonneg {value : BitVec 32} (hnonneg : 0 ≤ value.toInt) :
    (toUnsignedLong value.toInt : ℤ) = value.toInt := by
  have hlt := BitVec.toInt_lt (x := value)
  rw [toUnsignedLong]
  omega

theorem toInt_ofNat_of_lt {size : ℕ} (hsize : size < 2 ^ 31) :
    (BitVec.ofNat 32 size).toInt = size := by
  rw [BitVec.toInt_eq_toNat_cond, BitVec.toNat_ofNat]
  omega

theorem toInt_add_of_le {left right : BitVec 32}
    (hleft : 0 ≤ left.toInt ∧ left.toInt ≤ trvlBufferSize)
    (hright : 0 ≤ right.toInt ∧ right.toInt ≤ trvlBufferSize) :
    (left + right).toInt = left.toInt + right.toInt := by
  have hsize : trvlBufferSize = 3968 := rfl
  rw [BitVec.toInt_add, Int.bmod_eq_of_le] <;> omega

variable {mgr : TrvlBufferMgr}

/-! ## The bounds -/

def Bounded (mgr : TrvlBufferMgr) : Prop :=
  0 ≤ mgr.len.toInt ∧ mgr.len.toInt ≤ trvlBufferSize

theorem bounded_init (mgr : TrvlBufferMgr) : Bounded (trvlbInit mgr) := by
  refine ⟨le_rfl, ?_⟩
  exact (Int.natCast_nonneg _ : (0 : ℤ) ≤ _)

/-- The tailroom is the room that is left. -/
theorem toInt_tailroom (hbounded : Bounded mgr) :
    (trvlbGetBuffHead mgr).tailroom.toInt = trvlBufferSize - mgr.len.toInt := by
  obtain ⟨hnonneg, hle⟩ := hbounded
  have hsize : trvlBufferSize = 3968 := rfl
  have hmsb : mgr.len.msb = false := by
    rw [← Bool.not_eq_true, BitVec.msb_eq_toInt]
    simp [hnonneg]
  rw [trvlbGetBuffHead, BitVec.signExtend_eq_setWidth_of_msb_false hmsb]
  have hlen := BitVec.toInt_eq_toNat_cond mgr.len
  rw [BitVec.toInt_eq_toNat_cond]
  simp only [BitVec.toNat_setWidth, BitVec.toNat_sub, BitVec.toNat_ofNat]
  omega

theorem store_isSome (mgr : TrvlBufferMgr) {index : ℤ} {data : List Byte} (hindex : 0 ≤ index)
    (hfits : index + data.length ≤ trvlBufferSize) :
    ∃ mgr', store mgr index data = some mgr' ∧ mgr'.len = mgr.len :=
  ⟨_, dif_pos ⟨hindex, hfits⟩, rfl⟩

theorem memcpy_isSome (hbounded : Bounded mgr) (buff : ℕ → Byte) {len : BitVec 32}
    (hnonneg : 0 ≤ len.toInt) (hroom : mgr.len.toInt + len.toInt ≤ trvlBufferSize) :
    ∃ mgr', memcpy mgr buff len = some mgr' ∧ mgr'.len = mgr.len := by
  refine store_isSome mgr hbounded.1 ?_
  rw [List.length_map, List.length_range, toUnsignedLong_of_nonneg hnonneg]
  exact hroom

/-- A put is rejected and changes nothing, or the sum is inside. -/
theorem trvlbPutBuffHead_spec (mgr : TrvlBufferMgr) (len : BitVec 32) :
    trvlbPutBuffHead mgr len = (mgr, -einval) ∨
      trvlbPutBuffHead mgr len = ({ mgr with len := mgr.len + len }, 0) ∧
        Bounded { mgr with len := mgr.len + len } := by
  by_cases hlarge : trvlBufferSize < toUnsignedLong (mgr.len + len).toInt
  · exact .inl (if_pos hlarge)
  · exact .inr ⟨if_neg hlarge, (not_lt_toUnsignedLong_iff _).mp hlarge⟩

theorem bounded_trvlbPutBuffHead (hbounded : Bounded mgr) (len : BitVec 32) :
    Bounded (trvlbPutBuffHead mgr len).1 := by
  rcases trvlbPutBuffHead_spec mgr len with hput | ⟨hput, hsum⟩
  · rw [hput]
    exact hbounded
  · rw [hput]
    exact hsum

/-! ## The string -/

/-- The bytes that count. -/
def content (mgr : TrvlBufferMgr) : List Byte := mgr.buffer.take mgr.len.toInt.toNat

theorem length_content (hbounded : Bounded mgr) :
    ((content mgr).length : ℤ) = mgr.len.toInt := by
  have hlength := mgr.length_buffer
  obtain ⟨hnonneg, hle⟩ := hbounded
  rw [content, List.length_take]
  omega

@[simp]
theorem content_reset (mgr : TrvlBufferMgr) : content { mgr with len := 0 } = [] := rfl

/-- What is stored behind the content is added as far as it is counted. -/
theorem content_store {copied : TrvlBufferMgr} {data : List Byte} {len : BitVec 32} {count : ℕ}
    (hbounded : Bounded mgr) (hstore : store mgr mgr.len.toInt data = some copied)
    (hcount : count ≤ data.length) (hlen : len.toInt = mgr.len.toInt + count) :
    content { copied with len := len } = content mgr ++ data.take count := by
  obtain ⟨hinside, heq⟩ := Option.dite_none_right_eq_some.mp hstore
  have hcontent := length_content hbounded
  have hindex : len.toInt.toNat = (content mgr ++ data.take count).length := by
    rw [List.length_append, List.length_take]
    omega
  have hbuffer : copied.buffer = content mgr ++ data.take count ++ (data.drop count ++
      mgr.buffer.drop (mgr.len.toInt.toNat + data.length)) := by
    rw [← Option.some.inj heq, List.append_assoc (content mgr), ← List.append_assoc (data.take _),
      List.take_append_drop]
    exact List.append_assoc ..
  rw [content, hindex, hbuffer]
  exact List.take_left

/-- A string of an admissible length goes behind the content, or replaces it. -/
theorem content_trvlbLogFormatedString (hbounded : Bounded mgr) (buff : ℕ → Byte)
    (len : BitVec 32) (hlen : 0 ≤ len.toInt ∧ len.toInt ≤ trvlBufferSize) :
    ∃ mgr', trvlbLogFormatedString mgr buff len = some (mgr', len) ∧ Bounded mgr' ∧
      content mgr' =
        (if mgr.len.toInt + len.toInt ≤ trvlBufferSize then content mgr else []) ++
          (List.range (toUnsignedLong len.toInt)).map buff := by
  have hfits : ¬trvlBufferSize < toUnsignedLong (len + mgr.len).toInt ↔
      mgr.len.toInt + len.toInt ≤ trvlBufferSize := by
    have hnonneg := hbounded.1
    rw [not_lt_toUnsignedLong_iff, toInt_add_of_le hlen hbounded]
    omega
  set start : TrvlBufferMgr :=
    if trvlBufferSize < toUnsignedLong (len + mgr.len).toInt then { mgr with len := 0 }
    else mgr with hstart
  have hroom : Bounded start ∧ start.len.toInt + len.toInt ≤ trvlBufferSize ∧
      content start =
        if mgr.len.toInt + len.toInt ≤ trvlBufferSize then content mgr else [] := by
    rw [hstart]
    split
    · next hlarge =>
        have hnot : ¬mgr.len.toInt + len.toInt ≤ trvlBufferSize := fun hle => hfits.mpr hle hlarge
        exact ⟨bounded_init mgr, by simpa using hlen.2, (if_neg hnot).symm⟩
    · next hsmall => exact ⟨hbounded, hfits.mp hsmall, (if_pos (hfits.mp hsmall)).symm⟩
  obtain ⟨hstarted, hroom, hcontent⟩ := hroom
  obtain ⟨copied, hcopied, hsame⟩ := memcpy_isSome hstarted buff hlen.1 hroom
  have hsum := toInt_add_of_le hstarted hlen
  rw [← hsame] at hsum
  refine ⟨{ copied with len := copied.len + len }, ?_, ?_, ?_⟩
  · have hlarge := (not_lt_toUnsignedLong_iff len).mpr hlen
    simp only [trvlbLogFormatedString, if_neg hlarge, ← hstart, hcopied, Option.map_some]
  · rw [Bounded, hsum, hsame]
    exact ⟨Int.add_nonneg hstarted.1 hlen.1, hroom⟩
  · have hcount : ((List.range (toUnsignedLong len.toInt)).map buff).length =
        toUnsignedLong len.toInt := by rw [List.length_map, List.length_range]
    have hnew : (copied.len + len).toInt = start.len.toInt + toUnsignedLong len.toInt := by
      rw [hsum, hsame, toUnsignedLong_of_nonneg hlen.1]
    have hadded := content_store hstarted hcopied hcount.ge hnew
    rwa [List.take_of_length_le hcount.le, hcontent] at hadded

theorem trvlbLogFormatedString_spec (hbounded : Bounded mgr) (buff : ℕ → Byte)
    (len : BitVec 32) :
    ∃ mgr' rc, trvlbLogFormatedString mgr buff len = some (mgr', rc) ∧ Bounded mgr' := by
  by_cases hlarge : trvlBufferSize < toUnsignedLong len.toInt
  · exact ⟨mgr, 0, if_pos hlarge, hbounded⟩
  · obtain ⟨mgr', hlog, hkept, -⟩ := content_trvlbLogFormatedString hbounded buff len
      ((not_lt_toUnsignedLong_iff len).mp hlarge)
    exact ⟨mgr', len, hlog, hkept⟩

/-! ## The callbacks -/

theorem bounded_scbmCollectStats (hbounded : Bounded mgr) (entries : List GetStat) :
    ∃ mgr', scbmCollectStats mgr entries = some mgr' ∧ Bounded mgr' := by
  induction entries generalizing mgr with
  | nil => exact ⟨mgr, rfl, hbounded⟩
  | cons entry entries ih =>
      have htailroom := toInt_tailroom hbounded
      have hwritten := entry.written_le (trvlbGetBuffHead mgr).tailroom
      have hroom : mgr.len.toInt + (entry.written (trvlbGetBuffHead mgr).tailroom).length ≤
          trvlBufferSize := by
        have hle := hbounded.2
        omega
      obtain ⟨written, hstore, hsame⟩ := store_isSome mgr hbounded.1 hroom
      have hkept : Bounded written := by
        rw [Bounded, hsame]
        exact hbounded
      have hindex : (trvlbGetBuffHead mgr).index = mgr.len.toInt := rfl
      rw [scbmCollectStats, hindex, hstore, Option.bind_some]
      exact ih (bounded_trvlbPutBuffHead hkept _)

/-! ## Runs -/

/-- No call leaves the buffer, and every call keeps the length inside. -/
theorem next_spec (memory : TrvlBufferMgr) (hbounded : Bounded mgr) (call : Call) :
    ∃ mgr', (manager memory).next mgr call = some mgr' ∧ Bounded mgr' := by
  cases call with
  | logFormatedString buff len =>
      obtain ⟨mgr', rc, hlog, hkept⟩ := trvlbLogFormatedString_spec hbounded buff len
      exact ⟨mgr', by simp only [manager, hlog, Option.map_some], hkept⟩
  | putFormatedBuffer flag =>
      refine ⟨_, rfl, ?_⟩
      rw [trvlbPutFormatedBuffer]
      split
      · exact bounded_init mgr
      · exact hbounded
  | getBuffHead => exact ⟨mgr, rfl, hbounded⟩
  | putBuffHead len => exact ⟨_, rfl, bounded_trvlbPutBuffHead hbounded len⟩
  | collectStats entries => exact bounded_scbmCollectStats hbounded entries

theorem run_spec (memory : TrvlBufferMgr) (hbounded : Bounded mgr) (calls : List Call) :
    ∃ mgr', (manager memory).run mgr calls = some mgr' ∧ Bounded mgr' := by
  induction calls generalizing mgr with
  | nil => exact ⟨mgr, rfl, hbounded⟩
  | cons call calls ih =>
      obtain ⟨next, hnext, hkept⟩ := next_spec memory hbounded call
      obtain ⟨mgr', hrun, hkept'⟩ := ih hkept
      refine ⟨mgr', ?_, hkept'⟩
      rw [Machine.run, Machine.runUnder, if_pos trivial, hnext, Option.bind_some]
      exact hrun

/-- Whatever lengths the calls get, none of them leaves the buffer, the length stays inside,
the tailroom is the room that is left, and a put that is rejected changes nothing. -/
theorem buffer_bounded (memory : TrvlBufferMgr) (calls : List Call) :
    ∃ mgr, (manager memory).run (manager memory).init calls = some mgr ∧
      (0 ≤ mgr.len.toInt ∧ mgr.len.toInt ≤ trvlBufferSize) ∧
      (trvlbGetBuffHead mgr).tailroom.toInt = trvlBufferSize - mgr.len.toInt ∧
      ∀ len, (trvlbPutBuffHead mgr len).2 ≠ 0 → (trvlbPutBuffHead mgr len).1 = mgr := by
  obtain ⟨mgr, hrun, hbounded⟩ := run_spec memory (bounded_init memory) calls
  refine ⟨mgr, hrun, hbounded, toInt_tailroom hbounded, fun len hrejected => ?_⟩
  rcases trvlbPutBuffHead_spec mgr len with hput | ⟨hput, -⟩
  · rw [hput]
  · rw [hput] at hrejected
    exact absurd rfl hrejected

end KtcpSplit.LogBuffer
