import KtcpSplit.Core.ConnKey
import KtcpSplit.Lib.MessageLog
import KtcpSplit.Lib.Transition
import Mathlib.Data.BitVec

/-!
# The logger

One flat buffer with a length is filled by writes to the log file and by the
statistics callbacks, and drained by reads of the log file.  A write that does
not fit empties the buffer first.  The machine records as a history which
messages went into the buffer and how they left it.
-/

namespace KtcpSplit.Logger

open KtcpSplit.ConnKey (Byte)
open KtcpSplit.MessageLog
open KtcpSplit.Transition

def pageSize : ℕ := 4096

/-- `TRVL_BUFFER_SIZE`. -/
def trvlBufferSize : ℕ := pageSize - 128

/-! ## The buffer -/

/-- `struct trvl_buffer_mgr`. -/
structure TrvlBufferMgr where
  len : ℕ
  buffer : List Byte
  len_le : len ≤ trvlBufferSize
  length_buffer : buffer.length = trvlBufferSize

/-- The sum of two `int`s. -/
def intAdd (a b : ℕ) : ℤ := (BitVec.ofNat 32 (a + b)).toInt

/-- The conversion of an `int` that is compared with an `unsigned long`. -/
def toUnsignedLong (a : ℤ) : ℕ := (a % 2 ^ 64).toNat

/-- A sum that leaves the range of an `int` is still more than the buffer holds. -/
theorem intAdd_le_iff {a b : ℕ} (ha : a ≤ trvlBufferSize) (hb : b < 2 ^ 31) :
    toUnsignedLong (intAdd a b) ≤ trvlBufferSize ↔ a + b ≤ trvlBufferSize := by
  have hsize : trvlBufferSize = 3968 := rfl
  rw [toUnsignedLong, intAdd, BitVec.toInt_eq_toNat_cond, BitVec.toNat_ofNat]
  omega

namespace TrvlBufferMgr

variable (mgr : TrvlBufferMgr)

/-- What `trvlb_pull_formated_buffer` hands out. -/
def content : List Byte := mgr.buffer.take mgr.len

/-- `mgr->len = 0`. -/
def reset : TrvlBufferMgr := { mgr with len := 0, len_le := Nat.zero_le _ }

/-- A store of `data` at `&mgr->buffer[mgr->len]`. -/
def copyToHead (data : List Byte) (hfits : mgr.len + data.length ≤ trvlBufferSize) :
    TrvlBufferMgr where
  len := mgr.len
  buffer := mgr.buffer.take mgr.len ++ data ++ mgr.buffer.drop (mgr.len + data.length)
  len_le := mgr.len_le
  length_buffer := by
    have hlength := mgr.length_buffer
    have hlen := mgr.len_le
    simp only [List.length_append, List.length_take, List.length_drop]
    omega

/-- `mgr->len += len`. -/
def advance (len : ℕ) (hfits : mgr.len + len ≤ trvlBufferSize) : TrvlBufferMgr :=
  { mgr with len := mgr.len + len, len_le := hfits }

/-- The bytes after the head of the buffer. -/
def head (len : ℕ) : List Byte := (mgr.buffer.drop mgr.len).take len

end TrvlBufferMgr

/-- The message copied, if it is, and whether the buffer was emptied for it. -/
inductive Logged
  | dropped
  | appended
  | replaced
  deriving DecidableEq

def trvlbLogFormatedString (mgr : TrvlBufferMgr) (buff : List Byte) : TrvlBufferMgr × Logged :=
  if hlen : buff.length ≤ trvlBufferSize then
    if hfits : toUnsignedLong (intAdd mgr.len buff.length) ≤ trvlBufferSize then
      have hsum : mgr.len + buff.length ≤ trvlBufferSize :=
        (intAdd_le_iff mgr.len_le (hlen.trans_lt (by decide))).mp hfits
      ((mgr.copyToHead buff hsum).advance buff.length hsum, .appended)
    else
      have hsum : mgr.reset.len + buff.length ≤ trvlBufferSize :=
        (Nat.zero_add _).trans_le hlen
      ((mgr.reset.copyToHead buff hsum).advance buff.length hsum, .replaced)
  else (mgr, .dropped)

/-- `trvlb_put_buff_head`; `none` is `-EINVAL`. -/
def trvlbPutBuffHead (mgr : TrvlBufferMgr) (len : ℕ) (hlen : len < 2 ^ 31) :
    Option TrvlBufferMgr :=
  if hfits : toUnsignedLong (intAdd mgr.len len) ≤ trvlBufferSize then
    some (mgr.advance len ((intAdd_le_iff mgr.len_le hlen).mp hfits))
  else none

/-! ## The callbacks -/

/-- What a callback writes and returns, by the tailroom that it is told. -/
structure GetStat where
  written : ℕ → List Byte
  size : ℕ → ℕ
  written_le : ∀ tailroom, (written tailroom).length ≤ tailroom
  size_lt : ∀ tailroom, size tailroom < 2 ^ 31

/-- One turn of the loop of `scbm_collect_stats`, with the message that was
committed. -/
def collectStat (mgr : TrvlBufferMgr) (entry : GetStat) :
    TrvlBufferMgr × Option (List Byte) :=
  let tailroom := trvlBufferSize - mgr.len
  have hfits : mgr.len + (entry.written tailroom).length ≤ trvlBufferSize := by
    have hwritten := entry.written_le tailroom
    have hlen := mgr.len_le
    omega
  let mgr' := mgr.copyToHead (entry.written tailroom) hfits
  match trvlbPutBuffHead mgr' (entry.size tailroom) (entry.size_lt tailroom) with
  | none => (mgr', none)
  | some mgr'' => (mgr'', some (mgr'.head (entry.size tailroom)))

/-! ## The files -/

/-- A run: the buffer, what went into it and left it, and the data that reads
returned. -/
structure State where
  mgr : TrvlBufferMgr
  history : List (Event Byte)
  returned : List Byte

namespace State

variable (s : State)

def record (mgr : TrvlBufferMgr) (events : List (Event Byte)) : State :=
  { s with mgr := mgr, history := s.history ++ events }

/-- `logger_log_write` of the bytes `buf`; `memdup` is the success of
`memdup_user_nul`. -/
def loggerLogWrite (buf : List Byte) (memdup : Bool) : State :=
  if buf.length ≤ 1 ∨ pageSize ≤ buf.length ∨ memdup = false then s
  else
    match trvlbLogFormatedString s.mgr buf with
    | (mgr, .dropped) => s.record mgr []
    | (mgr, .appended) => s.record mgr [.accept buf]
    | (mgr, .replaced) => s.record mgr [.settle .discarded, .accept buf]

end State

def scbmCollectStats : State → List GetStat → State
  | s, [] => s
  | s, entry :: entries =>
      match collectStat s.mgr entry with
      | (mgr, none) => scbmCollectStats (s.record mgr []) entries
      | (mgr, some msg) => scbmCollectStats (s.record mgr [.accept msg]) entries

/-- The loop of `stats_log_read` from `cnt` on, with the data copied so far;
`copyFails` is the result of `copy_to_user` at an offset of the user's buffer. -/
def readLoop (len : ℕ) (copyFails : ℕ → Bool) (s : State) (cnt : ℕ) (copied : List Byte) :
    State × Option (List Byte) :=
  if cnt < len then
    if _ : s.mgr.len = 0 then (s, some copied)
    else if len < cnt + s.mgr.len then (s, some copied)
    else if copyFails cnt then (s, none)
    else
      readLoop len copyFails (s.record s.mgr.reset [.settle .delivered])
        (cnt + s.mgr.len) (copied ++ s.mgr.content)
  else (s, some copied)
termination_by s.mgr.len
decreasing_by
  show 0 < s.mgr.len
  omega

/-- `stats_log_read`; the data of a failed call are not returned. -/
def State.statsLogRead (s : State) (buf : Bool) (len : ℕ) (ppos : BitVec 64)
    (entries : List GetStat) (copyFails : ℕ → Bool) : State :=
  if buf = false ∨ ppos &&& 1 ≠ 0 then s
  else
    let (s', data) := readLoop len copyFails (scbmCollectStats s entries) 0 []
    { s' with returned := s'.returned ++ data.getD [] }

/-- A call of the two files; a read comes with the callbacks that are registered
then. -/
inductive Call
  | write (buf : List Byte) (memdup : Bool)
  | read (buf : Bool) (len : ℕ) (ppos : BitVec 64) (entries : List GetStat)
    (copyFails : ℕ → Bool)

/-- The buffer after `trvlb_init`, with whatever its memory held. -/
def logger (memory : List Byte) (hmemory : memory.length = trvlBufferSize) :
    Machine State Call where
  init := ⟨⟨0, memory, Nat.zero_le _, hmemory⟩, [], []⟩
  next := fun s call =>
    match call with
    | .write buf memdup => some (s.loggerLogWrite buf memdup)
    | .read buf len ppos entries copyFails =>
        some (s.statsLogRead buf len ppos entries copyFails)

end KtcpSplit.Logger
