import KtcpSplit.Logger.Buffer

/-!
# The log that grows

`log_string` prints a message behind the last buffer and takes a new buffer when the message
was cut.  It tells that from the result of `scnprintf`, which counts what was stored, and it
begins with a buffer that the logger has to have.
-/

namespace KtcpSplit.LogBuffer

open KtcpSplit.ConnKey (Byte)
open KtcpSplit.Logger (trvlBufferSize toUnsignedLong)

/-! ## The logger -/

/-- `struct dp_logger`, with the buffers in the order of the list. -/
structure DpLogger where
  list : List TrvlBufferMgr
  cnt : BitVec 32

def dpLoggerInit : DpLogger := ⟨[], 0⟩

/-- The new buffer is what `kmalloc` returned. -/
def dpLoggerNextHead (logger : DpLogger) :
    Option TrvlBufferMgr → DpLogger × Option BuffHead
  | none => (logger, none)
  | some mgr =>
      (⟨logger.list ++ [trvlbInit mgr], logger.cnt + 1⟩, some (trvlbGetBuffHead (trvlbInit mgr)))

def dpLoggerGetHead (logger : DpLogger) : Option BuffHead :=
  if logger.cnt = 0 then none else logger.list.getLast?.map trvlbGetBuffHead

/-- The last buffer is replaced. -/
def DpLogger.setLast (logger : DpLogger) (mgr : TrvlBufferMgr) : DpLogger :=
  { logger with list := logger.list.dropLast ++ [mgr] }

def dpLoggerPutBuffHead (logger : DpLogger) (len : BitVec 32) : DpLogger × ℤ :=
  if logger.cnt = 0 then (logger, -einval)
  else
    match logger.list.getLast? with
    | none => (logger, -einval)
    | some mgr => (logger.setLast (trvlbPutBuffHead mgr len).1, (trvlbPutBuffHead mgr len).2)

/-! ## The macro -/

/-- What `scnprintf` stores, with the terminating zero, and the number that it returns. -/
def scnprintf (size : BitVec 32) (text : List Byte) : List Byte × ℕ :=
  if toUnsignedLong size.toInt = 0 then ([], 0)
  else
    let stored := text.take (toUnsignedLong size.toInt - 1)
    (stored ++ [0], stored.length)

/-- The loop of `log_string`, which writes at the head of the last buffer; `none` where it
leaves the buffer. -/
def logLoop (kmalloc : Option TrvlBufferMgr) (text : List Byte) (logger : DpLogger)
    (watchdog : ℕ) : Option BuffHead → Option DpLogger
  | none => some logger
  | some buff =>
      let (data, size) := scnprintf buff.tailroom text
      (logger.list.getLast?.bind fun mgr => store mgr buff.index data).bind fun mgr =>
        let logger := logger.setLast mgr
        if buff.tailroom.toInt ≤ size then
          if watchdog = 0 then
            let (logger, buff) := dpLoggerNextHead logger kmalloc
            logLoop kmalloc text logger (watchdog + 1) buff
          else some logger
        else some (dpLoggerPutBuffHead logger (BitVec.ofNat 32 size)).1
termination_by 1 - watchdog

/-- A use of the macro; `memory` is what `kmalloc` returns if it is called. -/
structure LogString where
  function : List Byte
  text : List Byte
  memory : TrvlBufferMgr

/-- The format is `"%s:"fmt`. -/
def LogString.message (call : LogString) : List Byte := call.function ++ 58 :: call.text

def logString (logger : DpLogger) (call : LogString) : Option DpLogger :=
  logLoop (some call.memory) call.message logger 0 (dpLoggerGetHead logger)

/-- The macro is used several times. -/
def logStrings : DpLogger → List LogString → Option DpLogger
  | logger, [] => some logger
  | logger, call :: calls => (logString logger call).bind fun logger => logStrings logger calls

/-- Every message is in one of the buffers, whole and in order. -/
def KeptWhole (logger : DpLogger) (messages : List (List Byte)) : Prop :=
  ∃ parts : List (List (List Byte)), parts.flatten = messages ∧
    logger.list.map content = parts.map List.flatten

/-! ## A logger with a buffer -/

variable {logger : DpLogger} {mgr : TrvlBufferMgr} {front : List TrvlBufferMgr}

/-- There is a last buffer, and it is not full. -/
structure Ready (logger : DpLogger) (front : List TrvlBufferMgr) (mgr : TrvlBufferMgr) :
    Prop where
  list : logger.list = front ++ [mgr]
  cnt : logger.cnt ≠ 0
  bounded : Bounded mgr
  room : mgr.len.toInt < trvlBufferSize

theorem list_setLast (hlist : logger.list = front ++ [mgr]) (mgr' : TrvlBufferMgr) :
    (logger.setLast mgr').list = front ++ [mgr'] := by
  rw [DpLogger.setLast, hlist, List.dropLast_concat]

theorem getLast_list (hlist : logger.list = front ++ [mgr]) :
    logger.list.getLast? = some mgr := by
  rw [hlist, List.getLast?_concat]

theorem dpLoggerPutBuffHead_of_list (hlist : logger.list = front ++ [mgr])
    (hcnt : logger.cnt ≠ 0) (len : BitVec 32) :
    dpLoggerPutBuffHead logger len =
      (logger.setLast (trvlbPutBuffHead mgr len).1, (trvlbPutBuffHead mgr len).2) := by
  rw [dpLoggerPutBuffHead, if_neg hcnt, getLast_list hlist]

/-- A size that counts what was stored is always less than the tailroom. -/
theorem scnprintf_of_pos {size : BitVec 32} (hpos : 0 < size.toInt) (text : List Byte) :
    scnprintf size text = (text.take (size.toInt.toNat - 1) ++ [0],
      (text.take (size.toInt.toNat - 1)).length) := by
  have hsize : toUnsignedLong size.toInt = size.toInt.toNat := by
    have hcast := toUnsignedLong_of_nonneg hpos.le
    omega
  rw [scnprintf, hsize, if_neg (by omega)]

/-- The text is cut where the buffer ends, and the size does not tell. -/
theorem print_spec (hbounded : Bounded mgr) (hroom : mgr.len.toInt < trvlBufferSize)
    (text : List Byte) :
    ∃ data size written mgr', scnprintf (trvlbGetBuffHead mgr).tailroom text = (data, size) ∧
      (size : ℤ) < (trvlbGetBuffHead mgr).tailroom.toInt ∧
      store mgr (trvlbGetBuffHead mgr).index data = some written ∧
      trvlbPutBuffHead written (BitVec.ofNat 32 size) = (mgr', 0) ∧ Bounded mgr' ∧
      mgr'.len.toInt < trvlBufferSize ∧
      content mgr' = (content mgr ++ text).take (trvlBufferSize - 1) := by
  have hnonneg := hbounded.1
  have htailroom := toInt_tailroom hbounded
  have hcontent := length_content hbounded
  have hcapacity : trvlBufferSize = 3968 := rfl
  set tailroom := (trvlbGetBuffHead mgr).tailroom
  set stored := text.take (tailroom.toInt.toNat - 1) with hstored
  have hcount : stored.length ≤ tailroom.toInt.toNat - 1 := List.length_take_le _ _
  -- the characters and the zero fit behind the content
  obtain ⟨written, hwrite, hsame⟩ : ∃ written,
      store mgr mgr.len.toInt (stored ++ [0]) = some written ∧ written.len = mgr.len := by
    refine store_isSome mgr hnonneg ?_
    rw [List.length_append, List.length_singleton]
    omega
  have hlen : (BitVec.ofNat 32 stored.length).toInt = stored.length :=
    toInt_ofNat_of_lt (by omega)
  have hsum : (written.len + BitVec.ofNat 32 stored.length).toInt =
      mgr.len.toInt + stored.length := by
    rw [hsame, toInt_add_of_le hbounded (by omega), hlen]
  refine ⟨stored ++ [0], stored.length, written, _, scnprintf_of_pos (by omega) text, by omega,
    hwrite, if_neg ((not_lt_toUnsignedLong_iff _).mpr (by omega)), ⟨?_, ?_⟩, ?_, ?_⟩
  · exact hsum.symm ▸ by omega
  · exact hsum.symm ▸ by omega
  · exact hsum.symm ▸ by omega
  · have hfront : trvlBufferSize - 1 = (content mgr).length + (tailroom.toInt.toNat - 1) := by
      omega
    rw [content_store hbounded hwrite (by rw [List.length_append]; omega) hsum, List.take_left,
      hfront, List.take_length_add_append]

/-- No buffer is added. -/
theorem Ready.logString (hready : Ready logger front mgr) (call : LogString) :
    ∃ logger' mgr', logString logger call = some logger' ∧ Ready logger' front mgr' ∧
      content mgr' = (content mgr ++ call.message).take (trvlBufferSize - 1) := by
  obtain ⟨data, size, written, mgr', hprint, hsize, hwrite, hput, hbounded, hroom, hcontent⟩ :=
    print_spec hready.bounded hready.room call.message
  have hlist := list_setLast hready.list written
  refine ⟨(logger.setLast written).setLast mgr', mgr', ?_,
    ⟨list_setLast hlist mgr', hready.cnt, hbounded, hroom⟩, hcontent⟩
  have hputHead := dpLoggerPutBuffHead_of_list hlist hready.cnt (BitVec.ofNat 32 size)
  rw [LogBuffer.logString, dpLoggerGetHead, if_neg hready.cnt, getLast_list hready.list,
    Option.map_some, logLoop, hprint]
  dsimp only
  rw [getLast_list hready.list, Option.bind_some, hwrite, Option.bind_some,
    if_neg (not_le.mpr hsize), hputHead, hput]

theorem take_append_take {count : ℕ} (bytes more : List Byte) :
    (bytes.take count ++ more).take count = (bytes ++ more).take count := by
  rw [List.take_append, List.take_append, List.take_take, Nat.min_self, List.length_take]
  congr 2
  omega

/-- The last buffer holds the front of all messages. -/
theorem Ready.logStrings (hready : Ready logger front mgr) (calls : List LogString) :
    ∃ logger' mgr', logStrings logger calls = some logger' ∧ Ready logger' front mgr' ∧
      content mgr' =
        (content mgr ++ (calls.map LogString.message).flatten).take (trvlBufferSize - 1) := by
  induction calls generalizing logger mgr with
  | nil =>
      have hlength := length_content hready.bounded
      have hroom := hready.room
      refine ⟨logger, mgr, rfl, hready, ?_⟩
      rw [List.map_nil, List.flatten_nil, List.append_nil, List.take_of_length_le (by omega)]
  | cons call calls ih =>
      obtain ⟨next, last, hcall, hnext, hlast⟩ := hready.logString call
      obtain ⟨logger', mgr', hcalls, hready', hcontent⟩ := ih hnext
      refine ⟨logger', mgr', ?_, hready', ?_⟩
      · rw [LogBuffer.logStrings, hcall, Option.bind_some, hcalls]
      · rw [hcontent, hlast, take_append_take, List.map_cons, List.flatten_cons,
          List.append_assoc]

/-- Whoever gives the logger an empty first buffer has the messages cut where it ends. -/
theorem whole_iff_of_ready (hready : Ready logger [] mgr) (hempty : content mgr = [])
    (calls : List LogString) :
    (∃ logger', logStrings logger calls = some logger' ∧
      KeptWhole logger' (calls.map LogString.message)) ↔
      (calls.map LogString.message).flatten.length < trvlBufferSize := by
  obtain ⟨logger', mgr', hcalls, hready', hcontent⟩ := hready.logStrings calls
  rw [hempty, List.nil_append] at hcontent
  have hlist : logger'.list.map content = [content mgr'] := by rw [hready'.list]; rfl
  have hcapacity : trvlBufferSize = 3968 := rfl
  rw [hcalls]
  constructor
  · rintro ⟨kept, heq, parts, hparts, hkept⟩
    cases heq
    obtain ⟨part, rfl, hpart⟩ : ∃ part, parts = [part] ∧ part.flatten = content mgr' := by
      rw [hlist] at hkept
      exact List.map_eq_singleton_iff.mp hkept.symm
    rw [List.flatten_singleton] at hparts
    rw [hparts] at hpart
    have hlength := congrArg List.length (hpart.trans hcontent)
    rw [List.length_take] at hlength
    omega
  · intro hshort
    refine ⟨logger', rfl, [calls.map LogString.message], List.flatten_singleton, ?_⟩
    rw [hlist, hcontent, List.take_of_length_le (by omega)]
    rfl

/-! ## A logger after `dp_logger_init` -/

theorem logString_init (call : LogString) : logString dpLoggerInit call = some dpLoggerInit := by
  have hnone : dpLoggerGetHead dpLoggerInit = none := rfl
  rw [logString, hnone, logLoop]

theorem logStrings_init (calls : List LogString) :
    logStrings dpLoggerInit calls = some dpLoggerInit := by
  induction calls with
  | nil => rfl
  | cons call calls ih => rw [logStrings, logString_init, Option.bind_some, ih]

/-- The messages are kept only if there are none. -/
theorem growing_log_whole_iff (calls : List LogString) :
    (∃ logger, logStrings dpLoggerInit calls = some logger ∧
      KeptWhole logger (calls.map LogString.message)) ↔ calls = [] := by
  rw [logStrings_init]
  constructor
  · rintro ⟨logger, heq, parts, hparts, hlist⟩
    cases heq
    have hnil : parts = [] := by simpa [dpLoggerInit] using hlist
    rw [hnil, List.flatten_nil] at hparts
    exact List.map_eq_nil_iff.mp hparts.symm
  · rintro rfl
    exact ⟨dpLoggerInit, rfl, [], rfl, rfl⟩

/-- The message `f:hi`. -/
def firstMessage : LogString := ⟨[102], [104, 105], emptyMgr⟩

/-- It would fit, and it is lost. -/
theorem first_message_lost :
    firstMessage.message.length + 1 ≤ trvlBufferSize ∧
      logStrings dpLoggerInit [firstMessage] = some dpLoggerInit ∧
      ¬KeptWhole dpLoggerInit [firstMessage.message] := by
  refine ⟨by decide, logStrings_init _, ?_⟩
  rintro ⟨parts, hparts, hlist⟩
  have hnil : parts = [] := by simpa [dpLoggerInit] using hlist
  rw [hnil] at hparts
  cases hparts

end KtcpSplit.LogBuffer
