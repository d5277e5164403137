import KtcpSplit.Lib.PageVec
import KtcpSplit.Lib.Transition
import Mathlib.Data.Int.Notation

/-!
# One direction of a connection

`half_duplex` receives into sixteen pages and sends what it received, until one
of the two calls fails or its thread is stopped.  The control flow is a function
of the outcomes of the calls, and the bytes are carried along in a frame.
-/

namespace KtcpSplit.HalfDuplex

open KtcpSplit.PageVec
open KtcpSplit.Transition

def vecSz : ℕ := 16

def pageSize : ℕ := 4096

/-- The next statement of `half_duplex`. -/
inductive Pc
  /-- `alloc_page` for `kvec[i]`. -/
  | alloc (i : ℕ)
  | recv
  /-- `put_qp` after `kernel_recvmsg` failed. -/
  | recvPut
  /-- `kernel_sendmsg` of so many bytes. -/
  | send (count : ℕ)
  /-- `put_qp` after `kernel_sendmsg` failed. -/
  | sendPut
  /-- `kthread_should_stop`. -/
  | test
  | err
  | done
  deriving DecidableEq

/-- What the calls return; a failed one returns zero or an error, and `go` stands
for a statement that has only one outcome. -/
inductive Outcome (α : Type*)
  | page (allocated : Bool)
  | received (bytes : List α)
  | recvFailed (rc : ℤ)
  | sent (count : ℕ)
  | sendFailed (rc : ℤ)
  | stop (should : Bool)
  | go
  deriving DecidableEq

variable {α : Type*}

/-- What an outcome takes from the stream that is received. -/
def Outcome.bytes : Outcome α → List α
  | .received bytes => bytes
  | _ => []

def Pc.next : Pc → Outcome α → Option Pc
  | .alloc i, .page true => some (if i + 1 < vecSz then .alloc (i + 1) else .recv)
  | .alloc _, .page false => some .err
  | .recv, .received bytes =>
      if 0 < bytes.length ∧ bytes.length ≤ pageSize * vecSz then
        some (.send bytes.length)
      else none
  | .recv, .recvFailed rc => if rc ≤ 0 then some .recvPut else none
  | .recvPut, .go => some .err
  | .send count, .sent accepted =>
      if 0 < accepted ∧ accepted ≤ count then some .test else none
  | .send _, .sendFailed rc => if rc ≤ 0 then some .sendPut else none
  | .sendPut, .go => some .err
  | .test, .stop should => some (if should then .err else .recv)
  | .err, .go => some .done
  | _, _ => none

/-- The locals of a call.  The fields after `kvec` record the history: the bytes
that were received, those that were accepted with their position in the received
stream, and whether a write was short. -/
structure Frame (α : Type*) where
  pc : Pc
  rc : ℤ
  kvec : Pages α
  received : List α
  accepted : List (α × ℕ)
  short : Bool

def enomem : ℤ := 12

/-- What an outcome does to the locals. -/
def Frame.record (f : Frame α) : Outcome α → Frame α
  | .page true => f
  | .page false => { f with rc := -enomem }
  | .received bytes =>
      { f with
        rc := bytes.length
        kvec := scatter pageSize f.kvec bytes
        received := f.received ++ bytes }
  | .recvFailed rc => { f with rc := rc }
  | .sent accepted =>
      let start := f.received.length - f.rc.toNat
      { f with
        rc := accepted
        accepted := f.accepted ++ (gather pageSize f.kvec accepted).zipIdx start
        short := f.short || accepted < f.rc.toNat }
  | .sendFailed rc => { f with rc := rc }
  | .stop _ => f
  | .go => f

/-- A call of `half_duplex`; `memory` is what the pages hold when they are
allocated. -/
def halfDuplex (memory : Pages α) : Machine (Frame α) (Outcome α) where
  init := ⟨.alloc 0, 0, memory, [], [], false⟩
  next := fun f outcome =>
    (f.pc.next outcome).map fun pc => { f.record outcome with pc := pc }

end KtcpSplit.HalfDuplex
