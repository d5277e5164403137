import KtcpSplit.Lib.Ledger
import Mathlib.Algebra.Order.Ring.Int
import Mathlib.Tactic.MkIffOfInductiveProp

/-!
# Failing connection set-up

`prealloc_connection`, `start_new_pending_connection` and `start_new_connection`
each have several exits between the first resource and the point where the QP is
handed on.  Each function is its trace and the way it ends, by the outcomes of
the calls that it makes.
-/

namespace KtcpSplit.Setup

open KtcpSplit.Ledger

/-- The QP and its two sockets. -/
inductive Res
  | qp
  | tx
  | rx
  deriving DecidableEq

inductive End
  /-- The function returned, and nobody else knows of the QP. -/
  | returned
  /-- The QP is in a pre-connection pool or in a tree. -/
  | placed
  | forwarding
  /-- A null pointer was dereferenced. -/
  | oops
  deriving DecidableEq

structure Path where
  trace : List (Event Res)
  ends : End
  deriving DecidableEq

/-- A call: what it does, whether it succeeds, and how the code goes on. -/
def step (events : List (Event Res)) (succeeds : Bool) (fail rest : Path) : Path where
  trace := call events succeeds fail.trace rest.trace
  ends := if succeeds then rest.ends else fail.ends

/-- Every resource that the function was given or acquired is released once. -/
def LeavesNothing (given : Res → Status) (path : Path) : Prop :=
  path.ends = .returned → ∀ r, Settled r path.trace (given r)

/-! ## The three functions -/

/-- The outcomes of the calls of `prealloc_connection`; `stackTx` says whether the
uninitialised `tx` is not null. -/
structure PreallocOutcome where
  qpSlab : Bool
  stackTx : Bool
  sockCreate : ℤ
  soMark : ℤ
  keepalive : ℤ
  nodelay : ℤ
  connect : ℤ
  addPreconnQp : ℤ

/-- The label `connect_fail` of `prealloc_connection`. -/
def connectFail (tx : Bool) : Path := ⟨if tx then [.release .tx] else [], .returned⟩

def preallocConnection (o : PreallocOutcome) : Path :=
  step [] o.qpSlab ⟨[], .oops⟩ <|
  step [.acquire .qp, .access .qp] (o.sockCreate = 0) (connectFail o.stackTx) <|
  step [.acquire .tx, .access .tx] (0 ≤ o.soMark) (connectFail true) <|
  step [.access .tx] (0 ≤ o.keepalive) (connectFail true) <|
  step [.access .tx] (0 ≤ o.nodelay) (connectFail true) <|
  step [.access .tx] (o.connect = 0) (connectFail true) <|
  step [.access .qp] (o.addPreconnQp = 0) (connectFail true)
    ⟨[], .placed⟩

structure PendingOutcome where
  sockCreate : ℤ
  /-- `preconn_wait_for_next_hop`. -/
  waitForNextHop : ℤ
  nodelay : ℤ
  soMark : ℤ
  ipTransparent : Bool
  transparent : ℤ
  bind : ℤ
  connect : ℤ

/-- The labels `connect_fail` and `create_fail` of `start_new_pending_connection`. -/
def pendingFail : Path := ⟨[], .returned⟩

def startNewPendingConnection (o : PendingOutcome) : Path :=
  let ifTransparent := fun events => if o.ipTransparent then events else []
  step [] (o.sockCreate = 0) pendingFail <|
  step [.acquire .tx, .access .qp, .access .rx] (0 < o.waitForNextHop) pendingFail <|
  step [.access .tx] (0 ≤ o.nodelay) pendingFail <|
  step [.access .tx] (0 ≤ o.soMark) pendingFail <|
  step (ifTransparent [.access .tx]) (!o.ipTransparent || o.transparent = 0) pendingFail <|
  step (ifTransparent [.access .tx]) (!o.ipTransparent || o.bind = 0) pendingFail <|
  step [.access .tx] (o.connect = 0) pendingFail
    ⟨[.access .qp], .forwarding⟩

/-- What `qp_exists` did with the QP. -/
inductive Exists
  | linked
  | joined
  /-- It returned `NULL`. -/
  | taken
  deriving DecidableEq

structure ConnectionOutcome where
  soMark : ℤ
  originalDst : ℤ
  nodelay : ℤ
  getpeername : ℤ
  setaffinity : ℤ
  qpExists : Exists

/-- The label `create_fail` of `start_new_connection`. -/
def createFail : Path := ⟨[.release .rx], .returned⟩

def startNewConnection (o : ConnectionOutcome) : Path :=
  step [.access .qp, .access .rx] (0 ≤ o.soMark) createFail <|
  step [.access .rx] (o.originalDst = 0) createFail <|
  step [.access .rx] (0 ≤ o.nodelay) createFail <|
  step [.access .rx] (o.getpeername = 0) createFail <|
  step [.access .qp] (o.setaffinity = 0) createFail <|
  match o.qpExists with
  | .linked => ⟨[.access .qp], .placed⟩
  | .joined => ⟨[.access .qp, .release .qp], .placed⟩
  | .taken => ⟨[.access .qp], .oops⟩

/-- `start_new_pending_connection` and `start_new_connection` are given a QP with
the accepted socket. -/
def accepted : Res → Status
  | .qp => .held
  | .rx => .held
  | .tx => .absent

def nothing : Res → Status := fun _ => .absent

/-! ## The outcomes without a failing exit -/

@[mk_iff]
structure PreallocOutcome.Succeeds (o : PreallocOutcome) : Prop where
  sockCreate : o.sockCreate = 0
  soMark : 0 ≤ o.soMark
  keepalive : 0 ≤ o.keepalive
  nodelay : 0 ≤ o.nodelay
  connect : o.connect = 0
  addPreconnQp : o.addPreconnQp = 0

@[mk_iff]
structure PendingOutcome.Succeeds (o : PendingOutcome) : Prop where
  sockCreate : o.sockCreate = 0
  waitForNextHop : 0 < o.waitForNextHop
  nodelay : 0 ≤ o.nodelay
  soMark : 0 ≤ o.soMark
  transparent : o.ipTransparent = true → o.transparent = 0 ∧ o.bind = 0
  connect : o.connect = 0

@[mk_iff]
structure ConnectionOutcome.Succeeds (o : ConnectionOutcome) : Prop where
  soMark : 0 ≤ o.soMark
  originalDst : o.originalDst = 0
  nodelay : 0 ≤ o.nodelay
  getpeername : o.getpeername = 0
  setaffinity : o.setaffinity = 0

/-! ## What a failing exit leaves behind -/

/-- Where the path returns, `r` has one of the statuses in `P`. -/
def Path.Returns (path : Path) (P : Status → Prop) (r : Res) (st : Status) : Prop :=
  path.ends = .returned → P (status r st path.trace)

section Step

variable {events : List (Event Res)} {succeeds : Bool} {fail rest : Path} {r : Res}
  {st st' : Status} {P : Status → Prop}

/-- The rule for a call. -/
theorem returns_step (hevents : status r st events = st')
    (hfail : succeeds = false → fail.Returns P r st')
    (hrest : succeeds = true → rest.Returns P r st') :
    (step events succeeds fail rest).Returns P r st := by
  unfold Path.Returns step
  dsimp only
  rw [status_call, hevents]
  cases succeeds
  · exact hfail rfl
  · exact hrest rfl

theorem returns_fail {trace : List (Event Res)} (hstatus : P (status r st trace)) :
    (⟨trace, .returned⟩ : Path).Returns P r st :=
  fun _ => hstatus

theorem returns_of_ne {trace : List (Event Res)} {ends : End} (hends : ends ≠ .returned) :
    (⟨trace, ends⟩ : Path).Returns P r st :=
  fun hreturned => absurd hreturned hends

theorem ends_step_iff (hfail : fail.ends = .returned) :
    (step events succeeds fail rest).ends ≠ .returned ↔
      succeeds = true ∧ rest.ends ≠ .returned := by
  cases succeeds
  · exact iff_of_false (not_not.mpr hfail) fun h => Bool.noConfusion h.1
  · exact (and_iff_right rfl).symm

end Step

theorem preallocConnection_ends {o : PreallocOutcome} (hslab : o.qpSlab = true) :
    (preallocConnection o).ends ≠ .returned ↔ o.Succeeds := by
  rw [PreallocOutcome.succeeds_iff, preallocConnection, hslab]
  change (step [.acquire .qp, .access .qp] _ _ _).ends ≠ _ ↔ _
  rw [ends_step_iff rfl, ends_step_iff rfl, ends_step_iff rfl, ends_step_iff rfl,
    ends_step_iff rfl, ends_step_iff rfl]
  simp

/-- The QP is not freed by any exit. -/
theorem preallocConnection_qp {o : PreallocOutcome} :
    (preallocConnection o).Returns (· = .held) .qp .absent := by
  have hfail : ∀ {tx : Bool}, (connectFail tx).Returns (· = .held) .qp .held := by
    intro tx
    cases tx <;> exact returns_fail rfl
  refine returns_step rfl (fun _ => returns_of_ne nofun) fun _ => ?_
  refine returns_step rfl (fun _ => hfail) fun _ => ?_
  refine returns_step rfl (fun _ => hfail) fun _ => ?_
  refine returns_step rfl (fun _ => hfail) fun _ => ?_
  refine returns_step rfl (fun _ => hfail) fun _ => ?_
  refine returns_step rfl (fun _ => hfail) fun _ => ?_
  exact returns_step rfl (fun _ => hfail) fun _ => returns_of_ne nofun

/-- The socket is released by every exit after it was created. -/
theorem preallocConnection_tx {o : PreallocOutcome} (hsock : o.sockCreate = 0) :
    (preallocConnection o).Returns (· = .released) .tx .absent := by
  have hfail : (connectFail true).Returns (· = .released) .tx .held := returns_fail rfl
  refine returns_step rfl (fun _ => returns_of_ne nofun) fun _ => ?_
  refine returns_step rfl (fun h => by simp [hsock] at h) fun _ => ?_
  refine returns_step rfl (fun _ => hfail) fun _ => ?_
  refine returns_step rfl (fun _ => hfail) fun _ => ?_
  refine returns_step rfl (fun _ => hfail) fun _ => ?_
  refine returns_step rfl (fun _ => hfail) fun _ => ?_
  exact returns_step rfl (fun _ => hfail) fun _ => returns_of_ne nofun

/-- If it was not created, what stood on the stack is released in its place. -/
theorem preallocConnection_stack {o : PreallocOutcome} (hsock : o.sockCreate ≠ 0) :
    (preallocConnection o).Returns (· = if o.stackTx then .broken else .absent)
      .tx .absent := by
  refine returns_step rfl (fun _ => returns_of_ne nofun) fun _ => ?_
  refine returns_step rfl (fun _ => ?_) fun h => absurd (of_decide_eq_true h) hsock
  cases o.stackTx <;> exact returns_fail rfl

theorem startNewPendingConnection_ends {o : PendingOutcome} :
    (startNewPendingConnection o).ends ≠ .returned ↔ o.Succeeds := by
  rw [PendingOutcome.succeeds_iff, startNewPendingConnection]
  rw [ends_step_iff rfl, ends_step_iff rfl, ends_step_iff rfl, ends_step_iff rfl,
    ends_step_iff rfl, ends_step_iff rfl, ends_step_iff rfl]
  cases o.ipTransparent <;> simp [and_assoc]

/-- Nothing that is held is released. -/
theorem startNewPendingConnection_held {o : PendingOutcome} {r : Res} (hr : r ≠ .tx) :
    (startNewPendingConnection o).Returns (· = .held) r .held := by
  have hfail : pendingFail.Returns (· = .held) r .held := returns_fail rfl
  have htx : status r .held [.access .tx] = .held :=
    status_of_not_mem fun event hevent => by
      rw [List.mem_singleton.mp hevent]
      exact hr.symm
  have hmaybe : ∀ {b : Bool}, status r .held (if b then [.access .tx] else []) = .held := by
    intro b
    cases b
    · rfl
    · exact htx
  refine returns_step rfl (fun _ => hfail) fun _ => ?_
  refine returns_step ?_ (fun _ => hfail) fun _ => ?_
  · cases r
    · rfl
    · exact absurd rfl hr
    · rfl
  refine returns_step htx (fun _ => hfail) fun _ => ?_
  refine returns_step htx (fun _ => hfail) fun _ => ?_
  refine returns_step hmaybe (fun _ => hfail) fun _ => ?_
  refine returns_step hmaybe (fun _ => hfail) fun _ => ?_
  exact returns_step htx (fun _ => hfail) fun _ => returns_of_ne nofun

theorem startNewConnection_ends {o : ConnectionOutcome} :
    (startNewConnection o).ends ≠ .returned ↔ o.Succeeds := by
  rw [ConnectionOutcome.succeeds_iff, startNewConnection]
  rw [ends_step_iff rfl, ends_step_iff rfl, ends_step_iff rfl, ends_step_iff rfl,
    ends_step_iff rfl]
  cases o.qpExists <;> simp

/-- The accepted socket is released by every failing exit, the QP by none. -/
theorem startNewConnection_returns {o : ConnectionOutcome} :
    (startNewConnection o).Returns (· = .held) .qp .held ∧
      (startNewConnection o).Returns (· = .released) .rx .held := by
  have hqp : createFail.Returns (· = .held) .qp .held := returns_fail rfl
  have hrx : createFail.Returns (· = .released) .rx .held := returns_fail rfl
  constructor
  · refine returns_step rfl (fun _ => hqp) fun _ => ?_
    refine returns_step rfl (fun _ => hqp) fun _ => ?_
    refine returns_step rfl (fun _ => hqp) fun _ => ?_
    refine returns_step rfl (fun _ => hqp) fun _ => ?_
    refine returns_step rfl (fun _ => hqp) fun _ => ?_
    cases o.qpExists <;> exact returns_of_ne nofun
  · refine returns_step rfl (fun _ => hrx) fun _ => ?_
    refine returns_step rfl (fun _ => hrx) fun _ => ?_
    refine returns_step rfl (fun _ => hrx) fun _ => ?_
    refine returns_step rfl (fun _ => hrx) fun _ => ?_
    refine returns_step rfl (fun _ => hrx) fun _ => ?_
    cases o.qpExists <;> exact returns_of_ne nofun

/-! ## Failing set-up -/

/-- A path on which the QP stays held leaves something if it returns. -/
theorem leavesNothing_iff {given : Res → Status} {path : Path}
    (hleaks : path.Returns (· = .held) .qp (given .qp)) :
    LeavesNothing given path ↔ path.ends ≠ .returned := by
  constructor
  · intro hnothing hreturned
    have hsettled := hnothing hreturned .qp
    have hheld : status .qp (given .qp) path.trace = .held := hleaks hreturned
    rw [Settled, hheld] at hsettled
    rcases hsettled with h | h <;> cases h
  · exact fun hends hreturned => absurd hreturned hends

/-- In each of the three functions something is left behind by every exit before
the QP is handed on: nothing is left if and only if no call fails. -/
theorem set_up_leaves_nothing_iff (prealloc : PreallocOutcome) (pending : PendingOutcome)
    (connection : ConnectionOutcome) :
    (LeavesNothing nothing (preallocConnection prealloc) ↔
      (prealloc.qpSlab = true → prealloc.Succeeds)) ∧
    (LeavesNothing accepted (startNewPendingConnection pending) ↔ pending.Succeeds) ∧
    (LeavesNothing accepted (startNewConnection connection) ↔ connection.Succeeds) := by
  refine ⟨?_, ?_, ?_⟩
  · rw [leavesNothing_iff preallocConnection_qp]
    cases hslab : prealloc.qpSlab
    · refine iff_of_true (fun hreturned => ?_) (fun h => Bool.noConfusion h)
      rw [preallocConnection, hslab] at hreturned
      cases hreturned
    · rw [preallocConnection_ends hslab]
      exact (imp_iff_right rfl).symm
  · have hqp : (startNewPendingConnection pending).Returns (· = .held) .qp (accepted .qp) :=
      startNewPendingConnection_held (by decide)
    rw [leavesNothing_iff hqp, startNewPendingConnection_ends]
  · rw [leavesNothing_iff startNewConnection_returns.1, startNewConnection_ends]

/-- The destination of a pre-connection refuses it: the socket is released, the QP
is leaked. -/
theorem set_up_leaves_qp :
    ¬∀ o : PreallocOutcome, LeavesNothing nothing (preallocConnection o) := by
  intro hnothing
  have hsettled := hnothing ⟨true, false, 0, 0, 0, 0, -111, 0⟩ rfl .qp
  revert hsettled
  decide

end KtcpSplit.Setup
