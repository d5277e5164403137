import KtcpSplit.Duplex.HalfDuplex
import KtcpSplit.Rendezvous.Model

/-!
# The references of the workers

Every worker ends up with a QP, takes one reference of it (two where it starts a
second thread) and leaves the dropping to `half_duplex` or does it by hand.  The
machine keeps for each worker its program counter and that of the thread it
started, and for each QP its counter and its sockets.  What the workers read of
one another is a choice of the run.
-/

namespace KtcpSplit.Workers

open KtcpSplit.Rendezvous (Dir)
open KtcpSplit.Transition

inductive Fn
  | startNewConnectionSyn
  | startNewPreConnectionSyn
  | startNewConnection
  | startNewPendingConnection
  deriving DecidableEq

/-- The sockets that the worker brings. -/
def Fn.dirs : Fn → List Dir
  | .startNewConnectionSyn => [.tx]
  | .startNewPreConnectionSyn => [.tx]
  | .startNewConnection => [.rx]
  | .startNewPendingConnection => [.tx, .rx]

/-- The next statement of a thread. -/
inductive Pc
  /-- The thread of a worker, or the second thread of one, is not started. -/
  | idle
  /-- Everything up to the result of `qp_exists`; `start_new_pending_connection` has
  its own QP and runs up to `kernel_connect`. -/
  | start
  /-- `start_new_connection_syn` up to the store into `qp->tx`. -/
  | connect
  | forward
  /-- The first check in `wait_qp_ready`. -/
  | ready
  | waitGet
  | wait
  /-- `put_qp` in the timeout branch. -/
  | waitPut
  | wakeGet
  /-- The worker looks at the sockets. -/
  | check
  /-- `put_qp` in `start_new_connection_syn`. -/
  | checkPut
  /-- The two `get_qp` of `start_new_pending_connection`. -/
  | getFirst
  | getSecond
  /-- `kthread_pool_run` of `start_half_duplex`. -/
  | handOver
  /-- Inside `half_duplex`; `valid` says whether both sockets are there. -/
  | duplex (valid : Bool) (pc : HalfDuplex.Pc)
  | ended
  /-- A null pointer was dereferenced. -/
  | oops
  deriving DecidableEq

/-- The exits that drop no reference. -/
inductive Leak
  /-- `alloc_page` failed in `half_duplex`. -/
  | page
  /-- `half_duplex` was stopped. -/
  | stop
  /-- `start_new_connection` found a direction without a socket. -/
  | socket
  /-- `half_duplex` sent on a direction without a socket. -/
  | send
  /-- The second thread was not started. -/
  | handOver
  deriving DecidableEq

/-- What a step does not decide: the QP that a worker gets, what it sees of the
sockets, and the outcomes of the calls. -/
inductive Act
  | go
  | fail
  /-- `alloc_prexeisting_conn` returned `NULL`. -/
  | poolEmpty
  /-- `qp_exists` returned `NULL`. -/
  | duplicate
  | qp (q : ℕ)
  | peer (valid : Bool)
  | timeout
  | signal
  | duplex (outcome : HalfDuplex.Outcome Unit)
  deriving DecidableEq

inductive Role
  | main
  | second
  deriving DecidableEq

/-- A worker with its threads.  The fields after `qp` record the history: the
references taken and dropped by its threads, and the exits that dropped none. -/
structure Worker where
  fn : Fn
  pc : Role → Pc
  qp : ℕ
  gets : ℕ
  puts : ℕ
  leaks : List Leak

/-- What a step does to the QP of the worker. -/
inductive Effect
  | nothing
  | store
  | get
  | put
  deriving DecidableEq

namespace Worker

variable (ws : Worker)

def setPc (role : Role) (pc : Pc) : Worker :=
  { ws with pc := Function.update ws.pc role pc }

def leak (cause : Leak) : Worker := { ws with leaks := cause :: ws.leaks }

end Worker

/-- `half_duplex` drops the reference after a failed call. -/
def duplexEffect : HalfDuplex.Pc → Effect
  | .recvPut => .put
  | .sendPut => .put
  | _ => .nothing

/-- The exits of `half_duplex` that go around `put_qp`. -/
def duplexLeaks : HalfDuplex.Pc → HalfDuplex.Outcome Unit → List Leak
  | .alloc _, .page false => [.page]
  | .test, .stop true => [.stop]
  | _, _ => []

/-- `half_duplex` makes a step. -/
def stepDuplex (ws : Worker) (role : Role) (valid : Bool) (pc : HalfDuplex.Pc)
    (outcome : HalfDuplex.Outcome Unit) : Option (Worker × Effect) :=
  match valid, pc with
  | false, .send _ => some ((ws.leak .send).setPc role .oops, .nothing)
  | _, _ =>
      (pc.next outcome).map fun pc' =>
        ({ ws.setPc role (if pc' = .done then .ended else .duplex valid pc') with
            leaks := duplexLeaks pc outcome ++ ws.leaks },
          duplexEffect pc)

/-- What a worker does once it has looked at the sockets. -/
def stepCheck (ws : Worker) (valid : Bool) : Worker :=
  match ws.fn, valid with
  | .startNewConnectionSyn, false => ws.setPc .main .checkPut
  | .startNewConnection, false => (ws.leak .socket).setPc .main .ended
  | _, _ => ws.setPc .main (.duplex valid (.alloc 0))

/-- What a worker does with the QP that `qp_exists` returned, or with its own. -/
def stepQp (ws : Worker) : Worker × Effect :=
  match ws.fn with
  | .startNewConnectionSyn => (ws.setPc .main .connect, .nothing)
  | .startNewPreConnectionSyn => (ws.setPc .main .forward, .store)
  | .startNewConnection => (ws.setPc .main .ready, .store)
  | .startNewPendingConnection => (ws.setPc .main .getFirst, .store)

/-- `start_new_pre_connection_syn` leaves the rest to `start_new_connection_syn`. -/
def fallBack (ws : Worker) : Worker :=
  { ws.setPc .main .start with fn := .startNewConnectionSyn }

def stepMain (ws : Worker) : Pc → Act → Option (Worker × Effect)
  | .idle, .go => some (ws.setPc .main .start, .nothing)
  | .start, .qp q => some (stepQp { ws with qp := q })
  | .start, .poolEmpty =>
      if ws.fn = .startNewPreConnectionSyn then some (fallBack ws, .nothing) else none
  | .start, .fail => some (ws.setPc .main .ended, .nothing)
  | .start, .duplicate =>
      some (ws.setPc .main (if ws.fn = .startNewConnection then .oops else .ended), .nothing)
  | .connect, .go => some (ws.setPc .main .ready, .store)
  | .connect, .fail => some (ws.setPc .main .ended, .nothing)
  | .forward, .go => some (ws.setPc .main .ready, .nothing)
  | .forward, .fail => some (fallBack ws, .nothing)
  | .ready, .peer valid => some (ws.setPc .main (if valid then .wakeGet else .waitGet), .nothing)
  | .waitGet, .go => some (ws.setPc .main .wait, .get)
  | .wait, .go => some (ws.setPc .main .check, .nothing)
  | .wait, .timeout => some (ws.setPc .main .waitPut, .nothing)
  | .wait, .signal => some (ws.setPc .main .check, .nothing)
  | .waitPut, .go => some (ws.setPc .main .ended, .put)
  | .wakeGet, .go => some (ws.setPc .main .check, .get)
  | .check, .peer valid => some (stepCheck ws valid, .nothing)
  | .checkPut, .go => some (ws.setPc .main .ended, .put)
  | .getFirst, .go => some (ws.setPc .main .getSecond, .get)
  | .getSecond, .go => some (ws.setPc .main .handOver, .get)
  | .handOver, .go =>
      some ((ws.setPc .main (.duplex true (.alloc 0))).setPc .second (.duplex true (.alloc 0)),
        .nothing)
  | .handOver, .fail =>
      some ((ws.leak .handOver).setPc .main (.duplex true (.alloc 0)), .nothing)
  | .duplex valid pc, .duplex outcome => stepDuplex ws .main valid pc outcome
  | _, _ => none

def stepSecond (ws : Worker) : Pc → Act → Option (Worker × Effect)
  | .duplex valid pc, .duplex outcome => stepDuplex ws .second valid pc outcome
  | _, _ => none

def stepWorker (ws : Worker) : Role → Act → Option (Worker × Effect)
  | .main, act => stepMain ws (ws.pc .main) act
  | .second, act => stepSecond ws (ws.pc .second) act

/-- The counter and the sockets of the QPs.  A QP is known by its address; `freed`
counts the times `put_qp` freed it, and `released` says whether one of these
released the socket. -/
structure Qps where
  refCnt : ℕ → ℤ
  sock : ℕ → Dir → Bool
  freed : ℕ → ℕ
  released : ℕ → Dir → Bool

namespace Qps

variable (qps : Qps) (q : ℕ)

def store (dirs : List Dir) : Qps :=
  { qps with
    sock := Function.update qps.sock q fun dir => qps.sock q dir || decide (dir ∈ dirs) }

def getQp : Qps := { qps with refCnt := Function.update qps.refCnt q (qps.refCnt q + 1) }

/-- The sockets that are there are released and the QP is freed. -/
def free : Qps :=
  { qps with
    freed := Function.update qps.freed q (qps.freed q + 1)
    released := Function.update qps.released q
      fun dir => qps.released q dir || qps.sock q dir }

def putQp : Qps :=
  let qps := { qps with refCnt := Function.update qps.refCnt q (qps.refCnt q - 1) }
  if qps.refCnt q = 0 then qps.free q else qps

def apply (ws : Worker) : Effect → Qps
  | .nothing => qps
  | .store => qps.store ws.qp ws.fn.dirs
  | .get => qps.getQp ws.qp
  | .put => qps.putQp ws.qp

end Qps

/-- The references of a worker after an effect. -/
def Worker.count (ws : Worker) : Effect → Worker
  | .get => { ws with gets := ws.gets + 1 }
  | .put => { ws with puts := ws.puts + 1 }
  | _ => ws

structure State (W : Type*) where
  worker : W → Worker
  qps : Qps

variable {W : Type*} [DecidableEq W]

/-- Any number of workers; `fn` says which function each of them runs. -/
def workers (fn : W → Fn) : Machine (State W) (W × Role × Act) where
  init := {
    worker := fun w => ⟨fn w, fun _ => .idle, 0, 0, 0, []⟩
    qps := ⟨fun _ => 0, fun _ _ => false, fun _ => 0, fun _ _ => false⟩ }
  next := fun s (w, role, act) =>
    (stepWorker (s.worker w) role act).map fun (ws, effect) =>
      { worker := Function.update s.worker w (ws.count effect)
        qps := s.qps.apply ws effect }

end KtcpSplit.Workers
