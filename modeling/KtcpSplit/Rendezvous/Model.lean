import KtcpSplit.Tree.Listner
import KtcpSplit.Tree.RbData
import Mathlib.Logic.Function.Basic

/-!
# The rendezvous of the two sides of a connection

A TX-side worker connects to the destination, an RX-side worker owns the
accepted socket, and the two meet on one QP of a tree.  The machine below takes
`qp_exists` as one step and the rest at the granularity of the statements that
read or write a QP.  Its labels carry what the workers do not decide: the
scheduler, the CPU on which a statement runs, the results of the kernel calls, and
the shape of a rebalanced tree.
-/

namespace KtcpSplit.Rendezvous

open KtcpSplit.ConnKey
open KtcpSplit.Listner
open KtcpSplit.RbData
open KtcpSplit.SearchTree
open KtcpSplit.Transition

/-! ## QPs -/

/-- Index into `qp_dir`. -/
inductive Dir
  | tx
  | rx
  deriving DecidableEq

/-- `dir ^ 1`. -/
def Dir.peer : Dir → Dir
  | .tx => .rx
  | .rx => .tx

/-- What a worker thread runs. -/
inductive Fn
  | startNewConnectionSyn
  | startNewPreConnectionSyn
  | startNewConnection
  deriving DecidableEq

def Fn.dir : Fn → Dir
  | .startNewConnectionSyn => .tx
  | .startNewPreConnectionSyn => .tx
  | .startNewConnection => .rx

/-- A `struct socket *` of `qp_dir`; a socket is known by the worker that
brought it and the function in which it did. -/
inductive SockPtr (W : Type*)
  | null
  | einval
  | sock (worker : W) (fn : Fn)
  deriving DecidableEq

def SockPtr.isErrOrNull {W : Type*} : SockPtr W → Bool
  | .null => true
  | .einval => true
  | .sock _ _ => false

structure Qp (W : Type*) where
  tuple : Tuple
  listner : CbnListner
  refCnt : ℤ
  qpDir : Dir → SockPtr W

def Qp.bothValid {W : Type*} (qp : Qp W) : Bool :=
  !(qp.qpDir .tx).isErrOrNull && !(qp.qpDir .rx).isErrOrNull

/-! ## Workers -/

/-- The argument of a worker thread; the listener is the one that was found
under the mark. -/
structure Worker where
  fn : Fn
  tuple : Tuple
  mark : Mark
  listner : CbnListner
  found : listner.key = mark

structure Config (W : Type*) where
  worker : W → Worker

variable {W : Type*}

namespace Config

variable (cfg : Config W)

def dir (w : W) : Dir := (cfg.worker w).fn.dir

/-- The record that `fn` passes to `qp_exists`. -/
def pqp (w : W) (fn : Fn) : Qp W where
  tuple := (cfg.worker w).tuple
  listner := (cfg.worker w).listner
  refCnt := 0
  qpDir := fun dir =>
    match fn, dir with
    | .startNewConnectionSyn, .tx => .einval
    | .startNewPreConnectionSyn, .tx => .sock w fn
    | .startNewConnection, .rx => .sock w fn
    | _, _ => .null

end Config

/-- `this_cpu_ptr(qp->listner->connections_root)` on the CPU that the statement runs
on. -/
def connectionsRoot (cpu : BitVec 32) (qp : Qp W) : CbnListner × BitVec 32 :=
  (qp.listner, cpu)

/-- The next statement of a worker, with the QP it holds a pointer to. -/
inductive Pc
  | idle
  | enter
  /-- `start_new_connection_syn` called after `forward_conn_info` failed. -/
  | fallback (qp : ℕ)
  /-- From `sock_create_kern` to the store into `qp->tx`. -/
  | connect (qp : ℕ)
  /-- `forward_conn_info`. -/
  | forward (qp : ℕ)
  /-- The first check in `wait_qp_ready`. -/
  | check (qp : ℕ)
  | get (qp : ℕ) (waits : Bool)
  /-- `fin_connected_qp` in the second `get_qp`. -/
  | fin (qp : ℕ) (waits : Bool)
  | wait (qp : ℕ)
  | wake (qp : ℕ)
  /-- `de_tree_qp` in the timeout branch. -/
  | expired (qp : ℕ)
  | expiredPut (qp : ℕ)
  /-- `wait_qp_ready` returned zero. -/
  | ready (qp : ℕ)
  | dropRef (qp : ℕ)
  | duplex (qp : ℕ)
  | done
  /-- A null pointer was dereferenced. -/
  | oops
  deriving DecidableEq

structure Thread where
  fn : Fn
  pc : Pc

/-- A step's choice: `go` and `fail` are the two outcomes of what stands at the
program counter, `insert` and `erase` also say on which CPU the statement runs and
what the trees are after it. -/
inductive Act
  | start
  | poolEmpty
  | insert (cpu : BitVec 32) (root : BinaryTree ℕ)
  | erase (cpu : BitVec 32) (root : CbnListner × BitVec 32 → BinaryTree ℕ)
  | go
  | fail
  | timeout
  | signal
  | leave

namespace Act

/-- The CPU of a step that runs `qp_exists`. -/
def insertCpu : Act → Option (BitVec 32)
  | .insert cpu _ => some cpu
  | _ => none

/-- The CPU of a step that runs `de_tree_qp`. -/
def eraseCpu : Act → Option (BitVec 32)
  | .erase cpu _ => some cpu
  | _ => none

instance decidableSignal : (act : Act) → Decidable (act = .signal)
  | .signal => isTrue rfl
  | .start => isFalse Act.noConfusion
  | .poolEmpty => isFalse Act.noConfusion
  | .insert _ _ => isFalse Act.noConfusion
  | .erase _ _ => isFalse Act.noConfusion
  | .go => isFalse Act.noConfusion
  | .fail => isFalse Act.noConfusion
  | .timeout => isFalse Act.noConfusion
  | .leave => isFalse Act.noConfusion

end Act

/-- QPs are known by their address, and an address is not given out again; a
freed record keeps what it held last.  The fields after `thread` record the
history of a run. -/
structure State (W : Type*) where
  heap : ℕ → Qp W
  next : ℕ
  root : CbnListner × BitVec 32 → BinaryTree ℕ
  thread : W → Thread
  /-- The workers that `qp_exists` let proceed on a direction. -/
  owners : ℕ → Dir → List W
  /-- A reference was taken for the direction and is not dropped. -/
  held : ℕ → Dir → Bool
  /-- Calls of `rb_erase`. -/
  erased : ℕ → ℕ
  /-- Calls of `rb_erase` on a node that is not in the tree. -/
  stray : ℕ → ℕ
  /-- The CPU on which the QP was linked. -/
  cpuOf : ℕ → BitVec 32
  freed : ℕ → ℕ
  /-- `get_qp` took its default branch. -/
  impossible : Bool

/-- Change a table at one QP and direction. -/
def setAt {α : Type*} (table : ℕ → Dir → α) (q : ℕ) (dir : Dir) (value : α) :
    ℕ → Dir → α :=
  fun q' dir' => if q' = q ∧ dir' = dir then value else table q' dir'

theorem setAt_apply {α : Type*} (table : ℕ → Dir → α) (q q' : ℕ) (dir dir' : Dir)
    (value : α) :
    setAt table q dir value q' dir' =
      if q' = q ∧ dir' = dir then value else table q' dir' := rfl

namespace State

variable [DecidableEq W] (s : State W)

def setThread (w : W) (thread : Thread) : State W :=
  { s with thread := Function.update s.thread w thread }

def setQp (q : ℕ) (qp : Qp W) : State W :=
  { s with heap := Function.update s.heap q qp }

def setHeld (q : ℕ) (dir : Dir) (held : Bool) : State W :=
  { s with held := setAt s.held q dir held }

/-- `qp->qp_dir[dir] = sock`. -/
def store (q : ℕ) (dir : Dir) (sock : SockPtr W) : State W :=
  let qp := s.heap q
  s.setQp q { qp with qpDir := Function.update qp.qpDir dir sock }

/-- `qp_exists` on a QP of the tree whose direction is free.  The record `pqp`
is freed before anyone else saw it. -/
def join (w : W) (q : ℕ) (dir : Dir) (pqp : Qp W) : State W :=
  { s.store q dir (pqp.qpDir dir) with
    owners := setAt s.owners q dir (w :: s.owners q dir) }

/-- `qp_exists` with `pqp` inserted at the address `next`; `root` is the tree of the
CPU after the insertion. -/
def link (w : W) (dir : Dir) (pqp : Qp W) (cpu : BitVec 32) (root : BinaryTree ℕ) :
    State W :=
  { s.setQp s.next pqp with
    next := s.next + 1
    root := Function.update s.root (connectionsRoot cpu pqp) root
    owners := setAt s.owners s.next dir (w :: s.owners s.next dir)
    cpuOf := Function.update s.cpuOf s.next cpu }

/-- The increment of `get_qp`; `2` is followed by `fin_connected_qp`. -/
def getQp (q : ℕ) (dir : Dir) : State W :=
  let qp := s.heap q
  let rc := qp.refCnt + 1
  { (s.setQp q { qp with refCnt := rc }).setHeld q dir true with
    impossible := s.impossible || (rc ≠ 1 ∧ rc ≠ 2) }

/-- `put_qp`; the record is freed with the last reference. -/
def putQp (q : ℕ) (dir : Dir) : State W :=
  let qp := s.heap q
  let rc := qp.refCnt - 1
  { (s.setQp q { qp with refCnt := rc }).setHeld q dir false with
    freed := Function.update s.freed q (s.freed q + if rc = 0 then 1 else 0) }

/-- The removal of a node from the tree `i`, which becomes `root`. -/
def unlink (q : ℕ) (i : CbnListner × BitVec 32) (root : BinaryTree ℕ) : State W :=
  { s with
    root := Function.update s.root i root
    erased := Function.update s.erased q (s.erased q + 1) }

/-- The removal of a node that is not in the tree it is removed from: `rb_erase`
follows pointers that are out of date, and any trees are left behind. -/
def unlinkStray (q : ℕ) (root : CbnListner × BitVec 32 → BinaryTree ℕ) : State W :=
  { s with
    root := root
    erased := Function.update s.erased q (s.erased q + 1)
    stray := Function.update s.stray q (s.stray q + 1) }

/-- `de_tree_qp` on the tree of the CPU that the worker runs on. -/
def deTreeQp (q : ℕ) (cpu : BitVec 32) (root : CbnListner × BitVec 32 → BinaryTree ℕ) :
    Option (State W) :=
  let i := connectionsRoot cpu (s.heap q)
  if q ∈ inorder (s.root i) then
    if DeTree q (s.root i) (root i) then some (s.unlink q i (root i)) else none
  else some (s.unlinkStray q root)

end State

/-- The statement after `qp_exists` returned a QP. -/
def Fn.proceed : Fn → ℕ → Pc
  | .startNewConnectionSyn, q => .connect q
  | .startNewPreConnectionSyn, q => .forward q
  | .startNewConnection, q => .check q

/-- What a worker does when `qp_exists` returned `NULL`: the RX side passes it
on to `wait_qp_ready`. -/
def Fn.rejected : Fn → Pc
  | .startNewConnectionSyn => .done
  | .startNewPreConnectionSyn => .done
  | .startNewConnection => .oops

/-- The statement after the body of `get_qp`. -/
def afterGet (q : ℕ) (waits : Bool) : Pc := if waits then .wait q else .wake q

section Step

variable [DecidableEq W] (cfg : Config W)

/-- The search of `add_rb_data` for the record `pqp`, whose address is
`next`. -/
def addPqp (s : State W) (w : W) (fn : Fn) (cpu : BitVec 32) : Insertion ℕ :=
  let pqp := cfg.pqp w fn
  let heap := Function.update s.heap s.next pqp
  addRbData (fun q => (heap q).tuple) (s.root (connectionsRoot cpu pqp)) s.next

def qpExists (s : State W) (w : W) (fn : Fn) (cpu : BitVec 32) (root : BinaryTree ℕ) :
    Option (State W) :=
  let pqp := cfg.pqp w fn
  match addPqp cfg s w fn cpu with
  | .duplicate q =>
      if (s.heap q).qpDir fn.dir ≠ .null then
        some (s.setThread w ⟨fn, fn.rejected⟩)
      else
        some ((s.join w q fn.dir pqp).setThread w ⟨fn, fn.proceed q⟩)
  | .linked linked =>
      if InsertColor linked root then
        some ((s.link w fn.dir pqp cpu root).setThread w ⟨fn, fn.proceed s.next⟩)
      else none

def stepThread (s : State W) (w : W) (fn : Fn) : Pc → Act → Option (State W)
  | .idle, .start => some (s.setThread w ⟨fn, .enter⟩)
  | .enter, .poolEmpty =>
      if fn = .startNewPreConnectionSyn then
        some (s.setThread w ⟨.startNewConnectionSyn, .enter⟩)
      else none
  | .enter, .fail =>
      if fn = .startNewConnection then some (s.setThread w ⟨fn, .done⟩) else none
  | .enter, .insert cpu root => qpExists cfg s w fn cpu root
  | .fallback _, .insert cpu root => qpExists cfg s w fn cpu root
  | .connect q, .go => some ((s.store q .tx (.sock w fn)).setThread w ⟨fn, .check q⟩)
  | .connect _, .fail => some (s.setThread w ⟨fn, .done⟩)
  | .forward q, .go => some (s.setThread w ⟨fn, .check q⟩)
  | .forward q, .fail =>
      some (s.setThread w ⟨.startNewConnectionSyn, .fallback q⟩)
  | .check q, .go =>
      some (s.setThread w
        ⟨fn, .get q ((s.heap q).qpDir fn.dir.peer).isErrOrNull⟩)
  | .get q waits, .go =>
      let s := s.getQp q fn.dir
      some (s.setThread w
        ⟨fn, if (s.heap q).refCnt = 2 then .fin q waits else afterGet q waits⟩)
  | .fin q waits, .erase cpu root =>
      (s.deTreeQp q cpu root).map fun s => s.setThread w ⟨fn, afterGet q waits⟩
  | .wait q, .go =>
      if ((s.heap q).qpDir fn.dir.peer).isErrOrNull then none
      else some (s.setThread w ⟨fn, .ready q⟩)
  | .wait q, .timeout =>
      if ((s.heap q).qpDir fn.dir.peer).isErrOrNull then
        some (s.setThread w ⟨fn, .expired q⟩)
      else none
  | .wait q, .signal =>
      if ((s.heap q).qpDir fn.dir.peer).isErrOrNull then
        some (s.setThread w ⟨fn, .ready q⟩)
      else none
  | .wake q, .go => some (s.setThread w ⟨fn, .ready q⟩)
  | .expired q, .erase cpu root =>
      (s.deTreeQp q cpu root).map fun s => s.setThread w ⟨fn, .expiredPut q⟩
  | .expiredPut q, .go => some ((s.putQp q fn.dir).setThread w ⟨fn, .done⟩)
  | .ready q, .go =>
      match fn with
      | .startNewConnectionSyn =>
          some (s.setThread w
            ⟨fn, if (s.heap q).bothValid then .duplex q else .dropRef q⟩)
      | .startNewPreConnectionSyn => some (s.setThread w ⟨fn, .duplex q⟩)
      | .startNewConnection =>
          some (s.setThread w
            ⟨fn, if (s.heap q).bothValid then .duplex q else .done⟩)
  | .dropRef q, .go => some ((s.putQp q fn.dir).setThread w ⟨fn, .done⟩)
  | .duplex q, .leave => some ((s.putQp q fn.dir).setThread w ⟨fn, .done⟩)
  | .duplex _, .fail => some (s.setThread w ⟨fn, .done⟩)
  | _, _ => none

/-- All workers of the configuration, none of them started. -/
def rendezvous : Machine (State W) (W × Act) where
  init := {
    heap := fun _ =>
      ⟨⟨⟨0, 0⟩, ⟨0, 0⟩, ⟨0, 0, 0, 0⟩, ⟨0, 0, 0, 0⟩⟩, ⟨0, 0⟩, 0, fun _ => .null⟩
    next := 0
    root := fun _ => .nil
    thread := fun w => ⟨(cfg.worker w).fn, .idle⟩
    owners := fun _ _ => []
    held := fun _ _ => false
    erased := fun _ => 0
    stray := fun _ => 0
    cpuOf := fun _ => 0
    freed := fun _ => 0
    impossible := false }
  next := fun s label =>
    stepThread cfg s label.1 (s.thread label.1).fn (s.thread label.1).pc label.2

end Step

/-! ## One connection -/

/-- 10.0.0.1:12345 to 10.0.0.2:80. -/
def clientTuple : Tuple := ⟨⟨48, 57⟩, ⟨0, 80⟩, ⟨10, 0, 0, 1⟩, ⟨10, 0, 0, 2⟩⟩

/-- A worker for this connection of tenant 7. -/
def clientWorker (fn : Fn) : Worker := ⟨fn, clientTuple, 7, ⟨0, 7⟩, rfl⟩

/-- One TX-side and one RX-side worker. -/
def pairConfig (txFn : Fn) : Config Dir where
  worker := fun
    | .tx => clientWorker txFn
    | .rx => clientWorker .startNewConnection

/-- The tree that holds one QP. -/
def oneQp (q : ℕ) : BinaryTree ℕ := .node q .nil .nil

end KtcpSplit.Rendezvous
