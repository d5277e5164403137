import KtcpSplit.Lib.Transition
import KtcpSplit.Tree.Listner
import Mathlib.Logic.Function.Basic

/-!
# The listeners of the split servers

An `add_server_cb` command starts a thread that registers a listener, sets it up
and accepts connections.  A listener is removed by its thread when the set-up
fails, by a `del_server_cb` command that finds it in the tree, or when the module
stops.  The tree has no lock, and its operations are steps of their own.
-/

namespace KtcpSplit.Server

open KtcpSplit.Listner
open KtcpSplit.SearchTree
open KtcpSplit.Transition

/-- The next statement of `split_server`. -/
inductive SplitPc
  | search
  /-- The allocations of `register_server_sock`. -/
  | alloc
  /-- `add_rb_listner` of the listener at an address. -/
  | add (l : ℕ)
  /-- `register_server_sock` has returned. -/
  | registered
  | sockCreate
  | setMark
  | bind
  | listen
  /-- `craete_prec_conn_probe`. -/
  | createProbe
  | accept
  /-- `kthread_should_stop`. -/
  | test
  /-- The label `error`, up to `rb_erase`. -/
  | error
  | erase
  | free
  /-- The label `out`. -/
  | out
  | over
  deriving DecidableEq

/-- The next statement of a party that removes listeners from the tree. -/
inductive RemovePc
  | start
  /-- `remove_listner_server` of the listener at an address. -/
  | shutdown (l : ℕ)
  | erase (l : ℕ)
  | free (l : ℕ)
  | over
  deriving DecidableEq

inductive Remover
  | delServerCb (mark : Mark)
  | stopSockets

/-- Any number of commands. -/
structure Config (W D : Type*) where
  mark : W → Mark
  remover : D → Remover

/-- A `struct socket *`; every thread creates at most one socket of each kind. -/
inductive SockPtr (W : Type*)
  /-- What the slab left in the field. -/
  | garbage
  | null
  | sock (w : W)
  deriving DecidableEq

/-- The fields of a `struct cbn_listner` outside the tree. -/
structure Fields (W : Type*) where
  status : ℕ
  sock : SockPtr W
  raw : SockPtr W

/-- The listening socket of a thread. -/
inductive Sock
  | absent
  | listening
  | shut
  | released
  deriving DecidableEq

/-- Every allocation gets an address of its own.  The fields after `remover` record
the history: how often a listener was passed to `rb_erase` and to
`kmem_cache_free`, whether it was not linked then, and whether its thread accessed
it after it was passed to `rb_erase`. -/
structure State (W D : Type*) where
  root : BinaryTree CbnListner
  next : ℕ
  fields : ℕ → Fields W
  pc : W → SplitPc
  server : W → Option ℕ
  sock : W → Sock
  remover : D → RemovePc
  erased : ℕ → ℕ
  freed : ℕ → ℕ
  stray : ℕ → Bool
  late : ℕ → Bool

inductive Act
  | ok
  /-- The call fails; `kthread_should_stop` returns true. -/
  | fail
  /-- The status that the slab left in a new listener. -/
  | slab (status : ℕ)
  /-- The tree after rebalancing. -/
  | tree (root : BinaryTree CbnListner)
  /-- The next listener of the traversal. -/
  | pick (l : ℕ)

inductive Label (W D : Type*)
  | split (w : W) (act : Act)
  | remove (d : D) (act : Act)

variable {W D : Type*}

namespace State

variable (s : State W D)

def Linked (l : ℕ) : Prop := ∃ data ∈ inorder s.root, data.id = l

instance decidableLinked (l : ℕ) : Decidable (s.Linked l) :=
  inferInstanceAs (Decidable (∃ data ∈ inorder s.root, data.id = l))

def setPc [DecidableEq W] (w : W) (pc : SplitPc) : State W D :=
  { s with pc := Function.update s.pc w pc }

def setRemover [DecidableEq D] (d : D) (pc : RemovePc) : State W D :=
  { s with remover := Function.update s.remover d pc }

def setSock [DecidableEq W] (w : W) (sock : Sock) : State W D :=
  { s with sock := Function.update s.sock w sock }

/-- The thread of a listener accesses it. -/
def access (l : ℕ) (fields : Fields W) : State W D :=
  { s with
    fields := Function.update s.fields l fields
    late := Function.update s.late l (s.late l || decide (0 < s.erased l)) }

/-- `kernel_sock_shutdown(pos->sock)`, if there is a socket. -/
def shutdown [DecidableEq W] (l : ℕ) : State W D :=
  match (s.fields l).sock with
  | .sock w => if s.sock w = .listening then s.setSock w .shut else s
  | _ => s

/-- The removal of a listener from the tree, which becomes `root`. -/
def unlink (l : ℕ) (root : BinaryTree CbnListner) : State W D :=
  { s with
    root := root
    erased := Function.update s.erased l (s.erased l + 1) }

/-- The removal of a listener that is not in the tree: `rb_erase` follows pointers that
are out of date, and any tree is left behind. -/
def unlinkStray (l : ℕ) (root : BinaryTree CbnListner) : State W D :=
  { s with
    root := root
    erased := Function.update s.erased l (s.erased l + 1)
    stray := Function.update s.stray l true }

def rbErase (l : ℕ) (root : BinaryTree CbnListner) : Option (State W D) :=
  if s.Linked l then
    if inorder root = (inorder s.root).filter (·.id ≠ l) then some (s.unlink l root) else none
  else some (s.unlinkStray l root)

def kmemCacheFree (l : ℕ) : State W D :=
  { s with freed := Function.update s.freed l (s.freed l + 1) }

end State

variable [DecidableEq W]

/-- `split_server` with its listener. -/
def stepServer (s : State W D) (w : W) (l : ℕ) : SplitPc → Act → Option (State W D)
  | .registered, .ok =>
      some ((s.access l { s.fields l with status := 1 }).setPc w .sockCreate)
  | .sockCreate, .ok =>
      some (((s.access l { s.fields l with sock := .sock w, status := 2 }).setSock w
        .listening).setPc w .setMark)
  | .sockCreate, .fail => some (s.setPc w .error)
  | .setMark, .ok => some ((s.access l { s.fields l with status := 3 }).setPc w .bind)
  | .setMark, .fail => some (s.setPc w .error)
  | .bind, .ok => some ((s.access l { s.fields l with status := 4 }).setPc w .listen)
  | .bind, .fail => some (s.setPc w .error)
  | .listen, .ok => some ((s.access l { s.fields l with status := 5 }).setPc w .createProbe)
  | .listen, .fail => some (s.setPc w .error)
  | .createProbe, .ok =>
      some ((s.access l { s.fields l with raw := .sock w, status := 6 }).setPc w .accept)
  | .createProbe, .fail =>
      some ((s.access l { s.fields l with raw := .null }).setPc w .error)
  | .accept, .ok => if s.sock w = .listening then some (s.setPc w .test) else none
  | .accept, .fail => some (s.setPc w .out)
  | .test, .ok => some (s.setPc w .accept)
  | .test, .fail => some ((s.access l { s.fields l with status := 6 }).setPc w .error)
  | .error, .ok => some (((s.access l (s.fields l)).shutdown l).setPc w .erase)
  | .erase, .tree root => (s.rbErase l root).map fun s => s.setPc w .free
  | .free, .ok => some ((s.kmemCacheFree l).setPc w .out)
  | _, _ => none

/-- What the slab's memory holds, with the fields that `register_server_sock` sets. -/
def newFields (status : ℕ) : Fields W := ⟨status, .null, .garbage⟩

def stepSplit (cfg : Config W D) (s : State W D) (w : W) :
    SplitPc → Act → Option (State W D)
  | .search, .ok =>
      match searchRbListner s.root (cfg.mark w) with
      | some _ => some (s.setPc w .error)
      | none => some (s.setPc w .alloc)
  | .alloc, .slab status =>
      some { s.setPc w (.add s.next) with
        next := s.next + 1
        fields := Function.update s.fields s.next (newFields status) }
  | .alloc, .fail => some (s.setPc w .error)
  | .add l, .tree root =>
      let s' := { s.setPc w .registered with server := Function.update s.server w (some l) }
      match addRbListner s.root ⟨l, cfg.mark w⟩ with
      -- the listener is returned all the same
      | .duplicate _ => some s'
      | .linked linked =>
          if inorder root = inorder linked then some { s' with root := root } else none
  | .out, .ok =>
      some ((if s.sock w = .absent then s else s.setSock w .released).setPc w .over)
  | pc, act =>
      match s.server w with
      | some l => stepServer s w l pc act
      | none => if pc = .error then some (s.setPc w .out) else none

variable [DecidableEq D]

def stepRemove (cfg : Config W D) (s : State W D) (d : D) :
    RemovePc → Act → Option (State W D)
  | .start, .ok =>
      match cfg.remover d with
      | .delServerCb mark =>
          match searchRbListner s.root mark with
          | some data => some (s.setRemover d (.shutdown data.id))
          | none => some (s.setRemover d .over)
      | .stopSockets => some (s.setRemover d .over)
  | .start, .pick l =>
      match cfg.remover d with
      | .delServerCb _ => none
      | .stopSockets => if s.Linked l then some (s.setRemover d (.shutdown l)) else none
  | .shutdown l, .ok => some ((s.shutdown l).setRemover d (.erase l))
  | .erase l, .tree root => (s.rbErase l root).map fun s => s.setRemover d (.free l)
  | .free l, .ok =>
      some ((s.kmemCacheFree l).setRemover d
        (match cfg.remover d with
        | .delServerCb _ => .over
        | .stopSockets => .start))
  | _, _ => none

def servers (cfg : Config W D) : Machine (State W D) (Label W D) where
  init := {
    root := .nil
    next := 0
    fields := fun _ => newFields 0
    pc := fun _ => .search
    server := fun _ => none
    sock := fun _ => .absent
    remover := fun _ => .start
    erased := fun _ => 0
    freed := fun _ => 0
    stray := fun _ => false
    late := fun _ => false }
  next := fun s label =>
    match label with
    | .split w act => stepSplit cfg s w (s.pc w) act
    | .remove d act => stepRemove cfg s d (s.remover d) act

end KtcpSplit.Server
