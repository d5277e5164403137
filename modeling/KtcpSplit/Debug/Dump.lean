import KtcpSplit.Core.ConnKey
import KtcpSplit.Lib.Format
import KtcpSplit.Tree.Listner

/-!
# The dump of the connections

`dump_connections` prints a banner, a heading for each listener and a line for each
pending QP.  It passes the position of the next line down as an `int`, and what comes
back up is a position again, which every level adds to its own.
-/

namespace KtcpSplit.Dump

open KtcpSplit.ConnKey
open KtcpSplit.Format
open KtcpSplit.Listner
open KtcpSplit.SearchTree

abbrev Addr := BitVec 64

/-- A number of a CPU as an `int`. -/
abbrev Cpu := BitVec 32

/-- What `dump_qp2user` reads of a `struct cbn_qp`; `ptr` is what `%p` shows of its address,
`tx` and `rx` say whether the pointers of `qp_dir` are not null. -/
structure CbnQp where
  ptr : Addr
  tuple : Tuple
  refCnt : BitVec 32
  tx : Bool
  rx : Bool
  deriving DecidableEq

def strlen : ℕ := 256

/-- `TCP4`. -/
def tcp4 (addr : Be32) (port : Be16) : List Char :=
  unsigned addr.b0 ++ '.' :: unsigned addr.b1 ++ '.' :: unsigned addr.b2 ++
    '.' :: unsigned addr.b3 ++ ':' :: unsigned (ntohs port)

def dumpQp2user (cpu : Cpu) (qp : CbnQp) : List Char :=
  scnprintf strlen ("[cpu = ".toList ++ signed cpu.toInt ++ ", rc  = ".toList ++
    unsigned qp.refCnt.toNat ++ "]:QP [".toList ++ (if qp.tx then "TX" else "").toList ++
    ':' :: (if qp.rx then "RX" else "").toList ++ "] ".toList ++ pointer qp.ptr ++
    ": ".toList ++ tcp4 qp.tuple.addrS qp.tuple.portS ++ " => ".toList ++
    tcp4 qp.tuple.addrD qp.tuple.portD ++ ['\n'])

def banner : List Char :=
  scnprintf strlen "<<<<<<<<<<<<<<<<<<<<<<<<<<>>>>>>>>>>>>>>>>>>>>>>>>>>>>>>\n".toList

def heading (listner : CbnListner) : List Char :=
  scnprintf strlen ("Tennat ".toList ++ signed listner.key.toInt ++
    ":\n--------------------------------------\n".toList)

/-- What is printed. -/
inductive Line
  | banner
  | heading (listner : CbnListner)
  | qp (cpu : Cpu) (qp : CbnQp)
  deriving DecidableEq

def Line.str : Line → List Char
  | .banner => Dump.banner
  | .heading listner => Dump.heading listner
  | .qp cpu this => dumpQp2user cpu this

theorem length_str_le (line : Line) : line.str.length ≤ 255 := by
  cases line <;> exact length_scnprintf_le ..

inductive Event
  | copyToUser (addr : Addr) (str : List Char)
  | trace (str : List Char)
  deriving DecidableEq

/-- The bytes of each line that `copy_to_user` could not write. -/
structure UserMemory where
  notCopied : Line → ℕ
  notCopied_le : ∀ line, notCopied line ≤ line.str.length

/-- Every copy succeeds. -/
def UserMemory.writable : UserMemory := ⟨fun _ => 0, fun _ => Nat.zero_le _⟩

/-- The listeners, the CPUs and the pending QPs. -/
structure Connections where
  listnerRoot : BinaryTree CbnListner
  onlineCpus : List Cpu
  connectionsRoot : CbnListner → Cpu → BinaryTree CbnQp

variable (user : UserMemory) (buff : Addr)

/-- `buff + loc`, with `loc` an `int`. -/
def at_ (loc : BitVec 32) : Addr := buff + loc.signExtend 64

def printout (addr : Addr) (line : Line) : Event × BitVec 32 :=
  if addr ≠ 0 then
    (.copyToUser addr line.str, BitVec.ofNat 32 (user.notCopied line))
  else (.trace line.str, 0)

/-- The loop over the QPs of one CPU. -/
def dumpPendingConnections (cpu : Cpu) : BitVec 32 → List CbnQp → List Event × BitVec 32
  | loc, [] => ([], loc)
  | loc, this :: rest =>
      let add := BitVec.ofNat 32 (dumpQp2user cpu this).length
      let (event, rc) := printout user (at_ buff loc) (.qp cpu this)
      if rc ≠ 0 then ([event], rc)
      else
        let (events, rc) := dumpPendingConnections cpu (loc + add) rest
        (event :: events, rc)

/-- The loop over the CPUs; `pending` are the QPs of a CPU in tree order. -/
def dumpConnectionsPerTennat (pending : Cpu → List CbnQp) :
    BitVec 32 → List Cpu → List Event × BitVec 32
  | loc, [] => ([], loc)
  | loc, cpu :: cpus =>
      let (events, rc) := dumpPendingConnections user buff cpu loc (pending cpu)
      if rc.toInt < 0 then (events, rc)
      else
        let (events', rc) := dumpConnectionsPerTennat pending (loc + rc) cpus
        (events ++ events', rc)

/-- The loop over the listeners. -/
def dumpListners (conns : Connections) : BitVec 32 → List CbnListner → List Event × BitVec 32
  | width, [] => ([], width)
  | width, listner :: rest =>
      let add := BitVec.ofNat 32 (heading listner).length
      let (event, rc) := printout user (at_ buff width) (.heading listner)
      if rc ≠ 0 then ([event], rc)
      else
        let width := width + add
        let (events, rc) := dumpConnectionsPerTennat user buff
          (fun cpu => inorder (conns.connectionsRoot listner cpu)) width conns.onlineCpus
        if rc.toInt < 0 then (event :: events, rc)
        else
          let (events', rc) := dumpListners conns (width + rc) rest
          (event :: events ++ events', rc)

/-- The argument `len` is passed down to the other functions, and none of them reads it. -/
def dumpConnections (conns : Connections) (_len : ℕ) : List Event × BitVec 32 :=
  let (event, rc) := printout user (at_ buff 0) .banner
  if rc ≠ 0 then ([event], rc)
  else
    let (events, rc) := dumpListners user buff conns (BitVec.ofNat 32 banner.length)
      (inorder conns.listnerRoot)
    (event :: events, rc)

end KtcpSplit.Dump
