import KtcpSplit.Core.ConnKey
import KtcpSplit.Tree.Listner

/-!
# Address records and the CPU of a connection

`struct addresses` is what a hook hands to a TX-side worker.  Both sides of a
connection pick the CPU of its tree by a XOR over the key bytes, taken as
signed characters, reduced by the number of online CPUs.
-/

namespace KtcpSplit.QpCpu

open KtcpSplit.ConnKey
open KtcpSplit.Listner

/-- The two fields of `struct sockaddr_in` that the hooks fill. -/
structure SockaddrIn where
  sinPort : Be16
  sinAddr : Be32
  deriving DecidableEq

/-- `struct addresses`; `sinAddr` is the next hop. -/
structure Addresses where
  dest : SockaddrIn
  src : SockaddrIn
  sinAddr : Be32
  mark : Mark
  deriving DecidableEq

/-- `core ^= qp->key[i]`, where `char` is signed. -/
def xorChar (core : BitVec 32) (char : Byte) : BitVec 32 :=
  core ^^^ (BitVec.ofFin (w := 8) char).signExtend 32

def qp2cpu (numOnlineCpus : BitVec 32) (qp : Tuple) : BitVec 32 :=
  let core := qp.key.foldl xorChar 0
  let i := core / numOnlineCpus * numOnlineCpus
  core - i

/-- The key that `addresses2cpu` and `start_new_connection_syn` fill from an
address record. -/
def Addresses.tuple (addr : Addresses) : Tuple where
  addrD := addr.dest.sinAddr
  portS := addr.src.sinPort
  portD := addr.dest.sinPort
  addrS := addr.src.sinAddr

def addresses2cpu (numOnlineCpus : BitVec 32) (addr : Addresses) : BitVec 32 :=
  qp2cpu numOnlineCpus addr.tuple

/-- The key that `start_new_connection` fills from `SO_ORIGINAL_DST` and
`getpeername` of the accepted socket. -/
def acceptedTuple (addr cliAddr : SockaddrIn) : Tuple where
  addrD := addr.sinAddr
  portS := cliAddr.sinPort
  portD := addr.sinPort
  addrS := cliAddr.sinAddr

end KtcpSplit.QpCpu
