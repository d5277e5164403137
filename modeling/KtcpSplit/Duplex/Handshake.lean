import KtcpSplit.Core.ConnKey
import KtcpSplit.Duplex.HalfDuplex

/-!
# The hand-over of a connection to the next hop

`forward_conn_info` sends a `struct addresses` on a connected socket, and the
payload of the client follows on the same stream.  At the other end
`start_new_pending_connection` receives the structure into its stack frame, opens
the connection that it names and forwards the rest.
-/

namespace KtcpSplit.Handshake

open KtcpSplit.ConnKey
open KtcpSplit.HalfDuplex (Frame Outcome halfDuplex)
open KtcpSplit.PageVec
open KtcpSplit.Transition

/-! ## The record -/

/-- The bytes of a `struct sockaddr_in`; the family is in the order of the machine. -/
structure SockaddrIn where
  sinFamily : Be16
  sinPort : Be16
  sinAddr : Be32
  pad : Be32 × Be32
  deriving DecidableEq

structure Addresses where
  dest : SockaddrIn
  src : SockaddrIn
  sinAddr : Be32
  mark : Be32
  deriving DecidableEq

def SockaddrIn.bytes (addr : SockaddrIn) : List Byte :=
  addr.sinFamily.bytes ++ addr.sinPort.bytes ++ addr.sinAddr.bytes ++ addr.pad.1.bytes ++
    addr.pad.2.bytes

def Addresses.bytes (addresses : Addresses) : List Byte :=
  addresses.dest.bytes ++ addresses.src.bytes ++ addresses.sinAddr.bytes ++
    addresses.mark.bytes

/-- `sizeof(struct addresses)`. -/
def addressesSize : ℕ := 40

def be16At (bytes : List Byte) (i : ℕ) : Be16 := ⟨bytes.getD i 0, bytes.getD (i + 1) 0⟩

def be32At (bytes : List Byte) (i : ℕ) : Be32 :=
  ⟨bytes.getD i 0, bytes.getD (i + 1) 0, bytes.getD (i + 2) 0, bytes.getD (i + 3) 0⟩

def sockaddrAt (bytes : List Byte) (i : ℕ) : SockaddrIn :=
  ⟨be16At bytes i, be16At bytes (i + 2), be32At bytes (i + 4),
    be32At bytes (i + 8), be32At bytes (i + 12)⟩

/-- The structure at the start of some memory. -/
def Addresses.ofBytes (bytes : List Byte) : Addresses :=
  ⟨sockaddrAt bytes 0, sockaddrAt bytes 16, be32At bytes 32, be32At bytes 36⟩

/-- Receive into a structure; what is not received keeps its value. -/
def Addresses.receive (memory : Addresses) (bytes : List Byte) : Addresses :=
  .ofBytes (bytes ++ memory.bytes.drop bytes.length)

/-- `AF_INET` on a little-endian machine. -/
def afInet : Be16 := ⟨2, 0⟩

def SockaddrIn.forBind (addr : SockaddrIn) : SockaddrIn :=
  { addr with sinFamily := afInet, sinPort := ⟨0, 0⟩ }

def SockaddrIn.forConnect (addr : SockaddrIn) : SockaddrIn :=
  { addr with sinFamily := afInet }

/-! ## The two ends -/

inductive SenderPc
  | forwardConnInfo
  /-- The payload follows. -/
  | halfDuplex
  /-- The connection is opened without the next hop. -/
  | fallBack
  deriving DecidableEq

/-- The next call of `start_new_pending_connection`. -/
inductive PendingPc
  | sockCreate
  | waitForNextHop
  | setNodelay
  | setMark
  | setTransparent
  | bind
  | connect
  | halfDuplex
  | createFail
  deriving DecidableEq

/-- What the new socket was told. -/
structure Tx where
  mark : Option Be32
  bound : Option SockaddrIn
  connected : Option SockaddrIn
  deriving DecidableEq

/-- The record that is sent, and what the stack frame and the pages of the two
calls of `half_duplex` hold before. -/
structure Config where
  record : Addresses
  ipTransparent : Bool
  memory : Addresses
  clientMemory : Pages Byte
  serverMemory : Pages Byte

/-- `client` is the call of `half_duplex` that forwards the payload into the
stream, and `server` the one that forwards it from there. -/
structure State where
  sender : SenderPc
  client : Frame Byte
  stream : List Byte
  pending : PendingPc
  addresses : Addresses
  tx : Tx
  server : Frame Byte

inductive Act
  /-- `kernel_sendmsg` accepts a leading part of the record. -/
  | forward (accepted : ℕ)
  | forwardFailed (rc : ℤ)
  | client (outcome : Outcome Byte)
  /-- A call of `start_new_pending_connection` other than `kernel_recvmsg`. -/
  | setUp (succeeds : Bool)
  /-- `kernel_recvmsg` with `MSG_WAITALL` returns so many bytes. -/
  | nextHop (count : ℕ)
  | nextHopFailed (rc : ℤ)
  | server (outcome : Outcome Byte)

/-- The calls between the arrival of the record and the connection. -/
def stepSetUp (cfg : Config) (s : State) : PendingPc → Bool → Option State
  | .sockCreate, true => some { s with pending := .waitForNextHop }
  | .setNodelay, true => some { s with pending := .setMark }
  | .setMark, true =>
      some { s with
        tx := { s.tx with mark := some s.addresses.mark }
        pending := if cfg.ipTransparent then .setTransparent else .connect }
  | .setTransparent, true => some { s with pending := .bind }
  | .bind, true =>
      some { s with
        addresses := { s.addresses with src := s.addresses.src.forBind }
        tx := { s.tx with bound := some s.addresses.src.forBind }
        pending := .connect }
  | .connect, true =>
      some { s with
        addresses := { s.addresses with dest := s.addresses.dest.forConnect }
        tx := { s.tx with connected := some s.addresses.dest.forConnect }
        pending := .halfDuplex }
  | .waitForNextHop, _ => none
  | .halfDuplex, _ => none
  | .createFail, _ => none
  | _, false => some { s with pending := .createFail }

/-- Both ends receive only what stands at the front of their stream; the stream of
the client is the environment's. -/
def step (cfg : Config) (s : State) : Act → Option State
  | .forward accepted =>
      if s.sender = .forwardConnInfo ∧ 0 < accepted ∧ accepted ≤ addressesSize then
        some { s with
          sender := .halfDuplex
          stream := s.stream ++ cfg.record.bytes.take accepted }
      else none
  | .forwardFailed rc =>
      if s.sender = .forwardConnInfo ∧ rc ≤ 0 then some { s with sender := .fallBack }
      else none
  | .client outcome =>
      if s.sender = .halfDuplex then
        ((halfDuplex cfg.clientMemory).next s.client outcome).map fun client =>
          { s with
            client := client
            stream := s.stream ++
              (client.accepted.drop s.client.accepted.length).map Prod.fst }
      else none
  | .setUp succeeds => stepSetUp cfg s s.pending succeeds
  | .nextHop count =>
      if s.pending = .waitForNextHop ∧ 0 < count ∧ count ≤ addressesSize ∧
          count ≤ s.stream.length then
        some { s with
          pending := .setNodelay
          addresses := s.addresses.receive (s.stream.take count)
          stream := s.stream.drop count }
      else none
  | .nextHopFailed rc =>
      if s.pending = .waitForNextHop ∧ rc ≤ 0 then some { s with pending := .createFail }
      else none
  | .server outcome =>
      if s.pending = .halfDuplex ∧ outcome.bytes.isPrefixOf s.stream then
        ((halfDuplex cfg.serverMemory).next s.server outcome).map fun server =>
          { s with
            server := server
            stream := s.stream.drop outcome.bytes.length }
      else none

def handshake (cfg : Config) : Machine State Act where
  init := {
    sender := .forwardConnInfo
    client := (halfDuplex cfg.clientMemory).init
    stream := []
    pending := .sockCreate
    addresses := cfg.memory
    tx := ⟨none, none, none⟩
    server := (halfDuplex cfg.serverMemory).init }
  next := step cfg

end KtcpSplit.Handshake
