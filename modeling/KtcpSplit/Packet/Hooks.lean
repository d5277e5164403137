import KtcpSplit.Packet.SkBuff
import Mathlib.Logic.Function.Basic

/-!
# The netfilter hooks

The ingress hook copies the headers of a SYN into a probe, `start_probe_syn`
turns the copy into a packet of its own, and the egress hook recognises that
packet and rebuilds the addresses of the connection from it.  On a tunnel
device the record travels on as a pointer at the tail of the packet.
-/

namespace KtcpSplit.Packet

open KtcpSplit.ConnKey
open KtcpSplit.Listner
open KtcpSplit.QpCpu

def cbpProbePort : ℕ := 4

def cbnProbePort : ℕ := 4

def cbnTunnelPrefix : String := "gue"

def isOutGue (skb : SkBuff) : Bool :=
  cbnTunnelPrefix.toList.isPrefixOf skb.devName.toList

/-- The stores of `build_addresses` into the record `old` that the slab
returned; `sin_addr` is not written. -/
def buildAddresses (skb : SkBuff) (old : Addresses) : Addresses where
  dest := ⟨skb.tcphdrDest skb.transportHeader, skb.iphdrDaddr skb.networkHeader⟩
  src := ⟨skb.tcphdrSource skb.transportHeader, skb.iphdrSaddr skb.networkHeader⟩
  sinAddr := old.sinAddr
  mark := skb.mark

/-- The record of a probe: the window field carries the port of the client. -/
def probeRecord (skb : SkBuff) (old : Addresses) : Addresses :=
  let built := buildAddresses skb old
  { built with
    src := { built.src with sinPort := skb.tcphdrWindow skb.transportHeader } }

def isCbnProbe (skb : SkBuff) : Bool :=
  if skb.innerProtocol = ipprotoIpip then
    if skb.iphdrProtocol skb.innerNetworkHeader = ipprotoTcp then
      ntohs (skb.tcphdrSource skb.innerTransportHeader) = cbpProbePort
    else false
  else false

def getCbnProbe (skb : SkBuff) : Ptr :=
  skb.ptr (skb.innerTransportHeader + sizeofTcphdr)

def setCbnProbe (skb : SkBuff) (addresses : Ptr) : SkBuff :=
  skb.put addresses.bytes

def Ptr.null : Ptr := ⟨List.replicate 8 0, rfl⟩

inductive Verdict
  | nfAccept
  | nfDrop
  deriving DecidableEq

/-- What a hook hands to the thread pool. -/
inductive Work
  | startNewConnectionSyn (addresses : Ptr) (cpu : BitVec 32)
  | startNewPreConnectionSyn (addresses : Ptr) (cpu : BitVec 32)
  deriving DecidableEq

structure EgressOutcome where
  verdict : Verdict
  skb : SkBuff
  synSlab : Ptr → Addresses
  work : Option Work

/-- `cbn_egress_hook`; `alloc` is the result of `kmem_cache_alloc` on the slab
whose records `synSlab` holds. -/
def cbnEgressHook (numOnlineCpus : BitVec 32) (alloc : Option Ptr)
    (synSlab : Ptr → Addresses) (skb : SkBuff) : EgressOutcome :=
  let iph := skb.networkHeader
  if skb.mark = 0 then ⟨.nfAccept, skb, synSlab, none⟩
  else if skb.iphdrProtocol iph = ipprotoTcp then
    if ntohs (skb.tcphdrSource skb.transportHeader) = cbpProbePort then
      match alloc with
      | none => ⟨.nfDrop, skb, synSlab, none⟩
      | some addresses =>
          let record := probeRecord skb (synSlab addresses)
          let synSlab := Function.update synSlab addresses record
          if isOutGue skb then
            ⟨.nfAccept, setCbnProbe skb addresses, synSlab, none⟩
          else
            ⟨.nfDrop, skb, synSlab, some (.startNewConnectionSyn addresses
              (addresses2cpu numOnlineCpus record))⟩
    else ⟨.nfAccept, skb, synSlab, none⟩
  else if skb.iphdrProtocol iph = ipprotoUdp ∧ isCbnProbe skb then
    let addresses := getCbnProbe skb
    if addresses = .null then ⟨.nfDrop, skb, synSlab, none⟩
    else
      let record := { synSlab addresses with sinAddr := skb.iphdrDaddr iph }
      ⟨.nfDrop, skb, Function.update synSlab addresses record,
        some (.startNewPreConnectionSyn addresses
          (addresses2cpu numOnlineCpus (synSlab addresses)))⟩
  else ⟨.nfAccept, skb, synSlab, none⟩

/-! ## The probe -/

/-- `struct probe`: the two headers as fixed-size copies. -/
structure Probe where
  iphdr : List Byte
  tcphdr : List Byte
  listner : CbnListner
  length_iphdr : iphdr.length = sizeofIphdr
  length_tcphdr : tcphdr.length = sizeofTcphdr

/-- The copies of both headers, and the listener that was found. -/
def SkBuff.probe (skb : SkBuff) (listner : CbnListner) : Probe where
  iphdr := skb.copy skb.networkHeader sizeofIphdr
  tcphdr := skb.copy skb.transportHeader sizeofTcphdr
  listner := listner
  length_iphdr := by simp
  length_tcphdr := by simp

def traceIph (skb : SkBuff) : Bool :=
  skb.iphdrProtocol skb.networkHeader = ipprotoTcp ∧
    skb.tcphdrSyn skb.transportHeader ∧ ¬ skb.tcphdrAck skb.transportHeader ∧
    skb.mark ≠ 0

/-- `cbn_ingress_hook`, which always accepts the packet; the result is the
probe given to `start_probe_syn`, if any. -/
def cbnIngressHook (priv : String) (listnerRoot : BinaryTree CbnListner)
    (alloc : Bool) (skb : SkBuff) : Option Probe :=
  if priv ≠ "RX" then none
  else if skb.mark = 0 then none
  else
    match searchRbListner listnerRoot skb.mark with
    | none => none
    | some listner =>
        if traceIph skb then
          if alloc then some (skb.probe listner) else none
        else none

/-- The two stores of `start_probe_syn` into the copied TCP header. -/
def smuggleSource (tcphdr : List Byte) : List Byte :=
  let source : Be16 := ⟨tcphdr.getD 0 0, tcphdr.getD 1 0⟩
  let probePort := htons cbnProbePort
  (((tcphdr.set 14 source.b0).set 15 source.b1).set 0 probePort.b0).set 1
    probePort.b1

/-- A message sent on the raw socket of a listener, whose `SO_MARK` is the
listener's key. -/
structure RawMessage where
  data : List Byte
  msgName : Be32
  mark : Mark

def startProbeSyn (probe : Probe) : RawMessage where
  data := probe.iphdr ++ smuggleSource probe.tcphdr
  msgName := ⟨probe.iphdr.getD 16 0, probe.iphdr.getD 17 0,
    probe.iphdr.getD 18 0, probe.iphdr.getD 19 0⟩
  mark := probe.listner.key

/-- Offsets of `tot_len`, `id` and `check`, which the raw socket fills in. -/
def rawFilled : List ℕ := [2, 3, 4, 5, 10, 11]

/-- The packet that an `IP_HDRINCL` raw socket makes of a message: the headers
are the sender's, and the transport header is placed by the `ihl` field. -/
structure RawSent (message : RawMessage) (skb : SkBuff) : Prop where
  networkHeader : skb.networkHeader = 0
  transportHeader :
    skb.transportHeader = 4 * ((message.data.getD 0 0).val % 16)
  mark : skb.mark = message.mark
  length : skb.data.length = message.data.length
  kept : ∀ i, i < message.data.length → i ∉ rawFilled →
    skb.data.getD i 0 = message.data.getD i 0

end KtcpSplit.Packet
