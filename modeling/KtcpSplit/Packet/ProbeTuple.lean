import KtcpSplit.Packet.Hooks
import Mathlib.Data.List.GetD

/-!
# The tuple of a connection through the probe

The ingress hook copies twenty bytes of each header, `start_probe_syn` moves
the source port into the window field, the raw socket finds the transport
header by `ihl`, and the egress hook reads the tuple back from there.  The
record that comes out is compared with what the RX side learns of the same
connection from its accepted socket.
-/

namespace KtcpSplit.Packet

open KtcpSplit.ConnKey
open KtcpSplit.Listner
open KtcpSplit.QpCpu

/-- Source of a SYN, which is also the peer name of the accepted socket. -/
def synSource (skb : SkBuff) : SockaddrIn :=
  ⟨skb.tcphdrSource skb.transportHeader, skb.iphdrSaddr skb.networkHeader⟩

/-- Destination of a SYN, which is also the original destination of the
accepted socket. -/
def synDest (skb : SkBuff) : SockaddrIn :=
  ⟨skb.tcphdrDest skb.transportHeader, skb.iphdrDaddr skb.networkHeader⟩

/-- The egress hook took `sent` for a probe and passed `record` on, either to
a worker or as a pointer into the tunnel. -/
structure TakenAsProbe (numOnlineCpus : BitVec 32) (sent : SkBuff)
    (addresses : Ptr) (record : Addresses) (outcome : EgressOutcome) : Prop where
  stored : outcome.synSlab addresses = record
  worker : isOutGue sent = false →
    outcome.work = some (.startNewConnectionSyn addresses
      (addresses2cpu numOnlineCpus record))
  tunnel : isOutGue sent = true →
    outcome.verdict = .nfAccept ∧ outcome.skb = setCbnProbe sent addresses

/-- Every packet that the raw socket makes of the probe is recognised, carries
the tuple and the mark of the SYN, and leads to the CPU and the key that the
RX side computes. -/
def ProbeMeets (numOnlineCpus : BitVec 32) (skb : SkBuff) (probe : Probe) : Prop :=
  ∀ sent addresses synSlab, RawSent (startProbeSyn probe) sent →
    ∃ record,
      TakenAsProbe numOnlineCpus sent addresses record
        (cbnEgressHook numOnlineCpus (some addresses) synSlab sent) ∧
      record.src = synSource skb ∧ record.dest = synDest skb ∧
      record.mark = skb.mark ∧
      addresses2cpu numOnlineCpus record =
        qp2cpu numOnlineCpus (acceptedTuple (synDest skb) (synSource skb)) ∧
      record.tuple.key = (acceptedTuple (synDest skb) (synSource skb)).key

/-! ## The bytes of the probe -/

/-- What `cbn_ingress_hook` has checked and copied when it starts a probe. -/
theorem cbnIngressHook_eq_some {listnerRoot : BinaryTree CbnListner} {alloc : Bool}
    {priv : String} {skb : SkBuff} {probe : Probe}
    (hprobe : cbnIngressHook priv listnerRoot alloc skb = some probe) :
    traceIph skb = true ∧ probe.listner.key = skb.mark ∧
      probe.iphdr = skb.copy skb.networkHeader sizeofIphdr ∧
      probe.tcphdr = skb.copy skb.transportHeader sizeofTcphdr := by
  unfold cbnIngressHook at hprobe
  split at hprobe
  · cases hprobe
  split at hprobe
  · cases hprobe
  split at hprobe
  · cases hprobe
  rename_i listner hsearch
  split at hprobe
  · rename_i htrace
    split at hprobe
    · cases hprobe
      exact ⟨htrace, (searchRbListner_sound hsearch).2, rfl, rfl⟩
    · cases hprobe
  · cases hprobe

/-- Byte `i` of the probe message. -/
def probeByte (skb : SkBuff) (i : ℕ) : Byte :=
  if i < 20 then skb.byte (skb.networkHeader + i)
  else if i = 20 then 0
  else if i = 21 then 4
  else if i = 34 then skb.byte skb.transportHeader
  else if i = 35 then skb.byte (skb.transportHeader + 1)
  else skb.byte (skb.transportHeader + (i - 20))

theorem getD_smuggleSource {tcphdr : List Byte}
    (hlength : tcphdr.length = sizeofTcphdr) (i : ℕ) :
    (smuggleSource tcphdr).getD i 0 =
      if i = 0 then 0 else if i = 1 then 4
      else if i = 14 then tcphdr.getD 0 0 else if i = 15 then tcphdr.getD 1 0
      else tcphdr.getD i 0 := by
  have hl : tcphdr.length = 20 := hlength
  have hport : htons cbnProbePort = ⟨0, 4⟩ := rfl
  simp only [smuggleSource, hport, List.getD_eq_getElem?_getD, List.getElem?_set,
    List.length_set, hl]
  grind

theorem getD_startProbeSyn {listnerRoot : BinaryTree CbnListner} {alloc : Bool}
    {priv : String} {skb : SkBuff} {probe : Probe}
    (hprobe : cbnIngressHook priv listnerRoot alloc skb = some probe)
    {i : ℕ} (hi : i < 40) :
    (startProbeSyn probe).data.getD i 0 = probeByte skb i := by
  obtain ⟨-, -, hiphdr, htcphdr⟩ := cbnIngressHook_eq_some hprobe
  have hlength : probe.iphdr.length = 20 := probe.length_iphdr
  simp only [startProbeSyn, probeByte]
  by_cases hip : i < 20
  · rw [List.getD_append _ _ _ _ (by omega), hiphdr,
      SkBuff.getD_copy skb (show i < sizeofIphdr from hip), if_pos hip]
  · have hj : i - 20 < 20 := by omega
    rw [List.getD_append_right _ _ _ _ (by omega), hlength,
      getD_smuggleSource probe.length_tcphdr, htcphdr]
    simp only [SkBuff.getD_copy skb (show 0 < sizeofTcphdr by decide),
      SkBuff.getD_copy skb (show 1 < sizeofTcphdr by decide),
      SkBuff.getD_copy skb (show i - 20 < sizeofTcphdr from hj)]
    grind

/-- The raw socket keeps every byte of the probe that the egress hook reads. -/
theorem RawSent.byte {listnerRoot : BinaryTree CbnListner} {alloc : Bool}
    {priv : String} {skb sent : SkBuff} {probe : Probe}
    (hprobe : cbnIngressHook priv listnerRoot alloc skb = some probe)
    (hsent : RawSent (startProbeSyn probe) sent) {i : ℕ} (hi : i < 40)
    (hkept : i ∉ rawFilled) : sent.byte i = probeByte skb i := by
  have hlength : (startProbeSyn probe).data.length = 40 := by
    have hip : probe.iphdr.length = 20 := probe.length_iphdr
    have htcp : probe.tcphdr.length = 20 := probe.length_tcphdr
    simp [startProbeSyn, smuggleSource, hip, htcp]
  have hdata := hsent.kept i (by omega) hkept
  rw [getD_startProbeSyn hprobe hi] at hdata
  have hin : i < sent.data.length := by rw [hsent.length]; omega
  rw [SkBuff.byte_eq_getElem sent hin, ← hdata]
  simp [List.getD, hin]

/-! ## What the egress hook makes of the packet -/

theorem ntohs_eq_probePort_iff (value : Be16) :
    ntohs value = cbpProbePort ↔ value = ⟨0, 4⟩ := by
  obtain ⟨b0, b1⟩ := value
  simp only [ntohs, cbpProbePort, Be16.mk.injEq, Fin.ext_iff]
  have h0 := b0.isLt
  have h1 := b1.isLt
  constructor
  · intro hport
    constructor <;> simp <;> omega
  · rintro ⟨hb0, hb1⟩
    simp only [hb0, hb1]
    decide

theorem takenAsProbe_of_port {numOnlineCpus : BitVec 32} {sent : SkBuff}
    {addresses : Ptr} {synSlab : Ptr → Addresses} (hmark : sent.mark ≠ 0)
    (hproto : sent.iphdrProtocol sent.networkHeader = ipprotoTcp)
    (hport : ntohs (sent.tcphdrSource sent.transportHeader) = cbpProbePort) :
    TakenAsProbe numOnlineCpus sent addresses
      (probeRecord sent (synSlab addresses))
      (cbnEgressHook numOnlineCpus (some addresses) synSlab sent) := by
  dsimp only [cbnEgressHook]
  rw [if_neg hmark, if_pos hproto, if_pos hport]
  constructor
  · cases hgue : isOutGue sent <;> simp
  · intro hgue
    simp [hgue]
  · intro hgue
    simp [hgue]

/-- Off the tunnel a TCP packet only becomes a probe through its source port,
and its record is the one built from its headers. -/
theorem TakenAsProbe.port {numOnlineCpus : BitVec 32} {sent : SkBuff}
    {addresses : Ptr} {record : Addresses} {synSlab : Ptr → Addresses}
    (hmark : sent.mark ≠ 0)
    (hproto : sent.iphdrProtocol sent.networkHeader = ipprotoTcp)
    (hgue : isOutGue sent = false)
    (htaken : TakenAsProbe numOnlineCpus sent addresses record
      (cbnEgressHook numOnlineCpus (some addresses) synSlab sent)) :
    ntohs (sent.tcphdrSource sent.transportHeader) = cbpProbePort ∧
      record = probeRecord sent (synSlab addresses) := by
  have hwork := htaken.worker hgue
  have hstored := htaken.stored
  dsimp only [cbnEgressHook] at hwork hstored
  rw [if_neg hmark, if_pos hproto] at hwork hstored
  by_cases hport : ntohs (sent.tcphdrSource sent.transportHeader) = cbpProbePort
  · rw [if_pos hport] at hstored
    simp only [hgue, Bool.false_eq_true, if_false, Function.update_self] at hstored
    exact ⟨hport, hstored.symm⟩
  · rw [if_neg hport] at hwork
    cases hwork

/-- The tuple of a record decides its CPU and its key, so the claim about a
packet comes down to the record. -/
theorem record_meets_iff {record : Addresses} {skb : SkBuff} :
    (record.src = synSource skb ∧ record.dest = synDest skb) ↔
      record.tuple = acceptedTuple (synDest skb) (synSource skb) := by
  obtain ⟨⟨dport, daddr⟩, ⟨sport, saddr⟩, sinAddr, mark⟩ := record
  simp only [Addresses.tuple, acceptedTuple, synSource, synDest,
    SockaddrIn.mk.injEq, Tuple.mk.injEq]
  tauto

/-! ## Which SYNs survive the fixed-size copy -/

/-- The IP header has no options, or the four bytes after it happen to stand
where the shifted reads expect the probe port and the ports of the SYN. -/
def TupleSurvives (skb : SkBuff) : Prop :=
  skb.iphdrIhl skb.networkHeader = 5 ∨
    (skb.iphdrIhl skb.networkHeader = 6 ∧
      skb.tcphdrSeq skb.transportHeader =
        ⟨0, 4, (skb.tcphdrDest skb.transportHeader).b0,
          (skb.tcphdrDest skb.transportHeader).b1⟩ ∧
      skb.tcphdrUrgPtr skb.transportHeader =
        skb.tcphdrSource skb.transportHeader)

section Sent

variable {listnerRoot : BinaryTree CbnListner} {skb sent : SkBuff} {probe : Probe}

theorem RawSent.header
    (hprobe : cbnIngressHook "RX" listnerRoot true skb = some probe)
    (hsent : RawSent (startProbeSyn probe) sent) :
    sent.transportHeader = 4 * skb.iphdrIhl skb.networkHeader ∧
      sent.mark = skb.mark ∧ sent.mark ≠ 0 ∧
      sent.iphdrProtocol sent.networkHeader = ipprotoTcp := by
  obtain ⟨htrace, hkey, -, -⟩ := cbnIngressHook_eq_some hprobe
  simp only [traceIph, decide_eq_true_eq] at htrace
  have hmark : sent.mark = skb.mark := by
    rw [hsent.mark]
    exact hkey
  refine ⟨?_, hmark, hmark ▸ htrace.2.2.2, ?_⟩
  · rw [hsent.transportHeader, getD_startProbeSyn hprobe (by decide)]
    rfl
  · rw [SkBuff.iphdrProtocol, hsent.networkHeader,
      hsent.byte hprobe (by decide) (by decide)]
    exact htrace.1

theorem RawSent.addrs
    (hprobe : cbnIngressHook "RX" listnerRoot true skb = some probe)
    (hsent : RawSent (startProbeSyn probe) sent) :
    sent.iphdrSaddr sent.networkHeader = skb.iphdrSaddr skb.networkHeader ∧
      sent.iphdrDaddr sent.networkHeader = skb.iphdrDaddr skb.networkHeader := by
  have hbyte : ∀ i, i < 20 → i ∉ rawFilled →
      sent.byte i = skb.byte (skb.networkHeader + i) := by
    intro i hi hkept
    rw [hsent.byte hprobe (by omega) hkept, probeByte, if_pos hi]
  constructor <;>
    simp [SkBuff.iphdrSaddr, SkBuff.iphdrDaddr, SkBuff.be32, hsent.networkHeader,
      hbyte, rawFilled, Nat.add_assoc]

/-- Two adjacent bytes behind the IP header of the probe. -/
theorem RawSent.be16
    (hprobe : cbnIngressHook "RX" listnerRoot true skb = some probe)
    (hsent : RawSent (startProbeSyn probe) sent) {i : ℕ} (hlow : 20 ≤ i)
    (hhigh : i + 1 < 40) :
    sent.be16 i = ⟨probeByte skb i, probeByte skb (i + 1)⟩ := by
  have hkept : ∀ j, 20 ≤ j → j ∉ rawFilled := by
    intro j hj
    simp only [rawFilled, List.mem_cons, List.not_mem_nil, or_false]
    omega
  rw [SkBuff.be16, hsent.byte hprobe (by omega) (hkept i hlow),
    hsent.byte hprobe hhigh (hkept (i + 1) (by omega))]

/-- The packet meets the other side exactly when its three shifted ports are
the probe port, the destination port and the source port of the SYN. -/
theorem RawSent.record_iff
    (hprobe : cbnIngressHook "RX" listnerRoot true skb = some probe)
    (hsent : RawSent (startProbeSyn probe) sent) (old : Addresses) :
    (probeRecord sent old).tuple = acceptedTuple (synDest skb) (synSource skb) ↔
      sent.tcphdrDest sent.transportHeader = skb.tcphdrDest skb.transportHeader ∧
        sent.tcphdrWindow sent.transportHeader =
          skb.tcphdrSource skb.transportHeader := by
  obtain ⟨hsaddr, hdaddr⟩ := hsent.addrs hprobe
  simp only [probeRecord, buildAddresses, Addresses.tuple, acceptedTuple,
    synSource, synDest, Tuple.mk.injEq, hsaddr, hdaddr]
  tauto

/-- Without IP options every port is where it was put. -/
theorem RawSent.ports_of_ihl_five
    (hprobe : cbnIngressHook "RX" listnerRoot true skb = some probe)
    (hsent : RawSent (startProbeSyn probe) sent)
    (hihl : skb.iphdrIhl skb.networkHeader = 5) :
    sent.tcphdrSource sent.transportHeader = ⟨0, 4⟩ ∧
      sent.tcphdrDest sent.transportHeader = skb.tcphdrDest skb.transportHeader ∧
      sent.tcphdrWindow sent.transportHeader =
        skb.tcphdrSource skb.transportHeader := by
  have hth : sent.transportHeader = 20 := by
    rw [(hsent.header hprobe).1, hihl]
  simp only [SkBuff.tcphdrSource, SkBuff.tcphdrDest, SkBuff.tcphdrWindow, hth]
  refine ⟨?_, ?_, ?_⟩
  · rw [hsent.be16 hprobe (by omega) (by omega)]
    simp [probeByte]
  · rw [hsent.be16 hprobe (by omega) (by omega)]
    simp [probeByte, SkBuff.be16, Nat.add_assoc]
  · rw [hsent.be16 hprobe (by omega) (by omega)]
    simp [probeByte, SkBuff.be16]

/-- With one word of IP options the ports are read from the sequence number and
from the urgent pointer. -/
theorem RawSent.ports_of_ihl_six
    (hprobe : cbnIngressHook "RX" listnerRoot true skb = some probe)
    (hsent : RawSent (startProbeSyn probe) sent)
    (hihl : skb.iphdrIhl skb.networkHeader = 6) :
    sent.tcphdrSource sent.transportHeader =
        ⟨(skb.tcphdrSeq skb.transportHeader).b0,
          (skb.tcphdrSeq skb.transportHeader).b1⟩ ∧
      sent.tcphdrDest sent.transportHeader =
        ⟨(skb.tcphdrSeq skb.transportHeader).b2,
          (skb.tcphdrSeq skb.transportHeader).b3⟩ ∧
      sent.tcphdrWindow sent.transportHeader =
        skb.tcphdrUrgPtr skb.transportHeader := by
  have hth : sent.transportHeader = 24 := by
    rw [(hsent.header hprobe).1, hihl]
  simp only [SkBuff.tcphdrSource, SkBuff.tcphdrDest, SkBuff.tcphdrWindow, hth]
  refine ⟨?_, ?_, ?_⟩
  · rw [hsent.be16 hprobe (by omega) (by omega)]
    simp [probeByte, SkBuff.tcphdrSeq, SkBuff.be32, Nat.add_assoc]
  · rw [hsent.be16 hprobe (by omega) (by omega)]
    simp [probeByte, SkBuff.tcphdrSeq, SkBuff.be32, Nat.add_assoc]
  · rw [hsent.be16 hprobe (by omega) (by omega)]
    simp [probeByte, SkBuff.tcphdrUrgPtr, SkBuff.be16, Nat.add_assoc]

end Sent

/-! ## The packet that a raw socket makes -/

/-- The message as it stands, with `behind` in the memory after its tail. -/
def rawPacket (message : RawMessage) (behind : Byte) : SkBuff where
  data := message.data
  beyond := fun _ => behind
  networkHeader := 0
  transportHeader := 4 * ((message.data.getD 0 0).val % 16)
  innerNetworkHeader := 0
  innerTransportHeader := 0
  innerProtocol := 0
  mark := message.mark
  devName := "eth0"

theorem rawSent_rawPacket (message : RawMessage) (behind : Byte) :
    RawSent message (rawPacket message behind) where
  networkHeader := rfl
  transportHeader := rfl
  mark := rfl
  length := rfl
  kept := fun _ _ _ => rfl

theorem isOutGue_rawPacket (message : RawMessage) (behind : Byte) :
    isOutGue (rawPacket message behind) = false := by
  simp [isOutGue, rawPacket, cbnTunnelPrefix, List.isPrefixOf]

/-- Further options push the window out of the forty bytes that were sent. -/
theorem window_rawPacket {listnerRoot : BinaryTree CbnListner} {skb : SkBuff}
    {probe : Probe}
    (hprobe : cbnIngressHook "RX" listnerRoot true skb = some probe)
    (hihl : 7 ≤ skb.iphdrIhl skb.networkHeader) (behind : Byte) :
    let sent := rawPacket (startProbeSyn probe) behind
    sent.tcphdrWindow sent.transportHeader = ⟨behind, behind⟩ := by
  intro sent
  have hsent := rawSent_rawPacket (startProbeSyn probe) behind
  have hth : sent.transportHeader = 4 * skb.iphdrIhl skb.networkHeader :=
    (hsent.header hprobe).1
  have hdata : sent.data = (startProbeSyn probe).data := rfl
  have hlength : sent.data.length = 40 := by
    have hip : probe.iphdr.length = 20 := probe.length_iphdr
    have htcp : probe.tcphdr.length = 20 := probe.length_tcphdr
    simp [hdata, startProbeSyn, smuggleSource, hip, htcp]
  have hbyte : ∀ i, 40 ≤ i → sent.byte i = behind := by
    intro i hi
    rw [SkBuff.byte, List.getD_eq_default _ _ (by omega)]
    rfl
  rw [SkBuff.tcphdrWindow, SkBuff.be16, hbyte _ (by omega), hbyte _ (by omega)]

section Claim

variable {listnerRoot : BinaryTree CbnListner} {skb : SkBuff} {probe : Probe}

theorem probeMeets_of_ports {numOnlineCpus : BitVec 32}
    (hprobe : cbnIngressHook "RX" listnerRoot true skb = some probe)
    (hports : ∀ sent, RawSent (startProbeSyn probe) sent →
      sent.tcphdrSource sent.transportHeader = ⟨0, 4⟩ ∧
        sent.tcphdrDest sent.transportHeader =
          skb.tcphdrDest skb.transportHeader ∧
        sent.tcphdrWindow sent.transportHeader =
          skb.tcphdrSource skb.transportHeader) :
    ProbeMeets numOnlineCpus skb probe := by
  intro sent addresses synSlab hsent
  obtain ⟨-, hkept, hmark, hproto⟩ := hsent.header hprobe
  obtain ⟨hsource, hdest, hwindow⟩ := hports sent hsent
  have htuple := (hsent.record_iff hprobe (synSlab addresses)).mpr ⟨hdest, hwindow⟩
  obtain ⟨hrecSrc, hrecDest⟩ := record_meets_iff.mpr htuple
  refine ⟨_, takenAsProbe_of_port hmark hproto ?_, hrecSrc, hrecDest, hkept, ?_, ?_⟩
  · rw [hsource]
    rfl
  · rw [addresses2cpu, htuple]
  · rw [htuple]

/-- Any packet off the tunnel that meets the other side has its three ports in
place. -/
theorem ProbeMeets.ports {numOnlineCpus : BitVec 32}
    (hprobe : cbnIngressHook "RX" listnerRoot true skb = some probe)
    (hmeets : ProbeMeets numOnlineCpus skb probe) (behind : Byte) :
    let sent := rawPacket (startProbeSyn probe) behind
    sent.tcphdrSource sent.transportHeader = ⟨0, 4⟩ ∧
      sent.tcphdrDest sent.transportHeader = skb.tcphdrDest skb.transportHeader ∧
      sent.tcphdrWindow sent.transportHeader =
        skb.tcphdrSource skb.transportHeader := by
  intro sent
  have hsent := rawSent_rawPacket (startProbeSyn probe) behind
  obtain ⟨-, -, hmark, hproto⟩ := hsent.header hprobe
  let empty : Addresses :=
    ⟨⟨⟨0, 0⟩, ⟨0, 0, 0, 0⟩⟩, ⟨⟨0, 0⟩, ⟨0, 0, 0, 0⟩⟩, ⟨0, 0, 0, 0⟩, 0⟩
  obtain ⟨record, htaken, hsrc, hdest, -, -, -⟩ :=
    hmeets sent .null (fun _ => empty) hsent
  obtain ⟨hport, rfl⟩ :=
    htaken.port hmark hproto (isOutGue_rawPacket (startProbeSyn probe) behind)
  have htuple := record_meets_iff.mp ⟨hsrc, hdest⟩
  exact ⟨(ntohs_eq_probePort_iff _).mp hport, (hsent.record_iff hprobe empty).mp htuple⟩

theorem tupleSurvives_of_meets {numOnlineCpus : BitVec 32}
    (hprobe : cbnIngressHook "RX" listnerRoot true skb = some probe)
    (hihl : 5 ≤ skb.iphdrIhl skb.networkHeader)
    (hmeets : ProbeMeets numOnlineCpus skb probe) : TupleSurvives skb := by
  have hsix : skb.iphdrIhl skb.networkHeader < 7 := by
    by_contra hlong
    -- some byte behind the tail differs from the source port
    let behind := (skb.tcphdrSource skb.transportHeader).b0 + 1
    have hwindow := (hmeets.ports hprobe behind).2.2
    rw [window_rawPacket hprobe (by omega) behind] at hwindow
    have hb0 := congrArg Be16.b0 hwindow
    have hval := congrArg Fin.val hb0
    simp only [behind, Fin.val_add] at hval
    omega
  rcases Nat.lt_or_ge (skb.iphdrIhl skb.networkHeader) 6 with hfive | hge
  · exact .inl (by omega)
  have hihl : skb.iphdrIhl skb.networkHeader = 6 := by omega
  have hsent := rawSent_rawPacket (startProbeSyn probe) 0
  obtain ⟨hsource, hdest, hwindow⟩ := hmeets.ports hprobe 0
  obtain ⟨hsource', hdest', hwindow'⟩ := hsent.ports_of_ihl_six hprobe hihl
  refine .inr ⟨hihl, ?_, ?_⟩
  · rw [hsource', Be16.mk.injEq] at hsource
    rw [← hdest, hdest', ← hsource.1, ← hsource.2]
  · rw [← hwindow', hwindow]

theorem meets_of_tupleSurvives {numOnlineCpus : BitVec 32}
    (hprobe : cbnIngressHook "RX" listnerRoot true skb = some probe)
    (hsurvives : TupleSurvives skb) : ProbeMeets numOnlineCpus skb probe := by
  apply probeMeets_of_ports hprobe
  intro sent hsent
  rcases hsurvives with hihl | ⟨hihl, hseq, hurg⟩
  · exact hsent.ports_of_ihl_five hprobe hihl
  · obtain ⟨hsource, hdest, hwindow⟩ := hsent.ports_of_ihl_six hprobe hihl
    rw [hseq] at hsource hdest
    exact ⟨hsource, hdest, hwindow.trans hurg⟩

end Claim

/-- A SYN that starts a probe meets the other side of its connection exactly
when its IP header has no options, or the bytes behind it happen to repeat the
ports where the egress hook then reads them. -/
theorem probe_meets_iff (numOnlineCpus : BitVec 32)
    (listnerRoot : BinaryTree CbnListner) (skb : SkBuff) (probe : Probe)
    (hprobe : cbnIngressHook "RX" listnerRoot true skb = some probe)
    (hihl : 5 ≤ skb.iphdrIhl skb.networkHeader) :
    ProbeMeets numOnlineCpus skb probe ↔ TupleSurvives skb :=
  ⟨tupleSurvives_of_meets hprobe hihl, meets_of_tupleSurvives hprobe⟩

/-! ## Two SYNs -/

/-- A SYN whose IP header carries `options`. -/
def synPacket (ihl : Byte) (options : List Byte) : SkBuff where
  data :=
    [64 + ihl, 0, 0, 44, 0, 0, 0, 0, 64, 6, 0, 0, 10, 0, 0, 1, 10, 0, 0, 2] ++
      (options ++ [48, 57, 0, 80, 0, 0, 0, 0, 0, 0, 0, 0, 80, 2, 16, 0, 0, 0, 0, 0])
  beyond := fun _ => 0
  networkHeader := 0
  transportHeader := 20 + options.length
  innerNetworkHeader := 0
  innerTransportHeader := 0
  innerProtocol := 0
  mark := 7
  devName := "eth0"

def synListner : CbnListner := ⟨0, 7⟩

def synListnerRoot : BinaryTree CbnListner := .node synListner .nil .nil

/-- The probe that the ingress hook starts for a traced SYN. -/
def synProbe (skb : SkBuff) : Probe := skb.probe synListner

theorem cbnIngressHook_synPacket (ihl : Byte) (options : List Byte)
    (htrace : traceIph (synPacket ihl options) = true) :
    cbnIngressHook "RX" synListnerRoot true (synPacket ihl options) =
      some (synProbe (synPacket ihl options)) := by
  have hsearch : searchRbListner synListnerRoot (synPacket ihl options).mark =
      some synListner := by
    show searchRbListner synListnerRoot 7 = some synListner
    decide
  have hmark : (synPacket ihl options).mark ≠ 0 := show (7 : BitVec 32) ≠ 0 by decide
  simp only [cbnIngressHook, if_neg hmark, hsearch, htrace]
  rfl

theorem probe_meets_iff_plain :
    ProbeMeets 4 (synPacket 5 []) (synProbe (synPacket 5 [])) ↔
      TupleSurvives (synPacket 5 []) :=
  probe_meets_iff 4 synListnerRoot _ _ (cbnIngressHook_synPacket 5 [] (by decide))
    (by decide)

/-- One word of padding in the IP header, and the probe is not recognised. -/
theorem probe_lost_on_ip_options :
    let skb := synPacket 6 [1, 1, 1, 0]
    cbnIngressHook "RX" synListnerRoot true skb = some (synProbe skb) ∧
      skb.transportHeader = 4 * skb.iphdrIhl skb.networkHeader ∧
      ¬ ProbeMeets 4 skb (synProbe skb) := by
  have hprobe := cbnIngressHook_synPacket 6 [1, 1, 1, 0] (by decide)
  refine ⟨hprobe, by decide, fun hmeets => ?_⟩
  have hsource := (hmeets.ports hprobe 0).1
  revert hsource
  decide

end KtcpSplit.Packet
