import KtcpSplit.Packet.Hooks

/-!
# The record pointer on the tunnel

On a tunnel device the egress hook appends the address of the record to the
probe and lets it pass; when the encapsulated packet comes back to the hook the
address is read from a fixed place behind the inner TCP header.  The two places
are the same only while the probe ends with its fixed TCP header.
-/

namespace KtcpSplit.Packet

open KtcpSplit.ConnKey
open KtcpSplit.QpCpu

/-- TCP options and payload: all that stands behind the fixed header. -/
def SkBuff.trailer (skb : SkBuff) : List Byte :=
  skb.data.drop (skb.transportHeader + sizeofTcphdr)

/-- A marked packet with a whole TCP header that the egress hook takes for a
probe on a tunnel device. -/
structure TunnelProbe (skb : SkBuff) : Prop where
  marked : skb.mark ≠ 0
  protocol : skb.iphdrProtocol skb.networkHeader = ipprotoTcp
  port : ntohs (skb.tcphdrSource skb.transportHeader) = cbpProbePort
  gue : isOutGue skb = true
  complete : skb.transportHeader + sizeofTcphdr ≤ skb.data.length

/-- `enc` carries `skb` unchanged behind the headers `outer`. -/
structure Encapsulated (outer : List Byte) (skb enc : SkBuff) : Prop where
  data : enc.data = outer ++ skb.data
  innerNetworkHeader : enc.innerNetworkHeader = outer.length + skb.networkHeader
  innerTransportHeader :
    enc.innerTransportHeader = outer.length + skb.transportHeader

/-- A packet that reaches the UDP branch of the egress hook. -/
structure UdpProbe (enc : SkBuff) : Prop where
  marked : enc.mark ≠ 0
  protocol : enc.iphdrProtocol enc.networkHeader = ipprotoUdp
  probe : isCbnProbe enc = true

theorem cbnEgressHook_skb_of_tunnelProbe {skb : SkBuff} (hskb : TunnelProbe skb)
    (numOnlineCpus : BitVec 32) (addresses : Ptr) (synSlab : Ptr → Addresses) :
    (cbnEgressHook numOnlineCpus (some addresses) synSlab skb).skb =
      setCbnProbe skb addresses := by
  dsimp only [cbnEgressHook]
  rw [if_neg hskb.marked, if_pos hskb.protocol, if_pos hskb.port,
    if_pos hskb.gue]

/-- The decoder reads the first eight bytes of the trailer followed by the
appended pointer. -/
theorem getCbnProbe_bytes {skb enc : SkBuff} {outer : List Byte} {addresses : Ptr}
    (hcomplete : skb.transportHeader + sizeofTcphdr ≤ skb.data.length)
    (henc : Encapsulated outer (setCbnProbe skb addresses) enc) :
    (getCbnProbe enc).bytes = (skb.trailer ++ addresses.bytes).take 8 := by
  have hdata : enc.data = outer ++ (skb.data ++ addresses.bytes) := henc.data
  have hoffset : enc.innerTransportHeader + sizeofTcphdr =
      outer.length + (skb.transportHeader + sizeofTcphdr) := by
    rw [henc.innerTransportHeader]
    simp only [setCbnProbe, SkBuff.put]
    omega
  have hlength := addresses.length_bytes
  rw [getCbnProbe, SkBuff.ptr_bytes, SkBuff.copy_eq_take_drop, hdata, hoffset,
    List.drop_append, List.drop_eq_nil_of_le (by omega), List.nil_append,
    Nat.add_sub_cancel_left, List.drop_append_of_le_length hcomplete]
  · rfl
  · rw [hdata, hoffset]
    simp only [List.length_append]
    omega

theorem Ptr.eq_iff_bytes {left right : Ptr} :
    left = right ↔ left.bytes = right.bytes := by
  cases left
  cases right
  simp

/-- The pointer is read back exactly when the trailer does not reach into what
the decoder reads, or happens to spell the same bytes there. -/
theorem getCbnProbe_eq_iff (numOnlineCpus : BitVec 32)
    (synSlab : Ptr → Addresses) {skb enc : SkBuff} {outer : List Byte}
    {addresses : Ptr} (hskb : TunnelProbe skb)
    (henc : Encapsulated outer
      (cbnEgressHook numOnlineCpus (some addresses) synSlab skb).skb enc) :
    getCbnProbe enc = addresses ↔
      addresses.bytes <+: skb.trailer ++ addresses.bytes := by
  rw [cbnEgressHook_skb_of_tunnelProbe hskb] at henc
  rw [Ptr.eq_iff_bytes, getCbnProbe_bytes hskb.complete henc,
    List.prefix_iff_eq_take, addresses.length_bytes]
  exact eq_comm

/-! ## Packet layouts -/

/-- A segment from the probe port with an arbitrary payload, on a tunnel
device. -/
def probePacket (trailer : List Byte) : SkBuff where
  data :=
    [69, 0, 0, Fin.ofNat 256 (40 + trailer.length), 0, 0, 0, 0, 64, 6, 0, 0,
        10, 0, 0, 1, 10, 0, 0, 2] ++
      ([0, 4, 0, 80, 0, 0, 0, 0, 0, 0, 0, 0, 80, 24, 48, 57, 0, 0, 0, 0] ++
        trailer)
  beyond := fun _ => 0
  networkHeader := 0
  transportHeader := 20
  innerNetworkHeader := 0
  innerTransportHeader := 0
  innerProtocol := 0
  mark := 7
  devName := "gue1"

/-- An outer IP header that announces UDP, and a UDP header. -/
def gueHeaders : List Byte :=
  [69, 0, 0, 84, 0, 0, 0, 0, 64, 17, 0, 0, 10, 1, 0, 1, 10, 1, 0, 2,
    0, 99, 0, 99, 0, 56, 0, 0]

def gueEncapsulate (skb : SkBuff) : SkBuff where
  data := gueHeaders ++ skb.data
  beyond := fun _ => 0
  networkHeader := 0
  transportHeader := 20
  innerNetworkHeader := gueHeaders.length + skb.networkHeader
  innerTransportHeader := gueHeaders.length + skb.transportHeader
  innerProtocol := ipprotoIpip
  mark := skb.mark
  devName := skb.devName

theorem tunnelProbe_probePacket (trailer : List Byte) :
    TunnelProbe (probePacket trailer) where
  marked := show (7 : BitVec 32) ≠ 0 by decide
  protocol := rfl
  port := by
    simp [SkBuff.tcphdrSource, SkBuff.be16, SkBuff.byte, probePacket, ntohs,
      cbpProbePort]
  gue := by
    simp [isOutGue, probePacket, cbnTunnelPrefix]
  complete := by
    simp [probePacket, sizeofTcphdr]

theorem trailer_probePacket (trailer : List Byte) :
    (probePacket trailer).trailer = trailer := rfl

theorem encapsulated_probePacket (numOnlineCpus : BitVec 32)
    (synSlab : Ptr → Addresses) (trailer : List Byte) (addresses : Ptr) :
    Encapsulated gueHeaders
      (cbnEgressHook numOnlineCpus (some addresses) synSlab
        (probePacket trailer)).skb
      (gueEncapsulate (setCbnProbe (probePacket trailer) addresses)) := by
  rw [cbnEgressHook_skb_of_tunnelProbe (tunnelProbe_probePacket trailer)]
  exact ⟨rfl, rfl, rfl⟩

theorem udpProbe_gueEncapsulate (trailer : List Byte) (addresses : Ptr) :
    UdpProbe (gueEncapsulate (setCbnProbe (probePacket trailer) addresses)) where
  marked := show (7 : BitVec 32) ≠ 0 by decide
  protocol := rfl
  probe := by
    simp [isCbnProbe, gueEncapsulate, gueHeaders, setCbnProbe, SkBuff.put,
      probePacket, SkBuff.iphdrProtocol, SkBuff.tcphdrSource, SkBuff.be16,
      SkBuff.byte, ntohs, ipprotoTcp, cbpProbePort]

/-- Over all packets with `count` bytes behind the fixed TCP header the pointer
is always read back only when there are none. -/
theorem readback_iff_no_trailer (numOnlineCpus : BitVec 32)
    (synSlab : Ptr → Addresses) (count : ℕ) :
    (∀ skb enc outer addresses, TunnelProbe skb → skb.trailer.length = count →
      Encapsulated outer
        (cbnEgressHook numOnlineCpus (some addresses) synSlab skb).skb enc →
      UdpProbe enc → getCbnProbe enc = addresses) ↔ count = 0 := by
  constructor
  · intro hread
    by_contra hcount
    obtain ⟨count, rfl⟩ := Nat.exists_eq_succ_of_ne_zero hcount
    let trailer : List Byte := 1 :: List.replicate count 1
    have hskb := tunnelProbe_probePacket trailer
    have henc := encapsulated_probePacket numOnlineCpus synSlab trailer .null
    have hback := hread _ _ _ _ hskb
      (by simp [trailer, trailer_probePacket]) henc (udpProbe_gueEncapsulate _ _)
    have hprefix := (getCbnProbe_eq_iff _ _ hskb henc).mp hback
    simp [trailer_probePacket, trailer, Ptr.null, List.replicate_succ] at hprefix
  · rintro rfl skb enc outer addresses hskb htrailer henc -
    rw [getCbnProbe_eq_iff _ _ hskb henc, List.eq_nil_of_length_eq_zero htrailer]
    exact List.prefix_refl _

/-- The address of a record. -/
def recordPtr : Ptr := ⟨[64, 18, 52, 9, 129, 136, 255, 255], rfl⟩

def emptyRecord : Addresses :=
  ⟨⟨⟨0, 0⟩, ⟨0, 0, 0, 0⟩⟩, ⟨⟨0, 0⟩, ⟨0, 0, 0, 0⟩⟩, ⟨0, 0, 0, 0⟩, 0⟩

/-- The pointer that a tunnel probe carries is read back exactly when its
trailer is empty or spells the pointer's bytes; of all layouts only the one
without options and payload never fails. -/
theorem probe_readback_exact (numOnlineCpus : BitVec 32)
    (synSlab : Ptr → Addresses) :
    (∀ skb enc outer addresses, TunnelProbe skb →
      Encapsulated outer
        (cbnEgressHook numOnlineCpus (some addresses) synSlab skb).skb enc →
      UdpProbe enc →
      (getCbnProbe enc = addresses ↔
        addresses.bytes <+: skb.trailer ++ addresses.bytes)) ∧
    ∀ count : ℕ,
      (∀ skb enc outer addresses, TunnelProbe skb → skb.trailer.length = count →
        Encapsulated outer
          (cbnEgressHook numOnlineCpus (some addresses) synSlab skb).skb enc →
        UdpProbe enc → getCbnProbe enc = addresses) ↔ count = 0 :=
  ⟨fun _ _ _ _ hskb henc _ => getCbnProbe_eq_iff _ _ hskb henc,
    readback_iff_no_trailer numOnlineCpus synSlab⟩

/-- The module's own probe has no trailer. -/
theorem probe_readback_exact_bare :
    getCbnProbe (gueEncapsulate (setCbnProbe (probePacket []) recordPtr)) =
        recordPtr ↔
      recordPtr.bytes <+: (probePacket []).trailer ++ recordPtr.bytes :=
  (probe_readback_exact 4 fun _ => emptyRecord).1 _ _ _ _
    (tunnelProbe_probePacket []) (encapsulated_probePacket _ _ _ _)
    (udpProbe_gueEncapsulate _ _)

/-- Eight bytes of payload are dereferenced in place of the record. -/
theorem getCbnProbe_reads_payload :
    let skb := probePacket [104, 101, 108, 108, 111, 32, 52, 52]
    let enc := gueEncapsulate (setCbnProbe skb recordPtr)
    TunnelProbe skb ∧
      Encapsulated gueHeaders
        (cbnEgressHook 4 (some recordPtr) (fun _ => emptyRecord) skb).skb enc ∧
      UdpProbe enc ∧ getCbnProbe enc ≠ recordPtr :=
  ⟨tunnelProbe_probePacket _, encapsulated_probePacket _ _ _ _,
    udpProbe_gueEncapsulate _ _, by decide⟩

end KtcpSplit.Packet
