import KtcpSplit.Core.Endian
import KtcpSplit.Lib.Bag
import KtcpSplit.Packet.ProbePointer
import KtcpSplit.Packet.ProbeTuple

/-!
# From a SYN to the connection of its client

A traced SYN becomes a probe, the probe a packet, the packet a record and the
record the argument of a worker.  The worker connects to the destination itself,
or it forwards the record over a connection to the next hop, and the host there
connects.  The machine interleaves all of these for any number of SYNs; records
are freed and handed out again, packets get lost and calls fail.
-/

namespace KtcpSplit.Handover

open KtcpSplit.Bag
open KtcpSplit.ConnKey
open KtcpSplit.Endian
open KtcpSplit.Listner
open KtcpSplit.Packet
open KtcpSplit.QpCpu
open KtcpSplit.Transition

/-! ## The record between two hosts -/

/-- The bytes of `struct addresses` that stand for no field of the record. -/
structure Padding where
  destFamily : Be16
  destZero : Be32 × Be32
  srcFamily : Be16
  srcZero : Be32 × Be32

def sockaddrImage (family : Be16) (addr : SockaddrIn) (zero : Be32 × Be32) : List Byte :=
  family.bytes ++ addr.sinPort.bytes ++ addr.sinAddr.bytes ++ zero.1.bytes ++ zero.2.bytes

/-- The memory of a record, as `forward_conn_info` sends it. -/
def addressesImage (order : ByteOrder) (padding : Padding) (addresses : Addresses) : List Byte :=
  sockaddrImage padding.destFamily addresses.dest padding.destZero ++
    sockaddrImage padding.srcFamily addresses.src padding.srcZero ++
    addresses.sinAddr.bytes ++ (store order addresses.mark).bytes

def sizeofAddresses : ℕ := 40

def be16At (bytes : List Byte) (i : ℕ) : Be16 := ⟨bytes.getD i 0, bytes.getD (i + 1) 0⟩

def be32At (bytes : List Byte) (i : ℕ) : Be32 :=
  ⟨bytes.getD i 0, bytes.getD (i + 1) 0, bytes.getD (i + 2) 0, bytes.getD (i + 3) 0⟩

/-- The record whose memory holds `bytes`. -/
def ofImage (order : ByteOrder) (bytes : List Byte) : Addresses where
  dest := ⟨be16At bytes 2, be32At bytes 4⟩
  src := ⟨be16At bytes 18, be32At bytes 20⟩
  sinAddr := be32At bytes 32
  mark := load order (be32At bytes 36)

/-- `preconn_wait_for_next_hop`, which waits for the whole record, and what it leaves
in the stream. -/
def preconnWaitForNextHop (order : ByteOrder) (stream : List Byte) :
    Option (Addresses × List Byte) :=
  if sizeofAddresses ≤ stream.length then
    some (ofImage order (stream.take sizeofAddresses), stream.drop sizeofAddresses)
  else none

theorem load_store (order : ByteOrder) (value : BitVec 32) :
    load order (store order value) = value := by
  apply BitVec.eq_of_toNat_eq
  have hlt := value.isLt
  cases order <;>
    simp only [load, store, octet, BitVec.toNat_ofNat, Fin.val_ofNat] <;>
    omega

@[simp]
theorem length_addressesImage (order : ByteOrder) (padding : Padding) (addresses : Addresses) :
    (addressesImage order padding addresses).length = sizeofAddresses := rfl

/-- The next hop reads the record that was sent, and the data of the client behind it. -/
theorem preconnWaitForNextHop_image (order : ByteOrder) (padding : Padding)
    (addresses : Addresses) (payload : List Byte) :
    preconnWaitForNextHop order (addressesImage order padding addresses ++ payload) =
      some (addresses, payload) := by
  have hlength := length_addressesImage order padding addresses
  have himage : ofImage order (addressesImage order padding addresses) = addresses := by
    have hmark := load_store order addresses.mark
    calc
      ofImage order (addressesImage order padding addresses) =
          { addresses with mark := load order (store order addresses.mark) } := rfl
      _ = addresses := by rw [hmark]
  rw [preconnWaitForNextHop, if_pos, List.take_left' hlength, List.drop_left' hlength, himage]
  rw [List.length_append, hlength]
  exact Nat.le_add_right _ _

/-! ## The hosts -/

/-- A traced SYN and its number. -/
structure Syn where
  id : ℕ
  skb : SkBuff

/-- A probe that a tunnel device is about to send on, and the record that it carries. -/
structure Flight where
  syn : Syn
  addresses : Ptr
  packet : SkBuff

/-- The mark of a socket, the address it is bound to and the one it connects to. -/
structure Socket where
  mark : Option Mark
  src : Option SockaddrIn
  dest : Option SockaddrIn
  deriving DecidableEq

/-- The next use that a worker makes of its record. -/
inductive WorkerPc
  /-- `start_new_pre_connection_syn`. -/
  | pre
  /-- `start_new_connection_syn`. -/
  | soMark
  | bind
  | connect
  | free
  deriving DecidableEq

/-- A worker, the destination of the packet that carried its record, and its socket. -/
structure Worker where
  syn : Syn
  hop : Option Be32
  addresses : Ptr
  cpu : BitVec 32
  pc : WorkerPc
  tx : Socket

/-- What was sent on a connection to `hop`; `via` is that of the worker. -/
structure Message where
  syn : Syn
  via : Option Be32
  hop : Be32
  stream : List Byte

/-- The lists of what is on its way; `connections` is what was connected, and `wire`
holds the packets that were let out. -/
structure State where
  ipTransparent : Bool
  synSlab : Ptr → Addresses
  next : ℕ
  probes : List (Syn × Probe)
  tunnel : List Flight
  workers : List Worker
  leaked : List Ptr
  messages : List Message
  connections : List (Syn × Socket)
  wire : List SkBuff

inductive Act
  | go
  /-- `forward_conn_info` sends `rc` bytes of the record.  `qp_exists` has shown the
  connection to the worker of the client by then, which sends what it has from the client:
  `early` before the record, and `payload` after it. -/
  | forward (padding : Padding) (early : List Byte) (rc : ℕ) (payload : List Byte)
  /-- `qp_exists` returned no QP. -/
  | doubled
  /-- Any exit that leaves the record. -/
  | leave

inductive Label
  /-- `pool` is whether the thread pool accepts the work. -/
  | ingress (priv : String) (listnerRoot : BinaryTree CbnListner) (alloc pool : Bool)
      (skb : SkBuff)
  /-- `start_probe_syn` on probe `k`, which the egress hook sees as `sent`. -/
  | probeSyn (k : ℕ) (sent : SkBuff) (alloc : Option Ptr) (pool : Bool)
  | loseProbe (k : ℕ)
  /-- The packet in which the tunnel device sends probe `k` on. -/
  | encapsulate (k : ℕ) (enc : SkBuff) (pool : Bool)
  | lose (k : ℕ)
  /-- Any other packet. -/
  | packet (skb : SkBuff) (alloc : Option Ptr)
  | transparent (ipTransparent : Bool)
  | work (k : ℕ) (act : Act)
  /-- `start_new_pending_connection` at the next hop. -/
  | pending (k : ℕ) (ipTransparent : Bool)

def Socket.create : Socket := ⟨none, none, none⟩

/-- `addresses->src.sin_port = 0`. -/
def Addresses.anyPort (addresses : Addresses) : Addresses :=
  { addresses with src := { addresses.src with sinPort := htons 0 } }

namespace State

variable (numOnlineCpus : BitVec 32) (order : ByteOrder) (s : State)

/-- Every record that was allocated and not freed. -/
def records : Multiset Ptr :=
  (s.tunnel : Multiset Flight).map Flight.addresses +
    (s.workers : Multiset Worker).map Worker.addresses + s.leaked

def start (pool : Bool) (worker : Worker) : State :=
  if pool then { s with workers := worker :: s.workers }
  else { s with leaked := worker.addresses :: s.leaked }

/-- The egress hook on a packet that a SYN led to. -/
def egress (syn : Syn) (alloc : Option Ptr) (pool : Bool) (skb : SkBuff) : State :=
  let outcome := cbnEgressHook numOnlineCpus alloc s.synSlab skb
  let s := { s with synSlab := outcome.synSlab }
  match outcome.work, outcome.verdict, alloc with
  | some (.startNewConnectionSyn p cpu), _, _ =>
      s.start pool ⟨syn, none, p, cpu, .soMark, .create⟩
  | some (.startNewPreConnectionSyn p cpu), _, _ =>
      s.start pool ⟨syn, some (skb.iphdrDaddr skb.networkHeader), p, cpu, .pre, .create⟩
  | none, .nfDrop, _ => s
  | none, .nfAccept, none => { s with wire := outcome.skb :: s.wire }
  | none, .nfAccept, some p =>
      if isOutGue skb then { s with tunnel := ⟨syn, p, outcome.skb⟩ :: s.tunnel }
      else { s with wire := outcome.skb :: s.wire }

/-- A statement of a worker, which goes on as one worker or ends. -/
def worker (w : Worker) : WorkerPc → Act → Option (State × List Worker)
  | .pre, .forward padding early rc payload =>
      let record := s.synSlab w.addresses
      -- the worker connects itself if the call fails
      some ({ s with messages := ⟨w.syn, w.hop, record.sinAddr,
          early ++ (addressesImage order padding record).take rc ++ payload⟩ :: s.messages },
        [{ w with pc := if rc = 0 then .soMark else .free }])
  | .pre, .go => some (s, [{ w with pc := .soMark }])
  | .soMark, .go =>
      some (s, [{ w with
        pc := if s.ipTransparent then .bind else .connect
        tx := { w.tx with mark := some (s.synSlab w.addresses).mark } }])
  | .soMark, .doubled => some (s, [{ w with pc := .free }])
  | .bind, .go =>
      let record := Addresses.anyPort (s.synSlab w.addresses)
      some ({ s with synSlab := Function.update s.synSlab w.addresses record },
        [{ w with pc := .connect, tx := { w.tx with src := some record.src } }])
  | .connect, .go =>
      some ({ s with connections :=
          (w.syn, { w.tx with dest := some (s.synSlab w.addresses).dest }) :: s.connections },
        [{ w with pc := .free }])
  | .free, .go => some (s, [])
  | .free, _ => none
  | _, .leave => some ({ s with leaked := w.addresses :: s.leaked }, [])
  | _, _ => none

/-- The socket that the next hop connects for a record. -/
def pendingSocket (ipTransparent : Bool) (record : Addresses) : Socket where
  mark := some record.mark
  src := if ipTransparent then some (Addresses.anyPort record).src else none
  dest := some record.dest

end State

/-- Any number of SYNs on their way through one host and its next hops. -/
def handover (numOnlineCpus : BitVec 32) (order : ByteOrder) (synSlab : Ptr → Addresses) :
    Machine State Label where
  init := {
    ipTransparent := true
    synSlab := synSlab
    next := 0
    probes := []
    tunnel := []
    workers := []
    leaked := []
    messages := []
    connections := []
    wire := [] }
  next := fun s label =>
    match label with
    | .ingress priv listnerRoot alloc pool skb =>
        match cbnIngressHook priv listnerRoot alloc skb with
        | none => some s
        | some probe =>
            some { s with
              next := s.next + 1
              probes := if pool then (⟨s.next, skb⟩, probe) :: s.probes else s.probes }
    | .probeSyn k sent alloc pool =>
        (pick s.probes k).map fun ((syn, _), probes) =>
          State.egress numOnlineCpus { s with probes := probes } syn alloc pool sent
    | .loseProbe k => (pick s.probes k).map fun (_, probes) => { s with probes := probes }
    | .encapsulate k enc pool =>
        (pick s.tunnel k).map fun (flight, tunnel) =>
          State.egress numOnlineCpus { s with tunnel := tunnel } flight.syn none pool enc
    | .lose k =>
        (pick s.tunnel k).map fun (flight, tunnel) =>
          { s with tunnel := tunnel, leaked := flight.addresses :: s.leaked }
    | .packet skb alloc =>
        let outcome := cbnEgressHook numOnlineCpus alloc s.synSlab skb
        if outcome.work = none then
          some { s with
            synSlab := outcome.synSlab
            wire := if outcome.verdict = .nfAccept then outcome.skb :: s.wire else s.wire }
        else none
    | .transparent ipTransparent => some { s with ipTransparent := ipTransparent }
    | .work k act =>
        (pick s.workers k).bind fun (w, workers) =>
          (State.worker order { s with workers := workers } w w.pc act).map fun (s', ws) =>
            { s' with workers := ws ++ s'.workers }
    | .pending k ipTransparent =>
        (pick s.messages k).bind fun (message, messages) =>
          (preconnWaitForNextHop order message.stream).map fun (record, _) =>
            { s with
              messages := messages
              connections := (message.syn, State.pendingSocket ipTransparent record) ::
                s.connections }

/-! ## What the environment keeps to -/

/-- Neither a probe nor a packet that carries one. -/
def Ordinary (skb : SkBuff) : Prop :=
  ¬(skb.iphdrProtocol skb.networkHeader = ipprotoTcp ∧
      ntohs (skb.tcphdrSource skb.transportHeader) = cbpProbePort) ∧
    ¬(skb.iphdrProtocol skb.networkHeader = ipprotoUdp ∧ isCbnProbe skb = true)

/-- A SYN has no IP options, the raw socket sends the probe, the slab returns memory
that is not in use, the tunnel device carries the packet unchanged, nobody else sends
probes, and a record that is sent to the next hop is sent as a whole and before any data. -/
def Carried (s : State) : Label → Prop
  | .ingress _ _ _ _ skb => skb.iphdrIhl skb.networkHeader = 5
  | .probeSyn k sent alloc _ =>
      (∀ probe, s.probes[k]? = some probe → RawSent (startProbeSyn probe.2) sent) ∧
        ∀ p, alloc = some p → p ∉ s.records ∧ p ≠ .null
  | .encapsulate k enc _ =>
      UdpProbe enc ∧ ∀ flight, s.tunnel[k]? = some flight →
        ∃ outer, Encapsulated outer flight.packet enc
  | .packet skb _ => Ordinary skb
  | .work _ (.forward _ early rc _) => early = [] ∧ rc = sizeofAddresses
  | _ => True

/-! ## The invariant -/

/-- The record of a SYN; its port may be gone, which `bind` overwrites. -/
structure Holds (skb : SkBuff) (record : Addresses) : Prop where
  dest : record.dest = synDest skb
  addr : record.src.sinAddr = (synSource skb).sinAddr
  mark : record.mark = skb.mark

/-- The socket that a SYN asks for: the mark and the destination of the SYN, and the
address of the client with any port if it is bound at all. -/
structure Connects (skb : SkBuff) (tx : Socket) : Prop where
  mark : tx.mark = some skb.mark
  dest : tx.dest = some (synDest skb)
  src : tx.src = none ∨ tx.src = some ⟨htons 0, (synSource skb).sinAddr⟩

structure ProbeOk (syn : Syn) (probe : Probe) : Prop where
  hook : ∃ listnerRoot, cbnIngressHook "RX" listnerRoot true syn.skb = some probe
  ihl : syn.skb.iphdrIhl syn.skb.networkHeader = 5

structure Flight.Ok (synSlab : Ptr → Addresses) (f : Flight) : Prop where
  holds : Holds f.syn.skb (synSlab f.addresses)
  src : (synSlab f.addresses).src = synSource f.syn.skb
  notNull : f.addresses ≠ .null
  packet : ∃ sent, TunnelProbe sent ∧ sent.trailer = [] ∧ f.packet = setCbnProbe sent f.addresses

structure Worker.Ok (numOnlineCpus : BitVec 32) (synSlab : Ptr → Addresses) (w : Worker) :
    Prop where
  holds : Holds w.syn.skb (synSlab w.addresses)
  src : w.pc = .pre ∨ w.pc = .soMark → (synSlab w.addresses).src = synSource w.syn.skb
  cpu : w.cpu = qp2cpu numOnlineCpus (acceptedTuple (synDest w.syn.skb) (synSource w.syn.skb))
  carried : w.pc = .pre → w.hop ≠ none
  hop : ∀ hop, w.hop = some hop → (synSlab w.addresses).sinAddr = hop
  mark : w.pc = .bind ∨ w.pc = .connect → w.tx.mark = some w.syn.skb.mark
  bound : w.tx.src = none ∨ w.tx.src = some ⟨htons 0, (synSource w.syn.skb).sinAddr⟩

structure Message.Ok (order : ByteOrder) (m : Message) : Prop where
  hop : m.via = some m.hop
  stream : ∃ padding record payload, m.stream = addressesImage order padding record ++ payload ∧
    Holds m.syn.skb record ∧ record.src = synSource m.syn.skb

/-- The SYN that a worker may still connect for. -/
def Worker.tokens (w : Worker) : Multiset ℕ := if w.pc = .free then 0 else {w.syn.id}

/-- Every SYN, as often as it may be connected for or was. -/
def State.tokens (s : State) : Multiset ℕ :=
  (s.probes : Multiset (Syn × Probe)).map (fun probe => probe.1.id) +
    (s.tunnel : Multiset Flight).map (fun f => f.syn.id) +
    (s.workers : Multiset Worker).bind Worker.tokens +
    (s.messages : Multiset Message).map (fun m => m.syn.id) +
    (s.connections : Multiset (Syn × Socket)).map (fun c => c.1.id)

structure Inv (numOnlineCpus : BitVec 32) (order : ByteOrder) (s : State) : Prop where
  probes : ∀ probe ∈ s.probes, ProbeOk probe.1 probe.2
  tunnel : ∀ f ∈ s.tunnel, f.Ok s.synSlab
  workers : ∀ w ∈ s.workers, w.Ok numOnlineCpus s.synSlab
  messages : ∀ m ∈ s.messages, m.Ok order
  connections : ∀ c ∈ s.connections, Connects c.1.skb c.2
  wire : ∀ skb ∈ s.wire, Ordinary skb
  records : s.records.Nodup
  tokens : s.tokens.Nodup
  fresh : ∀ id ∈ s.tokens, id < s.next

/-- The SYN is counted and not on its way. -/
structure State.Free (s : State) (id : ℕ) : Prop where
  outside : id ∉ s.tokens
  counted : id < s.next

variable {numOnlineCpus : BitVec 32} {order : ByteOrder} {s s' : State}

theorem Flight.Ok.frame {synSlab synSlab' : Ptr → Addresses} {f : Flight} (hok : f.Ok synSlab)
    (hsame : synSlab' f.addresses = synSlab f.addresses) : f.Ok synSlab' :=
  ⟨hsame ▸ hok.holds, hsame ▸ hok.src, hok.notNull, hok.packet⟩

theorem Worker.Ok.frame {synSlab synSlab' : Ptr → Addresses} {w : Worker}
    (hok : w.Ok numOnlineCpus synSlab) (hsame : synSlab' w.addresses = synSlab w.addresses) :
    w.Ok numOnlineCpus synSlab' :=
  ⟨hsame ▸ hok.holds, hsame ▸ hok.src, hok.cpu, hok.carried, hsame ▸ hok.hop, hok.mark,
    hok.bound⟩

namespace Inv

/-- A SYN that is taken off its way. -/
theorem unlink (hinv : Inv numOnlineCpus order s) (s' : State) (id : ℕ)
    (htokens : s.tokens = id ::ₘ s'.tokens) (hnext : s'.next = s.next) :
    s'.tokens.Nodup ∧ (∀ id ∈ s'.tokens, id < s'.next) ∧ s'.Free id := by
  have hnodup := hinv.tokens
  rw [htokens, Multiset.nodup_cons] at hnodup
  have hfresh := hinv.fresh
  rw [htokens, ← hnext, Multiset.forall_mem_cons] at hfresh
  exact ⟨hnodup.2, hfresh.2, hnodup.1, hfresh.1⟩

theorem link (hinv : Inv numOnlineCpus order s) (s' : State) {id : ℕ}
    (hfree : s.Free id) (htokens : s'.tokens = id ::ₘ s.tokens) (hnext : s'.next = s.next) :
    s'.tokens.Nodup ∧ ∀ id ∈ s'.tokens, id < s'.next := by
  rw [htokens, hnext, Multiset.nodup_cons, Multiset.forall_mem_cons]
  exact ⟨⟨hfree.outside, hinv.tokens⟩, hfree.counted, hinv.fresh⟩

/-- A record that is taken out of its hands. -/
theorem release (hinv : Inv numOnlineCpus order s) (s' : State) (p : Ptr)
    (hrecords : s.records = p ::ₘ s'.records) : s'.records.Nodup ∧ p ∉ s'.records := by
  have hnodup := hinv.records
  rw [hrecords, Multiset.nodup_cons] at hnodup
  exact hnodup.symm

theorem hold (hinv : Inv numOnlineCpus order s) (s' : State) {p : Ptr}
    (halone : p ∉ s.records) (hrecords : s'.records = p ::ₘ s.records) : s'.records.Nodup := by
  rw [hrecords, Multiset.nodup_cons]
  exact ⟨halone, hinv.records⟩

section Drop

variable (hinv : Inv numOnlineCpus order s) {k : ℕ}
include hinv

theorem dropProbe {syn : Syn} {probe : Probe} {probes : List (Syn × Probe)}
    (hpick : pick s.probes k = some ((syn, probe), probes)) :
    Inv numOnlineCpus order { s with probes := probes } ∧ ProbeOk syn probe ∧
      ({ s with probes := probes } : State).Free syn.id := by
  obtain ⟨hnodup, hfresh, hfree⟩ := hinv.unlink { s with probes := probes } syn.id (by
      simp only [State.tokens, coe_of_pick hpick, Multiset.map_cons, Multiset.cons_add]) rfl
  refine ⟨{ hinv with probes := ?_, tokens := hnodup, fresh := hfresh }, ?_, hfree⟩
  · exact fun probe hprobe => hinv.probes probe ((mem_iff_of_pick hpick).mpr (.inr hprobe))
  · exact hinv.probes _ ((mem_iff_of_pick hpick).mpr (.inl rfl))

/-- The record of a probe that leaves the tunnel is in nobody's hands. -/
theorem dropFlight {f : Flight} {tunnel : List Flight}
    (hpick : pick s.tunnel k = some (f, tunnel)) :
    Inv numOnlineCpus order { s with tunnel := tunnel } ∧ f.Ok s.synSlab ∧
      ({ s with tunnel := tunnel } : State).Free f.syn.id ∧
      f.addresses ∉ ({ s with tunnel := tunnel } : State).records := by
  obtain ⟨hnodup, hfresh, hfree⟩ := hinv.unlink { s with tunnel := tunnel } f.syn.id (by
      simp only [State.tokens, coe_of_pick hpick, Multiset.map_cons, Multiset.cons_add,
        Multiset.add_cons]) rfl
  obtain ⟨hrecords, halone⟩ := hinv.release { s with tunnel := tunnel } f.addresses (by
      simp only [State.records, coe_of_pick hpick, Multiset.map_cons, Multiset.cons_add])
  refine ⟨{ hinv with
    tunnel := ?_, records := hrecords, tokens := hnodup, fresh := hfresh }, ?_, hfree, halone⟩
  · exact fun f' hf' => hinv.tunnel f' ((mem_iff_of_pick hpick).mpr (.inr hf'))
  · exact hinv.tunnel f ((mem_iff_of_pick hpick).mpr (.inl rfl))

theorem dropWorker {w : Worker} {workers : List Worker}
    (hpick : pick s.workers k = some (w, workers)) :
    Inv numOnlineCpus order { s with workers := workers } ∧ w.Ok numOnlineCpus s.synSlab ∧
      (w.pc ≠ .free → ({ s with workers := workers } : State).Free w.syn.id) ∧
      w.addresses ∉ ({ s with workers := workers } : State).records := by
  have htokens : s.tokens = w.tokens + ({ s with workers := workers } : State).tokens := by
    simp only [State.tokens, coe_of_pick hpick, Multiset.cons_bind]
    abel
  have hnodup := hinv.tokens
  rw [htokens, Multiset.nodup_add] at hnodup
  have hfresh : ∀ id ∈ w.tokens + ({ s with workers := workers } : State).tokens, id < s.next :=
    htokens ▸ hinv.fresh
  obtain ⟨hrecords, halone⟩ := hinv.release { s with workers := workers } w.addresses (by
      simp only [State.records, coe_of_pick hpick, Multiset.map_cons, Multiset.cons_add,
        Multiset.add_cons])
  refine ⟨{ hinv with
    workers := ?_, records := hrecords, tokens := hnodup.2.1, fresh := ?_ }, ?_, ?_, halone⟩
  · exact fun w' hw' => hinv.workers w' ((mem_iff_of_pick hpick).mpr (.inr hw'))
  · exact fun id hid => hfresh id (Multiset.mem_add.mpr (.inr hid))
  · exact hinv.workers w ((mem_iff_of_pick hpick).mpr (.inl rfl))
  · intro hpc
    have hmem : w.syn.id ∈ w.tokens := by
      rw [Worker.tokens, if_neg hpc]
      exact Multiset.mem_singleton_self _
    exact ⟨Multiset.disjoint_left.mp hnodup.2.2 hmem,
      hfresh _ (Multiset.mem_add.mpr (.inl hmem))⟩

theorem dropMessage {m : Message} {messages : List Message}
    (hpick : pick s.messages k = some (m, messages)) :
    Inv numOnlineCpus order { s with messages := messages } ∧ m.Ok order ∧
      ({ s with messages := messages } : State).Free m.syn.id := by
  obtain ⟨hnodup, hfresh, hfree⟩ := hinv.unlink { s with messages := messages } m.syn.id (by
      simp only [State.tokens, coe_of_pick hpick, Multiset.map_cons, Multiset.cons_add,
        Multiset.add_cons]) rfl
  refine ⟨{ hinv with messages := ?_, tokens := hnodup, fresh := hfresh }, ?_, hfree⟩
  · exact fun m' hm' => hinv.messages m' ((mem_iff_of_pick hpick).mpr (.inr hm'))
  · exact hinv.messages m ((mem_iff_of_pick hpick).mpr (.inl rfl))

end Drop

section Add

variable (hinv : Inv numOnlineCpus order s)
include hinv

/-- A record that nobody holds is overwritten. -/
theorem store {p : Ptr} (hp : p ∉ s.records) (record : Addresses) :
    Inv numOnlineCpus order { s with synSlab := Function.update s.synSlab p record } := by
  simp only [State.records, Multiset.mem_add, Multiset.mem_map, Multiset.mem_coe, not_or,
    not_exists, not_and] at hp
  obtain ⟨⟨htunnel, hworkers⟩, -⟩ := hp
  exact { hinv with
    tunnel := fun f hf => (hinv.tunnel f hf).frame (Function.update_of_ne (htunnel f hf) ..)
    workers := fun w hw => (hinv.workers w hw).frame (Function.update_of_ne (hworkers w hw) ..) }

theorem addProbe {probe : Probe} {skb : SkBuff} (hok : ProbeOk ⟨s.next, skb⟩ probe) :
    Inv numOnlineCpus order
      { s with next := s.next + 1, probes := (⟨s.next, skb⟩, probe) :: s.probes } := by
  have htokens : ({ s with
      next := s.next + 1, probes := (⟨s.next, skb⟩, probe) :: s.probes } : State).tokens =
        s.next ::ₘ s.tokens := by
    simp only [State.tokens, ← Multiset.cons_coe, Multiset.map_cons, Multiset.cons_add]
  refine { hinv with
    probes := List.forall_mem_cons.mpr ⟨hok, hinv.probes⟩, tokens := ?_, fresh := ?_ }
  · rw [htokens, Multiset.nodup_cons]
    exact ⟨fun hmem => Nat.lt_irrefl _ (hinv.fresh _ hmem), hinv.tokens⟩
  · rw [htokens, Multiset.forall_mem_cons]
    exact ⟨Nat.lt_succ_self _, fun id hid => Nat.lt_succ_of_lt (hinv.fresh id hid)⟩

theorem addFlight {f : Flight} (hok : f.Ok s.synSlab) (hfree : s.Free f.syn.id)
    (halone : f.addresses ∉ s.records) :
    Inv numOnlineCpus order { s with tunnel := f :: s.tunnel } := by
  obtain ⟨hnodup, hfresh⟩ := hinv.link { s with tunnel := f :: s.tunnel } hfree (by
    simp only [State.tokens, ← Multiset.cons_coe, Multiset.map_cons, Multiset.cons_add,
      Multiset.add_cons]) rfl
  have hrecords := hinv.hold { s with tunnel := f :: s.tunnel } halone (by
    simp only [State.records, ← Multiset.cons_coe, Multiset.map_cons, Multiset.cons_add])
  exact { hinv with
    tunnel := List.forall_mem_cons.mpr ⟨hok, hinv.tunnel⟩
    records := hrecords, tokens := hnodup, fresh := hfresh }

theorem addWorker {w : Worker} (hok : w.Ok numOnlineCpus s.synSlab)
    (hfree : w.pc ≠ .free → s.Free w.syn.id) (halone : w.addresses ∉ s.records) :
    Inv numOnlineCpus order { s with workers := w :: s.workers } := by
  have hrecords := hinv.hold { s with workers := w :: s.workers } halone (by
    simp only [State.records, ← Multiset.cons_coe, Multiset.map_cons, Multiset.cons_add,
      Multiset.add_cons])
  have htokens : ({ s with workers := w :: s.workers } : State).tokens = w.tokens + s.tokens := by
    simp only [State.tokens, ← Multiset.cons_coe, Multiset.cons_bind]
    abel
  have hworkers := List.forall_mem_cons.mpr ⟨hok, hinv.workers⟩
  by_cases hpc : w.pc = .free
  · rw [Worker.tokens, if_pos hpc, zero_add] at htokens
    exact { hinv with
      workers := hworkers, records := hrecords
      tokens := htokens ▸ hinv.tokens, fresh := htokens ▸ hinv.fresh }
  · rw [Worker.tokens, if_neg hpc, Multiset.singleton_add] at htokens
    obtain ⟨hnodup, hfresh⟩ := hinv.link _ (hfree hpc) htokens rfl
    exact { hinv with
      workers := hworkers, records := hrecords, tokens := hnodup, fresh := hfresh }

theorem addLeaked {p : Ptr} (halone : p ∉ s.records) :
    Inv numOnlineCpus order { s with leaked := p :: s.leaked } :=
  { hinv with
    records := hinv.hold _ halone (by
      simp only [State.records, ← Multiset.cons_coe, Multiset.add_cons]) }

theorem addMessage {m : Message} (hok : m.Ok order) (hfree : s.Free m.syn.id) :
    Inv numOnlineCpus order { s with messages := m :: s.messages } := by
  obtain ⟨hnodup, hfresh⟩ := hinv.link { s with messages := m :: s.messages } hfree (by
    simp only [State.tokens, ← Multiset.cons_coe, Multiset.map_cons, Multiset.cons_add,
      Multiset.add_cons]) rfl
  exact { hinv with
    messages := List.forall_mem_cons.mpr ⟨hok, hinv.messages⟩
    tokens := hnodup, fresh := hfresh }

theorem addConnection {syn : Syn} {tx : Socket} (hok : Connects syn.skb tx)
    (hfree : s.Free syn.id) :
    Inv numOnlineCpus order { s with connections := (syn, tx) :: s.connections } := by
  obtain ⟨hnodup, hfresh⟩ := hinv.link { s with connections := (syn, tx) :: s.connections }
    hfree (by simp only [State.tokens, ← Multiset.cons_coe, Multiset.map_cons, Multiset.add_cons])
    rfl
  exact { hinv with
    connections := List.forall_mem_cons.mpr ⟨hok, hinv.connections⟩
    tokens := hnodup, fresh := hfresh }

theorem start {w : Worker} (hok : w.Ok numOnlineCpus s.synSlab)
    (hfree : s.Free w.syn.id) (halone : w.addresses ∉ s.records) (pool : Bool) :
    Inv numOnlineCpus order (s.start pool w) := by
  cases pool with
  | true => exact hinv.addWorker hok (fun _ => hfree) halone
  | false => exact hinv.addLeaked halone

end Add

end Inv

/-! ## What the egress hook does -/

section Hook

variable {synSlab : Ptr → Addresses} {skb sent enc : SkBuff} {probe : Probe} {p : Ptr}

/-- A packet that the egress hook takes for a probe. -/
structure IsProbe (sent : SkBuff) : Prop where
  marked : sent.mark ≠ 0
  protocol : sent.iphdrProtocol sent.networkHeader = ipprotoTcp
  port : ntohs (sent.tcphdrSource sent.transportHeader) = cbpProbePort

theorem cbnEgressHook_none (hsent : IsProbe sent) :
    cbnEgressHook numOnlineCpus none synSlab sent = ⟨.nfDrop, sent, synSlab, none⟩ := by
  dsimp only [cbnEgressHook]
  rw [if_neg hsent.marked, if_pos hsent.protocol, if_pos hsent.port]

theorem cbnEgressHook_some (hsent : IsProbe sent) :
    cbnEgressHook numOnlineCpus (some p) synSlab sent =
      let record := probeRecord sent (synSlab p)
      if isOutGue sent then
        ⟨.nfAccept, setCbnProbe sent p, Function.update synSlab p record, none⟩
      else
        ⟨.nfDrop, sent, Function.update synSlab p record,
          some (.startNewConnectionSyn p (addresses2cpu numOnlineCpus record))⟩ := by
  dsimp only [cbnEgressHook]
  rw [if_neg hsent.marked, if_pos hsent.protocol, if_pos hsent.port]

theorem cbnEgressHook_udp (henc : UdpProbe enc) (hp : getCbnProbe enc = p) (hnull : p ≠ .null)
    (alloc : Option Ptr) :
    cbnEgressHook numOnlineCpus alloc synSlab enc =
      ⟨.nfDrop, enc, Function.update synSlab p
          { synSlab p with sinAddr := enc.iphdrDaddr enc.networkHeader },
        some (.startNewPreConnectionSyn p (addresses2cpu numOnlineCpus (synSlab p)))⟩ := by
  have htcp : enc.iphdrProtocol enc.networkHeader ≠ ipprotoTcp := by
    rw [henc.protocol]
    decide
  dsimp only [cbnEgressHook]
  rw [if_neg henc.marked, if_neg htcp, if_pos ⟨henc.protocol, henc.probe⟩, hp, if_neg hnull]

/-- Traffic that is none of the module's passes the hook untouched. -/
theorem cbnEgressHook_ordinary (hordinary : Ordinary skb) (alloc : Option Ptr) :
    cbnEgressHook numOnlineCpus alloc synSlab skb = ⟨.nfAccept, skb, synSlab, none⟩ := by
  dsimp only [cbnEgressHook]
  by_cases hmark : skb.mark = 0
  · rw [if_pos hmark]
  rw [if_neg hmark]
  by_cases htcp : skb.iphdrProtocol skb.networkHeader = ipprotoTcp
  · have hport : ntohs (skb.tcphdrSource skb.transportHeader) ≠ cbpProbePort :=
      fun hport => hordinary.1 ⟨htcp, hport⟩
    rw [if_pos htcp, if_neg hport]
  · rw [if_neg htcp, if_neg hordinary.2]

theorem cbnIngressHook_alloc {priv : String} {listnerRoot : BinaryTree CbnListner}
    {alloc : Bool} (hprobe : cbnIngressHook priv listnerRoot alloc skb = some probe) :
    priv = "RX" ∧ alloc = true := by
  rw [cbnIngressHook] at hprobe
  split at hprobe
  · cases hprobe
  rename_i hpriv
  split at hprobe
  · cases hprobe
  split at hprobe
  · cases hprobe
  split at hprobe
  · obtain ⟨halloc, -⟩ := Option.ite_none_right_eq_some.mp hprobe
    exact ⟨not_not.mp hpriv, halloc⟩
  · cases hprobe

/-- The packet of a probe is forty bytes long, and its ports are those of the SYN. -/
theorem ProbeOk.of_sent {syn : Syn} (hok : ProbeOk syn probe)
    (hsent : RawSent (startProbeSyn probe) sent) (old : Addresses) :
    IsProbe sent ∧ sent.transportHeader = 20 ∧ sent.data.length = 40 ∧
      Holds syn.skb (probeRecord sent old) ∧ (probeRecord sent old).src = synSource syn.skb := by
  obtain ⟨listnerRoot, hprobe⟩ := hok.hook
  obtain ⟨htransport, hmark, hmarked, hprotocol⟩ := hsent.header hprobe
  obtain ⟨hsource, hdest, hwindow⟩ := hsent.ports_of_ihl_five hprobe hok.ihl
  have htuple := (hsent.record_iff hprobe old).mpr ⟨hdest, hwindow⟩
  obtain ⟨hsrc, hdst⟩ := record_meets_iff.mpr htuple
  have hport : ntohs (sent.tcphdrSource sent.transportHeader) = cbpProbePort := by
    rw [hsource]
    rfl
  have hlength : (startProbeSyn probe).data.length = 40 := by
    have hip : probe.iphdr.length = 20 := probe.length_iphdr
    have htcp : probe.tcphdr.length = 20 := probe.length_tcphdr
    simp only [startProbeSyn, smuggleSource, List.length_append, List.length_set, hip, htcp]
  refine ⟨⟨hmarked, hprotocol, hport⟩, ?_, hsent.length.trans hlength,
    ⟨hdst, congrArg SockaddrIn.sinAddr hsrc, hmark⟩, hsrc⟩
  rw [htransport, hok.ihl]

/-- The pointer that a packet carries through the tunnel. -/
theorem Flight.Ok.getCbnProbe {f : Flight} (hok : f.Ok synSlab) {outer : List Byte}
    (henc : Encapsulated outer f.packet enc) : Packet.getCbnProbe enc = f.addresses := by
  obtain ⟨sent, hsent, htrailer, hpacket⟩ := hok.packet
  rw [hpacket] at henc
  rw [Ptr.eq_iff_bytes, getCbnProbe_bytes hsent.complete henc, htrailer, List.nil_append]
  exact List.take_of_length_le (le_of_eq f.addresses.length_bytes)

/-- The CPU of a record is the one at which the other side looks. -/
theorem addresses2cpu_eq {record : Addresses} (hholds : Holds skb record)
    (hsrc : record.src = synSource skb) :
    addresses2cpu numOnlineCpus record =
      qp2cpu numOnlineCpus (acceptedTuple (synDest skb) (synSource skb)) := by
  rw [addresses2cpu, record_meets_iff.mp ⟨hsrc, hholds.dest⟩]

end Hook

/-! ## Steps -/

section Egress

variable {syn : Syn} {sent enc : SkBuff} {p : Ptr} {pool : Bool}

theorem egress_none (hprobe : IsProbe sent) : s.egress numOnlineCpus syn none pool sent = s := by
  simp only [State.egress, cbnEgressHook_none hprobe]

theorem egress_tunnel (hprobe : IsProbe sent) (hgue : isOutGue sent = true) :
    s.egress numOnlineCpus syn (some p) pool sent =
      { s with
        synSlab := Function.update s.synSlab p (probeRecord sent (s.synSlab p))
        tunnel := ⟨syn, p, setCbnProbe sent p⟩ :: s.tunnel } := by
  simp only [State.egress, cbnEgressHook_some hprobe, hgue, if_true]

theorem egress_worker (hprobe : IsProbe sent) (hgue : isOutGue sent = false) :
    s.egress numOnlineCpus syn (some p) pool sent =
      State.start
        { s with synSlab := Function.update s.synSlab p (probeRecord sent (s.synSlab p)) } pool
        ⟨syn, none, p, addresses2cpu numOnlineCpus (probeRecord sent (s.synSlab p)), .soMark,
          .create⟩ := by
  simp only [State.egress, cbnEgressHook_some hprobe, hgue, Bool.false_eq_true, if_false]

theorem egress_carrier (henc : UdpProbe enc) (hp : getCbnProbe enc = p) (hnull : p ≠ .null)
    (alloc : Option Ptr) :
    s.egress numOnlineCpus syn alloc pool enc =
      State.start
        { s with
          synSlab := Function.update s.synSlab p
            { s.synSlab p with sinAddr := enc.iphdrDaddr enc.networkHeader } } pool
        ⟨syn, some (enc.iphdrDaddr enc.networkHeader), p,
          addresses2cpu numOnlineCpus (s.synSlab p), .pre, .create⟩ := by
  simp only [State.egress, cbnEgressHook_udp henc hp hnull]

end Egress

namespace Inv

theorem egress_probe (hinv : Inv numOnlineCpus order s) {syn : Syn} {probe : Probe}
    {sent : SkBuff} {alloc : Option Ptr} {pool : Bool} (hok : ProbeOk syn probe)
    (hfree : s.Free syn.id) (hsent : RawSent (startProbeSyn probe) sent)
    (halloc : ∀ p, alloc = some p → p ∉ s.records ∧ p ≠ .null) :
    Inv numOnlineCpus order (s.egress numOnlineCpus syn alloc pool sent) := by
  cases alloc with
  | none =>
      obtain ⟨hprobe, -⟩ := hok.of_sent hsent (s.synSlab .null)
      rw [egress_none hprobe]
      exact hinv
  | some p =>
      obtain ⟨halone, hnull⟩ := halloc p rfl
      obtain ⟨hprobe, htransport, hlength, hholds, hsrc⟩ := hok.of_sent hsent (s.synSlab p)
      let record := probeRecord sent (s.synSlab p)
      let stored : State := { s with synSlab := Function.update s.synSlab p record }
      have hstored : Inv numOnlineCpus order stored := hinv.store halone record
      have hself : stored.synSlab p = record := Function.update_self ..
      cases hgue : isOutGue sent with
      | true =>
          rw [egress_tunnel hprobe hgue]
          refine hstored.addFlight (f := ⟨syn, p, setCbnProbe sent p⟩) ?_
            ⟨hfree.outside, hfree.counted⟩ halone
          refine ⟨hself.symm ▸ hholds, hself.symm ▸ hsrc, hnull, sent, ?_, ?_, rfl⟩
          · refine ⟨hprobe.marked, hprobe.protocol, hprobe.port, hgue, ?_⟩
            rw [htransport, hlength]
            exact le_rfl
          · rw [SkBuff.trailer, htransport]
            exact List.drop_eq_nil_of_le (le_of_eq hlength)
      | false =>
          rw [egress_worker hprobe hgue]
          refine hstored.start (w := ⟨syn, none, p, addresses2cpu numOnlineCpus record, .soMark,
            .create⟩) ?_ ⟨hfree.outside, hfree.counted⟩ halone pool
          refine ⟨hself.symm ▸ hholds, fun _ => hself.symm ▸ hsrc, addresses2cpu_eq hholds hsrc,
            nofun, nofun, fun h => ?_, .inl rfl⟩
          rcases h with h | h <;> cases h

theorem egress_udp (hinv : Inv numOnlineCpus order s) {f : Flight} {outer : List Byte}
    {enc : SkBuff} {pool : Bool} (hok : f.Ok s.synSlab) (hfree : s.Free f.syn.id)
    (halone : f.addresses ∉ s.records) (henc : UdpProbe enc)
    (hcarried : Encapsulated outer f.packet enc) :
    Inv numOnlineCpus order (s.egress numOnlineCpus f.syn none pool enc) := by
  let hop := enc.iphdrDaddr enc.networkHeader
  let record := { s.synSlab f.addresses with sinAddr := hop }
  let stored : State := { s with synSlab := Function.update s.synSlab f.addresses record }
  have hstored : Inv numOnlineCpus order stored := hinv.store halone record
  have hself : stored.synSlab f.addresses = record := Function.update_self ..
  rw [egress_carrier henc (hok.getCbnProbe hcarried) hok.notNull]
  refine hstored.start (w := ⟨f.syn, some hop, f.addresses,
    addresses2cpu numOnlineCpus (s.synSlab f.addresses), .pre, .create⟩) ?_
    ⟨hfree.outside, hfree.counted⟩ halone pool
  refine ⟨hself.symm ▸ ⟨hok.holds.dest, hok.holds.addr, hok.holds.mark⟩,
    fun _ => hself.symm ▸ hok.src, addresses2cpu_eq hok.holds hok.src,
    fun _ => Option.some_ne_none _, ?_, fun h => ?_, .inl rfl⟩
  · intro hop' hhop
    cases hhop
    exact congrArg Addresses.sinAddr hself
  · rcases h with h | h <;> cases h

theorem worker (hinv : Inv numOnlineCpus order s) {w : Worker} {ws : List Worker} {act : Act}
    {k : ℕ} {before : State} (hwhole : Carried before (.work k act))
    (hok : w.Ok numOnlineCpus s.synSlab) (hfree : w.pc ≠ .free → s.Free w.syn.id)
    (halone : w.addresses ∉ s.records) (hnext : s.worker order w w.pc act = some (s', ws)) :
    Inv numOnlineCpus order { s' with workers := ws ++ s'.workers } := by
  -- The worker goes on with its record as it is.
  have hgoOn : ∀ {w' : Worker}, w'.addresses = w.addresses → w'.syn = w.syn → w.pc ≠ .free →
      w'.Ok numOnlineCpus s.synSlab →
      Inv numOnlineCpus order { s with workers := w' :: s.workers } := by
    intro w' haddresses hsyn hpc hok'
    exact hinv.addWorker hok' (fun _ => hsyn ▸ hfree hpc) (haddresses ▸ halone)
  have hleave : Inv numOnlineCpus order { s with leaked := w.addresses :: s.leaked } :=
    hinv.addLeaked halone
  have hdone : ({ w with pc := .free } : Worker).Ok numOnlineCpus s.synSlab :=
    ⟨hok.holds, nofun, hok.cpu, nofun, hok.hop, nofun, hok.bound⟩
  cases hpc : w.pc with
  | pre =>
      rw [hpc] at hnext hfree
      cases act with
      | go =>
          cases hnext
          refine hgoOn rfl rfl (hpc ▸ nofun) ⟨hok.holds, fun _ => hok.src (.inl hpc), hok.cpu,
            nofun, hok.hop, fun h => ?_, hok.bound⟩
          rcases h with h | h <;> cases h
      | forward padding early rc payload =>
          obtain ⟨rfl, rfl⟩ := hwhole
          cases hnext
          obtain ⟨hop, hhop⟩ := Option.ne_none_iff_exists'.mp (hok.carried hpc)
          have hmessage : Message.Ok order ⟨w.syn, w.hop, (s.synSlab w.addresses).sinAddr,
              [] ++ (addressesImage order padding (s.synSlab w.addresses)).take
                sizeofAddresses ++ payload⟩ :=
            ⟨by rw [hhop, hok.hop hop hhop],
              padding, s.synSlab w.addresses, payload, rfl, hok.holds, hok.src (.inl hpc)⟩
          exact (hinv.addMessage hmessage (hfree nofun)).addWorker hdone
            (fun hne => absurd rfl hne) halone
      | doubled => cases hnext
      | leave =>
          cases hnext
          exact hleave
  | soMark =>
      rw [hpc] at hnext hfree
      cases act with
      | go =>
          cases hnext
          refine hgoOn rfl rfl (hpc ▸ nofun) ⟨hok.holds, fun h => ?_, hok.cpu, fun h => ?_,
            hok.hop, fun _ => congrArg some hok.holds.mark, hok.bound⟩
          · exact hok.src (.inr hpc)
          · have hpre : (if s.ipTransparent then WorkerPc.bind else .connect) = .pre := h
            split at hpre <;> cases hpre
      | forward padding early rc payload => cases hnext
      | doubled =>
          cases hnext
          exact hgoOn rfl rfl (hpc ▸ nofun) hdone
      | leave =>
          cases hnext
          exact hleave
  | bind =>
      rw [hpc] at hnext hfree
      cases act with
      | go =>
          cases hnext
          let record := Addresses.anyPort (s.synSlab w.addresses)
          let stored : State := { s with synSlab := Function.update s.synSlab w.addresses record }
          have hstored : Inv numOnlineCpus order stored := hinv.store halone record
          have hself : stored.synSlab w.addresses = record := Function.update_self ..
          have hsrc : record.src = ⟨htons 0, (synSource w.syn.skb).sinAddr⟩ :=
            congrArg (SockaddrIn.mk (htons 0)) hok.holds.addr
          refine hstored.addWorker
            (w := { w with pc := .connect, tx := { w.tx with src := some record.src } }) ?_
            (fun _ => ⟨(hfree nofun).outside, (hfree nofun).counted⟩) halone
          refine ⟨hself.symm ▸ ⟨hok.holds.dest, hok.holds.addr, hok.holds.mark⟩, fun h => ?_,
            hok.cpu, nofun, hself.symm ▸ hok.hop, fun _ => hok.mark (.inl hpc),
            .inr (congrArg some hsrc)⟩
          rcases h with h | h <;> cases h
      | forward padding early rc payload => cases hnext
      | doubled => cases hnext
      | leave =>
          cases hnext
          exact hleave
  | connect =>
      rw [hpc] at hnext hfree
      cases act with
      | go =>
          cases hnext
          have hconnects : Connects w.syn.skb
              { w.tx with dest := some (s.synSlab w.addresses).dest } :=
            ⟨hok.mark (.inr hpc), congrArg some hok.holds.dest, hok.bound⟩
          exact (hinv.addConnection hconnects (hfree nofun)).addWorker hdone
            (fun hne => absurd rfl hne) halone
      | forward padding early rc payload => cases hnext
      | doubled => cases hnext
      | leave =>
          cases hnext
          exact hleave
  | free =>
      rw [hpc] at hnext
      cases act with
      | go =>
          cases hnext
          exact hinv
      | forward padding early rc payload => cases hnext
      | doubled => cases hnext
      | leave => cases hnext

/-- The next hop reads the record that was sent to it. -/
theorem pending (hinv : Inv numOnlineCpus order s) {m : Message} (hok : m.Ok order)
    (hfree : s.Free m.syn.id) {record : Addresses} {payload : List Byte}
    (hread : preconnWaitForNextHop order m.stream = some (record, payload))
    (ipTransparent : Bool) :
    Inv numOnlineCpus order { s with connections :=
      (m.syn, State.pendingSocket ipTransparent record) :: s.connections } := by
  obtain ⟨padding, sent, payload', hstream, hholds, -⟩ := hok.stream
  rw [hstream, preconnWaitForNextHop_image, Option.some.injEq, Prod.mk.injEq] at hread
  obtain ⟨rfl, rfl⟩ := hread
  refine hinv.addConnection
    ⟨congrArg some hholds.mark, congrArg some hholds.dest, ?_⟩ hfree
  cases ipTransparent with
  | true =>
      exact .inr (congrArg (fun addr => some (SockaddrIn.mk (htons 0) addr)) hholds.addr)
  | false => exact .inl rfl

theorem next (hinv : Inv numOnlineCpus order s) {synSlab : Ptr → Addresses} {label : Label}
    (hlabel : Carried s label)
    (hnext : (handover numOnlineCpus order synSlab).next s label = some s') :
    Inv numOnlineCpus order s' := by
  have hpicked : ∀ {α : Type} {list rest : List α} {k : ℕ} {x : α},
      pick list k = some (x, rest) → list[k]? = some x := by
    intro α list rest k x hpick
    obtain ⟨y, hy, hpair⟩ := Option.map_eq_some_iff.mp hpick
    cases hpair
    exact hy
  cases label with
  | ingress priv listnerRoot alloc pool skb =>
      simp only [handover] at hnext
      split at hnext
      · cases hnext
        exact hinv
      · rename_i probe hprobe
        obtain ⟨rfl, rfl⟩ := cbnIngressHook_alloc hprobe
        cases hnext
        cases pool with
        | true => exact hinv.addProbe ⟨⟨listnerRoot, hprobe⟩, hlabel⟩
        | false =>
            exact { hinv with fresh := fun id hid => Nat.lt_succ_of_lt (hinv.fresh id hid) }
  | probeSyn k sent alloc pool =>
      obtain ⟨⟨⟨syn, probe⟩, probes⟩, hpick, rfl⟩ := Option.map_eq_some_iff.mp hnext
      obtain ⟨hdropped, hok, hfree⟩ := hinv.dropProbe hpick
      exact hdropped.egress_probe hok hfree (hlabel.1 _ (hpicked hpick)) hlabel.2
  | loseProbe k =>
      obtain ⟨⟨⟨syn, probe⟩, probes⟩, hpick, rfl⟩ := Option.map_eq_some_iff.mp hnext
      exact (hinv.dropProbe hpick).1
  | encapsulate k enc pool =>
      obtain ⟨⟨f, tunnel⟩, hpick, rfl⟩ := Option.map_eq_some_iff.mp hnext
      obtain ⟨hdropped, hok, hfree, halone⟩ := hinv.dropFlight hpick
      obtain ⟨henc, hcarried⟩ := hlabel
      obtain ⟨outer, houter⟩ := hcarried f (hpicked hpick)
      exact hdropped.egress_udp hok hfree halone henc houter
  | lose k =>
      obtain ⟨⟨f, tunnel⟩, hpick, rfl⟩ := Option.map_eq_some_iff.mp hnext
      obtain ⟨hdropped, -, -, halone⟩ := hinv.dropFlight hpick
      exact hdropped.addLeaked halone
  | packet skb alloc =>
      simp only [handover, cbnEgressHook_ordinary hlabel, if_true, Option.some.injEq] at hnext
      subst hnext
      exact { hinv with wire := List.forall_mem_cons.mpr ⟨hlabel, hinv.wire⟩ }
  | transparent ipTransparent =>
      cases hnext
      exact { hinv with }
  | work k act =>
      obtain ⟨⟨w, workers⟩, hpick, hnext⟩ := Option.bind_eq_some_iff.mp hnext
      obtain ⟨⟨s₁, ws⟩, hworker, rfl⟩ := Option.map_eq_some_iff.mp hnext
      obtain ⟨hdropped, hok, hfree, halone⟩ := hinv.dropWorker hpick
      exact hdropped.worker hlabel hok hfree halone hworker
  | pending k ipTransparent =>
      obtain ⟨⟨m, messages⟩, hpick, hnext⟩ := Option.bind_eq_some_iff.mp hnext
      obtain ⟨⟨record, payload⟩, hread, rfl⟩ := Option.map_eq_some_iff.mp hnext
      obtain ⟨hdropped, hok, hfree⟩ := hinv.dropMessage hpick
      exact hdropped.pending hok hfree hread ipTransparent

end Inv

theorem inv_of_reachable {synSlab : Ptr → Addresses}
    (hreach : (handover numOnlineCpus order synSlab).ReachableUnder Carried s) :
    Inv numOnlineCpus order s := by
  refine hreach.invariant (P := Inv numOnlineCpus order) ?_ ?_
  · exact ⟨nofun, nofun, nofun, nofun, nofun, nofun, Multiset.nodup_zero, Multiset.nodup_zero,
      nofun⟩
  · exact fun before label after _ hinv hlabel hnext => hinv.next hlabel hnext

/-- However SYNs, probes, packets of the tunnel and workers interleave: no record is in
two hands, the worker of a SYN has the record of this SYN and runs on the CPU of its
connection, a record goes to the host to which its probe was on the way, and every
connection that is made has the mark, the destination and the client's address of the
one SYN that it is made for, whether it is made here or at the next hop.  No probe is let
out except into a tunnel. -/
theorem syn_reaches_destination (numOnlineCpus : BitVec 32) (order : ByteOrder)
    (synSlab : Ptr → Addresses) (s : State)
    (hreach : (handover numOnlineCpus order synSlab).ReachableUnder Carried s) :
    s.records.Nodup ∧
      (∀ w ∈ s.workers, Holds w.syn.skb (s.synSlab w.addresses) ∧
        w.cpu = qp2cpu numOnlineCpus
          (acceptedTuple (synDest w.syn.skb) (synSource w.syn.skb)) ∧
        ∀ hop, w.hop = some hop → (s.synSlab w.addresses).sinAddr = hop) ∧
      (∀ m ∈ s.messages, m.via = some m.hop ∧ ∃ record payload,
        preconnWaitForNextHop order m.stream = some (record, payload) ∧
          Holds m.syn.skb record ∧ record.src = synSource m.syn.skb) ∧
      (∀ c ∈ s.connections, Connects c.1.skb c.2) ∧
      (s.connections.map fun c => c.1.id).Nodup ∧
      ∀ skb ∈ s.wire, Ordinary skb := by
  have hinv := inv_of_reachable hreach
  refine ⟨hinv.records, fun w hw => ?workers, fun m hm => ?messages, hinv.connections,
    ?nodup, hinv.wire⟩
  case workers =>
    have hok := hinv.workers w hw
    exact ⟨hok.holds, hok.cpu, hok.hop⟩
  case messages =>
    have hok := hinv.messages m hm
    obtain ⟨padding, record, payload, hstream, hholds, hsrc⟩ := hok.stream
    refine ⟨hok.hop, record, payload, ?_, hholds, hsrc⟩
    rw [hstream, preconnWaitForNextHop_image]
  case nodup =>
    have hnodup := Multiset.nodup_add.mp hinv.tokens
    exact Multiset.coe_nodup.mp hnodup.2.1

/-! ## A SYN through the tunnel -/

theorem next_pending {synSlab : Ptr → Addresses} {k : ℕ} {m : Message} {messages : List Message}
    {record : Addresses} {payload : List Byte} (hpick : pick s.messages k = some (m, messages))
    (hread : preconnWaitForNextHop order m.stream = some (record, payload))
    (ipTransparent : Bool) :
    (handover numOnlineCpus order synSlab).next s (.pending k ipTransparent) =
      some { s with
        messages := messages
        connections := (m.syn, State.pendingSocket ipTransparent record) :: s.connections } := by
  simp only [handover, hpick, Option.bind_some, hread, Option.map_some]

/-- The packet that the raw socket makes of the probe, on a tunnel device. -/
def sentPacket : SkBuff :=
  { rawPacket (startProbeSyn (synProbe (synPacket 5 []))) 0 with devName := "gue1" }

def carrierPacket : SkBuff := gueEncapsulate (setCbnProbe sentPacket recordPtr)

def noPadding : Padding :=
  ⟨⟨2, 0⟩, (⟨0, 0, 0, 0⟩, ⟨0, 0, 0, 0⟩), ⟨0, 0⟩, (⟨0, 0, 0, 0⟩, ⟨0, 0, 0, 0⟩)⟩

theorem isProbe_sentPacket : IsProbe sentPacket where
  marked := show (7 : BitVec 32) ≠ 0 by decide
  protocol := by decide
  port := by decide

theorem udpProbe_carrierPacket : UdpProbe carrierPacket where
  marked := show (7 : BitVec 32) ≠ 0 by decide
  protocol := by decide
  probe := by decide

/-- One SYN on its way through the tunnel; the next hop connects for it. -/
theorem syn_reaches_destination_forwarded :
    ∃ s : State, s.connections.map Prod.snd =
        [⟨some 7, some ⟨⟨0, 0⟩, ⟨10, 0, 0, 1⟩⟩, some ⟨⟨0, 80⟩, ⟨10, 0, 0, 2⟩⟩⟩] ∧
      ∀ c ∈ s.connections, Connects c.1.skb c.2 := by
  let syn : Syn := ⟨0, synPacket 5 []⟩
  let probe := synProbe (synPacket 5 [])
  let record := probeRecord sentPacket emptyRecord
  let hop := carrierPacket.iphdrDaddr carrierPacket.networkHeader
  let empty : Ptr → Addresses := fun _ => emptyRecord
  let built := Function.update empty recordPtr record
  let slab := Function.update built recordPtr { built recordPtr with sinAddr := hop }
  let message : Message :=
    ⟨syn, some hop, (slab recordPtr).sinAddr,
      addressesImage .little noPadding (slab recordPtr) ++ [71, 69, 84]⟩
  let w : Worker :=
    ⟨syn, some hop, recordPtr, addresses2cpu 4 (built recordPtr), .pre, .create⟩
  let s₁ : State := ⟨true, empty, 1, [(syn, probe)], [], [], [], [], [], []⟩
  let s₂ : State :=
    ⟨true, built, 1, [], [⟨syn, recordPtr, setCbnProbe sentPacket recordPtr⟩], [], [], [], [], []⟩
  let s₃ : State := ⟨true, slab, 1, [], [], [w], [], [], [], []⟩
  let s₄ : State := ⟨true, slab, 1, [], [], [{ w with pc := .free }], [], [message], [], []⟩
  let s₅ : State := ⟨true, slab, 1, [], [], [{ w with pc := .free }], [], [],
    [(syn, State.pendingSocket true (slab recordPtr))], []⟩
  have h₁ : (handover 4 .little empty).ReachableUnder Carried s₁ := by
    refine Machine.ReachableUnder.init.take
      (.ingress "RX" synListnerRoot true true (synPacket 5 [])) ?_ ?_
    · exact (by decide : (synPacket 5 []).iphdrIhl 0 = 5)
    · simp only [handover, cbnIngressHook_synPacket 5 [] (by decide)]
      rfl
  have h₂ : (handover 4 .little empty).ReachableUnder Carried s₂ := by
    refine h₁.take (.probeSyn 0 sentPacket (some recordPtr) true) ⟨?_, ?_⟩ ?_
    · intro probe' hprobe
      cases hprobe
      exact ⟨rfl, rfl, rfl, rfl, fun _ _ _ => rfl⟩
    · intro p hp
      cases hp
      exact ⟨Multiset.notMem_zero _, by decide⟩
    · exact congrArg some (egress_tunnel isProbe_sentPacket (by decide))
  have h₃ : (handover 4 .little empty).ReachableUnder Carried s₃ := by
    refine h₂.take (.encapsulate 0 carrierPacket true)
      ⟨udpProbe_carrierPacket, fun flight hflight => ?_⟩ ?_
    · cases hflight
      exact ⟨gueHeaders, rfl, rfl, rfl⟩
    · exact congrArg some (egress_carrier udpProbe_carrierPacket (by decide) (by decide) none)
  have h₄ : (handover 4 .little empty).ReachableUnder Carried s₄ :=
    h₃.take (.work 0 (.forward noPadding [] sizeofAddresses [71, 69, 84])) ⟨rfl, rfl⟩ rfl
  have h₅ : (handover 4 .little empty).ReachableUnder Carried s₅ := by
    refine h₄.take (.pending 0 true) trivial ?_
    exact next_pending (s := s₄) (m := message) rfl
      (preconnWaitForNextHop_image .little noPadding (slab recordPtr) [71, 69, 84]) true
  refine ⟨s₅, by decide +kernel, ?_⟩
  exact (syn_reaches_destination 4 .little empty s₅ h₅).2.2.2.1

end KtcpSplit.Handover
