import KtcpSplit.Lib.Ledger
import KtcpSplit.Packet.ProbePointer
import KtcpSplit.Packet.ProbeTuple
import Mathlib.Algebra.Order.Ring.Int
import Mathlib.Tactic.MkIffOfInductiveProp

/-!
# The records of the packets

A hook allocates a record for a packet and hands it to the thread pool, and the
worker that runs with it has to free it.  Each function below is the trace of
what it does to the record, by the outcomes of the calls that it makes.
-/

namespace KtcpSplit.Records

open KtcpSplit.ConnKey (ntohs)
open KtcpSplit.Ledger
open KtcpSplit.Listner
open KtcpSplit.Packet
open KtcpSplit.QpCpu

/-- A record of the `syn_slab`, the probe, and the socket of
`start_new_connection_syn`. -/
inductive Res
  | addresses (p : Ptr)
  | probe
  | tx
  deriving DecidableEq

/-! ## The workers -/

/-- The outcomes of the calls of `start_new_connection_syn`. -/
structure SynOutcome where
  qpSlab : Bool
  /-- `search_rb_listner` found a listener. -/
  listner : Bool
  /-- `qp_exists` returned a QP. -/
  qpExists : Bool
  sockCreate : ℤ
  nodelay : ℤ
  soMark : ℤ
  ipTransparent : Bool
  transparent : ℤ
  bind : ℤ
  connect : ℤ

/-- The label `connect_fail`. -/
def connectFail (tx : Bool) : List (Event Res) := if tx then [.release .tx] else []

/-- Without memory for the QP, and without a listener, it dereferences a null
pointer. -/
def startNewConnectionSyn (addresses : Ptr) (o : SynOutcome) : List (Event Res) :=
  let record := Res.addresses addresses
  let ifTransparent := fun events => if o.ipTransparent then events else []
  call [] o.qpSlab [] <|
  call [.access record] o.listner [] <|
  call [] o.qpExists [.access record, .release record] <|
  call [.access record] (o.sockCreate = 0) (connectFail false) <|
  call [.acquire .tx, .access .tx] (0 ≤ o.nodelay) (connectFail true) <|
  call [.access .tx, .access record] (0 ≤ o.soMark) (connectFail true) <|
  call (ifTransparent [.access .tx])
    (!o.ipTransparent || o.transparent = 0) (connectFail true) <|
  call (ifTransparent [.access record, .access .tx])
    (!o.ipTransparent || o.bind = 0) (connectFail true) <|
  call [.access record, .access .tx] (o.connect = 0) (connectFail true)
    -- The socket is the QP's now, and the wait for the peer does not use the record.
    [.release record]

structure PreOutcome where
  /-- `alloc_prexeisting_conn` returned a QP. -/
  preexisting : Bool
  listner : Bool
  qpExists : Bool
  forwardConnInfo : ℤ
  /-- The outcomes of `start_new_connection_syn`, where it is called. -/
  syn : SynOutcome

def startNewPreConnectionSyn (addresses : Ptr) (o : PreOutcome) : List (Event Res) :=
  let record := Res.addresses addresses
  call [.access record] o.preexisting (startNewConnectionSyn addresses o.syn) <|
  call [.access record] o.listner [.access record] <|
  call [] o.qpExists [] <|
  call [.access record] (0 < o.forwardConnInfo)
    (.access record :: startNewConnectionSyn addresses o.syn)
    [.release record]

/-- `kernel_sendmsg` dereferences the raw socket of the listener. -/
def startProbeSyn (raw : Bool) : List (Event Res) :=
  call [.access .probe] raw [] [.release .probe]

/-! ## The hooks -/

/-- What becomes of a record: whether `kthread_pool_run_cpu` accepts the work, and
the outcomes of the worker. -/
structure EgressWork where
  pool : Bool
  syn : SynOutcome
  pre : PreOutcome

/-- The end of the egress hook. -/
def runWork (o : EgressWork) : Option Work → List (Event Res)
  | none => []
  | some (.startNewConnectionSyn addresses _) =>
      call [.access (.addresses addresses)] o.pool [] (startNewConnectionSyn addresses o.syn)
  | some (.startNewPreConnectionSyn addresses _) =>
      call [.access (.addresses addresses)] o.pool [] (startNewPreConnectionSyn addresses o.pre)

section Egress

variable (numOnlineCpus : BitVec 32) (addresses : Ptr) (synSlab : Ptr → Addresses)
  (skb : SkBuff)

/-- The packet is a probe for which the egress hook allocates a record. -/
def BuildsAddresses : Prop :=
  skb.mark ≠ 0 ∧ skb.iphdrProtocol skb.networkHeader = ipprotoTcp ∧
    ntohs (skb.tcphdrSource skb.transportHeader) = cbpProbePort

def firstPass : EgressOutcome := cbnEgressHook numOnlineCpus (some addresses) synSlab skb

/-- The hook sees the packet in which the tunnel device sends the probe on. -/
def secondPass (carrier : SkBuff) : EgressOutcome :=
  cbnEgressHook numOnlineCpus none
    (firstPass numOnlineCpus addresses synSlab skb).synSlab carrier

/-- A probe that was accepted may come back inside of another packet. -/
def egressTrace (carrier : Option SkBuff) (o : EgressWork) : List (Event Res) :=
  let first := firstPass numOnlineCpus addresses synSlab skb
  .acquire (.addresses addresses) :: .access (.addresses addresses) ::
    (runWork o first.work ++
      match first.verdict, carrier with
      | .nfAccept, some carrier =>
          runWork o (secondPass numOnlineCpus addresses synSlab skb carrier).work
      | _, _ => [])

end Egress

/-- The hook sees a packet of a marked tunnel that is recognised as the carrier of a probe,
and the pointer that is read back from it is the record. -/
def Carries (addresses : Ptr) (carrier : Option SkBuff) : Prop :=
  ∃ enc, carrier = some enc ∧ UdpProbe enc ∧ getCbnProbe enc = addresses ∧ addresses ≠ .null

/-- The record of the ingress hook; `raw` says whether the listener of the probe
has its raw socket. -/
def ingressTrace (priv : String) (listnerRoot : BinaryTree CbnListner) (skb : SkBuff)
    (pool raw : Bool) : List (Event Res) :=
  match cbnIngressHook priv listnerRoot true skb with
  | none => []
  | some _ => .acquire .probe :: call [.access .probe] pool [] (startProbeSyn raw)

/-! ## The outcomes under which the record is freed -/

/-- All calls between `qp_exists` and the `kmem_cache_free` succeed. -/
@[mk_iff]
structure SynOutcome.Connects (o : SynOutcome) : Prop where
  sockCreate : o.sockCreate = 0
  nodelay : 0 ≤ o.nodelay
  soMark : 0 ≤ o.soMark
  transparent : o.ipTransparent = true → o.transparent = 0 ∧ o.bind = 0
  connect : o.connect = 0

def SynOutcome.Frees (o : SynOutcome) : Prop :=
  o.qpSlab = true ∧ o.listner = true ∧ (o.qpExists = true → o.Connects)

def PreOutcome.Frees (o : PreOutcome) : Prop :=
  if o.preexisting = true then
    o.listner = true ∧ o.qpExists = true ∧ (0 < o.forwardConnInfo ∨ o.syn.Frees)
  else o.syn.Frees

/-! ## The workers free their record -/

variable {p addresses : Ptr}

@[simp]
theorem status_connectFail {st : Status} {tx : Bool} :
    status (.addresses p) st (connectFail tx) = st := by
  cases tx <;> rfl

theorem status_startNewConnectionSyn {o : SynOutcome} :
    status (.addresses p) .held (startNewConnectionSyn p o) = .released ↔ o.Frees := by
  rw [SynOutcome.Frees, SynOutcome.connects_iff, startNewConnectionSyn]
  rw [released_call_iff rfl (by simp), released_call_iff (by simp) (by simp)]
  refine and_congr_right fun _ => and_congr_right fun _ => ?_
  rw [released_call_fail_iff rfl]
  cases o.qpExists
  · simp
  rw [if_pos rfl, released_call_iff (by simp) (by simp), released_call_iff (by simp) (by simp),
    released_call_iff (by simp) (by simp)]
  rw [released_call_iff (by cases o.ipTransparent <;> simp) (by simp),
    released_call_iff (by cases o.ipTransparent <;> simp) (by simp)]
  rw [released_call_iff (by simp) (by simp)]
  cases o.ipTransparent <;> simp [and_assoc]

theorem status_startNewPreConnectionSyn {o : PreOutcome} :
    status (.addresses p) .held (startNewPreConnectionSyn p o) = .released ↔ o.Frees := by
  rw [PreOutcome.Frees, startNewPreConnectionSyn, released_call_fail_iff (by simp),
    status_startNewConnectionSyn]
  cases o.preexisting
  · exact Iff.rfl
  rw [if_pos rfl, if_pos rfl, released_call_iff (by simp) (by simp),
    released_call_iff rfl (by simp)]
  refine and_congr_right fun _ => and_congr_right fun _ => ?_
  rw [released_call_fail_iff (by simp)]
  by_cases hforward : 0 < o.forwardConnInfo <;>
    simp [hforward, status_startNewConnectionSyn]

/-- A worker does not touch a record that is not its own. -/
theorem status_startNewConnectionSyn_ne {o : SynOutcome} {st : Status} (hne : p ≠ addresses) :
    status (.addresses addresses) st (startNewConnectionSyn p o) = st := by
  have hres : Res.addresses p ≠ Res.addresses addresses := fun h => hne (by injection h)
  cases htransparent : o.ipTransparent <;>
    simp [startNewConnectionSyn, htransparent, hres]

theorem status_startNewPreConnectionSyn_ne {o : PreOutcome} {st : Status}
    (hne : p ≠ addresses) :
    status (.addresses addresses) st (startNewPreConnectionSyn p o) = st := by
  have hres : Res.addresses p ≠ Res.addresses addresses := fun h => hne (by injection h)
  simp [startNewPreConnectionSyn, status_startNewConnectionSyn_ne hne, hres]

theorem status_startProbeSyn {raw : Bool} :
    status .probe .held (startProbeSyn raw) = .released ↔ raw = true := by
  rw [startProbeSyn, released_call_iff (by simp) (by simp)]
  exact and_iff_left rfl

/-! ## The hooks hand it over -/

section Egress

variable {numOnlineCpus : BitVec 32} {synSlab : Ptr → Addresses} {skb : SkBuff}
  {carrier : Option SkBuff} {o : EgressWork}

variable (numOnlineCpus addresses synSlab) in
/-- The egress hook on a probe. -/
theorem firstPass_eq (hbuilds : BuildsAddresses skb) :
    ((firstPass numOnlineCpus addresses synSlab skb).verdict,
      (firstPass numOnlineCpus addresses synSlab skb).work) =
      if isOutGue skb then (.nfAccept, none)
      else (.nfDrop, some (.startNewConnectionSyn addresses
        (addresses2cpu numOnlineCpus (probeRecord skb (synSlab addresses))))) := by
  obtain ⟨hmark, htcp, hport⟩ := hbuilds
  unfold firstPass cbnEgressHook
  simp only [hmark, htcp, hport, if_true, if_false]
  split <;> rfl

/-- Without a new record the egress hook starts nothing but the worker of a record that it
read back from the packet of a probe. -/
theorem work_secondPass_iff {enc : SkBuff} {work : Work} :
    (secondPass numOnlineCpus addresses synSlab skb enc).work = some work ↔
      UdpProbe enc ∧ getCbnProbe enc ≠ .null ∧
        work = .startNewPreConnectionSyn (getCbnProbe enc) (addresses2cpu numOnlineCpus
          ((firstPass numOnlineCpus addresses synSlab skb).synSlab (getCbnProbe enc))) := by
  unfold secondPass cbnEgressHook
  dsimp only
  by_cases hmark : enc.mark = 0
  · rw [if_pos hmark]
    exact iff_of_false nofun fun h => h.1.marked hmark
  rw [if_neg hmark]
  by_cases htcp : enc.iphdrProtocol enc.networkHeader = ipprotoTcp
  · have hudp : ¬UdpProbe enc := by
      intro henc
      rw [henc.protocol] at htcp
      exact absurd htcp (by decide)
    rw [if_pos htcp]
    refine iff_of_false ?_ fun h => hudp h.1
    split <;> exact nofun
  rw [if_neg htcp]
  by_cases hprobe : enc.iphdrProtocol enc.networkHeader = ipprotoUdp ∧ isCbnProbe enc
  · rw [if_pos hprobe]
    have henc : UdpProbe enc := ⟨hmark, hprobe.1, hprobe.2⟩
    by_cases hnull : getCbnProbe enc = .null
    · rw [if_pos hnull]
      exact iff_of_false nofun fun h => h.2.1 hnull
    · rw [if_neg hnull, Option.some.injEq]
      exact ⟨fun h => ⟨henc, hnull, h.symm⟩, fun h => h.2.2.symm⟩
  · rw [if_neg hprobe]
    exact iff_of_false nofun fun h => hprobe ⟨h.1.protocol, h.1.probe⟩

theorem status_runWork_pre {cpu : BitVec 32} :
    status (.addresses addresses) .held
        (runWork o (some (.startNewPreConnectionSyn p cpu))) = .released ↔
      p = addresses ∧ o.pool = true ∧ o.pre.Frees := by
  unfold runWork
  by_cases hp : p = addresses
  · subst hp
    rw [released_call_iff (by simp) (by simp), status_startNewPreConnectionSyn]
    exact (and_iff_right rfl).symm
  · have hres : Res.addresses p ≠ Res.addresses addresses := fun h => hp (by injection h)
    refine iff_of_false ?_ fun h => hp h.1
    simp [hres, status_startNewPreConnectionSyn_ne hp]

theorem egress_iff (hbuilds : BuildsAddresses skb) :
    FreedOnce (.addresses addresses)
        (egressTrace numOnlineCpus addresses synSlab skb carrier o) ↔
      o.pool = true ∧
        if isOutGue skb then Carries addresses carrier ∧ o.pre.Frees else o.syn.Frees := by
  have hfirst := firstPass_eq addresses numOnlineCpus synSlab hbuilds
  unfold egressTrace
  rw [freedOnce_acquire_iff, status_cons, res_access, if_pos rfl, after_access]
  by_cases hgue : isOutGue skb
  · rw [if_pos hgue, Prod.mk.injEq] at hfirst
    rw [hfirst.1, hfirst.2, if_pos hgue, status_append, runWork, status_nil]
    cases carrier with
    | none => exact iff_of_false (by simp) fun h => by obtain ⟨_, ⟨_, h, _⟩, _⟩ := h; cases h
    | some enc =>
        dsimp only
        cases hwork : (secondPass numOnlineCpus addresses synSlab skb enc).work with
        | none =>
            refine iff_of_false (by simp [runWork]) fun h => ?_
            obtain ⟨_, ⟨_, hcarrier, henc, rfl, hnull⟩, _⟩ := h
            cases hcarrier
            cases hwork.symm.trans (work_secondPass_iff.mpr ⟨henc, hnull, rfl⟩)
        | some work =>
            obtain ⟨henc, hnull, rfl⟩ := work_secondPass_iff.mp hwork
            rw [status_runWork_pre]
            constructor
            · rintro ⟨hread, hpool, hfrees⟩
              exact ⟨hpool, ⟨enc, rfl, henc, hread, hread ▸ hnull⟩, hfrees⟩
            · rintro ⟨hpool, ⟨_, hcarrier, -, hread, -⟩, hfrees⟩
              cases hcarrier
              exact ⟨hread, hpool, hfrees⟩
  · rw [if_neg hgue, Prod.mk.injEq] at hfirst
    rw [hfirst.1, hfirst.2, if_neg hgue]
    simp only [List.append_nil]
    rw [runWork, released_call_iff (by simp) (by simp), status_startNewConnectionSyn]

end Egress

theorem ingress_iff {priv : String} {listnerRoot : BinaryTree CbnListner} {skb : SkBuff}
    {probe : Probe} {pool raw : Bool}
    (hprobe : cbnIngressHook priv listnerRoot true skb = some probe) :
    FreedOnce .probe (ingressTrace priv listnerRoot skb pool raw) ↔
      pool = true ∧ raw = true := by
  rw [ingressTrace, hprobe]
  dsimp only
  rw [freedOnce_acquire_iff, released_call_iff (by simp) (by simp), status_startProbeSyn]

/-- Whatever packet a record was allocated for, it is freed exactly once if and
only if the pool accepts the work and the worker leaves through one of the exits
that free it. -/
theorem records_freed_once_iff (numOnlineCpus : BitVec 32) (addresses : Ptr)
    (synSlab : Ptr → Addresses) (skb : SkBuff) (carrier : Option SkBuff) (o : EgressWork)
    (priv : String) (listnerRoot : BinaryTree CbnListner) (pool raw : Bool) :
    (BuildsAddresses skb →
      (FreedOnce (.addresses addresses)
          (egressTrace numOnlineCpus addresses synSlab skb carrier o) ↔
        o.pool = true ∧
          if isOutGue skb then Carries addresses carrier ∧ o.pre.Frees else o.syn.Frees)) ∧
    ∀ probe, cbnIngressHook priv listnerRoot true skb = some probe →
      (FreedOnce .probe (ingressTrace priv listnerRoot skb pool raw) ↔
        pool = true ∧ raw = true) :=
  ⟨egress_iff, fun _ => ingress_iff⟩

/-- Every call succeeds. -/
def allSucceed : SynOutcome := ⟨true, true, true, 0, 0, 0, true, 0, 0, 0⟩

/-- A probe that a tunnel device sends on, and a traced SYN. -/
theorem records_freed_once_iff_tunnel :
    FreedOnce (.addresses recordPtr)
        (egressTrace 4 recordPtr (fun _ => emptyRecord) (probePacket [])
          (some (gueEncapsulate (setCbnProbe (probePacket []) recordPtr)))
          ⟨true, allSucceed, ⟨true, true, true, 36, allSucceed⟩⟩) ∧
      FreedOnce .probe (ingressTrace "RX" synListnerRoot (synPacket 5 []) true true) := by
  have hprobe := tunnelProbe_probePacket []
  constructor
  · refine ((records_freed_once_iff 4 recordPtr (fun _ => emptyRecord) (probePacket []) _ _
      "RX" .nil true true).1 ⟨hprobe.marked, hprobe.protocol, hprobe.port⟩).mpr ⟨rfl, ?_⟩
    rw [if_pos hprobe.gue]
    exact ⟨⟨_, rfl, udpProbe_gueEncapsulate _ _, by decide, by decide⟩, rfl, rfl,
      .inl (by decide)⟩
  · exact ((records_freed_once_iff 4 recordPtr (fun _ => emptyRecord) (synPacket 5 []) none
      ⟨true, allSucceed, ⟨true, true, true, 36, allSucceed⟩⟩ "RX" synListnerRoot true true).2 _
      (cbnIngressHook_synPacket 5 [] (by decide))).mpr ⟨rfl, rfl⟩

/-- The destination refuses the connection, and the record is leaked. -/
theorem record_leaked_on_refusal :
    ¬∀ (numOnlineCpus : BitVec 32) (addresses : Ptr) (synSlab : Ptr → Addresses)
      (skb : SkBuff) (o : EgressWork), BuildsAddresses skb → isOutGue skb = false →
      FreedOnce (.addresses addresses)
        (egressTrace numOnlineCpus addresses synSlab skb none o) := by
  intro hfreed
  let skb : SkBuff := { probePacket [] with devName := "eth0" }
  have hprobe := tunnelProbe_probePacket []
  have hleak := (freedOnce_acquire_iff.mp (hfreed 4 recordPtr (fun _ => emptyRecord) skb
    ⟨true, { allSucceed with connect := -111 }, ⟨true, true, true, 36, allSucceed⟩⟩
    ⟨hprobe.marked, hprobe.protocol, hprobe.port⟩ (by decide)))
  revert hleak
  decide

end KtcpSplit.Records
