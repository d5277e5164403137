import KtcpSplit.Packet.ProbeTuple
import KtcpSplit.Server.Exclusive

/-!
# Probes on the raw sockets of listeners

The ingress hook finds a listener as soon as it is registered, and the worker that sends
the probe reads its raw socket without a check.  The set-up stores the socket several
blocking calls after the registration, so a packet can be too early; a listener can also
be gone when the worker runs.  The status says how far the set-up has come, but only
after its first store: until then it is what the slab left there.
-/

namespace KtcpSplit.Probes

open KtcpSplit.Listner
open KtcpSplit.Packet
open KtcpSplit.SearchTree
open KtcpSplit.Server
open KtcpSplit.Transition

/-- A packet in `cbn_ingress_hook`, and the probe that is made of it. -/
inductive PacketPc
  | arrived
  /-- `kmem_cache_alloc` of the probe; `listner` is the one at the address. -/
  | alloc (l : ℕ)
  /-- `start_probe_syn` with `probe->listner`. -/
  | probe (l : ℕ)
  | over
  deriving DecidableEq

structure Config (W D K : Type*) where
  servers : Server.Config W D
  /-- The name of the hook, and the packet. -/
  packet : K → String × SkBuff

structure State (W D K : Type*) where
  servers : Server.State W D
  packet : K → PacketPc
  /-- The listener and the socket of the call of `kernel_sendmsg`. -/
  sent : K → Option (ℕ × SockPtr W)

inductive Label (W D K : Type*)
  | server (label : Server.Label W D)
  | packet (k : K) (act : Act)

variable {W D K : Type*}

/-- A read of `listner->raw`; what the slab does with a freed listener is not known. -/
def readRaw (s : Server.State W D) (l : ℕ) : SockPtr W :=
  if 0 < s.freed l then .garbage else (s.fields l).raw

variable [DecidableEq K]

def State.setPacket (s : State W D K) (k : K) (pc : PacketPc) : State W D K :=
  { s with packet := Function.update s.packet k pc }

def stepPacket (cfg : Config W D K) (s : State W D K) (k : K) :
    PacketPc → Act → Option (State W D K)
  | .arrived, .ok =>
      match cbnIngressHook (cfg.packet k).1 s.servers.root true (cfg.packet k).2 with
      | some probe => some (s.setPacket k (.alloc probe.listner.id))
      | none => some (s.setPacket k .over)
  | .alloc l, .ok => some (s.setPacket k (.probe l))
  | .alloc _, .fail => some (s.setPacket k .over)
  | .probe l, .ok =>
      some { s.setPacket k .over with
        sent := Function.update s.sent k (some (l, readRaw s.servers l)) }
  | _, _ => none

variable [DecidableEq W] [DecidableEq D]

def probes (cfg : Config W D K) : Machine (State W D K) (Label W D K) where
  init := {
    servers := (servers cfg.servers).init
    packet := fun _ => .arrived
    sent := fun _ => none }
  next := fun s label =>
    match label with
    | .server label =>
        ((servers cfg.servers).next s.servers label).map fun servers =>
          { s with servers := servers }
    | .packet k act => stepPacket cfg s k (s.packet k) act

/-- Every probe went out on the raw socket that the thread of its listener created; no
statement of the module releases one. -/
def SentOnRaw (s : State W D K) : Prop :=
  ∀ k l sock, s.sent k = some (l, sock) → ∃ w, s.servers.server w = some l ∧ sock = .sock w

/-- The set-up of the listener has come to status six: the field reads six, and its
thread has stored a status there. -/
def ReadsSix (servers : Server.State W D) (l : ℕ) : Prop :=
  (servers.fields l).status = 6 ∧
    ∀ w, servers.server w = some l → (servers.pc w).unwritten = false

instance decidableReadsSix [Fintype W] (servers : Server.State W D) (l : ℕ) :
    Decidable (ReadsSix servers l) :=
  inferInstanceAs (Decidable (_ ∧ _))

/-- The worker of a probe runs when the set-up of its listener has come to status six,
and no probe is made for a listener that was freed. -/
def PacketPc.Timely (servers : Server.State W D) (act : Act) : PacketPc → Prop
  | .alloc l => act.isFail = false → servers.freed l = 0
  | .probe l => ReadsSix servers l
  | _ => True

instance decidablePacketTimely [Fintype W] (servers : Server.State W D) (act : Act) :
    (pc : PacketPc) → Decidable (pc.Timely servers act)
  | .alloc l => inferInstanceAs (Decidable (act.isFail = false → servers.freed l = 0))
  | .probe l => inferInstanceAs (Decidable (ReadsSix servers l))
  | .arrived => isTrue trivial
  | .over => isTrue trivial

/-- As `PacketPc.Timely`, no listener is freed while a probe waits for its worker, and
`rb_erase` is called on linked listeners. -/
def Timely (s : State W D K) : Label W D K → Prop
  | .server label =>
      EraseLinked s.servers label ∧
        ∀ l ∈ s.servers.freeing label.party, ∀ k, s.packet k ≠ .probe l
  | .packet k act => (s.packet k).Timely s.servers act

instance decidableTimely [Fintype W] [Fintype K] (s : State W D K) :
    (label : Label W D K) → Decidable (Timely s label)
  | .server label => inferInstanceAs (Decidable (EraseLinked s.servers label ∧
      ∀ l ∈ s.servers.freeing label.party, ∀ k, s.packet k ≠ .probe l))
  | .packet k act => inferInstanceAs (Decidable ((s.packet k).Timely s.servers act))

variable {cfg : Config W D K} {s s' : State W D K}

omit [DecidableEq W] [DecidableEq D] in
/-- A step of a packet leaves the servers alone, and makes a probe in one case. -/
theorem stepPacket_cases {k : K} {act : Act}
    (hnext : stepPacket cfg s k (s.packet k) act = some s') :
    s'.servers = s.servers ∧ ∀ k' l, s'.packet k' = .probe l →
      s.packet k' = .probe l ∨ s.packet k = .alloc l ∧ act = .ok := by
  generalize hpc : s.packet k = pc at hnext
  have hmoved : ∀ pc' : PacketPc, ∀ k' l,
      Function.update s.packet k pc' k' = .probe l → s.packet k' = .probe l ∨ pc' = .probe l := by
    intro pc' k' l h
    by_cases hk : k' = k
    · rw [hk, Function.update_self] at h
      exact .inr h
    · rw [Function.update_of_ne hk] at h
      exact .inl h
  have hgone : ∀ k' l, Function.update s.packet k .over k' = .probe l → s.packet k' = .probe l :=
    fun k' l h => (hmoved _ k' l h).resolve_right fun heq => nomatch heq
  cases pc with
  | arrived =>
      cases act with
      | ok =>
          simp only [stepPacket] at hnext
          split at hnext <;> cases hnext
          · exact ⟨rfl, fun k' l h => .inl ((hmoved _ k' l h).resolve_right fun heq => nomatch heq)⟩
          · exact ⟨rfl, fun k' l h => .inl (hgone k' l h)⟩
      | _ => cases hnext
  | alloc l₀ =>
      cases act <;> cases hnext
      · refine ⟨rfl, fun k' l h => (hmoved _ k' l h).imp_right fun heq => ?_⟩
        cases heq
        exact ⟨rfl, rfl⟩
      · exact ⟨rfl, fun k' l h => .inl (hgone k' l h)⟩
  | probe l₀ =>
      cases act <;> cases hnext
      exact ⟨rfl, fun k' l h => .inl (hgone k' l h)⟩
  | _ => cases act <;> cases hnext

/-! ## The invariant -/

/-- A listener that a packet led to has a thread, and it exists while a probe waits. -/
structure Inv (s : State W D K) : Prop where
  wf : Wf s.servers
  alloc : ∀ k l, s.packet k = .alloc l → ∃ w, s.servers.server w = some l
  probe : ∀ k l, s.packet k = .probe l →
    (∃ w, s.servers.server w = some l) ∧ s.servers.freed l = 0
  sent : SentOnRaw s

theorem Inv.init : Inv (probes cfg).init where
  wf := show Wf (servers cfg.servers).init from Wf.init
  alloc := fun _ _ h => nomatch h
  probe := fun _ _ h => nomatch h
  sent := fun _ _ _ h => nomatch h

omit [DecidableEq K] in
theorem Inv.step_server (hinv : Inv s) {label : Server.Label W D}
    {servers' : Server.State W D} (hguard : Timely s (.server label))
    (hnext : (servers cfg.servers).next s.servers label = some servers') :
    Inv { s with servers := servers' } where
  wf := hinv.wf.step (effect_of_next hguard.1 hnext)
  alloc := by
    intro k l hpc
    obtain ⟨w, hserver⟩ := hinv.alloc k l hpc
    exact ⟨w, hinv.wf.server_mono (effect_of_next hguard.1 hnext) hserver⟩
  probe := by
    intro k l hpc
    obtain ⟨⟨w, hserver⟩, hfreed⟩ := hinv.probe k l hpc
    refine ⟨⟨w, hinv.wf.server_mono (effect_of_next hguard.1 hnext) hserver⟩, ?_⟩
    dsimp only
    cases (effect_of_next hguard.1 hnext).removal with
    | none _ _ _ _ hkept => rw [hkept, hfreed]
    | erase _ _ _ _ _ hkept => rw [hkept, hfreed]
    | free l' hfreeing _ _ _ hadded =>
        have hne : l ≠ l' := by
          rintro rfl
          exact hguard.2 l (by rw [hfreeing]; rfl) k hpc
        rw [hadded, Function.update_of_ne hne, hfreed]
  sent := by
    intro k l sock hsent
    obtain ⟨w, hserver, hsock⟩ := hinv.sent k l sock hsent
    exact ⟨w, hinv.wf.server_mono (effect_of_next hguard.1 hnext) hserver, hsock⟩

omit [DecidableEq W] [DecidableEq D] in
/-- A packet that is given another statement leaves the others where they are. -/
theorem Inv.setPacket (hinv : Inv s) (k : K) (pc : PacketPc)
    (halloc : ∀ l, pc = .alloc l → ∃ w, s.servers.server w = some l)
    (hprobe : ∀ l, pc = .probe l →
      (∃ w, s.servers.server w = some l) ∧ s.servers.freed l = 0) :
    Inv (s.setPacket k pc) where
  wf := hinv.wf
  alloc := by
    intro k' l hpc
    by_cases hk : k' = k
    · subst hk
      exact halloc l (by simpa [State.setPacket] using hpc)
    · exact hinv.alloc k' l (by simpa [State.setPacket, hk] using hpc)
  probe := by
    intro k' l hpc
    by_cases hk : k' = k
    · subst hk
      exact hprobe l (by simpa [State.setPacket] using hpc)
    · exact hinv.probe k' l (by simpa [State.setPacket, hk] using hpc)
  sent := hinv.sent

omit [DecidableEq W] [DecidableEq D] in
/-- A probe is made for a listener of the tree. -/
theorem linked_of_cbnIngressHook {servers : Server.State W D} {priv : String} {skb : SkBuff}
    {alloc : Bool} {probe : Probe}
    (hhook : cbnIngressHook priv servers.root alloc skb = some probe) :
    servers.Linked probe.listner.id := by
  unfold cbnIngressHook at hhook
  split at hhook
  · cases hhook
  split at hhook
  · cases hhook
  split at hhook
  · cases hhook
  rename_i listner hsearch
  split at hhook
  · split at hhook <;> cases hhook
    exact ⟨listner, (searchRbListner_sound hsearch).1, rfl⟩
  · cases hhook

omit [DecidableEq W] [DecidableEq D] in
theorem Inv.step_packet (hinv : Inv s) {k : K} {act : Act} (hguard : Timely s (.packet k act))
    (hnext : stepPacket cfg s k (s.packet k) act = some s') : Inv s' := by
  generalize hpc : s.packet k = pc at hnext
  change (s.packet k).Timely s.servers act at hguard
  rw [hpc] at hguard
  have hover : Inv (s.setPacket k .over) :=
    hinv.setPacket k _ (fun l heq => nomatch heq) fun l heq => nomatch heq
  cases pc with
  | arrived =>
      cases act with
      | ok =>
          simp only [stepPacket] at hnext
          split at hnext <;> cases hnext
          · rename_i probe hhook
            refine hinv.setPacket k _ (fun l heq => ?_) fun l heq => nomatch heq
            cases heq
            exact hinv.wf.known _ (.inl (linked_of_cbnIngressHook hhook))
          · exact hover
      | _ => cases hnext
  | alloc l =>
      cases act <;> cases hnext
      · refine hinv.setPacket k _ (fun l heq => nomatch heq) fun l' heq => ?_
        cases heq
        exact ⟨hinv.alloc k l hpc, hguard rfl⟩
      · exact hover
  | probe l =>
      cases act <;> cases hnext
      refine ⟨hover.wf, hover.alloc, hover.probe, ?_⟩
      intro k' l' sock hsent
      dsimp only at hsent
      by_cases hk : k' = k
      · subst hk
        rw [Function.update_self] at hsent
        cases hsent
        obtain ⟨⟨w, hserver⟩, hfreed⟩ := hinv.probe k' l hpc
        have hfields := hinv.wf.fields w l (hinv.wf.held_of_server hserver)
        refine ⟨w, hserver, ?_⟩
        rw [readRaw, if_neg (by omega)]
        exact hfields.status (hguard.2 w hserver) hguard.1
      · rw [Function.update_of_ne hk] at hsent
        exact hinv.sent k' l' sock hsent
  | _ => cases act <;> cases hnext

/-! ## Runs -/

/-- A probe is sent on a raw socket that its listener has, as long as neither the set-up
nor a removal is overtaken. -/
theorem probes_sent_on_raw (cfg : Config W D K) (s : State W D K)
    (hreach : (probes cfg).ReachableUnder Timely s) : SentOnRaw s := by
  have hinv : Inv s := by
    refine hreach.invariant Inv.init ?_
    intro before label after _ hinv hguard hnext
    cases label with
    | server label =>
        obtain ⟨servers', hserver, rfl⟩ := Option.map_eq_some_iff.mp hnext
        exact hinv.step_server hguard hserver
    | packet k act => exact hinv.step_packet hguard hnext
  exact hinv.sent

/-- A server of tenant 7 and a SYN with its mark. -/
def synConfig : Config Bool Unit Unit where
  servers := tenant
  packet := fun _ => ("RX", synPacket 5 [])

theorem probes_sent_on_raw_syn :
    ∃ s : State Bool Unit Unit,
      SentOnRaw s ∧ s.sent () = some (0, .sock false) ∧ s.servers.freed 0 = 1 := by
  obtain ⟨s, hreach, hs⟩ := Machine.exists_reachable_of_run (probes synConfig) Timely
    [.server (.split false .ok), .server (.split false (.slab 6)),
      .server (.split false (.tree (oneListner 0))), .packet () .ok, .server (.split false .ok),
      .server (.split false .ok), .server (.split false .ok), .server (.split false .ok),
      .packet () .ok, .server (.split false .ok), .server (.split false .ok), .packet () .ok,
      .server (.remove () .ok), .server (.remove () .ok),
      .server (.remove () (.tree .nil)), .server (.remove () .ok)]
    (fun s => (s.sent (), s.servers.freed 0)) (some (0, .sock false), 1) (by decide +kernel)
  simp only [Prod.mk.injEq] at hs
  exact ⟨s, probes_sent_on_raw synConfig s hreach, hs⟩

/-- A SYN that arrives right after the registration: the raw socket is read before
anything was stored there. -/
theorem probe_sent_on_garbage :
    ∃ s, (probes synConfig).Reachable s ∧ s.sent () = some (0, .garbage) ∧ ¬ SentOnRaw s := by
  obtain ⟨s, hreach, hs⟩ := Machine.exists_reachable_of_run (probes synConfig)
    (fun _ _ => True)
    [.server (.split false .ok), .server (.split false (.slab 6)),
      .server (.split false (.tree (oneListner 0))), .packet () .ok, .packet () .ok,
      .packet () .ok]
    (fun s => s.sent ()) (some (0, .garbage)) (by decide +kernel)
  refine ⟨s, hreach, hs, fun hsent => ?_⟩
  obtain ⟨w, -, hsock⟩ := hsent () 0 .garbage hs
  cases hsock

end KtcpSplit.Probes
