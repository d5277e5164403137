import KtcpSplit.Preconn.Cap

/-!
# Every pre-connection is handed out once

A pre-connection goes from the worker that made it to the list of its next hop on the CPU
that the worker runs on, and from there to one caller of `alloc_prexeisting_conn` on that
CPU.  The machine below is that of the pools with a record of what became of every
connection.
-/

namespace KtcpSplit.PreconnPool

open KtcpSplit.Bag
open KtcpSplit.Preconn
open KtcpSplit.SearchTree
open KtcpSplit.Transition

/-- A connected QP and the next hop. -/
structure Conn where
  qp : ℕ
  ip : NextHop
  deriving DecidableEq

/-- The pools and the history of a run: the connections that were made, those that
workers added to a list and those that `alloc_prexeisting_conn` returned, with the CPU,
and those whose socket was released because `add_preconn_qp` failed. -/
structure Handed (Cpu : Type*) where
  pools : State Cpu
  connected : List Conn
  added : List (Cpu × Conn)
  given : List (Cpu × Conn)
  released : List Conn

variable {Cpu : Type*}

/-- The connection that a statement makes. -/
def connects (s : State Cpu) : Pc Cpu → Act Cpu → Option Conn
  | .connect _ ip, .go => some ⟨s.next, ip⟩
  | _, _ => none

/-- The connection that a statement puts on a list of its CPU. -/
def adds : Pc Cpu → Act Cpu → Option (Cpu × Conn)
  | .add _ ip qp _, .on here => some (here, ⟨qp, ip⟩)
  | _, _ => none

/-- The connection that a statement takes off a list of its CPU, for the next hop that the
caller asked for. -/
def gives (s : State Cpu) : Pc Cpu → Act Cpu → Option (Cpu × Conn)
  | .alloc ip (some preconn), .on cpu =>
      (s.pcpList preconn cpu).list.head?.map fun qp => (cpu, ⟨qp, ip⟩)
  | _, _ => none

/-- The connection whose socket is released after a statement. -/
def releases (s : State Cpu) : Pc Cpu → Act Cpu → Option Conn
  | .getAlloc _ ip qp, .fail => some ⟨qp, ip⟩
  | .getAdd _ ip qp preconn, .link _ =>
      match addRbPreconn s.root preconn with
      | .duplicate _ => some ⟨qp, ip⟩
      | .linked _ => none
  | _, _ => none

variable [DecidableEq Cpu]

def handOut (possible : List Cpu) : Machine (Handed Cpu) (Label Cpu) where
  init := ⟨(pools possible).init, [], [], [], []⟩
  next := fun h label =>
    ((pools possible).next h.pools label).map fun s =>
      match label with
      | .step pc act => {
          pools := s
          connected := (connects h.pools pc act).toList ++ h.connected
          added := (adds pc act).toList ++ h.added
          given := (gives h.pools pc act).toList ++ h.given
          released := (releases h.pools pc act).toList ++ h.released }
      | _ => { h with pools := s }

/-! ## Where a connection is -/

/-- The connection that a worker has made and not yet put on a list. -/
def Pc.carries : Pc Cpu → Option Conn
  | .getSearch _ ip qp => some ⟨qp, ip⟩
  | .getAlloc _ ip qp => some ⟨qp, ip⟩
  | .getAdd _ ip qp _ => some ⟨qp, ip⟩
  | .add _ ip qp _ => some ⟨qp, ip⟩
  | _ => none

def Pc.carried (conn : Conn) (pc : Pc Cpu) : ℕ := pc.carries.toList.count conn

def State.carried (s : State Cpu) (conn : Conn) : ℕ :=
  (s.threads.map (Pc.carried conn)).sum

/-- How often a connection is on the lists of its next hop and a CPU. -/
def State.listed (s : State Cpu) (cpu : Cpu) (conn : Conn) : ℕ :=
  ∑ id ∈ Finset.range s.next, (s.pcpList ⟨id, conn.ip⟩ cpu).list.count conn.qp

variable {s s' : State Cpu} {cpu : Cpu} {conn : Conn}

/-! ## The lists -/

omit [DecidableEq Cpu] in
theorem Allocated.listed_succ (halloc : Allocated s) :
    State.listed { s with next := s.next + 1 } cpu conn = s.listed cpu conn := by
  rw [State.listed, Finset.sum_range_succ, halloc.fresh ⟨s.next, conn.ip⟩ (Nat.le_refl _)]
  rfl

/-- A change of one list changes the count of the connections of its next hop and CPU. -/
theorem listed_setList (cpu' : Cpu) (conn : Conn) {preconn : CbnPreconnection}
    (hid : preconn.id < s.next) (cpu : Cpu) (pcpl : PercpuList) :
    (s.setList preconn cpu pcpl).listed cpu' conn +
        (if preconn.key = conn.ip ∧ cpu = cpu' then
          (s.pcpList preconn cpu).list.count conn.qp else 0) =
      s.listed cpu' conn +
        if preconn.key = conn.ip ∧ cpu = cpu' then pcpl.list.count conn.qp else 0 := by
  obtain ⟨id₀, key⟩ := preconn
  obtain ⟨qp, ip⟩ := conn
  by_cases hhere : key = ip ∧ cpu = cpu'
  case pos =>
    obtain ⟨rfl, rfl⟩ := hhere
    have hlists : (fun id => (s.setList ⟨id₀, key⟩ cpu pcpl).pcpList ⟨id, key⟩ cpu) =
        Function.update (fun id => s.pcpList ⟨id, key⟩ cpu) id₀ pcpl := by
      funext id
      by_cases hid' : id = id₀
      · subst hid'
        simp only [State.setList, Function.update_self]
      · have hne : (⟨id, key⟩ : CbnPreconnection) ≠ ⟨id₀, key⟩ := fun heq =>
          hid' (congrArg CbnPreconnection.id heq)
        simp only [State.setList, Function.update_of_ne hne, Function.update_of_ne hid']
    rw [if_pos ⟨rfl, rfl⟩, if_pos ⟨rfl, rfl⟩]
    have hupdate := sum_update_add_of_mem (fun pcpl : PercpuList => pcpl.list.count qp)
      (fun id => s.pcpList ⟨id, key⟩ cpu) (Finset.mem_range.mpr hid) pcpl
    rw [← hlists] at hupdate
    exact hupdate
  case neg =>
    rw [if_neg hhere, if_neg hhere]
    refine congrArg (· + 0) (Finset.sum_congr rfl fun id _ => ?_)
    -- another list is read
    by_cases hpreconn : (⟨id, ip⟩ : CbnPreconnection) = ⟨id₀, key⟩
    · have hcpu : cpu' ≠ cpu := fun heq =>
        hhere ⟨(congrArg CbnPreconnection.key hpreconn).symm, heq.symm⟩
      simp only [State.setList, hpreconn, Function.update_self, Function.update_of_ne hcpu]
    · simp only [State.setList, Function.update_of_ne hpreconn]

/-! ## Steps -/

/-- What one statement does with the connections: none is made up, and none is lost, by
the workers or from the lists. -/
structure Passes (s s' : State Cpu) (pc : Pc Cpu) (act : Act Cpu) (pcs : List (Pc Cpu)) :
    Prop where
  allocated : Allocated s'
  valid : ∀ pc' ∈ pcs, pc'.Valid s'
  next : s.next ≤ s'.next
  fresh : ∀ conn ∈ connects s pc act, conn.qp = s.next ∧ s.next < s'.next
  carried : ∀ conn, (pcs.map (Pc.carried conn)).sum +
      ((adds pc act).map Prod.snd).toList.count conn + (releases s pc act).toList.count conn =
    pc.carried conn + (connects s pc act).toList.count conn
  listed : ∀ cpu conn, s'.listed cpu conn + (gives s pc act).toList.count (cpu, conn) =
    s.listed cpu conn + (adds pc act).toList.count (cpu, conn)

/-- The thread goes on with what it carries. -/
theorem Passes.goOn (halloc : Allocated s) {pc pc' : Pc Cpu} {act : Act Cpu}
    (hvalid : pc'.Valid s) (hcarries : pc'.carries = pc.carries)
    (hconnects : connects s pc act = none) (hadds : adds pc act = none)
    (hgives : gives s pc act = none) (hreleases : releases s pc act = none) :
    Passes s s pc act [pc'] where
  allocated := halloc
  valid := forall_valid_singleton hvalid
  next := Nat.le_refl _
  fresh := by
    intro conn hconn
    rw [hconnects] at hconn
    cases hconn
  carried := by
    intro conn
    rw [hconnects, hadds, hreleases, List.map_singleton, List.sum_singleton, Pc.carried,
      Pc.carried, hcarries]
    rfl
  listed := by
    intro cpu conn
    rw [hgives, hadds]

/-- The thread ends, and what it carries is released. -/
theorem Passes.exit (halloc : Allocated s) {pc : Pc Cpu} {act : Act Cpu}
    (hreleases : releases s pc act = pc.carries) (hconnects : connects s pc act = none)
    (hadds : adds pc act = none) (hgives : gives s pc act = none) :
    Passes s s pc act [] where
  allocated := halloc
  valid := fun _ hpc' => nomatch hpc'
  next := Nat.le_refl _
  fresh := by
    intro conn hconn
    rw [hconnects] at hconn
    cases hconn
  carried := by
    intro conn
    rw [hconnects, hadds, hreleases, List.map_nil, List.sum_nil, Pc.carried]
    exact Nat.zero_add _
  listed := by
    intro cpu conn
    rw [hgives, hadds]

/-- The worker has connected its socket. -/
theorem Passes.connect (halloc : Allocated s) {cpu : Cpu} {ip : NextHop} :
    Passes s { s with next := s.next + 1 } (.connect cpu ip) .go
      [.getSearch cpu ip s.next] where
  allocated := halloc.succ
  valid := forall_valid_singleton (valid_of_none rfl)
  next := Nat.le_succ _
  fresh := by
    rintro conn ⟨⟩
    exact ⟨rfl, Nat.lt_succ_self _⟩
  carried := by
    intro conn
    rw [List.map_singleton, List.sum_singleton]
    exact (Nat.zero_add _).symm
  listed := by
    intro cpu conn
    rw [halloc.listed_succ]
    rfl

/-- The worker is given memory for a pool, for its lists or not. -/
theorem Passes.getAlloc (halloc : Allocated s) {cpu : Cpu} {ip : NextHop} {qp : ℕ}
    {act : Act Cpu} (freed : List CbnPreconnection)
    (hreleases : releases s (.getAlloc cpu ip qp) act = none) :
    Passes s { s with freed := freed, next := s.next + 1 } (.getAlloc cpu ip qp) act
      [.getAdd cpu ip qp ⟨s.next, ip⟩] where
  allocated := ⟨halloc.succ.fresh, halloc.succ.tree⟩
  valid := by
    apply forall_valid_singleton
    rintro _ ⟨⟩
    exact ⟨Nat.lt_succ_self _, rfl⟩
  next := Nat.le_succ _
  fresh := nofun
  carried := by
    intro conn
    rw [List.map_singleton, List.sum_singleton, hreleases]
    rfl
  listed := by
    intro cpu' conn
    have hsucc : State.listed { s with next := s.next + 1 } cpu' conn = s.listed cpu' conn :=
      halloc.listed_succ
    exact congrArg (· + 0) hsucc

/-- The pool is linked into the tree. -/
theorem Passes.link (halloc : Allocated s) {cpu : Cpu} {ip : NextHop} {qp : ℕ}
    {preconn : CbnPreconnection} (hvalid : (Pc.getAdd cpu ip qp preconn).Valid s)
    {linked root : BinaryTree CbnPreconnection}
    (hadd : addRbPreconn s.root preconn = .linked linked)
    (hroot : inorder root = inorder linked) :
    Passes s { s with root := root } (.getAdd cpu ip qp preconn) (.link root)
      [.add cpu ip qp preconn] where
  allocated := by
    refine ⟨halloc.fresh, ?_⟩
    intro this hmem
    rw [hroot, mem_inorder_of_linked hadd] at hmem
    rcases hmem with rfl | hmem
    · exact (hvalid _ rfl).1
    · exact halloc.tree this hmem
  valid := forall_valid_singleton hvalid
  next := Nat.le_refl _
  fresh := nofun
  carried := by
    intro conn
    rw [List.map_singleton, List.sum_singleton]
    simp only [releases, hadd]
    rfl
  listed := fun _ _ => rfl

/-- A worker takes over one connection of the batch. -/
theorem Passes.spawn (halloc : Allocated s) {fill : Fill} {ip : NextHop} {cpu : Cpu}
    {left : ℕ} {rest : List Cpu} :
    Passes s s (.batch fill ip cpu (left + 1) rest) .go
      [.connect cpu ip, .batch fill ip cpu left rest] where
  allocated := halloc
  valid := by
    intro pc' hpc'
    rcases List.mem_cons.mp hpc' with rfl | hpc'
    · exact valid_of_none rfl
    · exact forall_valid_singleton (valid_of_none rfl) pc' hpc'
  next := Nat.le_refl _
  fresh := nofun
  carried := fun _ => rfl
  listed := fun _ _ => rfl

omit [DecidableEq Cpu] in
theorem count_cons_eq (qp qp' : ℕ) (rest : List ℕ) :
    (qp :: rest).count qp' = [qp].count qp' + rest.count qp' := by
  rw [← List.count_append, List.singleton_append]

/-- A connection on a list is known by its QP, its next hop and the CPU. -/
theorem count_conn (cpu' : Cpu) (qp : ℕ) (ip : NextHop) :
    (some (cpu', (⟨qp, ip⟩ : Conn))).toList.count (cpu, conn) =
      if ip = conn.ip ∧ cpu' = cpu then [qp].count conn.qp else 0 := by
  obtain ⟨qp', ip'⟩ := conn
  simp only [Option.toList_some, List.count_singleton, beq_iff_eq, Prod.mk.injEq, Conn.mk.injEq]
  split <;> split <;> simp_all

/-- The first connection of the list is handed out. -/
theorem Passes.draw (halloc : Allocated s) {cpu : Cpu} {ip : NextHop}
    {preconn : CbnPreconnection} (hid : preconn.id < s.next) (hkey : preconn.key = ip) :
    Passes s (s.draw preconn cpu) (.alloc ip (some preconn)) (.on cpu) [.refill ip] := by
  cases hlist : (s.pcpList preconn cpu).list with
  | nil =>
      have hdraw : s.draw preconn cpu = s := by simp only [State.draw, hlist]
      rw [hdraw]
      refine .goOn halloc (valid_of_none rfl) rfl rfl rfl ?_ rfl
      simp only [gives, hlist]
      rfl
  | cons head rest =>
      have hdraw : s.draw preconn cpu =
          s.setList preconn cpu ⟨rest, (s.pcpList preconn cpu).len - 1⟩ := by
        simp only [State.draw, hlist]
      rw [hdraw]
      constructor
      case allocated => exact halloc.setList hid _
      case valid => exact forall_valid_singleton (valid_of_none rfl)
      case next => exact Nat.le_refl _
      case fresh =>
        intro conn hconn
        cases hconn
      case carried => exact fun _ => rfl
      case listed =>
        intro cpu' conn
        have hlisted := listed_setList cpu' conn hid cpu
          ⟨rest, (s.pcpList preconn cpu).len - 1⟩
        have hgives : gives s (.alloc ip (some preconn)) (.on cpu) = some (cpu, ⟨head, ip⟩) := by
          simp only [gives, hlist]
          rfl
        rw [hgives, count_conn]
        rw [hlist, hkey, count_cons_eq] at hlisted
        simp only [adds, Option.toList_none, List.count_nil]
        by_cases hhere : ip = conn.ip ∧ cpu = cpu'
        · rw [if_pos hhere, if_pos hhere] at hlisted
          rw [if_pos hhere]
          dsimp only at hlisted
          omega
        · rw [if_neg hhere, if_neg hhere] at hlisted
          rw [if_neg hhere]
          omega

/-- A worker puts its connection on a list of the CPU that it runs on. -/
theorem Passes.listAdd (halloc : Allocated s) (cpu here : Cpu) {ip : NextHop} {qp : ℕ}
    {preconn : CbnPreconnection} (hid : preconn.id < s.next) (hkey : preconn.key = ip) :
    Passes s (s.listAdd preconn here qp) (.add cpu ip qp preconn) (.on here) [] where
  allocated := halloc.setList hid _
  valid := fun _ hpc' => nomatch hpc'
  next := Nat.le_refl _
  fresh := nofun
  carried := fun _ => Nat.zero_add _
  listed := by
    intro cpu' conn
    have hlisted := listed_setList cpu' conn hid here
      ⟨qp :: (s.pcpList preconn here).list, (s.pcpList preconn here).len + 1⟩
    rw [hkey, count_cons_eq] at hlisted
    simp only [State.listAdd, gives, adds, count_conn, Option.toList_none, List.count_nil]
    by_cases hhere : ip = conn.ip ∧ here = cpu'
    · rw [if_pos hhere, if_pos hhere] at hlisted
      rw [if_pos hhere]
      omega
    · rw [if_neg hhere, if_neg hhere] at hlisted
      rw [if_neg hhere]
      omega

/-- What every statement does with the connections. -/
theorem stepPc_passes (possible : List Cpu) (halloc : Allocated s) {pc : Pc Cpu}
    (hvalid : pc.Valid s) {act : Act Cpu} {pcs : List (Pc Cpu)}
    (hstep : stepPc possible s pc act = some (s', pcs)) : Passes s s' pc act pcs := by
  cases stepPc_cases hstep with
  | allocSearch => exact .goOn halloc (halloc.valid_search rfl) rfl rfl rfl rfl rfl
  | draw =>
      obtain ⟨hid, hkey⟩ := hvalid _ rfl
      exact .draw halloc hid hkey
  | nextCpu => refine .goOn halloc (valid_of_none ?_) ?_ rfl rfl rfl rfl <;> split <;> rfl
  | spawn => exact .spawn halloc
  | connect => exact .connect halloc
  | found hsearch => exact .goOn halloc (halloc.valid_search hsearch.symm) rfl rfl rfl rfl rfl
  | getAlloc =>
      rw [halloc.initPreconn rfl]
      exact .getAlloc halloc s.freed rfl
  | listFails => exact .getAlloc halloc _ rfl
  | duplicate hadd =>
      refine .exit halloc ?_ rfl rfl rfl
      simp only [releases, hadd]
      rfl
  | link hadd hroot => exact .link halloc hvalid hadd hroot
  | add =>
      obtain ⟨hid, hkey⟩ := hvalid _ rfl
      exact .listAdd halloc _ _ hid hkey
  | noPool | refill | poolSearch | batchDone | spawnFails | notFound =>
      exact .goOn halloc (valid_of_none rfl) rfl rfl rfl rfl rfl
  | refillFails | lastCpu | connectFails | getAllocFails => exact .exit halloc rfl rfl rfl rfl

/-! ## Runs -/

/-- Every connection is at one place: with its worker, added or released, and if it was
added, on a list or handed out. -/
structure Accounted (h : Handed Cpu) : Prop extends Allocated h.pools where
  valid : ∀ pc ∈ h.pools.threads, pc.Valid h.pools
  qp_lt : ∀ conn ∈ h.connected, conn.qp < h.pools.next
  nodup : (h.connected.map Conn.qp).Nodup
  carried : ∀ conn, h.pools.carried conn + (h.added.map Prod.snd).count conn +
    h.released.count conn = h.connected.count conn
  listed : ∀ cpu conn, h.pools.listed cpu conn + h.given.count (cpu, conn) =
    h.added.count (cpu, conn)

variable {h h' : Handed Cpu}

/-- A command or a draw starts a thread that holds nothing. -/
theorem Accounted.start (haccounted : Accounted h) {pc : Pc Cpu} (hnone : pc.preconn = none)
    (hcarries : pc.carries = none) :
    Accounted { h with pools := { h.pools with threads := pc ::ₘ h.pools.threads } } where
  toAllocated := ⟨haccounted.fresh, haccounted.tree⟩
  valid := by
    intro pc' hpc'
    rcases Multiset.mem_cons.mp hpc' with rfl | hpc'
    · exact valid_of_none hnone
    · exact haccounted.valid pc' hpc'
  qp_lt := haccounted.qp_lt
  nodup := haccounted.nodup
  carried := by
    intro conn
    have hsame : State.carried { h.pools with threads := pc ::ₘ h.pools.threads } conn =
        h.pools.carried conn := by
      rw [State.carried, Multiset.map_cons, Multiset.sum_cons, Pc.carried, hcarries]
      exact Nat.zero_add _
    rw [hsame]
    exact haccounted.carried conn
  listed := haccounted.listed

/-- A step of a thread replaces what it carries. -/
theorem carried_step (s' : State Cpu) (conn : Conn) {pc : Pc Cpu} (hpc : pc ∈ s.threads)
    (pcs : List (Pc Cpu)) :
    State.carried { s' with threads := s.threads.erase pc + ↑pcs } conn + pc.carried conn =
      s.carried conn + (pcs.map (Pc.carried conn)).sum :=
  sum_map_erase_add (Pc.carried conn) hpc pcs

theorem Accounted.step (possible : List Cpu) (haccounted : Accounted h) {label : Label Cpu}
    (hnext : (handOut possible).next h label = some h') : Accounted h' := by
  obtain ⟨after, hpools, rfl⟩ := Option.map_eq_some_iff.mp hnext
  cases label with
  | write ip =>
      simp only [pools] at hpools
      split at hpools <;> cases hpools
      · exact haccounted
      · exact haccounted.start rfl rfl
  | draw ip =>
      cases hpools
      exact haccounted.start rfl rfl
  | step pc act =>
      simp only [pools, Option.ite_none_right_eq_some] at hpools
      obtain ⟨hpc, hpools⟩ := hpools
      obtain ⟨⟨after, pcs⟩, hstep, rfl⟩ := Option.map_eq_some_iff.mp hpools
      have hpasses := stepPc_passes possible haccounted.toAllocated
        (haccounted.valid pc hpc) hstep
      constructor
      case toAllocated => exact ⟨hpasses.allocated.fresh, hpasses.allocated.tree⟩
      case valid =>
        intro pc' hpc'
        rcases Multiset.mem_add.mp hpc' with hpc' | hpc'
        · exact (haccounted.valid pc' (Multiset.mem_of_mem_erase hpc')).mono hpasses.next
        · exact hpasses.valid pc' hpc'
      case qp_lt =>
        intro conn hconn
        rcases List.mem_append.mp hconn with hconn | hconn
        · obtain ⟨hqp, hlt⟩ := hpasses.fresh conn (Option.mem_toList.mp hconn)
          exact hqp ▸ hlt
        · exact Nat.lt_of_lt_of_le (haccounted.qp_lt conn hconn) hpasses.next
      case nodup =>
        change (((connects h.pools pc act).toList ++ h.connected).map Conn.qp).Nodup
        cases hconnects : connects h.pools pc act with
        | none => exact haccounted.nodup
        | some conn =>
            -- the address of the new QP is given out now
            have hqp := (hpasses.fresh conn hconnects).1
            refine List.nodup_cons.mpr ⟨fun hmem => ?_, haccounted.nodup⟩
            obtain ⟨conn', hconn', heq⟩ := List.mem_map.mp hmem
            have hlt := haccounted.qp_lt conn' hconn'
            omega
      case carried =>
        intro conn
        have hbefore := haccounted.carried conn
        have hpass := hpasses.carried conn
        have hcarried := carried_step after conn hpc pcs
        simp only [List.map_append, List.count_append, ← Option.toList_map]
        omega
      case listed =>
        intro cpu conn
        have hbefore := haccounted.listed cpu conn
        have hpass := hpasses.listed cpu conn
        have hlisted : State.listed { after with threads := h.pools.threads.erase pc + ↑pcs }
            cpu conn = after.listed cpu conn := rfl
        simp only [List.count_append]
        rw [hlisted]
        omega

theorem accounted_of_reachable (possible : List Cpu)
    {guard : Handed Cpu → Label Cpu → Prop}
    (hreach : (handOut possible).ReachableUnder guard h) : Accounted h := by
  refine hreach.invariant (P := Accounted) ?_ ?_
  · exact {
      fresh := fun _ _ _ => rfl
      tree := fun _ hmem => absurd hmem List.not_mem_nil
      valid := fun _ hpc => absurd hpc (Multiset.notMem_zero _)
      qp_lt := fun _ hconn => absurd hconn List.not_mem_nil
      nodup := List.nodup_nil
      carried := fun _ => rfl
      listed := fun _ _ => rfl }
  · intro before label after _ haccounted _ hnext
    exact haccounted.step possible hnext

/-! ## One place -/

omit [DecidableEq Cpu] in
theorem Allocated.lt_of_mem (halloc : Allocated s) {preconn : CbnPreconnection} {cpu : Cpu}
    {qp : ℕ} (hqp : qp ∈ (s.pcpList preconn cpu).list) : preconn.id < s.next := by
  by_contra hge
  rw [halloc.fresh preconn (Nat.le_of_not_lt hge) cpu] at hqp
  exact absurd hqp List.not_mem_nil

omit [DecidableEq Cpu] in
/-- The lists of two pools of one next hop do not share what is counted once. -/
theorem Allocated.count_add_le (halloc : Allocated s) {preconn preconn' : CbnPreconnection}
    {cpu : Cpu} (qp : ℕ) {qp' : ℕ} (hkey : preconn'.key = preconn.key) (hne : preconn' ≠ preconn)
    (hqp : qp' ∈ (s.pcpList preconn cpu).list) (hqp' : qp' ∈ (s.pcpList preconn' cpu).list) :
    (s.pcpList preconn cpu).list.count qp + (s.pcpList preconn' cpu).list.count qp ≤
      s.listed cpu ⟨qp, preconn.key⟩ := by
  obtain ⟨id, key⟩ := preconn
  obtain ⟨id', key'⟩ := preconn'
  obtain rfl : key' = key := hkey
  have hid : id' ≠ id := by
    rintro rfl
    exact hne rfl
  have hpair : ∑ i ∈ {id, id'}, (s.pcpList ⟨i, key'⟩ cpu).list.count qp =
      (s.pcpList ⟨id, key'⟩ cpu).list.count qp + (s.pcpList ⟨id', key'⟩ cpu).list.count qp :=
    Finset.sum_pair hid.symm
  rw [← hpair]
  apply Finset.sum_le_sum_of_subset
  intro i hi
  rcases Finset.mem_insert.mp hi with rfl | hi
  · exact Finset.mem_range.mpr (halloc.lt_of_mem hqp)
  · rw [Finset.mem_singleton.mp hi]
    exact Finset.mem_range.mpr (halloc.lt_of_mem hqp')

theorem Accounted.count_le (haccounted : Accounted h) (conn : Conn) :
    h.connected.count conn ≤ 1 :=
  List.nodup_iff_count_le_one.mp (haccounted.nodup.of_map _) conn

/-- A connection is added to one list of one CPU at most. -/
theorem Accounted.added_subperm (haccounted : Accounted h) :
    (h.added.map Prod.snd).Subperm h.connected := by
  refine List.subperm_ext_iff.mpr fun conn _ => ?_
  have hcarried := haccounted.carried conn
  omega

theorem Accounted.given_subperm (haccounted : Accounted h) : h.given.Subperm h.added := by
  refine List.subperm_ext_iff.mpr fun ⟨cpu, conn⟩ _ => ?_
  have hlisted := haccounted.listed cpu conn
  omega

theorem nodup_map_of_subperm {α β : Type*} {f : α → β} {l l' : List α} (hsub : l.Subperm l')
    (hnodup : (l'.map f).Nodup) : (l.map f).Nodup := by
  obtain ⟨front, hperm, hsublist⟩ := hsub
  exact (hperm.map f).nodup_iff.mp ((hsublist.map f).nodup hnodup)

theorem Accounted.added_nodup (haccounted : Accounted h) :
    (h.added.map fun entry => entry.2.qp).Nodup := by
  have hmap : h.added.map (fun entry => entry.2.qp) = (h.added.map Prod.snd).map Conn.qp := by
    rw [List.map_map]
    rfl
  rw [hmap]
  exact nodup_map_of_subperm haccounted.added_subperm haccounted.nodup

theorem Accounted.mem_connected (haccounted : Accounted h) {cpu : Cpu} {conn : Conn}
    (hadded : (cpu, conn) ∈ h.added) : conn ∈ h.connected :=
  haccounted.added_subperm.subset (List.mem_map_of_mem hadded)

/-- A QP has one next hop, and was added on one CPU. -/
theorem Accounted.added_inj (haccounted : Accounted h) {cpu cpu' : Cpu} {conn conn' : Conn}
    (hadded : (cpu, conn) ∈ h.added) (hadded' : (cpu', conn') ∈ h.added)
    (hqp : conn'.qp = conn.qp) : cpu' = cpu ∧ conn' = conn :=
  Prod.mk.inj (List.inj_on_of_nodup_map haccounted.added_nodup hadded' hadded hqp)

/-- What was added is on the list, or was handed out. -/
theorem Accounted.listed_add_given (haccounted : Accounted h) {cpu : Cpu} {conn : Conn}
    (hadded : (cpu, conn) ∈ h.added) :
    h.pools.listed cpu conn + h.given.count (cpu, conn) = 1 := by
  rw [haccounted.listed cpu conn]
  exact List.count_eq_one_of_mem (haccounted.added_nodup.of_map _) hadded

/-- What is on a list was added to it, by a worker that ran on its CPU. -/
theorem Accounted.mem_added (haccounted : Accounted h) {preconn : CbnPreconnection}
    {cpu : Cpu} {qp : ℕ} (hqp : qp ∈ (h.pools.pcpList preconn cpu).list) :
    (h.pools.pcpList preconn cpu).list.count qp ≤ h.pools.listed cpu ⟨qp, preconn.key⟩ ∧
      (cpu, ⟨qp, preconn.key⟩) ∈ h.added := by
  have hle : (h.pools.pcpList preconn cpu).list.count qp ≤
      h.pools.listed cpu ⟨qp, preconn.key⟩ := by
    apply Finset.single_le_sum
      (f := fun id => (h.pools.pcpList ⟨id, preconn.key⟩ cpu).list.count qp)
    · exact fun _ _ => Nat.zero_le _
    · exact Finset.mem_range.mpr (haccounted.toAllocated.lt_of_mem hqp)
  have hpos := List.count_pos_iff.mpr hqp
  have hlisted := haccounted.listed cpu ⟨qp, preconn.key⟩
  exact ⟨hle, List.count_pos_iff.mp (by omega)⟩

/-- Whatever commands, draws and workers do in any order, and whichever of them fail but
`alloc_reserved_percpu`, `alloc_prexeisting_conn` returns a connection that a worker made to
the next hop that it was asked for and added on the CPU on which it runs, it returns none
twice, and none that is still on a list.  Every connection that was made is with its worker,
was added once, or its socket was released; what was added is on its list or was handed out,
and an idle QP is on one list once. -/
theorem handed_out_once (possible : List Cpu) (h : Handed Cpu)
    (hreach : (handOut possible).ReachableUnder (fun _ label => Listed label) h) :
    (∀ cpu conn, (cpu, conn) ∈ h.given → conn ∈ h.connected ∧ (cpu, conn) ∈ h.added ∧
      h.pools.carried conn = 0 ∧ conn ∉ h.released ∧ ∀ cpu', h.pools.listed cpu' conn = 0) ∧
    (h.given.map fun entry => entry.2.qp).Nodup ∧
    (∀ conn ∈ h.connected, h.pools.carried conn + (h.added.map Prod.snd).count conn +
      h.released.count conn = 1) ∧
    (∀ cpu conn, (cpu, conn) ∈ h.added →
      h.pools.listed cpu conn + h.given.count (cpu, conn) = 1) ∧
    ∀ preconn cpu qp, qp ∈ (h.pools.pcpList preconn cpu).list →
      (cpu, ⟨qp, preconn.key⟩) ∈ h.added ∧
      (h.pools.pcpList preconn cpu).list.count qp = 1 ∧
      ∀ preconn' cpu', qp ∈ (h.pools.pcpList preconn' cpu').list →
        preconn' = preconn ∧ cpu' = cpu := by
  have haccounted := accounted_of_reachable possible hreach
  refine ⟨?given, nodup_map_of_subperm haccounted.given_subperm haccounted.added_nodup, ?made,
    fun cpu conn => haccounted.listed_add_given, ?lists⟩
  case given =>
    intro cpu conn hgiven
    have hadded := haccounted.given_subperm.subset hgiven
    have hone := haccounted.listed_add_given hadded
    have hgiven := List.count_pos_iff.mpr hgiven
    have hconn := List.count_pos_iff.mpr (List.mem_map_of_mem (f := Prod.snd) hadded)
    have hcarried := haccounted.carried conn
    have hle := haccounted.count_le conn
    dsimp only at hconn
    refine ⟨haccounted.mem_connected hadded, hadded, by omega,
      List.count_eq_zero.mp (by omega), fun cpu' => ?_⟩
    by_cases hcpu : cpu' = cpu
    · subst hcpu
      omega
    · have hnone : h.added.count (cpu', conn) = 0 :=
        List.count_eq_zero.mpr fun hadded' => hcpu (haccounted.added_inj hadded hadded' rfl).1
      have hlisted := haccounted.listed cpu' conn
      omega
  case made =>
    intro conn hconn
    rw [haccounted.carried conn]
    exact List.count_eq_one_of_mem (haccounted.nodup.of_map _) hconn
  case lists =>
    intro preconn cpu qp hqp
    obtain ⟨hle, hadded⟩ := haccounted.mem_added hqp
    have hone := haccounted.listed_add_given hadded
    have hpos := List.count_pos_iff.mpr hqp
    refine ⟨hadded, by omega, fun preconn' cpu' hqp' => ?_⟩
    -- the QP has one next hop and one CPU
    obtain ⟨-, hadded'⟩ := haccounted.mem_added hqp'
    obtain ⟨rfl, hsame⟩ := haccounted.added_inj hadded hadded' rfl
    refine ⟨?_, rfl⟩
    by_contra hne
    have hpos' := List.count_pos_iff.mpr hqp'
    have hadd := haccounted.toAllocated.count_add_le qp (Conn.mk.inj hsame).2 hne hqp hqp'
    omega

/-- The only worker of a command, started for one CPU, adds its connection on another. -/
def strayRun : List (Label Bool) :=
  [.write 9, .step (.cpus .write 9 [false, true]) .go] ++
    (List.range 4).map (fun i => .step (.batch .write 9 false (4 - i) [true]) .fail) ++
    [.step (.batch .write 9 false 0 [true]) .go, .step (.cpus .write 9 [true]) .go,
      .step (.batch .write 9 true 4 []) .go, .step (.connect true 9) .go,
      .step (.getSearch true 9 0) .go, .step (.getAlloc true 9 0) .go,
      .step (.getAdd true 9 0 ⟨1, 9⟩) (.link (.node ⟨1, 9⟩ .nil .nil)),
      .step (.add true 9 0 ⟨1, 9⟩) (.on false)]

/-- It is handed to a caller on that one. -/
theorem handed_out_once_stray :
    ∃ h : Handed Bool, h.given = [(false, ⟨0, 9⟩)] ∧ ⟨0, 9⟩ ∈ h.connected := by
  obtain ⟨h, hreach, hh⟩ := Machine.exists_reachable_of_run (handOut [false, true])
    (fun _ label => Listed label)
    (strayRun ++
      [.draw 9, .step (.allocSearch 9) .go, .step (.alloc 9 (some ⟨1, 9⟩)) (.on false)])
    (fun h => h.given) [(false, ⟨0, 9⟩)] (by decide +kernel)
  refine ⟨h, hh, ((handed_out_once [false, true] h hreach).1 false ⟨0, 9⟩ ?_).1⟩
  rw [hh]
  exact List.mem_singleton_self _

end KtcpSplit.PreconnPool
