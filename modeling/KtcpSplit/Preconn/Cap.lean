import KtcpSplit.Lib.Bag
import KtcpSplit.Preconn.Model
import Mathlib.Algebra.BigOperators.Group.Finset.Basic
import Mathlib.Algebra.Order.BigOperators.Group.Finset

/-!
# The cap on idle pre-connections

A connection counts from the moment its batch is scheduled, for the CPU that its worker
is started for.  The cap holds as long as no batch is scheduled for a CPU that has
`PER_CORE_POOL_MAX` connections idle or on their way, and no worker that has ended up on
another CPU adds its connection to a list that is full with those on their way there.
-/

namespace KtcpSplit.PreconnPool

open KtcpSplit.Bag
open KtcpSplit.Preconn
open KtcpSplit.SearchTree
open KtcpSplit.Transition

variable {Cpu : Type*} [DecidableEq Cpu]

/-! ## Connections on their way -/

/-- One for a worker, and all calls that are left for a batch. -/
def Pc.pending (ip : NextHop) (cpu : Cpu) : Pc Cpu → ℕ
  | .batch _ ip' cpu' left _ => if ip' = ip ∧ cpu' = cpu then left else 0
  | .connect cpu' ip' => if ip' = ip ∧ cpu' = cpu then 1 else 0
  | .getSearch cpu' ip' _ => if ip' = ip ∧ cpu' = cpu then 1 else 0
  | .getAlloc cpu' ip' _ => if ip' = ip ∧ cpu' = cpu then 1 else 0
  | .getAdd cpu' ip' _ _ => if ip' = ip ∧ cpu' = cpu then 1 else 0
  | .add cpu' ip' _ _ => if ip' = ip ∧ cpu' = cpu then 1 else 0
  | _ => 0

/-- The connections of a next hop on the lists of a CPU. -/
def State.idle (s : State Cpu) (ip : NextHop) (cpu : Cpu) : ℕ :=
  ∑ id ∈ Finset.range s.next, (s.pcpList ⟨id, ip⟩ cpu).list.length

def State.pending (s : State Cpu) (ip : NextHop) (cpu : Cpu) : ℕ :=
  (s.threads.map (Pc.pending ip cpu)).sum

/-- Connections that begin to count for a next hop and a CPU. -/
structure Demand (Cpu : Type*) where
  ip : NextHop
  cpu : Cpu
  count : ℕ
  deriving DecidableEq

/-- A batch counts from now on, and so does the connection of a worker that adds it on
another CPU than the one that it was started for. -/
def Pc.demand (s : State Cpu) : Pc Cpu → Act Cpu → Option (Demand Cpu)
  | .cpus fill ip (cpu :: _), .go =>
      if fill.admits s cpu then some ⟨ip, cpu, perCorePoolMin⟩ else none
  | .add cpu ip _ _, .on here => if here = cpu then none else some ⟨ip, here, 1⟩
  | _, _ => none

def Pc.demandFor (s : State Cpu) (ip : NextHop) (cpu : Cpu) (pc : Pc Cpu) (act : Act Cpu) : ℕ :=
  ((pc.demand s act).map fun d => if d.ip = ip ∧ d.cpu = cpu then d.count else 0).getD 0

def poolCap : ℕ := perCorePoolMax + perCorePoolMin - 1

def Label.failsList : Label Cpu → Bool
  | .step (.getAlloc _ _ _) .failList => true
  | _ => false

/-- `alloc_reserved_percpu` succeeds. -/
def Listed (label : Label Cpu) : Prop := label.failsList = false

/-- What begins to count finds room: a batch fewer than `PER_CORE_POOL_MAX` connections
idle or on their way, and a worker on another CPU fewer than the cap. -/
def Room (s : State Cpu) (label : Label Cpu) : Prop :=
  Listed label ∧
    match label with
    | .step pc act => ∀ d ∈ pc.demand s act,
        s.idle d.ip d.cpu + s.pending d.ip d.cpu + d.count ≤ poolCap
    | _ => True

/-! ## The lists -/

/-- Addresses that were not given out hold empty lists, and pools in use have
theirs. -/
structure Allocated (s : State Cpu) : Prop where
  fresh : ∀ preconn, s.next ≤ preconn.id → ∀ cpu, s.pcpList preconn cpu = ⟨[], 0⟩
  tree : ∀ preconn ∈ inorder s.root, preconn.id < s.next

variable {s s' : State Cpu} {ip : NextHop} {cpu : Cpu}

omit [DecidableEq Cpu] in
theorem Allocated.idle_succ (halloc : Allocated s) :
    State.idle { s with next := s.next + 1 } ip cpu = s.idle ip cpu := by
  rw [State.idle, Finset.sum_range_succ, halloc.fresh ⟨s.next, ip⟩ (Nat.le_refl _)]
  rfl

omit [DecidableEq Cpu] in
/-- The next address may be given to a QP. -/
theorem Allocated.succ (halloc : Allocated s) : Allocated { s with next := s.next + 1 } where
  fresh := fun preconn hle cpu => halloc.fresh preconn (Nat.le_of_succ_le hle) cpu
  tree := fun preconn hmem => Nat.lt_succ_of_lt (halloc.tree preconn hmem)

omit [DecidableEq Cpu] in
/-- The lists of a new pool are empty as its memory was. -/
theorem Allocated.initPreconn (halloc : Allocated s) {preconn : CbnPreconnection}
    (hid : preconn.id = s.next) : s.initPreconn preconn = s := by
  have hlists : s.pcpList preconn = fun _ => ⟨[], 0⟩ := by
    funext cpu
    exact halloc.fresh preconn hid.ge cpu
  simp only [State.initPreconn, ← hlists, Function.update_eq_self]

/-- A change of one list changes one count. -/
theorem idle_setList {preconn : CbnPreconnection} (hid : preconn.id < s.next)
    (cpu' : Cpu) (pcpl : PercpuList) :
    (s.setList preconn cpu' pcpl).idle ip cpu +
        (if preconn.key = ip ∧ cpu' = cpu then (s.pcpList preconn cpu').list.length else 0) =
      s.idle ip cpu + if preconn.key = ip ∧ cpu' = cpu then pcpl.list.length else 0 := by
  rcases preconn with ⟨id₀, key⟩
  let list := if key = ip ∧ cpu' = cpu then pcpl else s.pcpList ⟨id₀, ip⟩ cpu
  have hlists : (fun id => (s.setList ⟨id₀, key⟩ cpu' pcpl).pcpList ⟨id, ip⟩ cpu) =
      Function.update (fun id => s.pcpList ⟨id, ip⟩ cpu) id₀ list := by
    funext id
    by_cases hid' : id = id₀
    case neg =>
      have hne : (⟨id, ip⟩ : CbnPreconnection) ≠ ⟨id₀, key⟩ := fun heq =>
        hid' (congrArg CbnPreconnection.id heq)
      simp only [State.setList, Function.update_of_ne hne, Function.update_of_ne hid']
    subst hid'
    rw [Function.update_self]
    by_cases hkey : key = ip
    case neg =>
      have hne : (⟨id, ip⟩ : CbnPreconnection) ≠ ⟨id, key⟩ := fun heq =>
        hkey (congrArg CbnPreconnection.key heq).symm
      simp only [list, State.setList, Function.update_of_ne hne, hkey, false_and, if_false]
    subst hkey
    by_cases hcpu : cpu' = cpu
    · subst hcpu
      simp only [list, State.setList, Function.update_self, and_self, if_true]
    · simp only [list, State.setList, Function.update_self,
        Function.update_of_ne (Ne.symm hcpu), hcpu, and_false, if_false]
  have hsum : (s.setList ⟨id₀, key⟩ cpu' pcpl).idle ip cpu +
      (s.pcpList ⟨id₀, ip⟩ cpu).list.length = s.idle ip cpu + list.list.length := by
    have hupdate := sum_update_add_of_mem (fun pcpl : PercpuList => pcpl.list.length)
      (fun id => s.pcpList ⟨id, ip⟩ cpu) (Finset.mem_range.mpr hid) list
    rw [← hlists] at hupdate
    exact hupdate
  simp only [list] at hsum
  split
  case isTrue hhere =>
    obtain ⟨rfl, rfl⟩ := hhere
    rw [if_pos ⟨rfl, rfl⟩] at hsum
    exact hsum
  case isFalse hthere =>
    rw [if_neg hthere] at hsum
    omega

/-! ## Steps -/

/-- The pool that a thread found or allocated for its next hop. -/
def Pc.preconn : Pc Cpu → Option CbnPreconnection
  | .alloc _ preconn => preconn
  | .getAdd _ _ _ preconn => some preconn
  | .add _ _ _ preconn => some preconn
  | _ => none

def Pc.hop : Pc Cpu → NextHop
  | .allocSearch ip => ip
  | .alloc ip _ => ip
  | .refill ip => ip
  | .poolSearch ip => ip
  | .cpus _ ip _ => ip
  | .batch _ ip _ _ _ => ip
  | .connect _ ip => ip
  | .getSearch _ ip _ => ip
  | .getAlloc _ ip _ => ip
  | .getAdd _ ip _ _ => ip
  | .add _ ip _ _ => ip

/-- A thread's pool is allocated and is that of its next hop. -/
def Pc.Valid (s : State Cpu) (pc : Pc Cpu) : Prop :=
  ∀ preconn, pc.preconn = some preconn → preconn.id < s.next ∧ preconn.key = pc.hop

/-- The counters of all lists are right. -/
def Counted (s : State Cpu) : Prop :=
  ∀ preconn cpu, (s.pcpList preconn cpu).len.toNat = (s.pcpList preconn cpu).list.length

/-- What one statement does to the lists: connections are not made up, and only what
begins to count adds to those of a CPU. -/
structure Effect (s s' : State Cpu) (pc : Pc Cpu) (act : Act Cpu) (pcs : List (Pc Cpu)) :
    Prop where
  allocated : Allocated s'
  counted : Counted s'
  valid : ∀ pc' ∈ pcs, pc'.Valid s'
  next : s.next ≤ s'.next
  balance : ∀ ip cpu, s'.idle ip cpu + (pcs.map (Pc.pending ip cpu)).sum ≤
    s.idle ip cpu + pc.pending ip cpu + pc.demandFor s ip cpu act

omit [DecidableEq Cpu] in
theorem valid_of_none {pc : Pc Cpu} (hnone : pc.preconn = none) : pc.Valid s := by
  intro preconn hpreconn
  rw [hnone] at hpreconn
  cases hpreconn

omit [DecidableEq Cpu] in
/-- A worker comes to `add_rb_preconn` with a pool of its next hop. -/
theorem valid_fresh {cpu : Cpu} {ip : NextHop} {qp : ℕ} :
    (Pc.getAdd cpu ip qp ⟨s.next, ip⟩).Valid { s with next := s.next + 1 } := by
  rintro _ ⟨⟩
  exact ⟨Nat.lt_succ_self _, rfl⟩

omit [DecidableEq Cpu] in
/-- A pool that the search returns is in the tree and has the key. -/
theorem Allocated.valid_search (halloc : Allocated s) {pc : Pc Cpu}
    (hpc : pc.preconn = searchRbPreconn s.root pc.hop) : pc.Valid s := by
  intro preconn hpreconn
  obtain ⟨hmem, hzero⟩ := search_sound (hpc.symm.trans hpreconn)
  exact ⟨halloc.tree preconn hmem, (keyDiff_eq_zero_iff pc.hop preconn).mp hzero⟩

/-- A statement that touches no list only hands the work on. -/
theorem Effect.same (halloc : Allocated s) (hcounted : Counted s) {pc : Pc Cpu} {act : Act Cpu}
    {pcs : List (Pc Cpu)} (hvalid : ∀ pc' ∈ pcs, pc'.Valid s)
    (hpending : ∀ ip cpu, (pcs.map (Pc.pending ip cpu)).sum ≤
      pc.pending ip cpu + pc.demandFor s ip cpu act) : Effect s s pc act pcs where
  allocated := halloc
  counted := hcounted
  valid := hvalid
  next := Nat.le_refl _
  balance := by
    intro ip cpu
    have hle := hpending ip cpu
    omega

omit [DecidableEq Cpu] in
/-- A thread that waits for no pool of its own. -/
theorem forall_valid_singleton {pc : Pc Cpu} (hvalid : pc.Valid s) :
    ∀ pc' ∈ [pc], pc'.Valid s := by
  intro pc' hpc'
  rw [List.mem_singleton.mp hpc']
  exact hvalid

theorem Effect.exit (halloc : Allocated s) (hcounted : Counted s) (pc : Pc Cpu)
    (act : Act Cpu) : Effect s s pc act [] :=
  .same halloc hcounted (fun _ hpc' => nomatch hpc') fun _ _ => Nat.zero_le _

/-- The thread goes on, with no more connections on their way than before. -/
theorem Effect.goOn (halloc : Allocated s) (hcounted : Counted s) {pc pc' : Pc Cpu}
    {act : Act Cpu} (hvalid : pc'.Valid s)
    (hpending : ∀ ip cpu, pc'.pending ip cpu ≤ pc.pending ip cpu) :
    Effect s s pc act [pc'] := by
  refine .same halloc hcounted (forall_valid_singleton hvalid) fun ip cpu => ?_
  rw [List.map_singleton, List.sum_singleton]
  exact (hpending ip cpu).trans (Nat.le_add_right _ _)

/-- The thread is given an address. -/
theorem Effect.allocate (halloc : Allocated s) (hcounted : Counted s) {pc pc' : Pc Cpu}
    {act : Act Cpu} (hvalid : pc'.Valid { s with next := s.next + 1 })
    (hpending : ∀ ip cpu, pc'.pending ip cpu = pc.pending ip cpu) :
    Effect s { s with next := s.next + 1 } pc act [pc'] where
  allocated := halloc.succ
  counted := hcounted
  valid := forall_valid_singleton hvalid
  next := Nat.le_succ _
  balance := by
    intro ip cpu
    rw [halloc.idle_succ, List.map_singleton, List.sum_singleton, hpending]
    exact Nat.le_add_right _ _

/-- What was freed is on no list. -/
theorem Effect.free (freed : List CbnPreconnection) {pc : Pc Cpu} {act : Act Cpu}
    {pcs : List (Pc Cpu)} (heffect : Effect s s' pc act pcs) :
    Effect s { s' with freed := freed } pc act pcs where
  allocated := ⟨heffect.allocated.fresh, heffect.allocated.tree⟩
  counted := heffect.counted
  valid := heffect.valid
  next := heffect.next
  balance := heffect.balance

theorem Allocated.setList (halloc : Allocated s) {preconn : CbnPreconnection}
    (hid : preconn.id < s.next) (pcpl : PercpuList) :
    Allocated (s.setList preconn cpu pcpl) where
  fresh := by
    intro preconn' hle cpu'
    have hne : preconn' ≠ preconn := by
      rintro rfl
      exact absurd hid (Nat.not_lt_of_le hle)
    simp only [State.setList, Function.update_of_ne hne]
    exact halloc.fresh preconn' hle cpu'
  tree := halloc.tree

theorem Counted.setList (hcounted : Counted s) (preconn : CbnPreconnection) (cpu : Cpu)
    {pcpl : PercpuList} (hpcpl : pcpl.len.toNat = pcpl.list.length) :
    Counted (s.setList preconn cpu pcpl) := by
  intro preconn' cpu'
  by_cases hpreconn : preconn' = preconn
  · subst hpreconn
    by_cases hcpu : cpu' = cpu
    · subst hcpu
      simp only [State.setList, Function.update_self]
      exact hpcpl
    · simp only [State.setList, Function.update_self, Function.update_of_ne hcpu]
      exact hcounted preconn' cpu'
  · simp only [State.setList, Function.update_of_ne hpreconn]
    exact hcounted preconn' cpu'

theorem Effect.draw (halloc : Allocated s) (hcounted : Counted s) {cpu : Cpu} {ip : NextHop}
    {preconn : CbnPreconnection} (hid : preconn.id < s.next) :
    Effect s (s.draw preconn cpu) (.alloc ip (some preconn)) (.on cpu) [.refill ip] := by
  cases hlist : (s.pcpList preconn cpu).list with
  | nil =>
      have hdraw : s.draw preconn cpu = s := by simp only [State.draw, hlist]
      rw [hdraw]
      exact .goOn halloc hcounted (valid_of_none rfl) fun _ _ => Nat.zero_le _
  | cons head rest =>
      let pcpl : PercpuList := ⟨rest, (s.pcpList preconn cpu).len - 1⟩
      have hdraw : s.draw preconn cpu = s.setList preconn cpu pcpl := by
        simp only [State.draw, hlist, pcpl]
      have hlen : (s.pcpList preconn cpu).len.toNat = rest.length + 1 := by
        rw [hcounted preconn cpu, hlist, List.length_cons]
      have hpcpl : pcpl.len.toNat = pcpl.list.length := by
        simp only [pcpl]
        bv_omega
      rw [hdraw]
      constructor
      case allocated => exact halloc.setList hid pcpl
      case counted => exact hcounted.setList preconn cpu hpcpl
      case valid => exact forall_valid_singleton (valid_of_none rfl)
      case next => exact Nat.le_refl _
      case balance =>
        intro ip' cpu'
        have hidle : (s.setList preconn cpu pcpl).idle ip' cpu' +
              (if preconn.key = ip' ∧ cpu = cpu' then rest.length + 1 else 0) =
            s.idle ip' cpu' + if preconn.key = ip' ∧ cpu = cpu' then rest.length else 0 := by
          rw [← List.length_cons (a := head), ← hlist]
          exact idle_setList hid cpu pcpl
        have hle : (s.setList preconn cpu pcpl).idle ip' cpu' ≤ s.idle ip' cpu' := by
          by_cases hhere : preconn.key = ip' ∧ cpu = cpu'
          · rw [if_pos hhere, if_pos hhere] at hidle
            omega
          · rw [if_neg hhere, if_neg hhere] at hidle
            omega
        exact hle.trans (Nat.le_add_right _ _)

/-- A finished worker's connection is on its way no more, but idle on the list of the CPU
that the worker runs on. -/
theorem Effect.listAdd (halloc : Allocated s) (hcounted : Counted s)
    (hlength : ∀ preconn cpu, (s.pcpList preconn cpu).list.length < 2 ^ 32 - 1)
    (cpu here : Cpu) {ip : NextHop} {qp : ℕ} {preconn : CbnPreconnection}
    (hid : preconn.id < s.next) (hkey : preconn.key = ip) :
    Effect s (s.listAdd preconn here qp) (.add cpu ip qp preconn) (.on here) [] := by
  let pcpl : PercpuList :=
    ⟨qp :: (s.pcpList preconn here).list, (s.pcpList preconn here).len + 1⟩
  have hlen := hcounted preconn here
  have hroom := hlength preconn here
  have hpcpl : pcpl.len.toNat = pcpl.list.length := by
    simp only [pcpl, List.length_cons]
    bv_omega
  constructor
  case allocated => exact halloc.setList hid pcpl
  case counted => exact hcounted.setList preconn here hpcpl
  case valid => exact fun _ hpc' => nomatch hpc'
  case next => exact Nat.le_refl _
  case balance =>
    intro ip' cpu'
    have hidle : (s.listAdd preconn here qp).idle ip' cpu' +
          (if ip = ip' ∧ here = cpu' then (s.pcpList preconn here).list.length else 0) =
        s.idle ip' cpu' +
          if ip = ip' ∧ here = cpu' then (s.pcpList preconn here).list.length + 1 else 0 := by
      rw [← hkey]
      exact idle_setList hid here pcpl
    rw [List.map_nil, List.sum_nil]
    by_cases hhere : ip = ip' ∧ here = cpu'
    · obtain ⟨rfl, rfl⟩ := hhere
      rw [if_pos ⟨rfl, rfl⟩, if_pos ⟨rfl, rfl⟩] at hidle
      -- it counted for this CPU already, or does so from now on
      have hcounts : 1 ≤ (Pc.add cpu ip qp preconn).pending ip here +
          (Pc.add cpu ip qp preconn).demandFor s ip here (.on here) := by
        by_cases hcpu : here = cpu
        · simp [Pc.pending, hcpu]
        · simp [Pc.demandFor, Pc.demand, hcpu]
      omega
    · rw [if_neg hhere, if_neg hhere] at hidle
      omega

/-- The pool is linked into the tree. -/
theorem Effect.link (halloc : Allocated s) (hcounted : Counted s) {cpu : Cpu} {ip : NextHop}
    {qp : ℕ} {preconn : CbnPreconnection} (hvalid : (Pc.getAdd cpu ip qp preconn).Valid s)
    {linked root : BinaryTree CbnPreconnection}
    (hadd : addRbPreconn s.root preconn = .linked linked)
    (hroot : inorder root = inorder linked) :
    Effect s { s with root := root } (.getAdd cpu ip qp preconn) (.link root)
      [.add cpu ip qp preconn] where
  allocated := by
    refine ⟨halloc.fresh, ?_⟩
    intro this hmem
    rw [hroot, mem_inorder_of_linked hadd] at hmem
    rcases hmem with rfl | hmem
    · exact (hvalid _ rfl).1
    · exact halloc.tree this hmem
  counted := hcounted
  valid := forall_valid_singleton hvalid
  next := Nat.le_refl _
  balance := by
    intro ip' cpu'
    simp only [List.map_cons, List.map_nil, List.sum_cons, List.sum_nil, Pc.pending]
    exact Nat.le_add_right _ _

/-- A batch is on its way to the next CPU if the command admits one. -/
theorem Effect.nextCpu (halloc : Allocated s) (hcounted : Counted s) {fill : Fill}
    {ip : NextHop} {cpu : Cpu} {rest : List Cpu} : Effect s s (.cpus fill ip (cpu :: rest)) .go
      [if fill.admits s cpu then .batch fill ip cpu perCorePoolMin rest
        else .cpus fill ip rest] := by
  apply Effect.same halloc hcounted
  case hvalid =>
    apply forall_valid_singleton
    split <;> exact valid_of_none rfl
  case hpending =>
    intro ip' cpu'
    simp only [List.map_cons, List.map_nil, List.sum_cons, List.sum_nil]
    by_cases hadmits : fill.admits s cpu
    · simp only [hadmits, if_true, Pc.pending, Pc.demandFor, Pc.demand, Option.map_some,
        Option.getD_some]
      omega
    · simp only [hadmits, Pc.pending]
      exact Nat.zero_le _

/-- A worker takes over one connection of the batch. -/
theorem Effect.spawn (halloc : Allocated s) (hcounted : Counted s) {fill : Fill}
    {ip : NextHop} {cpu : Cpu} {left : ℕ} {rest : List Cpu} :
    Effect s s (.batch fill ip cpu (left + 1) rest) .go
      [.connect cpu ip, .batch fill ip cpu left rest] := by
  apply Effect.same halloc hcounted
  case hvalid =>
    intro pc' hpc'
    rcases List.mem_cons.mp hpc' with rfl | hpc'
    · exact valid_of_none rfl
    · exact forall_valid_singleton (valid_of_none rfl) pc' hpc'
  case hpending =>
    intro ip' cpu'
    simp only [List.map_cons, List.map_nil, List.sum_cons, List.sum_nil, Pc.pending]
    split <;> omega

/-- What every statement does to the lists and the connections on their way. -/
theorem stepPc_effect (possible : List Cpu) (halloc : Allocated s) (hcounted : Counted s)
    (hlength : ∀ preconn cpu, (s.pcpList preconn cpu).list.length < 2 ^ 32 - 1)
    {pc : Pc Cpu} (hvalid : pc.Valid s) {act : Act Cpu} {pcs : List (Pc Cpu)}
    (hstep : stepPc possible s pc act = some (s', pcs)) : Effect s s' pc act pcs := by
  cases stepPc_cases hstep with
  | allocSearch => exact .goOn halloc hcounted (halloc.valid_search rfl) fun _ _ => Nat.zero_le _
  | noPool => exact .goOn halloc hcounted (valid_of_none rfl) fun _ _ => Nat.zero_le _
  | draw => exact .draw halloc hcounted (hvalid _ rfl).1
  | refill => exact .goOn halloc hcounted (valid_of_none rfl) fun _ _ => Nat.zero_le _
  | poolSearch => exact .goOn halloc hcounted (valid_of_none rfl) fun _ _ => Nat.zero_le _
  | nextCpu => exact .nextCpu halloc hcounted
  | batchDone => exact .goOn halloc hcounted (valid_of_none rfl) fun _ _ => Nat.zero_le _
  | spawn => exact .spawn halloc hcounted
  | spawnFails =>
      refine .goOn halloc hcounted (valid_of_none rfl) fun ip' cpu' => ?_
      simp only [Pc.pending]
      split <;> omega
  | connect => exact .allocate halloc hcounted (valid_of_none rfl) fun _ _ => rfl
  | found hsearch =>
      exact .goOn halloc hcounted (halloc.valid_search hsearch.symm) fun _ _ => Nat.le_refl _
  | notFound => exact .goOn halloc hcounted (valid_of_none rfl) fun _ _ => Nat.le_refl _
  | getAlloc =>
      rw [halloc.initPreconn rfl]
      exact .allocate halloc hcounted valid_fresh fun _ _ => rfl
  | @listFails cpu ip qp =>
      have heffect : Effect s { s with next := s.next + 1 } (.getAlloc cpu ip qp) .failList
          [.getAdd cpu ip qp ⟨s.next, ip⟩] :=
        .allocate halloc hcounted valid_fresh fun _ _ => rfl
      exact heffect.free _
  | link hadd hroot => exact .link halloc hcounted hvalid hadd hroot
  | add =>
      obtain ⟨hid, hkey⟩ := hvalid _ rfl
      exact .listAdd halloc hcounted hlength _ _ hid hkey
  | refillFails | lastCpu | connectFails | getAllocFails | duplicate _ =>
      exact .exit halloc hcounted _ _

/-! ## Runs -/

/-- Connections idle and on their way stay within the cap. -/
structure Capped (s : State Cpu) : Prop extends Allocated s where
  counted : Counted s
  valid : ∀ pc ∈ s.threads, pc.Valid s
  cap : ∀ ip cpu, s.idle ip cpu + s.pending ip cpu ≤ poolCap

theorem Capped.length_le (hcapped : Capped s) (preconn : CbnPreconnection) (cpu : Cpu) :
    (s.pcpList preconn cpu).list.length ≤ poolCap := by
  by_cases hid : preconn.id < s.next
  · have hle : (s.pcpList preconn cpu).list.length ≤ s.idle preconn.key cpu := by
      apply Finset.single_le_sum (f := fun id => (s.pcpList ⟨id, preconn.key⟩ cpu).list.length)
      · exact fun _ _ => Nat.zero_le _
      · exact Finset.mem_range.mpr hid
    have hcap := hcapped.cap preconn.key cpu
    omega
  · rw [hcapped.fresh preconn (Nat.le_of_not_lt hid) cpu]
    exact Nat.zero_le _

omit [DecidableEq Cpu] in
theorem Pc.Valid.mono {pc : Pc Cpu} (hvalid : pc.Valid s) (hnext : s.next ≤ s'.next) :
    pc.Valid s' := by
  intro preconn hpreconn
  obtain ⟨hid, hkey⟩ := hvalid preconn hpreconn
  exact ⟨Nat.lt_of_lt_of_le hid hnext, hkey⟩

/-- A command or a draw starts a thread that holds nothing. -/
theorem Capped.start (hcapped : Capped s) {pc : Pc Cpu} (hnone : pc.preconn = none)
    (hpending : ∀ ip cpu, pc.pending ip cpu = 0) :
    Capped { s with threads := pc ::ₘ s.threads } where
  toAllocated := ⟨hcapped.fresh, hcapped.tree⟩
  counted := hcapped.counted
  valid := by
    intro pc' hpc'
    rcases Multiset.mem_cons.mp hpc' with rfl | hpc'
    · exact valid_of_none hnone
    · exact hcapped.valid pc' hpc'
  cap := by
    intro ip cpu
    have hsame : State.pending { s with threads := pc ::ₘ s.threads } ip cpu =
        s.pending ip cpu := by
      rw [State.pending, Multiset.map_cons, Multiset.sum_cons, hpending, Nat.zero_add]
      rfl
    rw [hsame]
    exact hcapped.cap ip cpu

/-- A step of a thread replaces what it had on its way. -/
theorem pending_step {pc : Pc Cpu} (hpc : pc ∈ s.threads) (pcs : List (Pc Cpu)) :
    State.pending { s' with threads := s.threads.erase pc + ↑pcs } ip cpu + pc.pending ip cpu =
      s.pending ip cpu + (pcs.map (Pc.pending ip cpu)).sum := by
  have hold : s.pending ip cpu =
      pc.pending ip cpu + ((s.threads.erase pc).map (Pc.pending ip cpu)).sum := by
    rw [← Multiset.sum_cons, ← Multiset.map_cons, Multiset.cons_erase hpc]
    rfl
  have hnew : State.pending { s' with threads := s.threads.erase pc + ↑pcs } ip cpu =
      ((s.threads.erase pc).map (Pc.pending ip cpu)).sum +
        (pcs.map (Pc.pending ip cpu)).sum := by
    rw [State.pending, Multiset.map_add, Multiset.sum_add, Multiset.map_coe, Multiset.sum_coe]
  omega

/-- With room for a batch the cap is kept by every statement. -/
theorem Capped.step (possible : List Cpu) (hcapped : Capped s) {label : Label Cpu}
    (hroom : Room s label) (hnext : (pools possible).next s label = some s') :
    Capped s' := by
  cases label with
  | write ip =>
      simp only [pools] at hnext
      split at hnext <;> cases hnext
      · exact hcapped
      · exact hcapped.start rfl fun _ _ => rfl
  | draw ip =>
      cases hnext
      exact hcapped.start rfl fun _ _ => rfl
  | step pc act =>
      simp only [pools, Option.ite_none_right_eq_some] at hnext
      obtain ⟨hpc, hnext⟩ := hnext
      obtain ⟨⟨after, pcs⟩, hstep, rfl⟩ := Option.map_eq_some_iff.mp hnext
      have heffect := stepPc_effect possible hcapped.toAllocated hcapped.counted
        (fun preconn cpu => Nat.lt_of_le_of_lt (hcapped.length_le preconn cpu) (by decide))
        (hcapped.valid pc hpc) hstep
      constructor
      case toAllocated => exact ⟨heffect.allocated.fresh, heffect.allocated.tree⟩
      case counted => exact heffect.counted
      case valid =>
        intro pc' hpc'
        rcases Multiset.mem_add.mp hpc' with hpc' | hpc'
        · exact (hcapped.valid pc' (Multiset.mem_of_mem_erase hpc')).mono heffect.next
        · exact heffect.valid pc' hpc'
      case cap =>
        intro ip cpu
        suffices hle : after.idle ip cpu +
            State.pending { after with threads := s.threads.erase pc + ↑pcs } ip cpu ≤ poolCap from
          hle
        have hbalance := heffect.balance ip cpu
        have hpending :
            State.pending { after with threads := s.threads.erase pc + ↑pcs } ip cpu +
                pc.pending ip cpu =
              s.pending ip cpu + (pcs.map (Pc.pending ip cpu)).sum :=
          pending_step hpc pcs
        have hcap := hcapped.cap ip cpu
        cases hdemand : pc.demand s act with
        | none =>
            rw [Pc.demandFor, hdemand] at hbalance
            simp only [Option.map_none, Option.getD_none] at hbalance
            omega
        | some d =>
            have hfits := hroom.2 d hdemand
            rw [Pc.demandFor, hdemand] at hbalance
            simp only [Option.map_some, Option.getD_some] at hbalance
            split at hbalance
            · rename_i hhere
              obtain ⟨rfl, rfl⟩ := hhere
              omega
            · omega

theorem capped_init (possible : List Cpu) : Capped (pools possible).init where
  fresh := fun _ _ _ => rfl
  tree := fun _ hmem => absurd hmem List.not_mem_nil
  counted := fun _ _ => rfl
  valid := fun _ hpc => absurd hpc (Multiset.notMem_zero _)
  cap := fun _ _ => Nat.zero_le _

theorem capped_of_reachable (possible : List Cpu)
    (hreach : (pools possible).ReachableUnder Room s) : Capped s := by
  refine hreach.invariant (P := Capped) (capped_init possible) ?_
  intro before label after _ hcapped hroom hnext
  exact hcapped.step possible hroom hnext

/-- If a batch is scheduled only for a CPU with fewer than `PER_CORE_POOL_MAX`
connections idle or on their way, and a worker adds its connection on another CPU only
where fewer than the cap are, every list and its counter stay within the cap. -/
theorem preconn_list_capped (possible : List Cpu) (s : State Cpu)
    (hreach : (pools possible).ReachableUnder Room s) (preconn : CbnPreconnection)
    (cpu : Cpu) :
    (s.pcpList preconn cpu).list.length ≤ poolCap ∧
      (s.pcpList preconn cpu).len.toNat ≤ poolCap := by
  have hcapped := capped_of_reachable possible hreach
  have hlength := hcapped.length_le preconn cpu
  exact ⟨hlength, hcapped.counted preconn cpu ▸ hlength⟩

instance decidableListed (label : Label Cpu) : Decidable (Listed label) :=
  inferInstanceAs (Decidable (label.failsList = false))

instance decidableRoom (s : State Cpu) (label : Label Cpu) : Decidable (Room s label) :=
  match label with
  | .write _ => inferInstanceAs (Decidable (Listed _ ∧ True))
  | .draw _ => inferInstanceAs (Decidable (Listed _ ∧ True))
  | .step pc act => inferInstanceAs (Decidable (Listed _ ∧ ∀ d ∈ pc.demand s act, _))

/-! ## Repeated commands -/

/-- A command for the next hop 9 schedules four workers on the one CPU. -/
def writeRun : List (Label Unit) :=
  [.write 9, .step (.cpus .write 9 [()]) .go] ++
    (List.range 4).map (fun i => .step (.batch .write 9 () (4 - i) []) .go) ++
    [.step (.batch .write 9 () 0 []) .go, .step (.cpus .write 9 []) .go]

/-- The first worker allocates the pool. -/
def firstRun : List (Label Unit) :=
  [.step (.connect () 9) .go, .step (.getSearch () 9 0) .go, .step (.getAlloc () 9 0) .go,
    .step (.getAdd () 9 0 ⟨1, 9⟩) (.link (.node ⟨1, 9⟩ .nil .nil)),
    .step (.add () 9 0 ⟨1, 9⟩) (.on ())]

/-- The others find it. -/
def connectRun (qp : ℕ) : List (Label Unit) :=
  [.step (.connect () 9) .go, .step (.getSearch () 9 qp) .go, .step (.add () 9 qp ⟨1, 9⟩) (.on ())]

/-- One command fills the list with four connections. -/
theorem preconn_list_capped_first :
    ∃ s : State Unit, (s.pcpList ⟨1, 9⟩ ()).list = [4, 3, 2, 0] ∧
      (s.pcpList ⟨1, 9⟩ ()).len.toNat ≤ poolCap := by
  obtain ⟨s, hreach, hs⟩ := Machine.exists_reachable_of_run (pools [()]) Room
    (writeRun ++ firstRun ++ connectRun 2 ++ connectRun 3 ++ connectRun 4)
    (fun s => (s.pcpList ⟨1, 9⟩ ()).list) [4, 3, 2, 0] (by decide +kernel)
  exact ⟨s, hs, (preconn_list_capped [()] s hreach ⟨1, 9⟩ ()).2⟩

/-- After five commands the list is longer than the cap. -/
theorem five_commands_exceed_cap :
    ¬∀ s : State Unit, (pools [()]).Reachable s → ∀ preconn cpu,
      (s.pcpList preconn cpu).len.toNat ≤ poolCap := by
  intro hcapped
  obtain ⟨s, hreach, hs⟩ := Machine.exists_reachable_of_run (pools [()]) (fun _ _ => True)
    ((List.replicate 5 writeRun).flatten ++ firstRun ++
      ((List.range 19).map fun i => connectRun (i + 2)).flatten)
    (fun s => (s.pcpList ⟨1, 9⟩ ()).len) 20 (by decide +kernel)
  have hle := hcapped s hreach ⟨1, 9⟩ ()
  rw [hs] at hle
  exact absurd hle (by decide)

end KtcpSplit.PreconnPool
