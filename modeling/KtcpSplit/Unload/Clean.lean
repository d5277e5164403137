import KtcpSplit.Lib.Ledger
import KtcpSplit.Pool.Tasks
import KtcpSplit.Preconn.Model
import KtcpSplit.Unload.StopSockets

/-!
# Unloading the module

`cbn_datapath_clean` walks two lists of pre-connections to which nothing is ever
added, stops the refill thread and destroys the slabs.  What the pools hold lies
elsewhere: the idle connections on the lists per CPU of the pools in the tree, the
elements of the thread pool in its allocator.
-/

namespace KtcpSplit.Unload

open KtcpSplit.Bag
open KtcpSplit.Ledger
open KtcpSplit.Preconn
open KtcpSplit.SearchTree
open KtcpSplit.Transition

/-! ## Where the connections are -/

section Pools

open KtcpSplit.PreconnPool

variable {Cpu : Type*}

/-- The pool that a thread found in the tree or linked there. -/
def linkedPreconn : Pc Cpu → Option CbnPreconnection
  | .alloc _ preconn => preconn
  | .add _ _ _ preconn => some preconn
  | _ => none

/-- Connections lie on the lists of pools in the tree. -/
structure Located (s : State Cpu) : Prop where
  idle : ∀ preconn cpu, (s.pcpList preconn cpu).list ≠ [] → preconn ∈ inorder s.root
  threads : ∀ pc ∈ s.threads, ∀ preconn, linkedPreconn pc = some preconn →
    preconn ∈ inorder s.root

variable [DecidableEq Cpu] {s s' : State Cpu}

/-- A list that is set is nobody else's. -/
theorem ne_nil_of_setList {preconn preconn' : CbnPreconnection} {cpu cpu' : Cpu}
    {pcpl : PercpuList}
    (hne : ((s.setList preconn cpu pcpl).pcpList preconn' cpu').list ≠ []) :
    (s.pcpList preconn' cpu').list ≠ [] ∨
      preconn' = preconn ∧ cpu' = cpu ∧ pcpl.list ≠ [] := by
  by_cases hpreconn : preconn' = preconn
  · subst hpreconn
    by_cases hcpu : cpu' = cpu
    · subst hcpu
      simp only [State.setList, Function.update_self] at hne
      exact .inr ⟨rfl, rfl, hne⟩
    · simp only [State.setList, Function.update_self, Function.update_of_ne hcpu] at hne
      exact .inl hne
  · simp only [State.setList, Function.update_of_ne hpreconn] at hne
    exact .inl hne

/-- What a statement does to the places where connections lie. -/
structure Relocates (s s' : State Cpu) (pc : Pc Cpu) (pcs : List (Pc Cpu)) : Prop where
  tree : ∀ preconn ∈ inorder s.root, preconn ∈ inorder s'.root
  idle : ∀ preconn cpu, (s'.pcpList preconn cpu).list ≠ [] →
    (s.pcpList preconn cpu).list ≠ [] ∨ linkedPreconn pc = some preconn
  threads : ∀ pc' ∈ pcs, ∀ preconn, linkedPreconn pc' = some preconn →
    preconn ∈ inorder s'.root

theorem root_draw (preconn : CbnPreconnection) (cpu : Cpu) :
    (s.draw preconn cpu).root = s.root := by
  rw [State.draw]
  split <;> rfl

theorem ne_nil_of_draw {preconn preconn' : CbnPreconnection} {cpu cpu' : Cpu}
    (hne : ((s.draw preconn cpu).pcpList preconn' cpu').list ≠ []) :
    (s.pcpList preconn' cpu').list ≠ [] := by
  rw [State.draw] at hne
  split at hne
  · exact hne
  · rename_i qp rest hlist
    rcases ne_nil_of_setList hne with hold | ⟨rfl, rfl, -⟩
    · exact hold
    · rw [hlist]
      exact List.cons_ne_nil _ _

omit [DecidableEq Cpu] in
theorem ne_nil_of_initPreconn {preconn preconn' : CbnPreconnection} {cpu' : Cpu}
    (hne : ((s.initPreconn preconn).pcpList preconn' cpu').list ≠ []) :
    (s.pcpList preconn' cpu').list ≠ [] := by
  by_cases heq : preconn' = preconn
  · simp [State.initPreconn, heq] at hne
  · simpa only [State.initPreconn, Function.update_of_ne heq] using hne

namespace Relocates

variable {pc : Pc Cpu} {pcs : List (Pc Cpu)}

omit [DecidableEq Cpu] in
/-- The tree stays, nothing is added to a list, and no pool is found. -/
theorem keep (hroot : s'.root = s.root)
    (hlists : ∀ preconn cpu, (s'.pcpList preconn cpu).list ≠ [] →
      (s.pcpList preconn cpu).list ≠ []) (hnone : ∀ pc' ∈ pcs, linkedPreconn pc' = none) :
    Relocates s s' pc pcs where
  tree := fun _ hmem => hroot ▸ hmem
  idle := fun _ _ hne => .inl (hlists _ _ hne)
  threads := fun pc' hmem _ hlinked => by cases (hnone pc' hmem).symm.trans hlinked

omit [DecidableEq Cpu] in
/-- The pool that the next statement uses is in the tree. -/
theorem found {pc' : Pc Cpu}
    (hfound : ∀ preconn, linkedPreconn pc' = some preconn → preconn ∈ inorder s.root) :
    Relocates s s pc [pc'] where
  tree := fun _ hmem => hmem
  idle := fun _ _ hne => .inl hne
  threads := fun pc'' hmem => by
    obtain rfl := List.mem_singleton.mp hmem
    exact hfound

omit [DecidableEq Cpu] in
theorem link {cpu : Cpu} {ip : NextHop} {qp : ℕ} {preconn : CbnPreconnection}
    {root linked : BinaryTree CbnPreconnection}
    (hadd : addRbPreconn s.root preconn = .linked linked) (hroot : inorder root = inorder linked) :
    Relocates s { s with root := root } pc [.add cpu ip qp preconn] := by
  have hmem : ∀ preconn', preconn' ∈ inorder root ↔
      preconn' = preconn ∨ preconn' ∈ inorder s.root := by
    intro preconn'
    rw [hroot]
    exact mem_inorder_of_linked hadd preconn'
  refine ⟨fun _ hold => (hmem _).mpr (.inr hold), fun _ _ hne => .inl hne, ?_⟩
  intro pc' hpc' preconn' hlinked
  obtain rfl := List.mem_singleton.mp hpc'
  cases hlinked
  exact (hmem _).mpr (.inl rfl)

theorem listAdd {cpu here : Cpu} {ip : NextHop} {qp : ℕ} {preconn : CbnPreconnection} :
    Relocates s (s.listAdd preconn here qp) (.add cpu ip qp preconn) [] := by
  refine ⟨fun _ hmem => hmem, fun preconn' cpu' hne => ?_, fun _ hmem => by cases hmem⟩
  rcases ne_nil_of_setList hne with hold | ⟨rfl, -, -⟩
  · exact .inl hold
  · exact .inr rfl

end Relocates

theorem relocates_of_stepPc (possible : List Cpu) {pc : Pc Cpu} {act : Act Cpu}
    {pcs : List (Pc Cpu)} (hnext : stepPc possible s pc act = some (s', pcs)) :
    Relocates s s' pc pcs := by
  have hkeep : ∀ {pcs : List (Pc Cpu)}, (∀ pc' ∈ pcs, linkedPreconn pc' = none) →
      Relocates s s pc pcs :=
    .keep rfl fun _ _ hne => hne
  cases stepPc_cases hnext with
  | allocSearch => exact .found fun preconn hsearch => (search_sound hsearch).1
  | draw =>
      exact .keep (root_draw _ _) (fun _ _ => ne_nil_of_draw) (by simp [linkedPreconn])
  | nextCpu =>
      refine hkeep fun pc' hmem => ?_
      rw [List.mem_singleton.mp hmem]
      split <;> rfl
  | found hsearch =>
      refine .found fun preconn hlinked => ?_
      cases hlinked
      exact (search_sound hsearch).1
  | getAlloc => exact .keep rfl (fun _ _ => ne_nil_of_initPreconn) (by simp [linkedPreconn])
  | link hadd hroot => exact .link hadd hroot
  | add => exact .listAdd
  | connect | listFails => exact .keep rfl (fun _ _ hne => hne) (by simp [linkedPreconn])
  | _ => exact hkeep (by simp [linkedPreconn])

theorem Located.step (possible : List Cpu) (hlocated : Located s) {label : Label Cpu}
    (hnext : (pools possible).next s label = some s') : Located s' := by
  have hstart : ∀ pc : Pc Cpu, linkedPreconn pc = none →
      Located { s with threads := pc ::ₘ s.threads } := by
    refine fun pc hnone => ⟨hlocated.idle, fun pc' hpc' preconn hlinked => ?_⟩
    rcases Multiset.mem_cons.mp hpc' with rfl | hold
    · cases hnone.symm.trans hlinked
    · exact hlocated.threads pc' hold preconn hlinked
  cases label with
  | write ip =>
      simp only [pools] at hnext
      split at hnext <;> cases hnext
      · exact hlocated
      · exact hstart _ rfl
  | draw ip =>
      cases hnext
      exact hstart _ rfl
  | step pc act =>
      simp only [pools] at hnext
      split at hnext
      case isFalse => cases hnext
      case isTrue hpc =>
        obtain ⟨⟨after, pcs⟩, hstep, rfl⟩ := Option.map_eq_some_iff.mp hnext
        have hrelocates := relocates_of_stepPc possible hstep
        refine ⟨fun preconn cpu hne => ?_, fun pc' hpc' preconn hlinked => ?_⟩
        · rcases hrelocates.idle preconn cpu hne with hold | hlinked
          · exact hrelocates.tree preconn (hlocated.idle preconn cpu hold)
          · exact hrelocates.tree preconn (hlocated.threads pc hpc preconn hlinked)
        · rcases Multiset.mem_add.mp hpc' with hold | hnew
          · exact hrelocates.tree preconn
              (hlocated.threads pc' (Multiset.mem_of_mem_erase hold) preconn hlinked)
          · exact hrelocates.threads pc' hnew preconn hlinked

theorem located_of_reachable (possible : List Cpu)
    (hreach : (pools possible).Reachable s) : Located s := by
  refine hreach.invariant (P := Located) ⟨fun _ _ hne => absurd rfl hne, fun pc hpc => ?_⟩ ?_
  · exact absurd hpc (Multiset.notMem_zero pc)
  · rintro before label after - hlocated - hnext
    exact hlocated.step possible hnext

end Pools

/-! ## The clean-up -/

inductive Slab
  | preconn
  | pool
  | qp
  | syn
  | probe
  | listner
  deriving DecidableEq

/-- What the module holds, by its address. -/
inductive Res
  | sock (qp : ℕ)
  | qp (qp : ℕ)
  | preconn (id : ℕ)
  | refil
  | task (elem : ℕ)
  | elem (elem : ℕ)
  | preConnSock (s : ℕ)
  | listners (res : StopSockets.Res)
  | slab (slab : Slab)
  deriving DecidableEq

/-- The pools of connections, the pool of threads, and the lists that
`cbn_pre_connect_init` sets up. -/
structure State (Cpu S Func Data : Type*) where
  pools : PreconnPool.State Cpu
  pool : Pool.State S Func Data
  preConnListClient : List ℕ
  preConnListServer : List ℕ

inductive Label (Cpu S : Type*)
  | pools (label : PreconnPool.Label Cpu)
  | pool (label : Pool.Label S)

/-- The listeners: the socket of that of the pre-connections, and the tree with the
sockets of the others. -/
structure Listners where
  preConnListner : Option ℕ
  root : RedBlack.RbTree Listner.CbnListner
  sock : Listner.CbnListner → Option ℕ

variable {Cpu S Func Data : Type*}

/-- `sock_release` and `kmem_cache_free` of every element of a list. -/
def clearPreConnections (list : List ℕ) : List (Event Res) :=
  list.flatMap fun elem => [.release (.sock elem), .release (.qp elem)]

def clearClientPreConnections (s : State Cpu S Func Data) : List (Event Res) :=
  clearPreConnections s.preConnListClient

def cbnPreConnectEnd (listners : Listners) (s : State Cpu S Func Data) : List (Event Res) :=
  (listners.preConnListner.toList.map fun sock => .access (.preConnSock sock)) ++
    clearClientPreConnections s ++ clearPreConnections s.preConnListServer ++
    [.release (.slab .preconn)]

def stopSockets (listners : Listners) : List (Event Res) :=
  (StopSockets.stopSockets listners.sock listners.root).1.map (Event.map .listners)

/-- The loops over the elements are commented out. -/
def cbnKthreadPoolClean : List (Event Res) := [.release .refil, .release (.slab .pool)]

def cbnDatapathClean (listners : Listners) (s : State Cpu S Func Data) : List (Event Res) :=
  cbnPreConnectEnd listners s ++ stopSockets listners ++ cbnKthreadPoolClean ++
    [.release (.slab .qp), .release (.slab .syn), .release (.slab .probe),
      .release (.slab .listner)]

variable [DecidableEq Cpu] [DecidableEq S]

def ktcp (possible : List Cpu) (cfg : Pool.Config S Func Data) :
    Machine (State Cpu S Func Data) (Label Cpu S) where
  init := ⟨(PreconnPool.pools possible).init, (Pool.pool cfg).init, [], []⟩
  next := fun s label =>
    match label with
    | .pools label =>
        ((PreconnPool.pools possible).next s.pools label).map fun pools =>
          { s with pools := pools }
    | .pool label =>
        ((Pool.pool cfg).next s.pool label).map fun pool => { s with pool := pool }

/-- No task is running, and nobody is about to start one. -/
structure Idle (s : State Cpu S Func Data) : Prop where
  pools : s.pools.threads = 0
  threads : ∀ e, s.pool.thread e = Pool.asleep
  submissions : ∀ x e, (s.pool.submission x).elem = some e → s.pool.submission x = .done e

/-- The clean-up leaves nothing of the pools behind. -/
structure Cleaned (s : State Cpu S Func Data) (trace : List (Event Res)) : Prop where
  connections : ∀ preconn cpu qp, qp ∈ (s.pools.pcpList preconn cpu).list →
    status (.sock qp) .held trace = .released ∧ status (.qp qp) .held trace = .released
  preconns : ∀ preconn ∈ inorder s.pools.root,
    status (.preconn preconn.id) .held trace = .released
  tasks : ∀ e < s.pool.next, status (.task e) .held trace = .released
  elems : ∀ e < s.pool.next, ∃ before after, trace = before ++ .release (.slab .pool) :: after ∧
    status (.elem e) .held before = .released

variable {possible : List Cpu} {cfg : Pool.Config S Func Data} {s : State Cpu S Func Data}

theorem parts_of_reachable (hreach : (ktcp possible cfg).Reachable s) :
    (PreconnPool.pools possible).Reachable s.pools ∧ (Pool.pool cfg).Reachable s.pool ∧
      s.preConnListClient = [] ∧ s.preConnListServer = [] := by
  refine hreach.invariant (P := fun s : State Cpu S Func Data =>
    (PreconnPool.pools possible).Reachable s.pools ∧ (Pool.pool cfg).Reachable s.pool ∧
      s.preConnListClient = [] ∧ s.preConnListServer = []) ⟨.init, .init, rfl, rfl⟩ ?_
  rintro before label after - ⟨hpools, hpool, hclient, hserver⟩ - hnext
  cases label with
  | pools label =>
      obtain ⟨pools, hstep, rfl⟩ := Option.map_eq_some_iff.mp hnext
      exact ⟨hpools.next trivial hstep, hpool, hclient, hserver⟩
  | pool label =>
      obtain ⟨pool, hstep, rfl⟩ := Option.map_eq_some_iff.mp hnext
      exact ⟨hpools, hpool.next trivial hstep, hclient, hserver⟩

/-- The resources of the pools. -/
def Res.ofPools : Res → Bool
  | .sock _ => true
  | .qp _ => true
  | .preconn _ => true
  | .task _ => true
  | .elem _ => true
  | _ => false

/-- In no state does the clean-up touch the pools. -/
theorem status_untouched (listners : Listners) (hreach : (ktcp possible cfg).Reachable s)
    {r : Res} (hr : r.ofPools = true) :
    status r .held (cbnDatapathClean listners s) = .held := by
  obtain ⟨-, -, hclient, hserver⟩ := parts_of_reachable hreach
  have hother : ∀ event ∈ cbnDatapathClean listners s, event.res.ofPools = false := by
    simp only [cbnDatapathClean, cbnPreConnectEnd, clearClientPreConnections, hclient, hserver,
      clearPreConnections, stopSockets, cbnKthreadPoolClean, List.flatMap_nil, List.append_nil,
      List.forall_mem_append, List.forall_mem_map, List.forall_mem_cons, res_map]
    refine ⟨⟨⟨⟨fun _ _ => rfl, rfl, ?_⟩, fun _ _ => rfl⟩, rfl, rfl, ?_⟩,
      rfl, rfl, rfl, rfl, ?_⟩
    all_goals exact fun _ h => absurd h List.not_mem_nil
  refine status_of_not_mem fun event hevent hres => ?_
  exact absurd ((hother event hevent).symm.trans (hres ▸ hr)) (by decide)

/-- While no task is running, every element lies in the allocator. -/
theorem elem_held (hreach : (ktcp possible cfg).Reachable s) (hidle : Idle s) (e : ℕ)
    (hcreated : e < s.pool.next) : e ∈ s.pool.allocator.held := by
  have hinv := Pool.inv_of_reachable (parts_of_reachable hreach).2.1
  have hasleep : (s.pool.view e).thread = Pool.asleep := hidle.threads e
  cases hinv.stage e with
  | uncreated created => exact absurd hcreated created
  | free _ inside => exact inside
  | claimed x pc _ _ _ owner submission elem filled =>
      have hpc : s.pool.submission x = pc := by
        have howner : s.pool.owner e = some x := owner
        simpa only [Pool.State.view, howner, Option.map_some, Option.some.injEq]
          using submission
      have hdone := hidle.submissions x e (hpc ▸ elem)
      rw [← hpc, hdone] at filled
      exact filled.elim
  | woken x _ _ thread =>
      rw [hasleep] at thread
      exact thread.elim
  | ran x _ _ thread =>
      rw [hasleep] at thread
      exact thread.elim

/-- The only element of the pool runs the first of four workers of a command, and is idle
again when the module is unloaded. -/
def commandRun : List (Label Unit (Fin 4)) :=
  [.pool .refill, .pools (.write 9), .pools (.step (.cpus .write 9 [()]) .go),
    .pool (.alloc 0 (some 0)), .pool (.submit 0), .pool (.submit 0), .pool (.submit 0),
    .pool (.submit 0), .pools (.step (.batch .write 9 () 4 []) .go),
    .pool (.alloc 1 none), .pools (.step (.batch .write 9 () 3 []) .fail),
    .pool (.alloc 2 none), .pools (.step (.batch .write 9 () 2 []) .fail),
    .pool (.alloc 3 none), .pools (.step (.batch .write 9 () 1 []) .fail),
    .pools (.step (.batch .write 9 () 0 []) .go), .pools (.step (.cpus .write 9 []) .go),
    .pool (.loop 0), .pool (.loop 0), .pool (.loop 0), .pool (.loop 0),
    .pools (.step (.connect () 9) .go), .pools (.step (.getSearch () 9 0) .go),
    .pools (.step (.getAlloc () 9 0) .go),
    .pools (.step (.getAdd () 9 0 ⟨1, 9⟩) (.link (.node ⟨1, 9⟩ .nil .nil))),
    .pools (.step (.add () 9 0 ⟨1, 9⟩) (.on ())), .pool (.loop 0), .pool (.loop 0),
    .pool (.loop 0), .pool (.loop 0)]

end KtcpSplit.Unload
