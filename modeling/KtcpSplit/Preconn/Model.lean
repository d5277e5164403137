import KtcpSplit.Lib.Transition
import KtcpSplit.Tree.Preconn
import Mathlib.Data.Multiset.AddSub
import Mathlib.Logic.Function.Basic

/-!
# Pools of pre-connections

Every next hop has a list of idle connections per CPU.  A command fills the lists
once, each draw from a list has them refilled, and the connections are set up by
workers that add them when they are done, to the list of the CPU that they run on then.  The
machine interleaves the commands, the draws and the workers at the granularity of the
statements that read or write the tree of pools, a list or the thread pool.
-/

namespace KtcpSplit.PreconnPool

open KtcpSplit.Preconn
open KtcpSplit.SearchTree
open KtcpSplit.Transition

def perCorePoolMin : ℕ := 4

def perCorePoolMax : ℕ := 16

/-- A connection in `list` is known by the address of its QP. -/
structure PercpuList where
  list : List ℕ
  len : BitVec 32
  deriving DecidableEq

/-- Who schedules connections: the command, or `prealloc_connection_pool` with the
pool that it found. -/
inductive Fill
  | write
  | pool (preconn : Option CbnPreconnection)
  deriving DecidableEq

/-- The next statement of a thread; a worker has the CPU that it was started for. -/
inductive Pc (Cpu : Type*)
  /-- `search_rb_preconn` in `alloc_prexeisting_conn`. -/
  | allocSearch (ip : NextHop)
  /-- The test and the draw with preemption disabled. -/
  | alloc (ip : NextHop) (preconn : Option CbnPreconnection)
  /-- `kthread_pool_run` of `prealloc_connection_pool`. -/
  | refill (ip : NextHop)
  | poolSearch (ip : NextHop)
  /-- The outer loop, with the CPUs that are left. -/
  | cpus (fill : Fill) (ip : NextHop) (rest : List Cpu)
  /-- The inner loop, with the calls of `kthread_pool_run_cpu` that are left. -/
  | batch (fill : Fill) (ip : NextHop) (cpu : Cpu) (left : ℕ) (rest : List Cpu)
  /-- `prealloc_connection` up to `kernel_connect`. -/
  | connect (cpu : Cpu) (ip : NextHop)
  /-- `search_rb_preconn` in `get_rb_preconn`. -/
  | getSearch (cpu : Cpu) (ip : NextHop) (qp : ℕ)
  | getAlloc (cpu : Cpu) (ip : NextHop) (qp : ℕ)
  /-- `add_rb_preconn`. -/
  | getAdd (cpu : Cpu) (ip : NextHop) (qp : ℕ) (preconn : CbnPreconnection)
  /-- `list_add` in `add_preconn_qp`. -/
  | add (cpu : Cpu) (ip : NextHop) (qp : ℕ) (preconn : CbnPreconnection)
  deriving DecidableEq

/-- What a step does not decide: `fail` is a failed allocation, connection or
hand-over to the thread pool, `failList` a failed `alloc_reserved_percpu`, `link` says
how the tree is rebalanced, and `on` which CPU `this_cpu_ptr` finds itself on. -/
inductive Act (Cpu : Type*)
  | go
  | fail
  | failList
  | link (root : BinaryTree CbnPreconnection)
  | on (cpu : Cpu)

inductive Label (Cpu : Type*)
  /-- A `preconn_write_cb` command. -/
  | write (ip : NextHop)
  /-- A call of `alloc_prexeisting_conn`. -/
  | draw (ip : NextHop)
  | step (pc : Pc Cpu) (act : Act Cpu)

/-- QPs and pools are known by their address, and an address is not given out
again; `freed` has the pools whose lists could not be allocated. -/
structure State (Cpu : Type*) where
  root : BinaryTree CbnPreconnection
  pcpList : CbnPreconnection → Cpu → PercpuList
  freed : List CbnPreconnection
  next : ℕ
  threads : Multiset (Pc Cpu)

variable {Cpu : Type*} [DecidableEq Cpu]

namespace State

variable (s : State Cpu)

def setList (preconn : CbnPreconnection) (cpu : Cpu) (pcpl : PercpuList) : State Cpu :=
  { s with
    pcpList := Function.update s.pcpList preconn
      (Function.update (s.pcpList preconn) cpu pcpl) }

/-- `init_preconn`. -/
def initPreconn (preconn : CbnPreconnection) : State Cpu :=
  { s with pcpList := Function.update s.pcpList preconn fun _ => ⟨[], 0⟩ }

/-- `init_preconn` without memory for the lists, and `kmem_cache_free`. -/
def initPreconnFails (preconn : CbnPreconnection) : State Cpu :=
  { s with freed := preconn :: s.freed }

/-- The first element of the list is taken; an empty list is left as it is. -/
def draw (preconn : CbnPreconnection) (cpu : Cpu) : State Cpu :=
  let pcpl := s.pcpList preconn cpu
  match pcpl.list with
  | [] => s
  | _ :: rest => s.setList preconn cpu ⟨rest, pcpl.len - 1⟩

def listAdd (preconn : CbnPreconnection) (cpu : Cpu) (qp : ℕ) : State Cpu :=
  let pcpl := s.pcpList preconn cpu
  s.setList preconn cpu ⟨qp :: pcpl.list, pcpl.len + 1⟩

end State

/-- The test before the inner loop; the command does not make it. -/
def Fill.admits (s : State Cpu) (cpu : Cpu) : Fill → Bool
  | .write => true
  | .pool none => decide (0 < perCorePoolMax)
  | .pool (some preconn) => decide ((s.pcpList preconn cpu).len.toInt < perCorePoolMax)

/-- The state after a statement and what its thread and the threads it starts do
next.  There is none where `add_rb_preconn` is given a node that has been freed. -/
def stepPc (possible : List Cpu) (s : State Cpu) :
    Pc Cpu → Act Cpu → Option (State Cpu × List (Pc Cpu))
  | .allocSearch ip, .go => some (s, [.alloc ip (searchRbPreconn s.root ip)])
  | .alloc ip none, .go => some (s, [.refill ip])
  | .alloc ip (some preconn), .on cpu => some (s.draw preconn cpu, [.refill ip])
  | .refill ip, .go => some (s, [.poolSearch ip])
  | .refill _, .fail => some (s, [])
  | .poolSearch ip, .go => some (s, [.cpus (.pool (searchRbPreconn s.root ip)) ip possible])
  | .cpus _ _ [], .go => some (s, [])
  | .cpus fill ip (cpu :: rest), .go =>
      some (s, [if fill.admits s cpu then .batch fill ip cpu perCorePoolMin rest
        else .cpus fill ip rest])
  | .batch fill ip _ 0 rest, .go => some (s, [.cpus fill ip rest])
  | .batch fill ip cpu (left + 1) rest, .go =>
      some (s, [.connect cpu ip, .batch fill ip cpu left rest])
  | .batch fill ip cpu (left + 1) rest, .fail => some (s, [.batch fill ip cpu left rest])
  | .connect cpu ip, .go => some ({ s with next := s.next + 1 }, [.getSearch cpu ip s.next])
  | .connect _ _, .fail => some (s, [])
  | .getSearch cpu ip qp, .go =>
      match searchRbPreconn s.root ip with
      | some preconn => some (s, [.add cpu ip qp preconn])
      | none => some (s, [.getAlloc cpu ip qp])
  | .getAlloc cpu ip qp, .go =>
      let preconn : CbnPreconnection := ⟨s.next, ip⟩
      some ({ s.initPreconn preconn with next := s.next + 1 }, [.getAdd cpu ip qp preconn])
  | .getAlloc _ _ _, .fail => some (s, [])
  | .getAlloc cpu ip qp, .failList =>
      -- `get_rb_preconn` does not return here
      let preconn : CbnPreconnection := ⟨s.next, ip⟩
      some ({ s.initPreconnFails preconn with next := s.next + 1 }, [.getAdd cpu ip qp preconn])
  | .getAdd cpu ip qp preconn, .link root =>
      if preconn ∈ s.freed then none
      else
        match addRbPreconn s.root preconn with
        | .duplicate _ => some (s, [])
        | .linked linked =>
            if inorder root = inorder linked then
              some ({ s with root := root }, [.add cpu ip qp preconn])
            else none
  | .add _ _ qp preconn, .on here => some (s.listAdd preconn here qp, [])
  | _, _ => none

/-- All commands, draws and workers over the pools, none of which is there yet. -/
def pools (possible : List Cpu) : Machine (State Cpu) (Label Cpu) where
  init := ⟨.nil, fun _ _ => ⟨[], 0⟩, [], 0, 0⟩
  next := fun s label =>
    match label with
    | .write ip =>
        if ip = 0 then some s
        else some { s with threads := .cpus .write ip possible ::ₘ s.threads }
    | .draw ip => some { s with threads := .allocSearch ip ::ₘ s.threads }
    | .step pc act =>
        if pc ∈ s.threads then
          (stepPc possible s pc act).map fun (s', pcs) =>
            { s' with threads := s.threads.erase pc + ↑pcs }
        else none

/-! ## Statements -/

/-- What a statement does: its thread and the result that it meets, with the state and the
threads that it leads to. -/
inductive StepPc (possible : List Cpu) (s : State Cpu) :
    Pc Cpu → Act Cpu → State Cpu → List (Pc Cpu) → Prop
  | allocSearch {ip : NextHop} :
      StepPc possible s (.allocSearch ip) .go s [.alloc ip (searchRbPreconn s.root ip)]
  | noPool {ip : NextHop} : StepPc possible s (.alloc ip none) .go s [.refill ip]
  | draw {ip : NextHop} {preconn : CbnPreconnection} {cpu : Cpu} :
      StepPc possible s (.alloc ip (some preconn)) (.on cpu) (s.draw preconn cpu) [.refill ip]
  | refill {ip : NextHop} : StepPc possible s (.refill ip) .go s [.poolSearch ip]
  | refillFails {ip : NextHop} : StepPc possible s (.refill ip) .fail s []
  | poolSearch {ip : NextHop} :
      StepPc possible s (.poolSearch ip) .go s
        [.cpus (.pool (searchRbPreconn s.root ip)) ip possible]
  | lastCpu {fill : Fill} {ip : NextHop} : StepPc possible s (.cpus fill ip []) .go s []
  | nextCpu {fill : Fill} {ip : NextHop} {cpu : Cpu} {rest : List Cpu} :
      StepPc possible s (.cpus fill ip (cpu :: rest)) .go s
        [if fill.admits s cpu then .batch fill ip cpu perCorePoolMin rest else .cpus fill ip rest]
  | batchDone {fill : Fill} {ip : NextHop} {cpu : Cpu} {rest : List Cpu} :
      StepPc possible s (.batch fill ip cpu 0 rest) .go s [.cpus fill ip rest]
  | spawn {fill : Fill} {ip : NextHop} {cpu : Cpu} {left : ℕ} {rest : List Cpu} :
      StepPc possible s (.batch fill ip cpu (left + 1) rest) .go s
        [.connect cpu ip, .batch fill ip cpu left rest]
  | spawnFails {fill : Fill} {ip : NextHop} {cpu : Cpu} {left : ℕ} {rest : List Cpu} :
      StepPc possible s (.batch fill ip cpu (left + 1) rest) .fail s [.batch fill ip cpu left rest]
  | connect {cpu : Cpu} {ip : NextHop} :
      StepPc possible s (.connect cpu ip) .go { s with next := s.next + 1 }
        [.getSearch cpu ip s.next]
  | connectFails {cpu : Cpu} {ip : NextHop} : StepPc possible s (.connect cpu ip) .fail s []
  | found {cpu : Cpu} {ip : NextHop} {qp : ℕ} {preconn : CbnPreconnection}
      (hsearch : searchRbPreconn s.root ip = some preconn) :
      StepPc possible s (.getSearch cpu ip qp) .go s [.add cpu ip qp preconn]
  | notFound {cpu : Cpu} {ip : NextHop} {qp : ℕ} :
      StepPc possible s (.getSearch cpu ip qp) .go s [.getAlloc cpu ip qp]
  | getAlloc {cpu : Cpu} {ip : NextHop} {qp : ℕ} :
      StepPc possible s (.getAlloc cpu ip qp) .go
        { s.initPreconn ⟨s.next, ip⟩ with next := s.next + 1 } [.getAdd cpu ip qp ⟨s.next, ip⟩]
  | getAllocFails {cpu : Cpu} {ip : NextHop} {qp : ℕ} :
      StepPc possible s (.getAlloc cpu ip qp) .fail s []
  | listFails {cpu : Cpu} {ip : NextHop} {qp : ℕ} :
      StepPc possible s (.getAlloc cpu ip qp) .failList
        { s.initPreconnFails ⟨s.next, ip⟩ with next := s.next + 1 }
        [.getAdd cpu ip qp ⟨s.next, ip⟩]
  | duplicate {cpu : Cpu} {ip : NextHop} {qp : ℕ} {preconn this : CbnPreconnection}
      {root : BinaryTree CbnPreconnection} (hadd : addRbPreconn s.root preconn = .duplicate this) :
      StepPc possible s (.getAdd cpu ip qp preconn) (.link root) s []
  | link {cpu : Cpu} {ip : NextHop} {qp : ℕ} {preconn : CbnPreconnection}
      {linked root : BinaryTree CbnPreconnection}
      (hadd : addRbPreconn s.root preconn = .linked linked)
      (hroot : inorder root = inorder linked) :
      StepPc possible s (.getAdd cpu ip qp preconn) (.link root) { s with root := root }
        [.add cpu ip qp preconn]
  | add {cpu here : Cpu} {ip : NextHop} {qp : ℕ} {preconn : CbnPreconnection} :
      StepPc possible s (.add cpu ip qp preconn) (.on here) (s.listAdd preconn here qp) []

theorem stepPc_cases {possible : List Cpu} {s s' : State Cpu} {pc : Pc Cpu} {act : Act Cpu}
    {pcs : List (Pc Cpu)} (hstep : stepPc possible s pc act = some (s', pcs)) :
    StepPc possible s pc act s' pcs := by
  cases pc with
  | allocSearch ip =>
      cases act <;> cases hstep
      exact .allocSearch
  | alloc ip preconn =>
      cases preconn <;> cases act <;> cases hstep
      · exact .noPool
      · exact .draw
  | refill ip =>
      cases act <;> cases hstep
      · exact .refill
      · exact .refillFails
  | poolSearch ip =>
      cases act <;> cases hstep
      exact .poolSearch
  | cpus fill ip rest =>
      cases rest <;> cases act <;> cases hstep
      · exact .lastCpu
      · exact .nextCpu
  | batch fill ip cpu left rest =>
      cases left <;> cases act <;> cases hstep
      · exact .batchDone
      · exact .spawn
      · exact .spawnFails
  | connect cpu ip =>
      cases act <;> cases hstep
      · exact .connect
      · exact .connectFails
  | getSearch cpu ip qp =>
      cases act with
      | go =>
          simp only [stepPc] at hstep
          split at hstep <;> cases hstep
          · exact .found ‹_›
          · exact .notFound
      | _ => cases hstep
  | getAlloc cpu ip qp =>
      cases act <;> cases hstep
      · exact .getAlloc
      · exact .getAllocFails
      · exact .listFails
  | getAdd cpu ip qp preconn =>
      cases act with
      | link root =>
          simp only [stepPc, Option.ite_none_left_eq_some] at hstep
          obtain ⟨-, hstep⟩ := hstep
          split at hstep
          · cases hstep
            exact .duplicate ‹_›
          · simp only [Option.ite_none_right_eq_some, Option.some.injEq, Prod.mk.injEq] at hstep
            obtain ⟨hroot, rfl, rfl⟩ := hstep
            exact .link ‹_› hroot
      | _ => cases hstep
  | add cpu ip qp preconn =>
      cases act <;> cases hstep
      exact .add

end KtcpSplit.PreconnPool
