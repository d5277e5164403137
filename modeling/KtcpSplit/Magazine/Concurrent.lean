import KtcpSplit.Lib.AtomicObject
import KtcpSplit.Magazine.Memory

/-!
# The magazine allocator on many CPUs

A CPU does not leave a call of the allocator, with its interrupts off, but the other
CPUs run meanwhile.  What a call does to its own pair is one step here; every statement
on the depot is a step of its own, under the lock.
-/

namespace KtcpSplit.MagSmp

open KtcpSplit.AtomicObject
open KtcpSplit.MagAlloc
open KtcpSplit.Transition

variable {Cpu α : Type*}

/-! ## The depot -/

/-- What the statements under the lock write: the depot and the pair of the call. -/
structure Scope where
  emptyList : List Addr
  fullList : List Addr
  emptyCount : BitVec 16
  fullCount : BitVec 16
  pair : MagPair

def Scope.setMag (scope : Scope) (idx : Fin 2) (mag : Addr) : Scope :=
  { scope with pair := { scope.pair with magPtr := Function.update scope.pair.magPtr idx mag } }

def Scope.setCount (scope : Scope) (idx : Fin 2) (count : BitVec 32) : Scope :=
  { scope with pair := { scope.pair with count := Function.update scope.pair.count idx count } }

/-- A statement between `spin_lock_irqsave` and `spin_unlock_irqrestore`. -/
inductive Stmt
  /-- `list_add(&pair->mags[idx]->list, &allocator->empty_list)` -/
  | addEmpty
  /-- `++allocator->empty_count` -/
  | incEmpty
  /-- `pair->mags[idx] = list_entry(allocator->full_list.next, ..)` -/
  | takeFull
  /-- `list_del_init(allocator->full_list.next)` -/
  | delFull
  /-- `pair->count[idx] = MAG_DEPTH` -/
  | fillCount
  /-- `--allocator->full_count` -/
  | decFull
  /-- `list_add(&pair->mags[idx]->list, &allocator->full_list)` -/
  | addFull
  /-- `++allocator->full_count` -/
  | incFull
  /-- `pair->mags[idx] = list_entry(allocator->empty_list.next, ..)` -/
  | takeEmpty
  /-- `list_del_init(allocator->empty_list.next)` -/
  | delEmpty
  /-- `--allocator->empty_count` -/
  | decEmpty
  /-- `pair->mags[idx] = (void *)ALIGN((u64)ptr, L1_CACHE_BYTES)` -/
  | setMag (ptr : Addr)

/-- The result is `none` where the code takes the head of an empty list for a magazine. -/
def Stmt.exec (idx : Fin 2) (scope : Scope) : Stmt → Option Scope
  | .addEmpty => some { scope with emptyList := scope.pair.magPtr idx :: scope.emptyList }
  | .incEmpty => some { scope with emptyCount := scope.emptyCount + 1 }
  | .takeFull => scope.fullList.head?.map (scope.setMag idx)
  | .delFull => scope.fullList.tail?.map fun rest => { scope with fullList := rest }
  | .fillCount => some (scope.setCount idx magDepth)
  | .decFull => some { scope with fullCount := scope.fullCount - 1 }
  | .addFull => some { scope with fullList := scope.pair.magPtr idx :: scope.fullList }
  | .incFull => some { scope with fullCount := scope.fullCount + 1 }
  | .takeEmpty => scope.emptyList.head?.map (scope.setMag idx)
  | .delEmpty => scope.emptyList.tail?.map fun rest => { scope with emptyList := rest }
  | .decEmpty => some { scope with emptyCount := scope.emptyCount - 1 }
  | .setMag ptr => some (scope.setMag idx ptr)

/-- The magazines that a statement reads or writes. -/
def Stmt.touches (idx : Fin 2) (scope : Scope) : Stmt → List Addr
  | .addEmpty => listAdd (scope.pair.magPtr idx) scope.emptyList
  | .delFull => listDelFirst scope.fullList
  | .addFull => listAdd (scope.pair.magPtr idx) scope.fullList
  | .delEmpty => listDelFirst scope.emptyList
  | _ => []

/-- `if (allocator->full_count)` in `mag_allocator_switch_empty`. -/
def exchangeFull : List Stmt :=
  [.addEmpty, .incEmpty, .takeFull, .delFull, .fillCount, .decFull]

/-- What `mag_allocator_switch_full` begins with. -/
def shelve : List Stmt := [.addFull, .incFull]

/-- `if (allocator->empty_count)` in `mag_allocator_switch_full`. -/
def takeEmptied : List Stmt := [.takeEmpty, .delEmpty, .decEmpty]

def scopeOf (s : MagAllocator Cpu α) (i : Cpu × Context) : Scope :=
  ⟨s.emptyList, s.fullList, s.emptyCount, s.fullCount, s.pcpPair i⟩

def setScope [DecidableEq Cpu] (s : MagAllocator Cpu α) (i : Cpu × Context) (scope : Scope) :
    MagAllocator Cpu α where
  memory := s.memory
  emptyList := scope.emptyList
  fullList := scope.fullList
  emptyCount := scope.emptyCount
  fullCount := scope.fullCount
  pcpPair := Function.update s.pcpPair i scope.pair

/-! ## The calls -/

inductive Op (α : Type*)
  | allocElem (context : Context)
  | freeElem (context : Context) (elem : α)

inductive Res (α : Type*)
  | elem (elem : Option α)
  | void
  deriving DecidableEq

/-- The statement that a CPU is at, with the variables of the functions it is in. -/
inductive Pc (α : Type*)
  | idle
  /-- `mag_alloc_elem`: `if (mag_pair_count(pair) == 0)` -/
  | alloc (context : Context)
  /-- `mag_allocator_switch_empty`: the lock, the test, the statements and the unlock -/
  | emptyLock (context : Context) (idx : Fin 2)
  | emptyTest (context : Context) (idx : Fin 2)
  | emptyBody (context : Context) (idx : Fin 2) (rest : List Stmt)
  /-- `mag_pair_alloc` -/
  | pairAlloc (context : Context)
  /-- `mag_free_elem`: `mag_pair_free` -/
  | free (context : Context) (elem : α)
  /-- `if (mag_pair_count(pair) == (MAG_DEPTH << 1))` and the assertion behind it -/
  | freeTest (context : Context) (elem : α)
  /-- `mag_allocator_switch_full`: the lock, the full list, the test, the way to a new
  magazine and the unlock, and `pair->count[idx] = 0` -/
  | fullLock (context : Context) (elem : α) (idx : Fin 2)
  | fullPush (context : Context) (elem : α) (idx : Fin 2) (rest : List Stmt)
  | fullTest (context : Context) (elem : α) (idx : Fin 2)
  | fullKzalloc (context : Context) (elem : α) (idx : Fin 2)
  | fullPull (context : Context) (elem : α) (idx : Fin 2) (ptr : Option Addr)
      (rest : List Stmt)
  | fullReset (context : Context) (idx : Fin 2)
  /-- `put_cpu_mag_pair` -/
  | ret (res : Res α)

/-- The statements of a call that are left, at most. -/
def Pc.left : Pc α → ℕ
  | .idle | .ret _ => 0
  | .alloc _ => 11
  | .emptyLock _ _ => 10
  | .emptyTest _ _ => 9
  | .emptyBody _ _ rest => rest.length + 2
  | .pairAlloc _ => 1
  | .free _ _ => 12
  | .freeTest _ _ => 11
  | .fullLock _ _ _ => 10
  | .fullPush _ _ _ rest => rest.length + 7
  | .fullTest _ _ _ => 6
  | .fullKzalloc _ _ _ => 4
  | .fullPull _ _ _ _ rest => rest.length + 2
  | .fullReset _ _ => 1

/-- `spin_lock_irqsave`. -/
def Pc.Waits : Pc α → Prop
  | .emptyLock .. | .fullLock .. => True
  | _ => False

/-- Between `spin_lock_irqsave` and `spin_unlock_irqrestore`. -/
def Pc.Inside : Pc α → Prop
  | .emptyTest .. | .emptyBody .. | .fullPush .. | .fullTest .. | .fullKzalloc ..
  | .fullPull .. => True
  | _ => False

structure State (Cpu α : Type*) where
  allocator : MagAllocator Cpu α
  lock : Option Cpu
  pc : Cpu → Pc α

variable [DecidableEq Cpu]

def State.goto (s : State Cpu α) (cpu : Cpu) (pc : Pc α) : State Cpu α :=
  { s with pc := Function.update s.pc cpu pc }

/-- `spin_lock_irqsave` goes on when the lock is free. -/
def State.take (s : State Cpu α) (cpu : Cpu) (pc : Pc α) : Option (State Cpu α) :=
  if s.lock.isNone then some { s.goto cpu pc with lock := some cpu } else none

def State.release (s : State Cpu α) (cpu : Cpu) (pc : Pc α) : State Cpu α :=
  { s.goto cpu pc with lock := none }

def State.run (s : State Cpu α) (cpu : Cpu) (context : Context) (idx : Fin 2) (stmt : Stmt)
    (pc : Pc α) : Option (State Cpu α) :=
  (stmt.exec idx (scopeOf s.allocator (cpu, context))).map fun scope =>
    { s.goto cpu pc with allocator := setScope s.allocator (cpu, context) scope }

/-- The magazines that the next statement of a CPU reads or writes. -/
def State.touches (s : State Cpu α) (cpu : Cpu) : List Addr :=
  match s.pc cpu with
  | .emptyBody context idx (stmt :: _) | .fullPush context _ idx (stmt :: _)
  | .fullPull context _ idx _ (stmt :: _) =>
      stmt.touches idx (scopeOf s.allocator (cpu, context))
  | .pairAlloc context => s.allocator.pairAllocTouches (cpu, context)
  | .free context _ => s.allocator.pairFreeTouches (cpu, context)
  | _ => []

/-- The statement that a CPU stands at, as if every address were one of a magazine. -/
def State.execute (s : State Cpu α) (cpu : Cpu) (kzalloc : Addr) : Option (State Cpu α) :=
  match s.pc cpu with
  | .alloc context =>
      let pair := s.allocator.pcpPair (cpu, context)
      if magPairCount pair = 0 then
        some (s.goto cpu (.emptyLock context (if pair.count 0 ≠ 0 then 1 else 0)))
      else some (s.goto cpu (.pairAlloc context))
  | .emptyLock context idx => s.take cpu (.emptyTest context idx)
  | .emptyTest context idx =>
      if s.allocator.fullCount ≠ 0 then
        some (s.goto cpu (.emptyBody context idx exchangeFull))
      else some (s.goto cpu (.emptyBody context idx []))
  | .emptyBody context idx (stmt :: rest) =>
      s.run cpu context idx stmt (.emptyBody context idx rest)
  | .emptyBody context _ [] => some (s.release cpu (.pairAlloc context))
  | .pairAlloc context =>
      (magPairAlloc s.allocator.memory (s.allocator.pcpPair (cpu, context))).map
        fun (elem, pair) =>
          { s.goto cpu (.ret (.elem elem)) with
            allocator := s.allocator.setPair (cpu, context) pair }
  | .free context elem =>
      (s.allocator.magPairFree (cpu, context) (some elem)).map fun allocator =>
        { s.goto cpu (.freeTest context elem) with allocator := allocator }
  | .freeTest context elem =>
      let pair := s.allocator.pcpPair (cpu, context)
      if magPairCount pair = magDepth <<< 1 then
        let idx : Fin 2 := if pair.count 1 = magDepth then 1 else 0
        if pair.count idx = magDepth then some (s.goto cpu (.fullLock context elem idx))
        else none
      else some (s.goto cpu (.ret .void))
  | .fullLock context elem idx => s.take cpu (.fullPush context elem idx shelve)
  | .fullPush context elem idx (stmt :: rest) =>
      s.run cpu context idx stmt (.fullPush context elem idx rest)
  | .fullPush context elem idx [] => some (s.goto cpu (.fullTest context elem idx))
  | .fullTest context elem idx =>
      if s.allocator.emptyCount ≠ 0 then
        some (s.goto cpu (.fullPull context elem idx none takeEmptied))
      else some (s.goto cpu (.fullKzalloc context elem idx))
  | .fullKzalloc context elem idx =>
      some { s.goto cpu (.fullPull context elem idx (some kzalloc) [.setMag kzalloc]) with
        allocator :=
          { s.allocator with
            memory := Function.update s.allocator.memory kzalloc .zeroed } }
  | .fullPull context elem idx ptr (stmt :: rest) =>
      s.run cpu context idx stmt (.fullPull context elem idx ptr rest)
  | .fullPull context _ idx _ [] => some (s.release cpu (.fullReset context idx))
  | .fullReset context idx =>
      let pair := s.allocator.pcpPair (cpu, context)
      some { s.goto cpu (.ret .void) with
        allocator := s.allocator.setPair (cpu, context)
          { pair with count := Function.update pair.count idx 0 } }
  | .idle | .ret _ => none

/-- The next statement of a CPU; the result is `none` where it waits for the lock, where
an assertion fails, where the code takes something for a magazine that is none, and where
it reads or writes through the null pointer. -/
def State.statement (s : State Cpu α) (cpu : Cpu) (kzalloc : Addr) : Option (State Cpu α) :=
  if nullMag ∈ s.touches cpu then none else s.execute cpu kzalloc

/-- What each statement does, by the place where it stands. -/
inductive Executes (s : State Cpu α) (cpu : Cpu) (kzalloc : Addr) : Pc α → State Cpu α → Prop
  | allocEmpty {context : Context}
      (hcount : magPairCount (s.allocator.pcpPair (cpu, context)) = 0) :
      Executes s cpu kzalloc (.alloc context) (s.goto cpu (.emptyLock context
        (if (s.allocator.pcpPair (cpu, context)).count 0 ≠ 0 then 1 else 0)))
  | allocPair {context : Context}
      (hcount : magPairCount (s.allocator.pcpPair (cpu, context)) ≠ 0) :
      Executes s cpu kzalloc (.alloc context) (s.goto cpu (.pairAlloc context))
  | emptyLock {context : Context} {idx : Fin 2} (hfree : s.lock = none) :
      Executes s cpu kzalloc (.emptyLock context idx)
        { s.goto cpu (.emptyTest context idx) with lock := some cpu }
  | emptyTest {context : Context} {idx : Fin 2} :
      Executes s cpu kzalloc (.emptyTest context idx) (s.goto cpu (.emptyBody context idx
        (if s.allocator.fullCount ≠ 0 then exchangeFull else [])))
  | emptyBody {context : Context} {idx : Fin 2} {stmt : Stmt} {rest : List Stmt}
      {scope : Scope} (hexec : stmt.exec idx (scopeOf s.allocator (cpu, context)) = some scope) :
      Executes s cpu kzalloc (.emptyBody context idx (stmt :: rest))
        { s.goto cpu (.emptyBody context idx rest) with
          allocator := setScope s.allocator (cpu, context) scope }
  | emptyUnlock {context : Context} {idx : Fin 2} :
      Executes s cpu kzalloc (.emptyBody context idx []) (s.release cpu (.pairAlloc context))
  | pairAlloc {context : Context} {elem : Option α} {pair : MagPair}
      (halloc : magPairAlloc s.allocator.memory (s.allocator.pcpPair (cpu, context)) =
        some (elem, pair)) :
      Executes s cpu kzalloc (.pairAlloc context)
        { s.goto cpu (.ret (.elem elem)) with
          allocator := s.allocator.setPair (cpu, context) pair }
  | free {context : Context} {elem : α} {allocator : MagAllocator Cpu α}
      (hfree : s.allocator.magPairFree (cpu, context) (some elem) = some allocator) :
      Executes s cpu kzalloc (.free context elem)
        { s.goto cpu (.freeTest context elem) with allocator := allocator }
  | freeFull {context : Context} {elem : α} {idx : Fin 2}
      (hcount : magPairCount (s.allocator.pcpPair (cpu, context)) = magDepth <<< 1)
      (hidx : idx = if (s.allocator.pcpPair (cpu, context)).count 1 = magDepth then 1 else 0)
      (hdepth : (s.allocator.pcpPair (cpu, context)).count idx = magDepth) :
      Executes s cpu kzalloc (.freeTest context elem) (s.goto cpu (.fullLock context elem idx))
  | freePair {context : Context} {elem : α}
      (hcount : magPairCount (s.allocator.pcpPair (cpu, context)) ≠ magDepth <<< 1) :
      Executes s cpu kzalloc (.freeTest context elem) (s.goto cpu (.ret .void))
  | fullLock {context : Context} {elem : α} {idx : Fin 2} (hfree : s.lock = none) :
      Executes s cpu kzalloc (.fullLock context elem idx)
        { s.goto cpu (.fullPush context elem idx shelve) with lock := some cpu }
  | fullPush {context : Context} {elem : α} {idx : Fin 2} {stmt : Stmt} {rest : List Stmt}
      {scope : Scope} (hexec : stmt.exec idx (scopeOf s.allocator (cpu, context)) = some scope) :
      Executes s cpu kzalloc (.fullPush context elem idx (stmt :: rest))
        { s.goto cpu (.fullPush context elem idx rest) with
          allocator := setScope s.allocator (cpu, context) scope }
  | pushed {context : Context} {elem : α} {idx : Fin 2} :
      Executes s cpu kzalloc (.fullPush context elem idx [])
        (s.goto cpu (.fullTest context elem idx))
  | testSome {context : Context} {elem : α} {idx : Fin 2} (hcount : s.allocator.emptyCount ≠ 0) :
      Executes s cpu kzalloc (.fullTest context elem idx)
        (s.goto cpu (.fullPull context elem idx none takeEmptied))
  | testNone {context : Context} {elem : α} {idx : Fin 2} (hcount : s.allocator.emptyCount = 0) :
      Executes s cpu kzalloc (.fullTest context elem idx)
        (s.goto cpu (.fullKzalloc context elem idx))
  | fullKzalloc {context : Context} {elem : α} {idx : Fin 2} :
      Executes s cpu kzalloc (.fullKzalloc context elem idx)
        { s.goto cpu (.fullPull context elem idx (some kzalloc) [.setMag kzalloc]) with
          allocator :=
            { s.allocator with
              memory := Function.update s.allocator.memory kzalloc .zeroed } }
  | fullPull {context : Context} {elem : α} {idx : Fin 2} {ptr : Option Addr} {stmt : Stmt}
      {rest : List Stmt} {scope : Scope}
      (hexec : stmt.exec idx (scopeOf s.allocator (cpu, context)) = some scope) :
      Executes s cpu kzalloc (.fullPull context elem idx ptr (stmt :: rest))
        { s.goto cpu (.fullPull context elem idx ptr rest) with
          allocator := setScope s.allocator (cpu, context) scope }
  | fullUnlock {context : Context} {elem : α} {idx : Fin 2} {ptr : Option Addr} :
      Executes s cpu kzalloc (.fullPull context elem idx ptr [])
        (s.release cpu (.fullReset context idx))
  | fullReset {context : Context} {idx : Fin 2} :
      Executes s cpu kzalloc (.fullReset context idx)
        { s.goto cpu (.ret .void) with
          allocator := s.allocator.setPair (cpu, context)
            { s.allocator.pcpPair (cpu, context) with
              count := Function.update (s.allocator.pcpPair (cpu, context)).count idx 0 } }

/-- The lock is free where a CPU takes it. -/
theorem take_eq_some {s s' : State Cpu α} {cpu : Cpu} {pc : Pc α}
    (htake : s.take cpu pc = some s') :
    s.lock = none ∧ s' = { s.goto cpu pc with lock := some cpu } := by
  obtain ⟨hfree, heq⟩ := Option.ite_none_right_eq_some.mp htake
  exact ⟨Option.isNone_iff_eq_none.mp hfree, (Option.some.inj heq).symm⟩

theorem executes_of_execute {s s' : State Cpu α} {cpu : Cpu} {kzalloc : Addr}
    (hnext : s.execute cpu kzalloc = some s') : Executes s cpu kzalloc (s.pc cpu) s' := by
  rw [State.execute] at hnext
  generalize s.pc cpu = pc at hnext
  cases pc with
  | alloc context =>
      dsimp only at hnext
      split at hnext <;> cases hnext
      · exact .allocEmpty ‹_›
      · exact .allocPair ‹_›
  | emptyLock context idx =>
      obtain ⟨hfree, rfl⟩ := take_eq_some hnext
      exact .emptyLock hfree
  | emptyTest context idx =>
      have htest : s' = s.goto cpu (.emptyBody context idx
          (if s.allocator.fullCount ≠ 0 then exchangeFull else [])) := by
        dsimp only at hnext
        split at hnext <;> cases hnext
        · rw [if_pos ‹_›]
        · rw [if_neg ‹_›]
      rw [htest]
      exact .emptyTest
  | emptyBody context idx rest =>
      cases rest with
      | nil =>
          cases hnext
          exact .emptyUnlock
      | cons stmt rest =>
          obtain ⟨scope, hexec, rfl⟩ := Option.map_eq_some_iff.mp hnext
          exact .emptyBody hexec
  | pairAlloc context =>
      obtain ⟨⟨elem, pair⟩, halloc, rfl⟩ := Option.map_eq_some_iff.mp hnext
      exact .pairAlloc halloc
  | free context elem =>
      obtain ⟨allocator, hfree, rfl⟩ := Option.map_eq_some_iff.mp hnext
      exact .free hfree
  | freeTest context elem =>
      dsimp only at hnext
      split at hnext
      · obtain ⟨hdepth, hnext⟩ := Option.ite_none_right_eq_some.mp hnext
        cases hnext
        exact .freeFull ‹_› rfl hdepth
      · cases hnext
        exact .freePair ‹_›
  | fullLock context elem idx =>
      obtain ⟨hfree, rfl⟩ := take_eq_some hnext
      exact .fullLock hfree
  | fullPush context elem idx rest =>
      cases rest with
      | nil =>
          cases hnext
          exact .pushed
      | cons stmt rest =>
          obtain ⟨scope, hexec, rfl⟩ := Option.map_eq_some_iff.mp hnext
          exact .fullPush hexec
  | fullTest context elem idx =>
      dsimp only at hnext
      split at hnext <;> cases hnext
      · exact .testSome ‹_›
      · exact .testNone (not_not.mp ‹_›)
  | fullKzalloc context elem idx =>
      cases hnext
      exact .fullKzalloc
  | fullPull context elem idx ptr rest =>
      cases rest with
      | nil =>
          cases hnext
          exact .fullUnlock
      | cons stmt rest =>
          obtain ⟨scope, hexec, rfl⟩ := Option.map_eq_some_iff.mp hnext
          exact .fullPull hexec
  | fullReset context idx =>
      cases hnext
      exact .fullReset
  | idle | ret _ => cases hnext

def Op.start : Op α → Pc α
  | .allocElem context => .alloc context
  | .freeElem context elem => .free context elem

/-- The CPUs call, take statement after statement, and return. -/
def smp [DecidableEq α] (mags : InitMags Cpu) :
    Machine (State Cpu α) (Label Cpu (Op α) Addr (Res α)) where
  init := ⟨magAllocatorInit mags, none, fun _ => .idle⟩
  next := fun s label =>
    match label with
    | .event (.call cpu op) =>
        match s.pc cpu with
        | .idle => some (s.goto cpu op.start)
        | _ => none
    | .event (.ret cpu res) =>
        match s.pc cpu with
        | .ret found => if found = res then some (s.goto cpu .idle) else none
        | _ => none
    | .take cpu kzalloc => s.statement cpu kzalloc

/-- The statement that calls `kzalloc`. -/
def Pc.asks : Pc α → Bool
  | .fullKzalloc _ _ _ => true
  | _ => false

/-- `kzalloc` succeeds, and returns memory that is not a magazine. -/
def Fresh [Fintype Cpu] (s : State Cpu α) : Label Cpu (Op α) Addr (Res α) → Prop
  | .take cpu kzalloc =>
      (s.pc cpu).asks = true → kzalloc ≠ nullMag ∧ kzalloc ∉ s.allocator.places
  | .event _ => True

instance decidableFresh [Fintype Cpu] (s : State Cpu α)
    (label : Label Cpu (Op α) Addr (Res α)) : Decidable (Fresh s label) :=
  match label with
  | .take _ _ => inferInstanceAs (Decidable (_ = true → _ ∧ _ ∉ _))
  | .event _ => inferInstanceAs (Decidable True)

/-! ## The calls one at a time -/

/-- The allocator whose calls take effect at once. -/
def allocatorObject (mags : InitMags Cpu) :
    Object Cpu (MagAllocator Cpu α) (Op α) Addr (Res α) where
  init := magAllocatorInit mags
  apply := fun s cpu op kzalloc =>
    match op with
    | .allocElem context =>
        (s.magAllocElem (cpu, context)).map fun (elem, s) => (.elem elem, s)
    | .freeElem context elem =>
        (s.magFreeElem (cpu, context) (some elem) kzalloc).map fun s => (.void, s)

end KtcpSplit.MagSmp
