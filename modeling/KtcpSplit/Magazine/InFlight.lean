import KtcpSplit.Magazine.Concurrent
import KtcpSplit.Magazine.Memory

/-!
# Calls in flight

A call that does not go to the depot takes effect when it has found that out, and one
that does when it gives the lock back.  Until then the memory is ahead of the allocator
whose calls are atomic, by what the CPUs have already written, and afterwards the pair of
the call is behind it.
-/

namespace KtcpSplit.MagSmp

open KtcpSplit.AtomicObject
open KtcpSplit.MagAlloc
open KtcpSplit.MagAlloc.MagAllocator
open KtcpSplit.Transition

variable {Cpu α : Type*}

/-! ## The statements under the lock -/

def execAll (idx : Fin 2) : List Stmt → Scope → Option Scope
  | [], scope => some scope
  | stmt :: rest, scope => (stmt.exec idx scope).bind (execAll idx rest)

theorem execAll_append (idx : Fin 2) (front back : List Stmt) (scope : Scope) :
    execAll idx (front ++ back) scope = (execAll idx front scope).bind (execAll idx back) := by
  induction front generalizing scope with
  | nil => rfl
  | cons stmt front ih =>
      rw [List.cons_append, execAll, execAll, Option.bind_assoc]
      exact Option.bind_congr fun next _ => ih next

/-- `if (pair->count[0]) 1 : 0` in `mag_allocator_switch_empty`. -/
def emptyIdx (pair : MagPair) : Fin 2 := if pair.count 0 ≠ 0 then 1 else 0

/-- `if (pair->count[1] == MAG_DEPTH) 1 : 0` in `mag_allocator_switch_full`. -/
def fullIdx (pair : MagPair) : Fin 2 := if pair.count 1 = magDepth then 1 else 0

section Switch

variable [DecidableEq Cpu] (s : MagAllocator Cpu α) (i : Cpu × Context)

theorem setScope_scopeOf : setScope s i (scopeOf s i) = s := by
  rw [setScope, scopeOf, Function.update_eq_self]

theorem scopeOf_setScope (scope : Scope) : scopeOf (setScope s i scope) i = scope := by
  simp only [scopeOf, setScope, Function.update_self]

/-- What `mag_allocator_switch_empty` does under the lock. -/
def switchEmpty : List Stmt := if s.fullCount ≠ 0 then exchangeFull else []

theorem magAllocatorSwitchEmpty_eq :
    s.magAllocatorSwitchEmpty i =
      (execAll (emptyIdx (s.pcpPair i)) (switchEmpty s) (scopeOf s i)).map (setScope s i) := by
  rw [magAllocatorSwitchEmpty, switchEmpty, emptyIdx]
  dsimp only
  split
  · cases hlist : s.fullList with
    | nil => simp [exchangeFull, execAll, Stmt.exec, scopeOf, hlist]
    | cons mag rest =>
        simp [exchangeFull, execAll, Stmt.exec, scopeOf, hlist, setScope, Scope.setMag,
          Scope.setCount, setPair]
  · rw [execAll, Option.map_some, setScope_scopeOf]

/-- What `mag_allocator_switch_full` does under the lock; the memory of a new magazine is
zero. -/
def switchFull (kzalloc : Addr) : List Stmt :=
  shelve ++ if s.emptyCount ≠ 0 then takeEmptied else [.setMag kzalloc]

def zeroedMemory (kzalloc : Addr) : Addr → Magazine α :=
  if s.emptyCount ≠ 0 then s.memory else Function.update s.memory kzalloc .zeroed

omit [DecidableEq Cpu] in
theorem zeroedMemory_of_ne (kzalloc : Addr) {mag : Addr}
    (hne : s.emptyCount ≠ 0 ∨ mag ≠ kzalloc) : zeroedMemory s kzalloc mag = s.memory mag := by
  rw [zeroedMemory]
  split
  · rfl
  · rename_i hzero
    exact Function.update_of_ne (hne.resolve_left hzero) _ _

omit [DecidableEq Cpu] in
theorem zeroedMemory_self {kzalloc : Addr} (hzero : s.emptyCount = 0) :
    zeroedMemory s kzalloc kzalloc = .zeroed := by
  rw [zeroedMemory, if_neg (not_not.mpr hzero), Function.update_self]

theorem magAllocatorSwitchFull_eq (kzalloc : Addr)
    (hfull : (s.pcpPair i).count (fullIdx (s.pcpPair i)) = magDepth) :
    s.magAllocatorSwitchFull i kzalloc =
      (execAll (fullIdx (s.pcpPair i)) (switchFull s kzalloc) (scopeOf s i)).map fun scope =>
        { setScope s i (scope.setCount (fullIdx (s.pcpPair i)) 0) with
          memory := zeroedMemory s kzalloc } := by
  rw [magAllocatorSwitchFull, switchFull, zeroedMemory, execAll_append]
  rw [fullIdx] at hfull ⊢
  dsimp only
  generalize (if (s.pcpPair i).count 1 = magDepth then (1 : Fin 2) else 0) = idx at hfull ⊢
  rw [if_pos hfull]
  by_cases hcount : s.emptyCount ≠ 0
  · rw [if_pos hcount, if_pos hcount, if_pos hcount]
    cases hlist : s.emptyList with
    | nil => simp [shelve, takeEmptied, execAll, Stmt.exec, scopeOf, hlist]
    | cons mag rest =>
        simp [shelve, takeEmptied, execAll, Stmt.exec, scopeOf, hlist, setScope,
          Scope.setMag, Scope.setCount, setPair]
  · rw [if_neg hcount, if_neg hcount, if_neg hcount]
    simp [shelve, execAll, Stmt.exec, scopeOf, setScope, Scope.setMag, Scope.setCount, setPair]

end Switch

/-! ## Calls that are made at once -/

/-- The pair after `mag_pair_free`. -/
def freed (pair : MagPair) : MagPair :=
  { pair with
    count := Function.update pair.count (freeIdx pair) (pair.count (freeIdx pair) + 1) }

/-- The magazine that `mag_pair_free` writes. -/
def freeMag (pair : MagPair) : Addr := pair.magPtr (freeIdx pair)

theorem freeMag_mem_mags (pair : MagPair) : freeMag pair ∈ pair.mags :=
  pair.magPtr_mem_mags _

/-- What `mag_pair_free` leaves in it. -/
def stored (s : MagAllocator Cpu α) (i : Cpu × Context) (elem : Option α) : Magazine α :=
  (s.memory (freeMag (s.pcpPair i))).store
    ((s.pcpPair i).count (freeIdx (s.pcpPair i))).toNat elem

/-- The scope of `mag_allocator_switch_full`. -/
def freedScope (s : MagAllocator Cpu α) (i : Cpu × Context) : Scope :=
  { scopeOf s i with pair := freed (s.pcpPair i) }

section Calls

variable [DecidableEq Cpu]

def afterFree (s : MagAllocator Cpu α) (i : Cpu × Context) (elem : Option α) :
    MagAllocator Cpu α :=
  { s with
    memory := Function.update s.memory (freeMag (s.pcpPair i)) (stored s i elem)
    pcpPair := Function.update s.pcpPair i (freed (s.pcpPair i)) }

section AfterFree

variable (s : MagAllocator Cpu α) (i : Cpu × Context) (elem : Option α)

@[simp]
theorem afterFree_pcpPair_self : (afterFree s i elem).pcpPair i = freed (s.pcpPair i) :=
  Function.update_self ..

theorem afterFree_pcpPair_of_ne {k : Cpu × Context} (hk : k ≠ i) :
    (afterFree s i elem).pcpPair k = s.pcpPair k :=
  Function.update_of_ne hk _ _

@[simp]
theorem afterFree_memory_self :
    (afterFree s i elem).memory (freeMag (s.pcpPair i)) = stored s i elem :=
  Function.update_self ..

theorem afterFree_memory_of_ne {mag : Addr} (hmag : mag ≠ freeMag (s.pcpPair i)) :
    (afterFree s i elem).memory mag = s.memory mag :=
  Function.update_of_ne hmag _ _

end AfterFree

/-- The allocator after a free that took a magazine to the depot. -/
def afterShelve (s : MagAllocator Cpu α) (i : Cpu × Context) (elem : Option α) (kzalloc : Addr)
    (scope : Scope) : MagAllocator Cpu α :=
  { setScope s i (scope.setCount (fullIdx (freed (s.pcpPair i))) 0) with
    memory := zeroedMemory (afterFree s i elem) kzalloc }

theorem scopeOf_afterFree (s : MagAllocator Cpu α) (i : Cpu × Context) (elem : Option α) :
    scopeOf (afterFree s i elem) i = freedScope s i := by
  simp only [scopeOf, freedScope, afterFree, Function.update_self]

variable {s : MagAllocator Cpu α} {i : Cpu × Context}

/-- A pair that holds an element does not go to the depot. -/
theorem magAllocElem_of_pair {elem : Option α} {pair : MagPair}
    (hcount : magPairCount (s.pcpPair i) ≠ 0)
    (halloc : magPairAlloc s.memory (s.pcpPair i) = some (elem, pair)) :
    s.magAllocElem i = some (elem, s.setPair i pair) := by
  rw [magAllocElem, if_neg hcount, Option.bind_some, halloc, Option.map_some]

/-- An empty pair goes to the depot first. -/
theorem magAllocElem_of_depot {scope : Scope} {elem : Option α} {pair : MagPair}
    (hcount : magPairCount (s.pcpPair i) = 0)
    (hexec : execAll (emptyIdx (s.pcpPair i)) (switchEmpty s) (scopeOf s i) = some scope)
    (halloc : magPairAlloc s.memory scope.pair = some (elem, pair)) :
    s.magAllocElem i = some (elem, (setScope s i scope).setPair i pair) := by
  have hpair : (setScope s i scope).pcpPair i = scope.pair := Function.update_self ..
  have hmemory : (setScope s i scope).memory = s.memory := rfl
  rw [magAllocElem, if_pos hcount, magAllocatorSwitchEmpty_eq, hexec, Option.map_some,
    Option.bind_some, hpair, hmemory, halloc, Option.map_some]

variable [Fintype Cpu]

omit [Fintype Cpu] in
theorem magPairFree_eq (hfront : (s.pcpPair i).Front) (hroom : (s.pcpPair i).Room)
    (elem : Option α) : s.magPairFree i elem = some (afterFree s i elem) := by
  obtain ⟨hlt, hassert, -⟩ := freeIdx_spec hfront hroom
  simp only [magPairFree, if_pos hassert]
  exact if_pos hlt

omit [DecidableEq Cpu] in
/-- Every call takes an element out of its pair, or finds none. -/
theorem exists_magPairAlloc (hsettled : s.Settled) (i : Cpu × Context) :
    ∃ elem pair, magPairAlloc s.memory (s.pcpPair i) = some (elem, pair) := by
  rcases magPairAlloc_spec s.memory (hsettled.front i) with ⟨halloc, -⟩ | ⟨elem, pair, halloc, -⟩
  · exact ⟨none, _, halloc⟩
  · exact ⟨elem, pair, halloc⟩

/-- A pair that is not full on both sides does not go to the depot. -/
theorem magFreeElem_of_pair (hsettled : s.Settled) (elem : Option α)
    (hcount : magPairCount (freed (s.pcpPair i)) ≠ magDepth <<< 1) (kzalloc : Addr) :
    s.magFreeElem i elem kzalloc = some (afterFree s i elem) ∧ (afterFree s i elem).Settled ∧
      ¬s.Asks i elem := by
  have hfree := magPairFree_eq (hsettled.front i) (hsettled.room i) elem
  have hpair := afterFree_pcpPair_self s i elem
  have hasks : ¬s.Asks i elem := by
    rintro ⟨s₁, hs₁, hfull, -⟩
    rw [Option.mem_def, hfree, Option.some.injEq] at hs₁
    rw [← hs₁, hpair] at hfull
    exact hcount hfull
  obtain ⟨s₁, hs₁, htidy, hroom, -⟩ := magPairFree_spec (i := i) hsettled elem
  rw [hfree, Option.some.injEq] at hs₁
  subst hs₁
  refine ⟨?_, ⟨htidy, fun k => ?_⟩, hasks⟩
  · rw [magFreeElem, hfree, Option.bind_some, hpair, if_neg hcount]
  · by_cases hk : k = i
    · subst hk
      rw [← hpair] at hcount
      exact not_not.mp ((htidy.front k).count_eq_full_iff.not.mp hcount)
    · exact hroom k hk

/-- A pair that is full on both sides goes to the depot. -/
theorem magFreeElem_of_depot (hsettled : s.Settled) (elem : Option α) {kzalloc : Addr}
    {scope : Scope} (hcount : magPairCount (freed (s.pcpPair i)) = magDepth <<< 1)
    (hfull : (freed (s.pcpPair i)).count (fullIdx (freed (s.pcpPair i))) = magDepth)
    (hexec : execAll (fullIdx (freed (s.pcpPair i))) (switchFull s kzalloc)
      (freedScope s i) = some scope) :
    s.magFreeElem i elem kzalloc = some (afterShelve s i elem kzalloc scope) := by
  have hfree := magPairFree_eq (hsettled.front i) (hsettled.room i) elem
  have hpair := afterFree_pcpPair_self s i elem
  have hswitch := magAllocatorSwitchFull_eq (afterFree s i elem) i kzalloc (by rwa [hpair])
  have hsame : switchFull (afterFree s i elem) kzalloc = switchFull s kzalloc := rfl
  rw [hpair, scopeOf_afterFree, hsame, hexec, Option.map_some] at hswitch
  rw [magFreeElem, hfree, Option.bind_some, hpair, if_pos hcount, hswitch]
  simp only [afterShelve, setScope, afterFree, Function.update_idem]

end Calls

/-! ## What a CPU has done already -/

/-- The lists and counters of the depot. -/
def depotOf (s : MagAllocator Cpu α) : List Addr × List Addr × BitVec 16 × BitVec 16 :=
  (s.emptyList, s.fullList, s.emptyCount, s.fullCount)

/-- The element of a free is in its magazine. -/
def Written (f s : MagAllocator Cpu α) (i : Cpu × Context) (elem : α) : Prop :=
  f.memory (freeMag (s.pcpPair i)) = stored s i (some elem)

/-- A pair that `mag_free_elem` takes to the depot, and the magazine that goes there. -/
structure Overfull (pair : MagPair) (idx : Fin 2) : Prop where
  count : magPairCount pair = magDepth <<< 1
  full : pair.count idx = magDepth
  idx : idx = fullIdx pair

/-- The branch that `mag_allocator_switch_full` has taken for its new magazine. -/
def Refilled [Fintype Cpu] (f s : MagAllocator Cpu α) (ptr : Option Addr)
    (stmts : List Stmt) : Prop :=
  (ptr = none ∧ s.emptyCount ≠ 0 ∧ stmts = takeEmptied) ∨
    ∃ kzalloc, ptr = some kzalloc ∧ s.emptyCount = 0 ∧ stmts = [.setMag kzalloc] ∧
      (kzalloc ≠ nullMag ∧ kzalloc ∉ s.places) ∧ f.memory kzalloc = .zeroed

/-- How far the call of a CPU is in the memory `f` and in the atomic allocator `s`. -/
def Tracks [Fintype Cpu] (f s : MagAllocator Cpu α) (cpu : Cpu)
    (status : Status (Op α) (Res α)) : Pc α → Prop
  | .idle => status = .idle
  | .alloc context => status = .called (.allocElem context)
  | .emptyLock context idx =>
      status = .called (.allocElem context) ∧ magPairCount (s.pcpPair (cpu, context)) = 0 ∧
        idx = emptyIdx (s.pcpPair (cpu, context))
  | .emptyTest context idx =>
      status = .called (.allocElem context) ∧ magPairCount (s.pcpPair (cpu, context)) = 0 ∧
        idx = emptyIdx (s.pcpPair (cpu, context)) ∧
        scopeOf f (cpu, context) = scopeOf s (cpu, context)
  | .emptyBody context idx rest =>
      status = .called (.allocElem context) ∧ magPairCount (s.pcpPair (cpu, context)) = 0 ∧
        idx = emptyIdx (s.pcpPair (cpu, context)) ∧
        ∃ past, past ++ rest = switchEmpty s ∧
          execAll idx past (scopeOf s (cpu, context)) = some (scopeOf f (cpu, context))
  | .pairAlloc context =>
      ∃ elem, status = .done (.elem elem) ∧
        magPairAlloc s.memory (f.pcpPair (cpu, context)) =
          some (elem, s.pcpPair (cpu, context))
  | .free context elem => status = .called (.freeElem context elem)
  | .freeTest context elem =>
      status = .called (.freeElem context elem) ∧ Written f s (cpu, context) elem ∧
        f.pcpPair (cpu, context) = freed (s.pcpPair (cpu, context))
  | .fullLock context elem idx =>
      status = .called (.freeElem context elem) ∧ Written f s (cpu, context) elem ∧
        Overfull (freed (s.pcpPair (cpu, context))) idx ∧
        f.pcpPair (cpu, context) = freed (s.pcpPair (cpu, context))
  | .fullPush context elem idx rest =>
      status = .called (.freeElem context elem) ∧ Written f s (cpu, context) elem ∧
        Overfull (freed (s.pcpPair (cpu, context))) idx ∧
        ∃ past, past ++ rest = shelve ∧
          execAll idx past (freedScope s (cpu, context)) = some (scopeOf f (cpu, context))
  | .fullTest context elem idx =>
      status = .called (.freeElem context elem) ∧ Written f s (cpu, context) elem ∧
        Overfull (freed (s.pcpPair (cpu, context))) idx ∧
        execAll idx shelve (freedScope s (cpu, context)) = some (scopeOf f (cpu, context))
  | .fullKzalloc context elem idx =>
      status = .called (.freeElem context elem) ∧ Written f s (cpu, context) elem ∧
        Overfull (freed (s.pcpPair (cpu, context))) idx ∧ s.emptyCount = 0 ∧
        execAll idx shelve (freedScope s (cpu, context)) = some (scopeOf f (cpu, context))
  | .fullPull context elem idx ptr rest =>
      status = .called (.freeElem context elem) ∧ Written f s (cpu, context) elem ∧
        Overfull (freed (s.pcpPair (cpu, context))) idx ∧
        ∃ past, Refilled f s ptr (past ++ rest) ∧
          execAll idx (shelve ++ past) (freedScope s (cpu, context)) =
            some (scopeOf f (cpu, context))
  | .fullReset context idx =>
      status = .done .void ∧
        s.pcpPair (cpu, context) =
          { f.pcpPair (cpu, context) with
            count := Function.update (f.pcpPair (cpu, context)).count idx 0 }
  | .ret res => status = .done res

/-- The context whose pair differs between the memory and the atomic allocator. -/
def Pc.Touches (context : Context) : Pc α → Prop
  | .emptyBody here _ _ | .pairAlloc here | .freeTest here _ | .fullLock here _ _
  | .fullPush here _ _ _ | .fullTest here _ _ | .fullKzalloc here _ _
  | .fullPull here _ _ _ _ | .fullReset here _ => here = context
  | _ => False

/-- The magazines that a CPU wrote while its call has not taken effect. -/
def Dirty (s : MagAllocator Cpu α) (cpu : Cpu) (mag : Addr) : Pc α → Prop
  | .freeTest context _ | .fullLock context _ _ | .fullPush context _ _ _
  | .fullTest context _ _ | .fullKzalloc context _ _ =>
      mag = freeMag (s.pcpPair (cpu, context))
  | .fullPull context _ _ ptr _ => mag = freeMag (s.pcpPair (cpu, context)) ∨ ptr = some mag
  | _ => False

/-- The memory under the statements, and the allocator whose calls are atomic. -/
structure Related [Fintype Cpu] (s : State Cpu α)
    (o : Calls Cpu (MagAllocator Cpu α) (Op α) (Res α)) : Prop where
  settled : o.object.Settled
  tracks : ∀ cpu, Tracks s.allocator o.object cpu (o.status cpu) (s.pc cpu)
  pair : ∀ cpu context, ¬(s.pc cpu).Touches context →
    s.allocator.pcpPair (cpu, context) = o.object.pcpPair (cpu, context)
  memory : ∀ mag, (∀ cpu, ¬Dirty o.object cpu mag (s.pc cpu)) →
    s.allocator.memory mag = o.object.memory mag
  lock : ∀ cpu, s.lock = some cpu ↔ (s.pc cpu).Inside
  depot : s.lock = none → depotOf s.allocator = depotOf o.object

/-! ## The other CPUs -/

section Others

variable {f f' s s' : MagAllocator Cpu α} {cpu : Cpu} {pc : Pc α}
  {status : Status (Op α) (Res α)}

theorem scopeOf_congr {i : Cpu × Context} (hdepot : depotOf s' = depotOf s)
    (hpair : s'.pcpPair i = s.pcpPair i) : scopeOf s' i = scopeOf s i := by
  simp only [depotOf, Prod.mk.injEq] at hdepot
  obtain ⟨hempty, hfull, hemptyCount, hfullCount⟩ := hdepot
  rw [scopeOf, scopeOf, hempty, hfull, hemptyCount, hfullCount, hpair]

theorem freedScope_congr {i : Cpu × Context} (hdepot : depotOf s' = depotOf s)
    (hpair : s'.pcpPair i = s.pcpPair i) : freedScope s' i = freedScope s i := by
  rw [freedScope, freedScope, scopeOf_congr hdepot hpair, hpair]

theorem magPairAlloc_congr {memory memory' : Addr → Magazine α} {pair : MagPair}
    (hsame : ∀ mag ∈ pair.mags, memory' mag = memory mag) :
    magPairAlloc memory' pair = magPairAlloc memory pair := by
  simp only [magPairAlloc, hsame _ (pair.magPtr_mem_mags 0)]

variable [Fintype Cpu]

/-- What a CPU may do while another one is at `pc`. -/
structure Kept (f f' s s' : MagAllocator Cpu α) (cpu : Cpu) (pc : Pc α) : Prop where
  pair : ∀ context, f'.pcpPair (cpu, context) = f.pcpPair (cpu, context)
  object : ∀ context, s'.pcpPair (cpu, context) = s.pcpPair (cpu, context)
  memory : ∀ mag, Dirty s cpu mag pc → f'.memory mag = f.memory mag
  objectMemory : ∀ context, ∀ mag ∈ (s.pcpPair (cpu, context)).mags,
    s'.memory mag = s.memory mag
  depot : pc.Inside → depotOf f' = depotOf f ∧ depotOf s' = depotOf s ∧ s'.places = s.places

theorem Kept.stored (hkept : Kept f f' s s' cpu pc) (context : Context) (elem : Option α) :
    stored s' (cpu, context) elem = stored s (cpu, context) elem := by
  rw [MagSmp.stored, MagSmp.stored, hkept.object,
    hkept.objectMemory context _ (freeMag_mem_mags _)]

theorem Kept.written (hkept : Kept f f' s s' cpu pc) {context : Context} {elem : α}
    (hdirty : Dirty s cpu (freeMag (s.pcpPair (cpu, context))) pc)
    (hwritten : Written f s (cpu, context) elem) : Written f' s' (cpu, context) elem := by
  rw [Written, hkept.stored, hkept.object, hkept.memory _ hdirty]
  exact hwritten

/-- A CPU does not notice what the others do meanwhile. -/
theorem Tracks.keep (htracks : Tracks f s cpu status pc) (hkept : Kept f f' s s' cpu pc) :
    Tracks f' s' cpu status pc := by
  cases pc with
  | idle => exact htracks
  | alloc context => exact htracks
  | emptyLock context idx =>
      rw [Tracks, hkept.object]
      exact htracks
  | emptyTest context idx =>
      obtain ⟨hdepot, hobject, -⟩ := hkept.depot trivial
      rw [Tracks, hkept.object, scopeOf_congr hdepot (hkept.pair context),
        scopeOf_congr hobject (hkept.object context)]
      exact htracks
  | emptyBody context idx rest =>
      obtain ⟨hdepot, hobject, -⟩ := hkept.depot trivial
      have hcount : switchEmpty s' = switchEmpty s := by
        simp only [depotOf, Prod.mk.injEq] at hobject
        rw [switchEmpty, switchEmpty, hobject.2.2.2]
      rw [Tracks, hkept.object, hcount, scopeOf_congr hdepot (hkept.pair context),
        scopeOf_congr hobject (hkept.object context)]
      exact htracks
  | pairAlloc context =>
      obtain ⟨elem, hstatus, halloc⟩ := htracks
      refine ⟨elem, hstatus, ?_⟩
      rw [hkept.pair, hkept.object, ← halloc]
      refine magPairAlloc_congr fun mag hmag => hkept.objectMemory context mag ?_
      rw [magPairAlloc_mags halloc]
      exact hmag
  | free context elem => exact htracks
  | freeTest context elem =>
      obtain ⟨hstatus, hwritten, hpair⟩ := htracks
      refine ⟨hstatus, hkept.written rfl hwritten, ?_⟩
      rw [hkept.pair, hkept.object, hpair]
  | fullLock context elem idx =>
      obtain ⟨hstatus, hwritten, hfull, hpair⟩ := htracks
      refine ⟨hstatus, hkept.written rfl hwritten, ?_, ?_⟩
      · rwa [hkept.object]
      · rw [hkept.pair, hkept.object, hpair]
  | fullPush context elem idx rest =>
      obtain ⟨hdepot, hobject, -⟩ := hkept.depot trivial
      obtain ⟨hstatus, hwritten, hrest⟩ := htracks
      refine ⟨hstatus, hkept.written rfl hwritten, ?_⟩
      rw [hkept.object, scopeOf_congr hdepot (hkept.pair context),
        freedScope_congr hobject (hkept.object context)]
      exact hrest
  | fullTest context elem idx =>
      obtain ⟨hdepot, hobject, -⟩ := hkept.depot trivial
      obtain ⟨hstatus, hwritten, hrest⟩ := htracks
      refine ⟨hstatus, hkept.written rfl hwritten, ?_⟩
      rw [hkept.object, scopeOf_congr hdepot (hkept.pair context),
        freedScope_congr hobject (hkept.object context)]
      exact hrest
  | fullKzalloc context elem idx =>
      obtain ⟨hdepot, hobject, -⟩ := hkept.depot trivial
      obtain ⟨hstatus, hwritten, hfull, hzero, hrest⟩ := htracks
      refine ⟨hstatus, hkept.written rfl hwritten, ?_, ?_, ?_⟩
      · rwa [hkept.object]
      · simp only [depotOf, Prod.mk.injEq] at hobject
        rw [hobject.2.2.1, hzero]
      · rw [scopeOf_congr hdepot (hkept.pair context),
          freedScope_congr hobject (hkept.object context)]
        exact hrest
  | fullPull context elem idx ptr rest =>
      obtain ⟨hdepot, hobject, hplaces⟩ := hkept.depot trivial
      obtain ⟨hstatus, hwritten, hfull, past, hrefilled, hexec⟩ := htracks
      refine ⟨hstatus, hkept.written (.inl rfl) hwritten, ?_, past, ?_, ?_⟩
      · rwa [hkept.object]
      · have hcount : s'.emptyCount = s.emptyCount := by
          simp only [depotOf, Prod.mk.injEq] at hobject
          exact hobject.2.2.1
        rw [Refilled, hcount, hplaces]
        refine hrefilled.imp_right ?_
        rintro ⟨kzalloc, rfl, hzero, hstmts, hfresh, hzeroed⟩
        refine ⟨kzalloc, rfl, hzero, hstmts, hfresh, ?_⟩
        rw [hkept.memory kzalloc (.inr rfl), hzeroed]
      · rw [scopeOf_congr hdepot (hkept.pair context),
          freedScope_congr hobject (hkept.object context)]
        exact hexec
  | fullReset context idx =>
      rw [Tracks, hkept.object, hkept.pair]
      exact htracks
  | ret res => exact htracks

end Others

/-! ## A step of a CPU -/

section Step

variable [Fintype Cpu] [DecidableEq Cpu] {s : State Cpu α}
  {o : Calls Cpu (MagAllocator Cpu α) (Op α) (Res α)} {cpu : Cpu}
  {f' s' : MagAllocator Cpu α}

/-- Two pairs have no magazine in common. -/
theorem Related.ne_of_mem (hrelated : Related s o) {i k : Cpu × Context} (hne : i ≠ k)
    {mag mag' : Addr} (hmag : mag ∈ (o.object.pcpPair i).mags)
    (hmag' : mag' ∈ (o.object.pcpPair k).mags) : mag ≠ mag' := by
  rintro rfl
  exact (hrelated.settled.alone hmag).1 k (Ne.symm hne) hmag'

omit [DecidableEq Cpu] in
/-- A CPU writes to magazines of its own, or to new memory. -/
theorem Related.mem_of_dirty (hrelated : Related s o) {mag : Addr}
    (hdirty : Dirty o.object cpu mag (s.pc cpu)) :
    (∃ context, mag ∈ (o.object.pcpPair (cpu, context)).mags) ∨
      (s.pc cpu).Inside ∧ mag ∉ o.object.places := by
  have htracks := hrelated.tracks cpu
  cases hpc : s.pc cpu with
  | fullPull context elem idx ptr rest =>
      rw [hpc] at hdirty htracks
      obtain rfl | rfl := hdirty
      · exact .inl ⟨context, freeMag_mem_mags _⟩
      · obtain ⟨-, -, -, past, hrefilled, -⟩ := htracks
        obtain ⟨hnone, -⟩ | ⟨kzalloc, hptr, -, -, ⟨-, hfresh⟩, -⟩ := hrefilled
        · cases hnone
        · obtain rfl := Option.some.inj hptr
          exact .inr ⟨trivial, hfresh⟩
  | freeTest context elem =>
      rw [hpc] at hdirty
      exact .inl ⟨context, hdirty ▸ freeMag_mem_mags _⟩
  | fullLock context elem idx =>
      rw [hpc] at hdirty
      exact .inl ⟨context, hdirty ▸ freeMag_mem_mags _⟩
  | fullPush context elem idx rest =>
      rw [hpc] at hdirty
      exact .inl ⟨context, hdirty ▸ freeMag_mem_mags _⟩
  | fullTest context elem idx =>
      rw [hpc] at hdirty
      exact .inl ⟨context, hdirty ▸ freeMag_mem_mags _⟩
  | fullKzalloc context elem idx =>
      rw [hpc] at hdirty
      exact .inl ⟨context, hdirty ▸ freeMag_mem_mags _⟩
  | _ =>
      rw [hpc] at hdirty
      exact hdirty.elim

omit [DecidableEq Cpu] in
/-- One CPU at a time is under the lock. -/
theorem Related.eq_of_inside (hrelated : Related s o) {k : Cpu} (hcpu : (s.pc cpu).Inside)
    (hk : (s.pc k).Inside) : k = cpu := by
  have hlock := (hrelated.lock cpu).mpr hcpu
  rw [(hrelated.lock k).mpr hk] at hlock
  exact Option.some.inj hlock

/-- What a step of a CPU leaves to the others. -/
structure Leaves (s : State Cpu α) (o : Calls Cpu (MagAllocator Cpu α) (Op α) (Res α))
    (cpu : Cpu) (f' s' : MagAllocator Cpu α) : Prop where
  pair : ∀ k ≠ cpu, ∀ context, f'.pcpPair (k, context) = s.allocator.pcpPair (k, context)
  object : ∀ k ≠ cpu, ∀ context, s'.pcpPair (k, context) = o.object.pcpPair (k, context)
  memory : ∀ k ≠ cpu, ∀ mag, Dirty o.object k mag (s.pc k) →
    f'.memory mag = s.allocator.memory mag
  objectMemory : ∀ k ≠ cpu, ∀ context, ∀ mag ∈ (o.object.pcpPair (k, context)).mags,
    s'.memory mag = o.object.memory mag
  depot : (s.pc cpu).Inside ∨ depotOf f' = depotOf s.allocator ∧ depotOf s' = depotOf o.object ∧
    s'.places = o.object.places

omit [DecidableEq Cpu] in
theorem Leaves.kept (hrelated : Related s o) (hleaves : Leaves s o cpu f' s') {k : Cpu}
    (hk : k ≠ cpu) : Kept s.allocator f' o.object s' k (s.pc k) where
  pair := hleaves.pair k hk
  object := hleaves.object k hk
  memory := hleaves.memory k hk
  objectMemory := hleaves.objectMemory k hk
  depot hinside := hleaves.depot.resolve_left fun hcpu =>
    hk (hrelated.eq_of_inside hcpu hinside)

omit [Fintype Cpu] [DecidableEq Cpu] in
theorem dirty_congr {s s' : MagAllocator Cpu α} {mag : Addr} {pc : Pc α}
    (hpair : ∀ context, s'.pcpPair (cpu, context) = s.pcpPair (cpu, context)) :
    Dirty s' cpu mag pc ↔ Dirty s cpu mag pc := by
  cases pc <;> simp only [Dirty, hpair]

/-- What has to be shown about the CPU that takes a step. -/
theorem Related.move (hrelated : Related s o) {pc' : Pc α} {status' : Status (Op α) (Res α)}
    {lock' : Option Cpu} (hleaves : Leaves s o cpu f' s') (hsettled : s'.Settled)
    (htracks : Tracks f' s' cpu status' pc')
    (hpair : ∀ context, ¬pc'.Touches context →
      f'.pcpPair (cpu, context) = s'.pcpPair (cpu, context))
    (hmemory : ∀ mag, ¬Dirty s' cpu mag pc' →
      (∀ k ≠ cpu, ¬Dirty o.object k mag (s.pc k)) → f'.memory mag = s'.memory mag)
    (hlock : ∀ k, lock' = some k ↔ (Function.update s.pc cpu pc' k).Inside)
    (hdepot : lock' = none → depotOf f' = depotOf s') :
    Related ⟨f', lock', Function.update s.pc cpu pc'⟩
      ⟨s', Function.update o.status cpu status'⟩ where
  settled := hsettled
  tracks k := by
    by_cases hk : k = cpu
    · subst hk
      dsimp only
      rw [Function.update_self, Function.update_self]
      exact htracks
    · dsimp only
      rw [Function.update_of_ne hk, Function.update_of_ne hk]
      exact (hrelated.tracks k).keep (hleaves.kept hrelated hk)
  pair k context htouches := by
    by_cases hk : k = cpu
    · subst hk
      dsimp only at htouches ⊢
      rw [Function.update_self] at htouches
      exact hpair context htouches
    · dsimp only at htouches ⊢
      rw [Function.update_of_ne hk] at htouches
      rw [hleaves.pair k hk, hleaves.object k hk]
      exact hrelated.pair k context htouches
  memory mag hclean := by
    apply hmemory mag
    · have hcpu := hclean cpu
      dsimp only at hcpu
      rwa [Function.update_self] at hcpu
    · intro k hk hdirty
      have hnot := hclean k
      dsimp only at hnot
      rw [Function.update_of_ne hk, dirty_congr (hleaves.object k hk)] at hnot
      exact hnot hdirty
  lock := hlock
  depot := hdepot

/-- What has to be shown about a step that leaves the atomic allocator as it is. -/
theorem Related.stay (hrelated : Related s o) {pc' : Pc α} {lock' : Option Cpu}
    (hleaves : Leaves s o cpu f' o.object) (htracks : Tracks f' o.object cpu (o.status cpu) pc')
    (hpair : ∀ context, ¬pc'.Touches context →
      f'.pcpPair (cpu, context) = o.object.pcpPair (cpu, context))
    (hmemory : ∀ mag, ¬Dirty o.object cpu mag pc' →
      (∀ k ≠ cpu, ¬Dirty o.object k mag (s.pc k)) → f'.memory mag = o.object.memory mag)
    (hlock : ∀ k, lock' = some k ↔ (Function.update s.pc cpu pc' k).Inside)
    (hdepot : lock' = none → depotOf f' = depotOf o.object) :
    Related ⟨f', lock', Function.update s.pc cpu pc'⟩ o := by
  have hmove := hrelated.move hleaves hrelated.settled htracks hpair hmemory hlock hdepot
  rwa [Function.update_eq_self] at hmove

/-- The lock where a step neither takes it nor gives it back. -/
theorem Related.lock_same (hrelated : Related s o) {pc' : Pc α}
    (hinside : pc'.Inside ↔ (s.pc cpu).Inside) (k : Cpu) :
    s.lock = some k ↔ (Function.update s.pc cpu pc' k).Inside := by
  rw [hrelated.lock k]
  by_cases hk : k = cpu
  · subst hk
    rw [Function.update_self, hinside]
  · rw [Function.update_of_ne hk]

theorem Related.lock_taken (hrelated : Related s o) {pc' : Pc α} (hfree : s.lock = none)
    (hinside : pc'.Inside) (k : Cpu) :
    some cpu = some k ↔ (Function.update s.pc cpu pc' k).Inside := by
  by_cases hk : k = cpu
  · subst hk
    rw [Function.update_self]
    exact iff_of_true rfl hinside
  · rw [Function.update_of_ne hk, ← hrelated.lock k, hfree]
    exact iff_of_false (fun heq => hk (Option.some.inj heq).symm) (by simp)

theorem Related.lock_released (hrelated : Related s o) {pc' : Pc α}
    (hinside : (s.pc cpu).Inside) (hout : ¬pc'.Inside) (k : Cpu) :
    none = some k ↔ (Function.update s.pc cpu pc' k).Inside := by
  refine iff_of_false (by simp) ?_
  by_cases hk : k = cpu
  · subst hk
    rwa [Function.update_self]
  · rw [Function.update_of_ne hk]
    exact fun hother => hk (hrelated.eq_of_inside hinside hother)

omit [DecidableEq Cpu] in
theorem Related.tracks_at (hrelated : Related s o) {pc : Pc α} (hpc : s.pc cpu = pc) :
    Tracks s.allocator o.object cpu (o.status cpu) pc :=
  hpc ▸ hrelated.tracks cpu

/-- A magazine that no CPU has written is the same on both sides. -/
theorem Related.memory_at (hrelated : Related s o) {pc : Pc α} (hpc : s.pc cpu = pc) {mag : Addr}
    (hcpu : ¬Dirty o.object cpu mag pc) (hothers : ∀ k ≠ cpu, ¬Dirty o.object k mag (s.pc k)) :
    s.allocator.memory mag = o.object.memory mag := by
  apply hrelated.memory
  intro k
  by_cases hk : k = cpu
  · subst hk
    rwa [hpc]
  · exact hothers k hk

/-- No other CPU writes to the magazines of a pair. -/
theorem Related.not_dirty (hrelated : Related s o) {context : Context} {mag : Addr}
    (hmag : mag ∈ (o.object.pcpPair (cpu, context)).mags) {k : Cpu} (hk : k ≠ cpu) :
    ¬Dirty o.object k mag (s.pc k) := by
  intro hdirty
  obtain ⟨here, hmem⟩ | ⟨-, hfresh⟩ := hrelated.mem_of_dirty hdirty
  · exact hrelated.ne_of_mem (fun heq => hk (Prod.mk.inj heq).1.symm) hmag hmem rfl
  · exact hfresh (mem_places_of_pair hmag)

/-- A step that changes neither the memory of the magazines nor the atomic allocator. -/
theorem Related.silent (hrelated : Related s o) {pc pc' : Pc α} (hpc : s.pc cpu = pc)
    (hothers : ∀ k ≠ cpu, ∀ context,
      f'.pcpPair (k, context) = s.allocator.pcpPair (k, context))
    (hmemory : f'.memory = s.allocator.memory)
    (hdepot : pc.Inside ∨ depotOf f' = depotOf s.allocator)
    (htracks : Tracks f' o.object cpu (o.status cpu) pc')
    (hpair : ∀ context, ¬pc'.Touches context →
      f'.pcpPair (cpu, context) = o.object.pcpPair (cpu, context))
    (hdirty : ∀ mag, Dirty o.object cpu mag pc → Dirty o.object cpu mag pc')
    (hinside : pc'.Inside ↔ pc.Inside) :
    Related ⟨f', s.lock, Function.update s.pc cpu pc'⟩ o := by
  subst hpc
  refine hrelated.stay ?leaves htracks hpair ?memory (hrelated.lock_same hinside) ?depot
  case leaves =>
    exact ⟨hothers, fun _ _ _ => rfl, fun _ _ mag _ => congrFun hmemory mag,
      fun _ _ _ _ _ => rfl, hdepot.imp_right fun hsame => ⟨hsame, rfl, rfl⟩⟩
  case memory =>
    intro mag hclean hothers
    rw [hmemory]
    exact hrelated.memory_at rfl (fun hd => hclean (hdirty mag hd)) hothers
  case depot =>
    intro hfree
    rw [← hrelated.depot hfree]
    refine hdepot.resolve_left fun hin => ?_
    rw [(hrelated.lock cpu).mpr hin] at hfree
    cases hfree

/-- A step that changes nothing but the place of the CPU. -/
theorem Related.goto (hrelated : Related s o) {pc pc' : Pc α} (hpc : s.pc cpu = pc)
    (htracks : Tracks s.allocator o.object cpu (o.status cpu) pc')
    (htouches : ∀ context, pc.Touches context → pc'.Touches context)
    (hdirty : ∀ mag, Dirty o.object cpu mag pc → Dirty o.object cpu mag pc')
    (hinside : pc'.Inside ↔ pc.Inside) : Related (s.goto cpu pc') o :=
  hrelated.silent hpc (fun _ _ _ => rfl) rfl (.inr rfl) htracks
    (fun context hnot => hrelated.pair cpu context fun htouch =>
      hnot (htouches context (hpc ▸ htouch))) hdirty hinside

/-- A statement under the lock. -/
theorem Related.run (hrelated : Related s o) {context : Context} {pc pc' : Pc α}
    {scope : Scope} (hpc : s.pc cpu = pc) (hin : pc.Inside)
    (htracks : Tracks (setScope s.allocator (cpu, context) scope) o.object cpu
      (o.status cpu) pc')
    (htouch : pc'.Touches context)
    (htouches : ∀ context, pc.Touches context → pc'.Touches context)
    (hdirty : ∀ mag, Dirty o.object cpu mag pc → Dirty o.object cpu mag pc')
    (hinside : pc'.Inside) :
    Related ⟨setScope s.allocator (cpu, context) scope, s.lock,
      Function.update s.pc cpu pc'⟩ o := by
  refine hrelated.silent hpc (fun k hk here => ?_) rfl (.inl hin) htracks (fun here hnot => ?_)
    hdirty (iff_of_true hinside hin)
  · exact Function.update_of_ne (fun heq => hk (Prod.mk.inj heq).1) _ _
  · have hne : (cpu, here) ≠ (cpu, context) := by
      intro heq
      rw [(Prod.mk.inj heq).2] at hnot
      exact hnot htouch
    rw [← hrelated.pair cpu here fun hold => hnot (htouches here (hpc ▸ hold))]
    exact Function.update_of_ne hne _ _

end Step

end KtcpSplit.MagSmp
