import KtcpSplit.Magazine.InFlight
import KtcpSplit.Magazine.Mapped

/-!
# The allocator is linearizable

Whatever the CPUs do to the pairs and to the depot at the same time, the calls could have
been made one after the other, each of them while it runs.  So what holds of the allocator
whose calls are atomic holds of the allocator on many CPUs.
-/

namespace KtcpSplit.MagSmp

open KtcpSplit.AtomicObject
open KtcpSplit.MagAlloc
open KtcpSplit.MagAlloc.MagAllocator
open KtcpSplit.Transition

variable {Cpu α : Type*} [Fintype Cpu] [DecidableEq Cpu]

/-- A call gets memory that is not a magazine. -/
def Allowed (o : Calls Cpu (MagAllocator Cpu α) (Op α) (Res α)) :
    Label Cpu (Op α) Addr (Res α) → Prop
  | .take cpu kzalloc =>
      ∀ context elem, o.status cpu = .called (.freeElem context elem) →
        o.object.Asks (cpu, context) (some elem) →
        kzalloc ≠ nullMag ∧ kzalloc ∉ o.object.places
  | _ => True

section Step

variable {s : State Cpu α} {o : Calls Cpu (MagAllocator Cpu α) (Op α) (Res α)} {cpu : Cpu}
  {context : Context} {elem : α} {idx : Fin 2} {rest : List Stmt} {stmt : Stmt}
  {scope : Scope} {ptr : Option Addr}

/-! ## Statements that take no effect -/

theorem Related.alloc_empty (hrelated : Related s o) (hpc : s.pc cpu = .alloc context)
    (hcount : magPairCount (s.allocator.pcpPair (cpu, context)) = 0) :
    Related (s.goto cpu
      (.emptyLock context (emptyIdx (s.allocator.pcpPair (cpu, context))))) o := by
  have hsame := hrelated.pair cpu context (by rw [hpc]; exact id)
  rw [hsame] at hcount ⊢
  exact hrelated.goto hpc ⟨hrelated.tracks_at hpc, hcount, rfl⟩ (fun _ => id) (fun _ => id) Iff.rfl

theorem Related.emptyTest (hrelated : Related s o) (hpc : s.pc cpu = .emptyTest context idx) :
    Related (s.goto cpu (.emptyBody context idx (switchEmpty s.allocator))) o := by
  obtain ⟨hstatus, hcount, hidx, hscope⟩ := hrelated.tracks_at hpc
  have hsame : switchEmpty s.allocator = switchEmpty o.object := by
    have hfull := congrArg Scope.fullCount hscope
    simp only [scopeOf] at hfull
    rw [switchEmpty, switchEmpty, hfull]
  refine hrelated.goto hpc ⟨hstatus, hcount, hidx, [], hsame, ?_⟩ (fun _ => False.elim)
    (fun _ => id) Iff.rfl
  rw [execAll, hscope]

theorem Related.emptyBody (hrelated : Related s o)
    (hpc : s.pc cpu = .emptyBody context idx (stmt :: rest))
    (hexec : stmt.exec idx (scopeOf s.allocator (cpu, context)) = some scope) :
    Related ⟨setScope s.allocator (cpu, context) scope, s.lock,
      Function.update s.pc cpu (.emptyBody context idx rest)⟩ o := by
  obtain ⟨hstatus, hcount, hidx, past, hpast, hall⟩ := hrelated.tracks_at hpc
  refine hrelated.run hpc trivial ⟨hstatus, hcount, hidx, past ++ [stmt], ?_, ?_⟩
    rfl (fun _ => id) (fun _ => id) trivial
  · rw [List.append_assoc]
    exact hpast
  · rw [execAll_append, hall, Option.bind_some, execAll, hexec, scopeOf_setScope]
    rfl

theorem Related.freeTest_full (hrelated : Related s o)
    (hpc : s.pc cpu = .freeTest context elem)
    (hfull : Overfull (s.allocator.pcpPair (cpu, context)) idx) :
    Related (s.goto cpu (.fullLock context elem idx)) o := by
  obtain ⟨hstatus, hwritten, hpair⟩ := hrelated.tracks_at hpc
  exact hrelated.goto hpc ⟨hstatus, hwritten, hpair ▸ hfull, hpair⟩ (fun _ => id) (fun _ => id)
    Iff.rfl

theorem Related.fullPush (hrelated : Related s o)
    (hpc : s.pc cpu = .fullPush context elem idx (stmt :: rest))
    (hexec : stmt.exec idx (scopeOf s.allocator (cpu, context)) = some scope) :
    Related ⟨setScope s.allocator (cpu, context) scope, s.lock,
      Function.update s.pc cpu (.fullPush context elem idx rest)⟩ o := by
  obtain ⟨hstatus, hwritten, hfull, past, hpast, hall⟩ := hrelated.tracks_at hpc
  refine hrelated.run hpc trivial
    ⟨hstatus, hwritten, hfull, past ++ [stmt], ?_, ?_⟩ rfl (fun _ => id) (fun _ => id) trivial
  · rw [List.append_assoc]
    exact hpast
  · rw [execAll_append, hall, Option.bind_some, execAll, hexec, scopeOf_setScope]
    rfl

theorem Related.fullPush_nil (hrelated : Related s o)
    (hpc : s.pc cpu = .fullPush context elem idx []) :
    Related (s.goto cpu (.fullTest context elem idx)) o := by
  obtain ⟨hstatus, hwritten, hfull, past, hpast, hall⟩ := hrelated.tracks_at hpc
  rw [List.append_nil] at hpast
  subst hpast
  exact hrelated.goto hpc ⟨hstatus, hwritten, hfull, hall⟩ (fun _ => id) (fun _ => id) Iff.rfl

omit [Fintype Cpu] [DecidableEq Cpu] in
/-- The full list does not change the count of the empty one. -/
theorem emptyCount_of_shelve {f : MagAllocator Cpu α} {i : Cpu × Context}
    (hexec : execAll idx shelve (freedScope o.object i) = some (scopeOf f i)) :
    f.emptyCount = o.object.emptyCount := by
  have hcount := congrArg (Option.map Scope.emptyCount) hexec
  exact (Option.some.inj hcount).symm

theorem Related.fullTest_empty (hrelated : Related s o)
    (hpc : s.pc cpu = .fullTest context elem idx) (hcount : s.allocator.emptyCount ≠ 0) :
    Related (s.goto cpu (.fullPull context elem idx none takeEmptied)) o := by
  obtain ⟨hstatus, hwritten, hfull, hall⟩ := hrelated.tracks_at hpc
  rw [emptyCount_of_shelve hall] at hcount
  exact hrelated.goto hpc ⟨hstatus, hwritten, hfull, [], .inl ⟨rfl, hcount, rfl⟩, hall⟩
    (fun _ => id) (fun _ => .inl) Iff.rfl

theorem Related.fullTest_zero (hrelated : Related s o)
    (hpc : s.pc cpu = .fullTest context elem idx) (hcount : s.allocator.emptyCount = 0) :
    Related (s.goto cpu (.fullKzalloc context elem idx)) o := by
  obtain ⟨hstatus, hwritten, hfull, hall⟩ := hrelated.tracks_at hpc
  rw [emptyCount_of_shelve hall] at hcount
  exact hrelated.goto hpc ⟨hstatus, hwritten, hfull, hcount, hall⟩ (fun _ => id) (fun _ => id)
    Iff.rfl

theorem Related.fullPull (hrelated : Related s o)
    (hpc : s.pc cpu = .fullPull context elem idx ptr (stmt :: rest))
    (hexec : stmt.exec idx (scopeOf s.allocator (cpu, context)) = some scope) :
    Related ⟨setScope s.allocator (cpu, context) scope, s.lock,
      Function.update s.pc cpu (.fullPull context elem idx ptr rest)⟩ o := by
  obtain ⟨hstatus, hwritten, hfull, past, hrefilled, hall⟩ := hrelated.tracks_at hpc
  refine hrelated.run hpc trivial
    ⟨hstatus, hwritten, hfull, past ++ [stmt], ?_, ?_⟩ rfl (fun _ => id) (fun _ => id) trivial
  · rw [List.append_assoc]
    exact hrefilled
  · rw [← List.append_assoc, execAll_append, hall, Option.bind_some, execAll, hexec,
      scopeOf_setScope]
    rfl

/-- The lock is free, and the depot is as the atomic allocator has it. -/
theorem Related.locked (hrelated : Related s o) {pc pc' : Pc α} (hpc : s.pc cpu = pc)
    (hfree : s.lock = none) (hout : ¬pc.Inside) (hin : pc'.Inside)
    (htouches : ∀ context, pc.Touches context → pc'.Touches context)
    (hdirty : ∀ mag, Dirty o.object cpu mag pc → Dirty o.object cpu mag pc')
    (htracks : depotOf s.allocator = depotOf o.object →
      Tracks s.allocator o.object cpu (o.status cpu) pc') :
    Related { s.goto cpu pc' with lock := some cpu } o := by
  subst hpc
  have hdepot := hrelated.depot hfree
  refine hrelated.stay ⟨fun _ _ _ => rfl, fun _ _ _ => rfl, fun _ _ _ _ => rfl,
      fun _ _ _ _ _ => rfl, .inr ⟨rfl, rfl, rfl⟩⟩ (htracks hdepot)
    (fun context hnot => hrelated.pair cpu context fun h => hnot (htouches context h)) ?_
    (hrelated.lock_taken hfree hin) (by simp)
  exact fun mag hclean hothers =>
    hrelated.memory_at rfl (fun h => hclean (hdirty mag h)) hothers

theorem Related.emptyLock (hrelated : Related s o) (hpc : s.pc cpu = .emptyLock context idx)
    (hfree : s.lock = none) :
    Related { s.goto cpu (.emptyTest context idx) with lock := some cpu } o := by
  obtain ⟨hstatus, hcount, hidx⟩ := hrelated.tracks_at hpc
  have hpair := hrelated.pair cpu context (by rw [hpc]; exact id)
  exact hrelated.locked hpc hfree id trivial (fun _ => id) (fun _ => id) fun hdepot =>
    ⟨hstatus, hcount, hidx, scopeOf_congr hdepot hpair⟩

theorem Related.fullLock (hrelated : Related s o) (hpc : s.pc cpu = .fullLock context elem idx)
    (hfree : s.lock = none) :
    Related { s.goto cpu (.fullPush context elem idx shelve) with lock := some cpu } o := by
  obtain ⟨hstatus, hwritten, hfull, hpair⟩ := hrelated.tracks_at hpc
  refine hrelated.locked hpc hfree id trivial (fun _ => id) (fun _ => id) fun hdepot =>
    ⟨hstatus, hwritten, hfull, [], rfl, ?_⟩
  simp only [depotOf, Prod.mk.injEq] at hdepot
  obtain ⟨hempty, hlist, hemptyCount, hfullCount⟩ := hdepot
  simp only [execAll, freedScope, scopeOf, hempty, hlist, hemptyCount, hfullCount, hpair]

/-- The pair catches up with the atomic allocator. -/
theorem Related.catch_up (hrelated : Related s o) {pc : Pc α} {pair : MagPair} {res : Res α}
    (hpc : s.pc cpu = pc) (hout : ¬pc.Inside) (htouch : ∀ here, pc.Touches here ↔ context = here)
    (hclean : ∀ mag, ¬Dirty o.object cpu mag pc) (hstatus : o.status cpu = .done res)
    (hpair : pair = o.object.pcpPair (cpu, context)) :
    Related { s.goto cpu (.ret res) with
      allocator := s.allocator.setPair (cpu, context) pair } o := by
  refine hrelated.silent hpc (fun k hk here => ?_) rfl (.inr rfl) hstatus (fun here _ => ?_)
    (fun mag h => (hclean mag h).elim) (iff_of_false id hout)
  · exact Function.update_of_ne (fun heq => hk (Prod.mk.inj heq).1) _ _
  · by_cases hhere : here = context
    · subst hhere
      rw [← hpair]
      exact Function.update_self ..
    · rw [← hrelated.pair cpu here (by rw [hpc, htouch]; exact fun heq => hhere heq.symm)]
      exact Function.update_of_ne (fun heq => hhere (Prod.mk.inj heq).2) _ _

/-- Between taking effect and its return, an allocation reads what the atomic one did. -/
theorem Related.magPairAlloc_eq (hrelated : Related s o) (hpc : s.pc cpu = .pairAlloc context) :
    ∃ elem, o.status cpu = .done (.elem elem) ∧
      magPairAlloc s.allocator.memory (s.allocator.pcpPair (cpu, context)) =
        some (elem, o.object.pcpPair (cpu, context)) := by
  obtain ⟨elem, hstatus, halloc⟩ := hrelated.tracks_at hpc
  refine ⟨elem, hstatus, halloc ▸ magPairAlloc_congr fun mag hmag => ?_⟩
  rw [← magPairAlloc_mags halloc] at hmag
  exact hrelated.memory_at hpc id fun k hk => hrelated.not_dirty hmag hk

theorem Related.pairAlloc (hrelated : Related s o) {found : Option α} {pair : MagPair}
    (hpc : s.pc cpu = .pairAlloc context)
    (halloc : magPairAlloc s.allocator.memory (s.allocator.pcpPair (cpu, context)) =
      some (found, pair)) :
    Related { s.goto cpu (.ret (.elem found)) with
      allocator := s.allocator.setPair (cpu, context) pair } o := by
  obtain ⟨elem, hstatus, heq⟩ := hrelated.magPairAlloc_eq hpc
  obtain ⟨rfl, rfl⟩ := Prod.mk.inj (Option.some.inj (halloc.symm.trans heq))
  exact hrelated.catch_up hpc id (fun _ => Iff.rfl) (fun _ => id) hstatus rfl

theorem Related.fullReset (hrelated : Related s o) (hpc : s.pc cpu = .fullReset context idx) :
    Related { s.goto cpu (.ret .void) with
      allocator := s.allocator.setPair (cpu, context)
        { s.allocator.pcpPair (cpu, context) with
          count := Function.update (s.allocator.pcpPair (cpu, context)).count idx 0 } } o := by
  obtain ⟨hstatus, hpair⟩ := hrelated.tracks_at hpc
  exact hrelated.catch_up hpc id (fun _ => Iff.rfl) (fun _ => id) hstatus hpair.symm

/-- `mag_pair_free` stores its element in a magazine that only this CPU writes. -/
theorem Related.free (hrelated : Related s o) (hpc : s.pc cpu = .free context elem) :
    s.allocator.magPairFree (cpu, context) (some elem) =
        some (afterFree s.allocator (cpu, context) (some elem)) ∧
      Related { s.goto cpu (.freeTest context elem) with
        allocator := afterFree s.allocator (cpu, context) (some elem) } o := by
  set i := (cpu, context) with hi
  have hsame := hrelated.pair cpu context (by rw [hpc]; exact id)
  have hmag : freeMag (s.allocator.pcpPair i) = freeMag (o.object.pcpPair i) := by rw [hsame]
  have hstored : stored s.allocator i (some elem) = stored o.object i (some elem) := by
    rw [stored, stored, hsame, hrelated.memory_at hpc id fun k hk =>
      hrelated.not_dirty (freeMag_mem_mags _) hk]
  refine ⟨magPairFree_eq (hsame ▸ hrelated.settled.front i) (hsame ▸ hrelated.settled.room i) _,
    ?_⟩
  refine hrelated.stay
    ⟨?pair, fun _ _ _ => rfl, ?memory, fun _ _ _ _ _ => rfl, .inr ⟨rfl, rfl, rfl⟩⟩
    ⟨hrelated.tracks_at hpc, ?written, ?freed⟩ ?own ?clean
    (hrelated.lock_same (by rw [hpc]; exact Iff.rfl)) hrelated.depot
  case pair =>
    exact fun k hk here => afterFree_pcpPair_of_ne _ _ _ fun heq => hk (Prod.mk.inj heq).1
  case memory =>
    intro k hk mag hdirty
    refine afterFree_memory_of_ne _ _ _ ?_
    rintro rfl
    rw [hmag] at hdirty
    exact hrelated.not_dirty (freeMag_mem_mags _) hk hdirty
  case written =>
    rw [Written, ← hmag, afterFree_memory_self, hstored]
  case freed =>
    rw [afterFree_pcpPair_self, hsame]
  case own =>
    intro here hnot
    rw [afterFree_pcpPair_of_ne _ _ _ fun heq => hnot (Prod.mk.inj heq).2.symm]
    exact hrelated.pair cpu here (by rw [hpc]; exact id)
  case clean =>
    intro mag hclean hothers
    rw [afterFree_memory_of_ne _ _ _ (hmag ▸ hclean)]
    exact hrelated.memory_at hpc id hothers

omit [DecidableEq Cpu] in
/-- Outside the lock a CPU has the magazines of its pairs. -/
theorem Related.mags_eq (hrelated : Related s o) (hout : ¬(s.pc cpu).Inside) (here : Context) :
    (s.allocator.pcpPair (cpu, here)).mags = (o.object.pcpPair (cpu, here)).mags := by
  by_cases htouch : (s.pc cpu).Touches here
  · have htracks := hrelated.tracks cpu
    generalize s.pc cpu = pc at hout htouch htracks
    cases pc with
    | pairAlloc context =>
        obtain rfl : context = here := htouch
        obtain ⟨elem, -, halloc⟩ := htracks
        exact (magPairAlloc_mags halloc).symm
    | freeTest context elem =>
        obtain rfl : context = here := htouch
        rw [htracks.2.2]
        rfl
    | fullLock context elem idx =>
        obtain rfl : context = here := htouch
        rw [htracks.2.2.2]
        rfl
    | fullReset context idx =>
        obtain rfl : context = here := htouch
        rw [htracks.2]
        rfl
    | emptyBody context idx rest => exact absurd trivial hout
    | fullPush context elem idx rest => exact absurd trivial hout
    | fullTest context elem idx => exact absurd trivial hout
    | fullKzalloc context elem idx => exact absurd trivial hout
    | fullPull context elem idx ptr rest => exact absurd trivial hout
    | _ => exact htouch.elim
  · rw [hrelated.pair cpu here htouch]

omit [DecidableEq Cpu] in
/-- What is a magazine for the atomic allocator is one in memory, too. -/
theorem Related.mem_places (hrelated : Related s o)
    (hpc : s.pc cpu = .fullKzalloc context elem idx) {mag : Addr}
    (hmag : mag ∈ o.object.places) : mag ∈ s.allocator.places := by
  obtain ⟨-, -, -, -, hall⟩ := hrelated.tracks_at hpc
  have hscope := Option.some.inj hall
  have hlist : s.allocator.fullList = (freed (o.object.pcpPair (cpu, context))).magPtr idx ::
      o.object.fullList := (congrArg Scope.fullList hscope).symm
  have hempty : s.allocator.emptyList = o.object.emptyList :=
    (congrArg Scope.emptyList hscope).symm
  have hpair : s.allocator.pcpPair (cpu, context) = freed (o.object.pcpPair (cpu, context)) :=
    (congrArg Scope.pair hscope).symm
  rcases Multiset.mem_add.mp hmag with hmem | hmem
  · obtain ⟨⟨k, here⟩, -, hmem⟩ := Multiset.mem_sum.mp hmem
    refine mem_places_of_pair (i := (k, here)) ?_
    by_cases hk : k = cpu
    · subst hk
      by_cases hhere : here = context
      · subst hhere
        rw [hpair]
        exact hmem
      · rw [hrelated.pair k here (by rw [hpc]; exact fun heq => hhere heq.symm)]
        exact hmem
    · rw [hrelated.mags_eq (fun hin => hk (hrelated.eq_of_inside (by rw [hpc]; trivial) hin))]
      exact hmem
  · rcases Multiset.mem_add.mp hmem with hmem | hmem
    · exact mem_places_of_full (hlist ▸ List.mem_cons_of_mem _ hmem)
    · exact mem_places_of_empty (hempty ▸ hmem)

/-- New memory for a magazine. -/
theorem Related.fullKzalloc (hrelated : Related s o)
    (hpc : s.pc cpu = .fullKzalloc context elem idx) {kzalloc : Addr}
    (hfresh : kzalloc ≠ nullMag ∧ kzalloc ∉ s.allocator.places) :
    Related { s.goto cpu (.fullPull context elem idx (some kzalloc) [.setMag kzalloc]) with
      allocator :=
        { s.allocator with
          memory := Function.update s.allocator.memory kzalloc .zeroed } } o := by
  obtain ⟨hstatus, hwritten, hfull, hzero, hall⟩ := hrelated.tracks_at hpc
  have hnew : kzalloc ∉ o.object.places := fun hmem => hfresh.2 (hrelated.mem_places hpc hmem)
  have hne : freeMag (o.object.pcpPair (cpu, context)) ≠ kzalloc := by
    rintro rfl
    exact hnew (mem_places_of_pair (freeMag_mem_mags _))
  have hin : (s.pc cpu).Inside := by
    rw [hpc]
    trivial
  refine hrelated.stay
    ⟨fun _ _ _ => rfl, fun _ _ _ => rfl, ?memory, fun _ _ _ _ _ => rfl, .inl hin⟩
    ⟨hstatus, ?written, hfull, [], .inr ⟨kzalloc, rfl, hzero, rfl, ⟨hfresh.1, hnew⟩, ?zeroed⟩, hall⟩
    ?own ?clean (hrelated.lock_same (iff_of_true trivial hin)) ?depot
  case memory =>
    intro k hk mag hdirty
    refine Function.update_of_ne ?_ _ _
    rintro rfl
    obtain ⟨here, hmem⟩ | ⟨hinside, -⟩ := hrelated.mem_of_dirty hdirty
    · exact hnew (mem_places_of_pair hmem)
    · exact hk (hrelated.eq_of_inside hin hinside)
  case written => exact (Function.update_of_ne hne _ _).trans hwritten
  case zeroed => exact Function.update_self ..
  case own =>
    intro here hnot
    exact hrelated.pair cpu here (by rw [hpc]; exact hnot)
  case clean =>
    intro mag hclean hothers
    rw [Dirty, not_or] at hclean
    refine (Function.update_of_ne (fun heq => hclean.2 (congrArg some heq.symm)) _ _).trans ?_
    exact hrelated.memory_at hpc hclean.1 hothers
  case depot =>
    intro hnone
    cases hnone.symm.trans ((hrelated.lock cpu).mpr hin)

/-! ## Calls that take effect -/

omit [Fintype Cpu] in
theorem next_alloc (mags : InitMags Cpu) [DecidableEq α] {elem : Option α}
    {s' : MagAllocator Cpu α} (hstatus : o.status cpu = .called (.allocElem context))
    (hcall : o.object.magAllocElem (cpu, context) = some (elem, s')) (kzalloc : Addr) :
    (atomic (allocatorObject mags)).next o (.take cpu kzalloc) =
      some ⟨s', Function.update o.status cpu (.done (.elem elem))⟩ := by
  simp only [atomic, hstatus, allocatorObject, hcall, Option.map_some]
  rfl

omit [Fintype Cpu] in
theorem next_free (mags : InitMags Cpu) [DecidableEq α] {kzalloc : Addr}
    {s' : MagAllocator Cpu α} (hstatus : o.status cpu = .called (.freeElem context elem))
    (hcall : o.object.magFreeElem (cpu, context) (some elem) kzalloc = some s') :
    (atomic (allocatorObject mags)).next o (.take cpu kzalloc) =
      some ⟨s', Function.update o.status cpu (.done .void)⟩ := by
  simp only [atomic, hstatus, allocatorObject, hcall, Option.map_some]
  rfl

/-- The pair holds an element. -/
theorem Related.alloc_pair (hrelated : Related s o) (hpc : s.pc cpu = .alloc context)
    (hcount : magPairCount (s.allocator.pcpPair (cpu, context)) ≠ 0) :
    ∃ elem s', o.object.magAllocElem (cpu, context) = some (elem, s') ∧
      Related (s.goto cpu (.pairAlloc context))
        ⟨s', Function.update o.status cpu (.done (.elem elem))⟩ := by
  have hsame : ∀ here, s.allocator.pcpPair (cpu, here) = o.object.pcpPair (cpu, here) :=
    fun here => hrelated.pair cpu here (by rw [hpc]; exact id)
  rw [hsame] at hcount
  obtain ⟨elem, pair, halloc⟩ := exists_magPairAlloc hrelated.settled (cpu, context)
  have hcall := magAllocElem_of_pair hcount halloc
  obtain ⟨_, _, hcall', hsettled, -⟩ := magAllocElem_spec hrelated.settled (cpu, context)
  obtain ⟨rfl, rfl⟩ := Prod.mk.inj (Option.some.inj (hcall.symm.trans hcall'))
  have hother : ∀ i, i ≠ (cpu, context) →
      (o.object.setPair (cpu, context) pair).pcpPair i = o.object.pcpPair i :=
    fun i hi => Function.update_of_ne hi _ _
  have hown : (o.object.setPair (cpu, context) pair).pcpPair (cpu, context) = pair :=
    Function.update_self ..
  refine ⟨elem, _, hcall, hrelated.move ⟨fun _ _ _ => rfl, ?object, fun _ _ _ _ => rfl,
    fun _ _ _ _ _ => rfl, .inr ⟨rfl, rfl, magAllocElem_places hcall⟩⟩ hsettled
    ⟨elem, rfl, ?tracks⟩ ?pair ?memory (hrelated.lock_same (by rw [hpc]; exact Iff.rfl))
    hrelated.depot⟩
  case object =>
    exact fun k hk here => hother _ fun heq => hk (Prod.mk.inj heq).1
  case tracks =>
    rw [hsame, hown]
    exact halloc
  case pair =>
    intro here hnot
    rw [hother _ fun heq => hnot (Prod.mk.inj heq).2.symm, hsame]
  case memory => exact fun mag _ hclean => hrelated.memory_at hpc id hclean

/-- The pair holds none, and the depot was asked for a full magazine. -/
theorem Related.alloc_depot (hrelated : Related s o) (hpc : s.pc cpu = .emptyBody context idx []) :
    ∃ elem s', o.status cpu = .called (.allocElem context) ∧
      o.object.magAllocElem (cpu, context) = some (elem, s') ∧
      Related (s.release cpu (.pairAlloc context))
        ⟨s', Function.update o.status cpu (.done (.elem elem))⟩ := by
  obtain ⟨hstatus, hcount, rfl, past, hpast, hall⟩ := hrelated.tracks_at hpc
  rw [List.append_nil] at hpast
  subst hpast
  set i := (cpu, context) with hi
  have hswitch := magAllocatorSwitchEmpty_eq o.object i
  rw [hall, Option.map_some] at hswitch
  obtain ⟨s₁, hs₁, hsettled₁, -⟩ := magAllocatorSwitchEmpty_spec hrelated.settled
    ((hrelated.settled.front i).count_eq_zero hcount)
  rw [hswitch, Option.some.injEq] at hs₁
  subst hs₁
  obtain ⟨elem, pair, halloc⟩ := exists_magPairAlloc hsettled₁ i
  have hscope : (setScope o.object i (scopeOf s.allocator i)).pcpPair i =
      s.allocator.pcpPair i := Function.update_self ..
  rw [hscope] at halloc
  have hcall := magAllocElem_of_depot hcount hall halloc
  obtain ⟨_, _, hcall', hsettled, -⟩ := magAllocElem_spec hrelated.settled i
  obtain ⟨rfl, rfl⟩ := Prod.mk.inj (Option.some.inj (hcall.symm.trans hcall'))
  have hother : ∀ k, k ≠ i → ((setScope o.object i (scopeOf s.allocator i)).setPair i pair).pcpPair
      k = o.object.pcpPair k := by
    intro k hk
    simp only [setPair, setScope, Function.update_of_ne hk]
  have hown : ((setScope o.object i (scopeOf s.allocator i)).setPair i pair).pcpPair i = pair :=
    Function.update_self ..
  refine ⟨elem, _, hstatus, hcall, hrelated.move ⟨fun _ _ _ => rfl, ?object,
    fun _ _ _ _ => rfl, fun _ _ _ _ _ => rfl, .inl (by rw [hpc]; trivial)⟩ hsettled
    ⟨elem, rfl, ?tracks⟩ ?pair ?memory (hrelated.lock_released (by rw [hpc]; trivial) id)
    fun _ => rfl⟩
  case object =>
    exact fun k hk here => hother _ fun heq => hk (Prod.mk.inj heq).1
  case tracks =>
    rw [hown]
    exact halloc
  case pair =>
    intro here hnot
    rw [hother _ fun heq => hnot (Prod.mk.inj heq).2.symm]
    exact hrelated.pair cpu here (by rw [hpc]; exact hnot)
  case memory => exact fun mag _ hclean => hrelated.memory_at hpc id hclean

/-- There is a slot left in the pair. -/
theorem Related.free_pair (hrelated : Related s o) (hpc : s.pc cpu = .freeTest context elem)
    (hcount : magPairCount (s.allocator.pcpPair (cpu, context)) ≠ magDepth <<< 1)
    (kzalloc : Addr) :
    ∃ s', o.status cpu = .called (.freeElem context elem) ∧
      o.object.magFreeElem (cpu, context) (some elem) kzalloc = some s' ∧
      ¬o.object.Asks (cpu, context) (some elem) ∧
      Related (s.goto cpu (.ret .void)) ⟨s', Function.update o.status cpu (.done .void)⟩ := by
  obtain ⟨hstatus, hwritten, hpair⟩ := hrelated.tracks_at hpc
  set i := (cpu, context) with hi
  rw [hpair] at hcount
  obtain ⟨hcall, hsettled, hasks⟩ :=
    magFreeElem_of_pair hrelated.settled (some elem) hcount kzalloc
  have hplaces : (afterFree o.object i (some elem)).places = o.object.places := by
    obtain ⟨-, hsame⟩ | ⟨hyes, -⟩ := magFreeElem_places hcall
    · exact hsame
    · exact absurd hyes hasks
  have hother : ∀ k, k ≠ i →
      (afterFree o.object i (some elem)).pcpPair k = o.object.pcpPair k :=
    fun k hk => afterFree_pcpPair_of_ne o.object i (some elem) hk
  refine ⟨_, hstatus, hcall, hasks, hrelated.move ⟨fun _ _ _ => rfl, ?object,
    fun _ _ _ _ => rfl, ?objectMemory, .inr ⟨rfl, rfl, hplaces⟩⟩ hsettled rfl ?pair ?memory
    (hrelated.lock_same (by rw [hpc]; exact Iff.rfl)) hrelated.depot⟩
  case object =>
    exact fun k hk here => hother _ fun heq => hk (Prod.mk.inj heq).1
  case objectMemory =>
    intro k hk here mag hmag
    exact afterFree_memory_of_ne o.object i (some elem) (hrelated.ne_of_mem
      (fun heq => hk (Prod.mk.inj heq).1) hmag (freeMag_mem_mags _))
  case pair =>
    intro here _
    by_cases hhere : here = context
    · subst hhere
      exact hpair.trans (afterFree_pcpPair_self o.object i (some elem)).symm
    · rw [hother _ fun heq => hhere (Prod.mk.inj heq).2]
      exact hrelated.pair cpu here (by rw [hpc]; exact fun heq => hhere heq.symm)
  case memory =>
    intro mag _ hclean
    by_cases hmag : mag = freeMag (o.object.pcpPair i)
    · subst hmag
      exact hwritten.trans (afterFree_memory_self o.object i (some elem)).symm
    · exact (hrelated.memory_at hpc hmag hclean).trans
        (afterFree_memory_of_ne o.object i (some elem) hmag).symm

/-- Both magazines of the pair were full, and the depot has taken one of them. -/
theorem Related.free_depot (hrelated : Related s o)
    (hpc : s.pc cpu = .fullPull context elem idx ptr []) (other : Addr) :
    ∃ kzalloc s', o.status cpu = .called (.freeElem context elem) ∧
      o.object.magFreeElem (cpu, context) (some elem) kzalloc = some s' ∧
      (o.object.Asks (cpu, context) (some elem) →
        kzalloc ≠ nullMag ∧ kzalloc ∉ o.object.places) ∧
      Related (s.release cpu (.fullReset context idx))
        ⟨s', Function.update o.status cpu (.done .void)⟩ := by
  obtain ⟨hstatus, hwritten, ⟨hcount, hdepth, rfl⟩, past, hrefilled, hall⟩ :=
    hrelated.tracks_at hpc
  rw [List.append_nil] at hrefilled
  set i := (cpu, context) with hi
  -- the memory of the new magazine, or any where the depot had one
  obtain ⟨kzalloc, hstmts, hfresh, hclean⟩ : ∃ kzalloc,
      shelve ++ past = switchFull o.object kzalloc ∧
      (o.object.emptyCount = 0 → kzalloc ≠ nullMag ∧ kzalloc ∉ o.object.places) ∧
      ∀ mag, mag ≠ freeMag (o.object.pcpPair i) → (∀ k ≠ cpu, ¬Dirty o.object k mag (s.pc k)) →
        s.allocator.memory mag = zeroedMemory (afterFree o.object i (some elem)) kzalloc mag := by
    obtain ⟨rfl, hne, rfl⟩ | ⟨kzalloc, rfl, hzero, rfl, hfresh, hzeroed⟩ := hrefilled
    · refine ⟨other, by rw [switchFull, if_pos hne], fun hzero => absurd hzero hne, ?_⟩
      intro mag hmag hclean
      rw [zeroedMemory_of_ne (afterFree o.object i (some elem)) other (.inl hne),
        afterFree_memory_of_ne _ _ _ hmag]
      exact hrelated.memory_at hpc (by simpa [Dirty] using hmag) hclean
    · refine ⟨kzalloc, by rw [switchFull, if_neg (not_not.mpr hzero)], fun _ => hfresh, ?_⟩
      intro mag hmag hclean
      by_cases hnew : mag = kzalloc
      · subst hnew
        rw [hzeroed, zeroedMemory_self (afterFree o.object i (some elem)) hzero]
      · rw [zeroedMemory_of_ne (afterFree o.object i (some elem)) kzalloc (.inr hnew),
          afterFree_memory_of_ne _ _ _ hmag]
        refine hrelated.memory_at hpc ?_ hclean
        rintro (heq | heq)
        · exact hmag heq
        · exact hnew (Option.some.inj heq).symm
  rw [hstmts] at hall
  have hcall := magFreeElem_of_depot hrelated.settled (some elem) hcount hdepth hall
  obtain ⟨_, hcall', hsettled, -⟩ := magFreeElem_spec hrelated.settled i (some elem)
    fun hzero => (hfresh hzero).2
  obtain rfl := Option.some.inj (hcall.symm.trans hcall')
  -- the magazines in use are not the new one
  have hused : ∀ mag ∈ o.object.places,
      zeroedMemory (afterFree o.object i (some elem)) kzalloc mag =
        (afterFree o.object i (some elem)).memory mag := by
    intro mag hmag
    apply zeroedMemory_of_ne
    by_cases hzero : o.object.emptyCount = 0
    · exact .inr fun heq => (hfresh hzero).2 (heq ▸ hmag)
    · exact .inl hzero
  refine ⟨kzalloc, _, hstatus, hcall, ?asks, hrelated.move ⟨fun _ _ _ => rfl, ?object,
    fun _ _ _ _ => rfl, ?objectMemory, .inl (by rw [hpc]; trivial)⟩ hsettled ⟨rfl, ?tracks⟩
    ?pair ?memory (hrelated.lock_released (by rw [hpc]; trivial) id) fun _ => rfl⟩
  case asks =>
    rintro ⟨s₁, hs₁, -, hzero⟩
    rw [Option.mem_def, magPairFree_eq (hrelated.settled.front i) (hrelated.settled.room i),
      Option.some.injEq] at hs₁
    subst hs₁
    exact hfresh hzero
  case object =>
    exact fun k hk here => Function.update_of_ne (fun heq => hk (Prod.mk.inj heq).1) _ _
  case objectMemory =>
    intro k hk here mag hmag
    exact (hused mag (mem_places_of_pair hmag)).trans (afterFree_memory_of_ne o.object i
      (some elem) (hrelated.ne_of_mem (fun heq => hk (Prod.mk.inj heq).1) hmag
        (freeMag_mem_mags _)))
  case tracks => exact Function.update_self ..
  case pair =>
    intro here hnot
    exact (hrelated.pair cpu here (by rw [hpc]; exact hnot)).trans
      (Function.update_of_ne (fun heq => hnot (Prod.mk.inj heq).2.symm) _ _).symm
  case memory =>
    intro mag _ hothers
    by_cases hmag : mag = freeMag (o.object.pcpPair i)
    · subst hmag
      calc
        s.allocator.memory (freeMag (o.object.pcpPair i)) = stored o.object i (some elem) :=
          hwritten
        _ = (afterFree o.object i (some elem)).memory (freeMag (o.object.pcpPair i)) :=
          (afterFree_memory_self o.object i (some elem)).symm
        _ = zeroedMemory (afterFree o.object i (some elem)) kzalloc
              (freeMag (o.object.pcpPair i)) :=
          (hused _ (mem_places_of_pair (freeMag_mem_mags _))).symm
    · exact hclean mag hmag hothers

/-! ## Every step -/

/-- A call begins, or returns what the atomic one did. -/
theorem Related.event (hrelated : Related s o) {pc pc' : Pc α} {status : Status (Op α) (Res α)}
    (hpc : s.pc cpu = pc) (htouches : ∀ context, ¬pc.Touches context)
    (hclean : ∀ mag, ¬Dirty o.object cpu mag pc) (hinside : pc'.Inside ↔ pc.Inside)
    (htracks : Tracks s.allocator o.object cpu status pc') :
    Related (s.goto cpu pc') (o.set cpu status) := by
  subst hpc
  exact hrelated.move ⟨fun _ _ _ => rfl, fun _ _ _ => rfl, fun _ _ _ _ => rfl,
    fun _ _ _ _ _ => rfl, .inr ⟨rfl, rfl, rfl⟩⟩ hrelated.settled htracks
    (fun context _ => hrelated.pair cpu context (htouches context))
    (fun mag _ hothers => hrelated.memory_at rfl (hclean mag) hothers)
    (hrelated.lock_same hinside) hrelated.depot

variable [DecidableEq α] (mags : InitMags Cpu)

theorem related_init :
    Related (smp mags : Machine (State Cpu α) _).init
      (atomic (allocatorObject mags : Object Cpu (MagAllocator Cpu α) _ _ _)).init where
  settled := settled_init mags
  tracks _ := rfl
  pair _ _ _ := rfl
  memory _ _ := rfl
  lock _ := iff_of_false (by simp [smp]) id
  depot _ := rfl

theorem Related.step_event (hrelated : Related s o) {s' : State Cpu α}
    {event : Event Cpu (Op α) (Res α)} (hnext : (smp mags).next s (.event event) = some s') :
    Matched (allocatorObject mags) Allowed Related o (.event event) s' := by
  right
  cases event with
  | call cpu op =>
      simp only [smp] at hnext
      split at hnext
      · rename_i hpc
        cases hnext
        have hstatus : o.status cpu = .idle := hrelated.tracks_at hpc
        refine ⟨.event (.call cpu op), o.set cpu (.called op), rfl, trivial, ?_, ?_⟩
        · simp only [atomic, hstatus]
        · cases op with
          | allocElem context => exact hrelated.event hpc (fun _ => id) (fun _ => id) Iff.rfl rfl
          | freeElem context elem =>
              exact hrelated.event hpc (fun _ => id) (fun _ => id) Iff.rfl rfl
      · cases hnext
  | ret cpu res =>
      simp only [smp] at hnext
      split at hnext
      · rename_i found hpc
        split at hnext
        case isFalse => cases hnext
        rename_i hfound
        subst hfound
        cases hnext
        have hstatus : o.status cpu = .done found := hrelated.tracks_at hpc
        refine ⟨.event (.ret cpu found), o.set cpu .idle, rfl, trivial, ?_, ?_⟩
        · simp only [atomic, hstatus, if_true]
        · exact hrelated.event hpc (fun _ => id) (fun _ => id) Iff.rfl rfl
      · cases hnext

theorem Related.step_take (hrelated : Related s o) {s' : State Cpu α} {kzalloc : Addr}
    (hfresh : Fresh s (.take cpu kzalloc)) (hnext : s.statement cpu kzalloc = some s') :
    Matched (allocatorObject mags) Allowed Related o (.take cpu kzalloc) s' := by
  obtain ⟨-, hnext⟩ := Option.ite_none_left_eq_some.mp hnext
  have hexecutes := executes_of_execute hnext
  generalize hpc : s.pc cpu = pc at hexecutes
  cases hexecutes with
  | allocEmpty hcount => exact .inl ⟨rfl, hrelated.alloc_empty hpc hcount⟩
  | allocPair hcount =>
      obtain ⟨elem, object, hcall, hafter⟩ := hrelated.alloc_pair hpc hcount
      have hstatus := hrelated.tracks_at hpc
      refine .inr ⟨.take cpu kzalloc, _, rfl, ?_, next_alloc mags hstatus hcall kzalloc, hafter⟩
      intro here elem hfree
      rw [hstatus] at hfree
      cases hfree
  | emptyLock hfree => exact .inl ⟨rfl, hrelated.emptyLock hpc hfree⟩
  | emptyTest => exact .inl ⟨rfl, hrelated.emptyTest hpc⟩
  | emptyBody hexec => exact .inl ⟨rfl, hrelated.emptyBody hpc hexec⟩
  | emptyUnlock =>
      obtain ⟨elem, object, hstatus, hcall, hafter⟩ := hrelated.alloc_depot hpc
      refine .inr ⟨.take cpu kzalloc, _, rfl, ?_, next_alloc mags hstatus hcall kzalloc, hafter⟩
      intro here elem hfree
      rw [hstatus] at hfree
      cases hfree
  | pairAlloc halloc => exact .inl ⟨rfl, hrelated.pairAlloc hpc halloc⟩
  | free hfree =>
      obtain ⟨hfree', hafter⟩ := hrelated.free hpc
      cases hfree'.symm.trans hfree
      exact .inl ⟨rfl, hafter⟩
  | freeFull hcount hidx hdepth =>
      exact .inl ⟨rfl, hrelated.freeTest_full hpc ⟨hcount, hdepth, hidx⟩⟩
  | freePair hcount =>
      obtain ⟨object, hstatus, hcall, hasks, hafter⟩ := hrelated.free_pair hpc hcount kzalloc
      refine .inr ⟨.take cpu kzalloc, _, rfl, ?_, next_free mags hstatus hcall, hafter⟩
      intro here elem' hfree
      rw [hstatus] at hfree
      cases hfree
      exact fun h => absurd h hasks
  | fullLock hfree => exact .inl ⟨rfl, hrelated.fullLock hpc hfree⟩
  | fullPush hexec => exact .inl ⟨rfl, hrelated.fullPush hpc hexec⟩
  | pushed => exact .inl ⟨rfl, hrelated.fullPush_nil hpc⟩
  | testSome hcount => exact .inl ⟨rfl, hrelated.fullTest_empty hpc hcount⟩
  | testNone hcount => exact .inl ⟨rfl, hrelated.fullTest_zero hpc hcount⟩
  | fullKzalloc => exact .inl ⟨rfl, hrelated.fullKzalloc hpc (hfresh (by rw [hpc]; rfl))⟩
  | fullPull hexec => exact .inl ⟨rfl, hrelated.fullPull hpc hexec⟩
  | fullUnlock =>
      obtain ⟨new, object, hstatus, hcall, hasks, hafter⟩ := hrelated.free_depot hpc kzalloc
      refine .inr ⟨.take cpu new, _, rfl, ?_, next_free mags hstatus hcall, hafter⟩
      intro here elem' hfree
      rw [hstatus] at hfree
      cases hfree
      exact hasks
  | fullReset => exact .inl ⟨rfl, hrelated.fullReset hpc⟩

end Step

/-! ## No call is held up -/

section Progress

variable {s : State Cpu α} {o : Calls Cpu (MagAllocator Cpu α) (Op α) (Res α)} {cpu : Cpu}

omit [Fintype Cpu] [DecidableEq Cpu] in
/-- Statements that can be run as a whole can be run one by one. -/
theorem exists_exec {idx : Fin 2} {past rest : List Stmt} {stmt : Stmt}
    {scope here final : Scope} (hall : execAll idx (past ++ stmt :: rest) scope = some final)
    (hpast : execAll idx past scope = some here) : ∃ next, stmt.exec idx here = some next := by
  rw [execAll_append, hpast, Option.bind_some, execAll] at hall
  obtain ⟨next, hnext, -⟩ := Option.bind_eq_some_iff.mp hall
  exact ⟨next, hnext⟩

omit [DecidableEq Cpu] in
theorem exists_switchEmpty (hsettled : o.object.Settled) (idx : Fin 2) (i : Cpu × Context) :
    ∃ final, execAll idx (switchEmpty o.object) (scopeOf o.object i) = some final := by
  rw [switchEmpty]
  split
  · rename_i hcount
    obtain ⟨mag, rest, hlist, -⟩ := exists_cons_of_count hsettled.fullCount hcount
    simp only [exchangeFull, execAll, Stmt.exec, scopeOf, hlist]
    exact ⟨_, rfl⟩
  · exact ⟨_, rfl⟩

omit [DecidableEq Cpu] in
theorem exists_switchFull {f : MagAllocator Cpu α} {ptr : Option Addr} {stmts : List Stmt}
    (hsettled : o.object.Settled) (hrefilled : Refilled f o.object ptr stmts) (idx : Fin 2)
    (i : Cpu × Context) :
    ∃ final, execAll idx (shelve ++ stmts) (freedScope o.object i) = some final := by
  obtain ⟨-, hcount, rfl⟩ | ⟨kzalloc, -, -, rfl, -⟩ := hrefilled
  · obtain ⟨mag, rest, hlist, -⟩ := exists_cons_of_count hsettled.emptyCount hcount
    simp only [shelve, takeEmptied, List.cons_append, List.nil_append, execAll, Stmt.exec,
      freedScope, scopeOf, hlist]
    exact ⟨_, rfl⟩
  · exact ⟨_, rfl⟩

/-- The assertion of `mag_allocator_switch_full` holds. -/
theorem full_of_count (hsettled : o.object.Settled) {i : Cpu × Context}
    (hcount : magPairCount (freed (o.object.pcpPair i)) = magDepth <<< 1) (idx : Fin 2) :
    (freed (o.object.pcpPair i)).count idx = magDepth := by
  obtain ⟨s₁, hs₁, htidy, -⟩ := magPairFree_spec (i := i) hsettled none
  rw [magPairFree_eq (hsettled.front i) (hsettled.room i), Option.some.injEq] at hs₁
  subst hs₁
  have hfront := htidy.front i
  rw [afterFree_pcpPair_self] at hfront
  have hroom := hfront.count_eq_full_iff.mp hcount
  rw [MagPair.Room, not_or, not_not, not_not] at hroom
  revert idx
  exact Fin.forall_fin_two.mpr hroom

/-- The next statement of a call can be run, unless it waits for the lock. -/
theorem Related.exists_statement (hrelated : Related s o) (hmapped : Mapped s) (kzalloc : Addr)
    (hrunning : (s.pc cpu).left ≠ 0) (hlock : (s.pc cpu).Waits → s.lock = none) :
    ∃ s', s.statement cpu kzalloc = some s' := by
  rw [hmapped.statement_eq, State.execute]
  cases hpc : s.pc cpu with
  | alloc context =>
      dsimp only
      split <;> exact ⟨_, rfl⟩
  | emptyLock context idx | fullLock context elem idx =>
      have hfree : s.lock = none := hlock (by rw [hpc]; trivial)
      dsimp only [State.take]
      rw [hfree]
      exact ⟨_, rfl⟩
  | emptyTest context idx | fullTest context elem idx =>
      dsimp only
      split <;> exact ⟨_, rfl⟩
  | emptyBody context idx rest =>
      cases rest with
      | nil => exact ⟨_, rfl⟩
      | cons stmt rest =>
          obtain ⟨-, -, -, past, hpast, hall⟩ := hrelated.tracks_at hpc
          obtain ⟨final, hfinal⟩ := exists_switchEmpty hrelated.settled idx (cpu, context)
          obtain ⟨scope, hexec⟩ := exists_exec (hpast ▸ hfinal) hall
          exact ⟨_, Option.map_eq_some_iff.mpr ⟨scope, hexec, rfl⟩⟩
  | pairAlloc context =>
      obtain ⟨elem, -, halloc⟩ := hrelated.magPairAlloc_eq hpc
      exact ⟨_, Option.map_eq_some_iff.mpr ⟨_, halloc, rfl⟩⟩
  | free context elem => exact ⟨_, Option.map_eq_some_iff.mpr ⟨_, (hrelated.free hpc).1, rfl⟩⟩
  | freeTest context elem =>
      obtain ⟨-, -, hpair⟩ := hrelated.tracks_at hpc
      dsimp only
      split
      · rename_i hcount
        rw [hpair] at hcount ⊢
        rw [if_pos (full_of_count hrelated.settled hcount _)]
        exact ⟨_, rfl⟩
      · exact ⟨_, rfl⟩
  | fullPush context elem idx rest =>
      cases rest with
      | nil => exact ⟨_, rfl⟩
      | cons stmt rest =>
          obtain ⟨-, -, -, past, hpast, hall⟩ := hrelated.tracks_at hpc
          obtain ⟨final, hfinal⟩ : ∃ final,
              execAll idx shelve (freedScope o.object (cpu, context)) = some final := ⟨_, rfl⟩
          obtain ⟨scope, hexec⟩ := exists_exec (hpast ▸ hfinal) hall
          exact ⟨_, Option.map_eq_some_iff.mpr ⟨scope, hexec, rfl⟩⟩
  | fullKzalloc context elem idx => exact ⟨_, rfl⟩
  | fullPull context elem idx ptr rest =>
      cases rest with
      | nil => exact ⟨_, rfl⟩
      | cons stmt rest =>
          obtain ⟨-, -, -, past, hrefilled, hall⟩ := hrelated.tracks_at hpc
          obtain ⟨final, hfinal⟩ := exists_switchFull hrelated.settled hrefilled idx (cpu, context)
          rw [← List.append_assoc] at hfinal
          obtain ⟨scope, hexec⟩ := exists_exec hfinal hall
          exact ⟨_, Option.map_eq_some_iff.mpr ⟨scope, hexec, rfl⟩⟩
  | fullReset context idx => exact ⟨_, rfl⟩
  | idle | ret _ =>
      rw [hpc] at hrunning
      exact absurd rfl hrunning

omit [DecidableEq Cpu] in
/-- Whoever has the lock does not wait for it. -/
theorem Related.holder (hrelated : Related s o) {holder : Cpu} (hlock : s.lock = some holder) :
    (s.pc holder).left ≠ 0 ∧ ¬(s.pc holder).Waits := by
  have hinside := (hrelated.lock holder).mp hlock
  cases hpc : s.pc holder <;> rw [hpc] at hinside <;>
    first
      | exact hinside.elim
      | exact ⟨Nat.succ_ne_zero _, id⟩

/-- A call goes on, or waits for one that does. -/
theorem Related.goes_on (hrelated : Related s o) (hmapped : Mapped s) (kzalloc : Addr)
    (hrunning : (s.pc cpu).left ≠ 0) :
    (∃ s', s.statement cpu kzalloc = some s') ∨
      (s.pc cpu).Waits ∧ ∃ holder ≠ cpu, s.lock = some holder ∧
        ∃ s', s.statement holder kzalloc = some s' := by
  by_cases hgo : (s.pc cpu).Waits → s.lock = none
  · exact .inl (hrelated.exists_statement hmapped kzalloc hrunning hgo)
  · obtain ⟨hwaits, hlock⟩ := Classical.not_imp.mp hgo
    obtain ⟨holder, hlock⟩ := Option.ne_none_iff_exists'.mp hlock
    obtain ⟨hleft, hholder⟩ := hrelated.holder hlock
    refine .inr ⟨hwaits, holder, ?_, hlock,
      hrelated.exists_statement hmapped kzalloc hleft fun h => absurd h hholder⟩
    rintro rfl
    exact hholder hwaits

end Progress

/-! ## How long a call is -/

section Length

omit [Fintype Cpu]

variable {s s' : State Cpu α} {cpu : Cpu}

/-- A statement leaves fewer to its call, and the other calls where they are. -/
theorem State.statement_left {kzalloc : Addr} (hnext : s.statement cpu kzalloc = some s') :
    (s'.pc cpu).left < (s.pc cpu).left ∧ ∀ k ≠ cpu, s'.pc k = s.pc k := by
  obtain ⟨-, hnext⟩ := Option.ite_none_left_eq_some.mp hnext
  have hexecutes := executes_of_execute hnext
  have hgoto : ∀ pc : Pc α, s'.pc = Function.update s.pc cpu pc → pc.left < (s.pc cpu).left →
      (s'.pc cpu).left < (s.pc cpu).left ∧ ∀ k ≠ cpu, s'.pc k = s.pc k := by
    intro pc hpc hleft
    rw [hpc, Function.update_self]
    exact ⟨hleft, fun k hk => Function.update_of_ne hk _ _⟩
  generalize s.pc cpu = pc at hexecutes hgoto
  cases hexecutes with
  | allocPair _ => exact hgoto _ rfl (by decide : 1 < 11)
  | emptyTest =>
      refine hgoto _ rfl ?_
      dsimp only [Pc.left]
      split <;> decide
  | freePair _ | fullReset => exact hgoto _ rfl (Nat.succ_pos _)
  | pairAlloc _ => exact hgoto _ rfl Nat.zero_lt_one
  | testNone _ => exact hgoto _ rfl (by decide : 4 < 6)
  | fullPush _ | fullPull _ =>
      refine hgoto _ rfl ?_
      rw [Pc.left, Pc.left, List.length_cons]
      omega
  | _ => exact hgoto _ rfl (Nat.lt_succ_self _)

theorem Op.left_start (op : Op α) : op.start.left ≤ 12 := by
  cases op with
  | allocElem context => exact Nat.le_succ _
  | freeElem context elem => exact le_rfl

/-- Every call has twelve statements at most. -/
theorem countP_isTake_add_left [DecidableEq α] {mags : InitMags Cpu}
    {guard : State Cpu α → Label Cpu (Op α) Addr (Res α) → Prop}
    {labels : List (Label Cpu (Op α) Addr (Res α))} (hpath : Path (smp mags) guard labels s)
    (cpu : Cpu) :
    labels.countP (Label.isTake cpu) + (s.pc cpu).left ≤
      12 * labels.countP (Label.isCall cpu) := by
  induction hpath with
  | init => exact le_rfl
  | @step labels before after label _ _ hnext ih =>
      rw [List.countP_append, List.countP_append, List.countP_singleton, List.countP_singleton]
      cases label with
      | take taker kzalloc =>
          obtain ⟨hleft, hothers⟩ := State.statement_left hnext
          by_cases hcpu : taker = cpu
          · subst hcpu
            simp only [Label.isTake, Label.isCall, decide_true, if_true, Bool.false_eq_true,
              if_false]
            omega
          · rw [hothers cpu (Ne.symm hcpu)]
            simp only [Label.isTake, Label.isCall, hcpu, decide_false, Bool.false_eq_true,
              if_false]
            omega
      | event event =>
          cases event with
          | call caller op =>
              simp only [smp] at hnext
              split at hnext
              case h_2 => cases hnext
              cases hnext
              by_cases hcpu : caller = cpu
              · subst hcpu
                have hstart := op.left_start
                simp only [Label.isTake, Label.isCall, decide_true, if_true, Bool.false_eq_true,
                  if_false, State.goto, Function.update_self]
                omega
              · simp only [Label.isTake, Label.isCall, hcpu, decide_false, Bool.false_eq_true,
                  if_false, State.goto, Function.update_of_ne (Ne.symm hcpu)]
                omega
          | ret caller res =>
              simp only [smp] at hnext
              split at hnext
              case h_2 => cases hnext
              split at hnext
              case isFalse => cases hnext
              cases hnext
              by_cases hcpu : caller = cpu
              · subst hcpu
                simp only [Label.isTake, Label.isCall, Bool.false_eq_true, if_false, State.goto,
                  Function.update_self, Pc.left]
                omega
              · simp only [Label.isTake, Label.isCall, Bool.false_eq_true, if_false, State.goto,
                  Function.update_of_ne (Ne.symm hcpu)]
                omega

end Length

/-! ## The calls could have been made one after the other -/

section Sequential

variable [DecidableEq α] {mags : InitMags Cpu} {labels : List (Label Cpu (Op α) Addr (Res α))}

/-- What the atomic allocator goes through is a run of calls. -/
theorem exists_allocatorRun {o : Calls Cpu (MagAllocator Cpu α) (Op α) (Res α)}
    (hpath : Path (atomic (allocatorObject mags)) Allowed labels o) :
    ∃ r, (allocatorRun mags).ReachableUnder
      (fun r call => MagAlloc.Fresh r call ∧ Served r call) r ∧ r.allocator = o.object := by
  induction hpath with
  | init => exact ⟨_, .init, rfl⟩
  | @step labels before after label _ hallowed hnext ih =>
      obtain ⟨r, hreach, hr⟩ := ih
      cases label with
      | event event =>
          refine ⟨r, hreach, hr.trans ?_⟩
          cases event with
          | call cpu op =>
              simp only [atomic] at hnext
              split at hnext
              · cases hnext
                rfl
              · cases hnext
          | ret cpu res =>
              simp only [atomic] at hnext
              split at hnext
              · obtain ⟨-, hnext⟩ := Option.ite_none_right_eq_some.mp hnext
                cases hnext
                rfl
              · cases hnext
      | take cpu kzalloc =>
          simp only [atomic] at hnext
          split at hnext
          case h_2 => cases hnext
          rename_i op hstatus
          obtain ⟨⟨res, object⟩, happly, rfl⟩ := Option.map_eq_some_iff.mp hnext
          cases op with
          | allocElem context =>
              obtain ⟨⟨elem, allocator⟩, hcall, heq⟩ := Option.map_eq_some_iff.mp happly
              cases heq
              rw [← hr] at hcall
              refine ⟨r.after elem object, hreach.take (.allocElem (cpu, context))
                ⟨trivial, trivial⟩ ?_, ?_⟩
              · simp only [allocatorRun, hcall, Option.map_some]
              · cases elem <;> rfl
          | freeElem context elem =>
              obtain ⟨allocator, hcall, heq⟩ := Option.map_eq_some_iff.mp happly
              cases heq
              rw [← hr] at hcall
              refine ⟨⟨object, elem ::ₘ r.freed, r.returned⟩,
                hreach.take (.freeElem (cpu, context) elem kzalloc) ?_ ?_, rfl⟩
              · have hnew := hallowed context elem hstatus
                rw [← hr] at hnew
                exact ⟨fun hasks _ => (hnew hasks).2, fun hasks => (hnew hasks).1⟩
              · simp only [allocatorRun, hcall, Option.map_some]

omit [DecidableEq Cpu] [DecidableEq α] in
/-- Without a call the memory is that of the atomic allocator. -/
theorem Related.eq_of_idle {s : State Cpu α}
    {o : Calls Cpu (MagAllocator Cpu α) (Op α) (Res α)} (hrelated : Related s o)
    (hidle : ∀ cpu, s.pc cpu = .idle) : s.allocator = o.object := by
  have hlock : s.lock = none := by
    by_contra hsome
    obtain ⟨holder, hholder⟩ := Option.ne_none_iff_exists'.mp hsome
    have hinside := (hrelated.lock holder).mp hholder
    rw [hidle holder] at hinside
    exact hinside
  have hmemory : s.allocator.memory = o.object.memory :=
    funext fun mag => hrelated.memory mag fun cpu => by
      rw [hidle cpu]
      exact id
  have hpair : s.allocator.pcpPair = o.object.pcpPair :=
    funext fun (cpu, context) => hrelated.pair cpu context (by rw [hidle cpu]; exact id)
  have hdepot := hrelated.depot hlock
  simp only [depotOf, Prod.mk.injEq] at hdepot
  obtain ⟨hempty, hfull, hemptyCount, hfullCount⟩ := hdepot
  cases hs : s.allocator
  cases ho : o.object
  simp only [hs, ho] at hmemory hpair hempty hfull hemptyCount hfullCount
  subst hmemory hpair hempty hfull hemptyCount hfullCount
  rfl

/-- Whatever the CPUs do at the same time, they see calls and returns that they could see
of an allocator whose calls take effect at once, and when no call is under way the
allocator is one that calls made one after the other lead to.  A call takes at most twelve
statements, and as `kzalloc` succeeds none of them fails; a call that cannot go on waits
for the lock, and the CPU that has it goes on. -/
theorem mag_allocator_linearizable (hmags : mags.Asserted) {s : State Cpu α}
    (hpath : Path (smp mags) Fresh labels s) :
    (∃ labels' o, Path (atomic (allocatorObject mags)) Allowed labels' o ∧
      history labels' = history labels ∧
      (∃ r, (allocatorRun mags).ReachableUnder
        (fun r call => MagAlloc.Fresh r call ∧ Served r call) r ∧ r.allocator = o.object) ∧
      ((∀ cpu, s.pc cpu = .idle) → s.allocator = o.object)) ∧
    (∀ cpu, labels.countP (Label.isTake cpu) + (s.pc cpu).left ≤
      12 * labels.countP (Label.isCall cpu)) ∧
    ∀ cpu kzalloc, (s.pc cpu).left ≠ 0 →
      (∃ s', s.statement cpu kzalloc = some s') ∨
        (s.pc cpu).Waits ∧ ∃ holder ≠ cpu, s.lock = some holder ∧
          ∃ s', s.statement holder kzalloc = some s' := by
  have hstep : ∀ (before : State Cpu α) label after o, Related before o → Fresh before label →
      (smp mags).next before label = some after →
        Matched (allocatorObject mags) Allowed Related o label after := by
    intro before label after o hrelated hfresh hnext
    cases label with
    | event event => exact hrelated.step_event mags hnext
    | take cpu kzalloc => exact hrelated.step_take mags hfresh hnext
  obtain ⟨labels', o, hpath', hhistory, hrelated⟩ :=
    hpath.linearize Related (related_init mags) hstep
  refine ⟨⟨labels', o, hpath', hhistory, exists_allocatorRun hpath', hrelated.eq_of_idle⟩,
    countP_isTake_add_left hpath, ?_⟩
  exact fun cpu kzalloc hrunning =>
    hrelated.goes_on (mapped_of_path hmags hpath) kzalloc hrunning

end Sequential

/-- One CPU frees eight elements; while it takes the eighth to the depot, the other one
comes there for an element. -/
def freeAndAlloc : List (Label Bool (Op ℕ) Addr (Res ℕ)) :=
  let free (elem : ℕ) : Label Bool (Op ℕ) Addr (Res ℕ) :=
    .event (.call false (.freeElem .task elem))
  let alloc : Label Bool (Op ℕ) Addr (Res ℕ) := .event (.call true (.allocElem .softirq))
  let mine : Label Bool (Op ℕ) Addr (Res ℕ) := .take false 65536
  let other : Label Bool (Op ℕ) Addr (Res ℕ) := .take true 0
  (List.range 7).flatMap (fun elem => [free elem, mine, mine, .event (.ret false .void)]) ++
    [free 7, mine, alloc, other] ++ List.replicate 9 mine ++ [other, mine, other] ++
    [.event (.ret false .void)] ++ List.replicate 8 other ++
    [.event (.ret true (.elem (some 7)))]

theorem mag_allocator_linearizable_depot :
    ∃ labels' o, Path (atomic (allocatorObject twoCpus)) Allowed labels' o ∧
      history labels' = history freeAndAlloc := by
  obtain ⟨s, hpath, -⟩ := exists_path_of_run (smp twoCpus) Fresh freeAndAlloc
    (fun s => s.allocator.emptyCount) 1 (by decide +kernel)
  obtain ⟨⟨labels', o, hpath', hhistory, -⟩, -⟩ :=
    mag_allocator_linearizable (by decide) hpath
  exact ⟨labels', o, hpath', hhistory⟩

end KtcpSplit.MagSmp
