import KtcpSplit.Magazine.Concurrent

/-!
# No statement goes through the null pointer

The pairs and the depot have the magazines that `mag_allocator_init` got, and what
`kzalloc` returned on the way to a new one.  As long as none of these is the null pointer,
a statement reads and writes magazines only.
-/

namespace KtcpSplit.MagSmp

open KtcpSplit.AtomicObject
open KtcpSplit.MagAlloc
open KtcpSplit.MagAlloc.MagAllocator
open KtcpSplit.Transition

variable {Cpu α : Type*} {mag : Addr}

/-! ## The magazines of the statements under the lock -/

/-- The magazines that a call sees under the lock. -/
def Scope.places (scope : Scope) : Multiset Addr :=
  scope.pair.mags + (↑scope.fullList + ↑scope.emptyList)

theorem mem_scopePlaces_iff {scope : Scope} :
    mag ∈ scope.places ↔
      mag ∈ scope.pair.mags ∨ mag ∈ scope.fullList ∨ mag ∈ scope.emptyList := by
  rw [Scope.places, Multiset.mem_add, Multiset.mem_add, Multiset.mem_coe, Multiset.mem_coe]

theorem mem_mags_iff {pair : MagPair} : mag ∈ pair.mags ↔ ∃ idx, mag = pair.magPtr idx := by
  simp only [MagPair.mags, Multiset.insert_eq_cons, Multiset.mem_cons, Multiset.mem_singleton,
    Fin.exists_fin_two]

theorem mem_setMag {scope : Scope} {idx : Fin 2} {ptr : Addr}
    (hmem : mag ∈ (scope.setMag idx ptr).places) : mag = ptr ∨ mag ∈ scope.places := by
  rw [mem_scopePlaces_iff] at hmem ⊢
  obtain hpair | hlists := hmem
  · obtain ⟨here, rfl⟩ := mem_mags_iff.mp hpair
    by_cases hhere : here = idx
    · subst hhere
      exact .inl (Function.update_self ..)
    · refine .inr (.inl (mem_mags_iff.mpr ⟨here, ?_⟩))
      exact Function.update_of_ne hhere _ _
  · exact .inr (.inr hlists)

theorem Scope.mem_places_of_pair {scope : Scope} (idx : Fin 2) :
    scope.pair.magPtr idx ∈ scope.places :=
  mem_scopePlaces_iff.mpr (.inl (MagPair.magPtr_mem_mags _ idx))

theorem Scope.mem_places_of_full {scope : Scope} (hmem : mag ∈ scope.fullList) :
    mag ∈ scope.places :=
  mem_scopePlaces_iff.mpr (.inr (.inl hmem))

theorem Scope.mem_places_of_empty {scope : Scope} (hmem : mag ∈ scope.emptyList) :
    mag ∈ scope.places :=
  mem_scopePlaces_iff.mpr (.inr (.inr hmem))

/-- What a statement does to the lists, the pair left as it is. -/
theorem Scope.mem_places_of_lists {scope scope' : Scope} (hmem : mag ∈ scope'.places)
    (hpair : scope'.pair = scope.pair)
    (hfull : mag ∈ scope'.fullList → mag ∈ scope.places)
    (hempty : mag ∈ scope'.emptyList → mag ∈ scope.places) : mag ∈ scope.places := by
  obtain hmem | hmem | hmem := mem_scopePlaces_iff.mp hmem
  · exact mem_scopePlaces_iff.mpr (.inl (hpair ▸ hmem))
  · exact hfull hmem
  · exact hempty hmem

theorem mem_of_tail_eq_some {list rest : List Addr} (htail : list.tail? = some rest)
    (hmem : mag ∈ rest) : mag ∈ list := by
  cases list with
  | nil => cases htail
  | cons head tail =>
      cases htail
      exact List.mem_cons_of_mem head hmem

/-- A statement under the lock brings no magazine but a new one. -/
theorem mem_places_of_exec {idx : Fin 2} {stmt : Stmt} {scope scope' : Scope}
    (hexec : stmt.exec idx scope = some scope') (hmem : mag ∈ scope'.places) :
    mag ∈ scope.places ∨ stmt = .setMag mag := by
  cases stmt with
  | addEmpty =>
      cases hexec
      refine .inl (Scope.mem_places_of_lists hmem rfl
        (fun hfull => Scope.mem_places_of_full hfull) fun hempty => ?_)
      obtain rfl | hempty := List.mem_cons.mp hempty
      · exact Scope.mem_places_of_pair idx
      · exact Scope.mem_places_of_empty hempty
  | addFull =>
      cases hexec
      refine .inl (Scope.mem_places_of_lists hmem rfl (fun hfull => ?_)
        fun hempty => Scope.mem_places_of_empty hempty)
      obtain rfl | hfull := List.mem_cons.mp hfull
      · exact Scope.mem_places_of_pair idx
      · exact Scope.mem_places_of_full hfull
  | takeFull =>
      obtain ⟨head, hhead, rfl⟩ := Option.map_eq_some_iff.mp hexec
      obtain rfl | hmem := mem_setMag hmem
      · exact .inl (Scope.mem_places_of_full (List.mem_of_mem_head? hhead))
      · exact .inl hmem
  | takeEmpty =>
      obtain ⟨head, hhead, rfl⟩ := Option.map_eq_some_iff.mp hexec
      obtain rfl | hmem := mem_setMag hmem
      · exact .inl (Scope.mem_places_of_empty (List.mem_of_mem_head? hhead))
      · exact .inl hmem
  | delFull =>
      obtain ⟨rest, hrest, rfl⟩ := Option.map_eq_some_iff.mp hexec
      exact .inl (Scope.mem_places_of_lists hmem rfl
        (fun hfull => Scope.mem_places_of_full (mem_of_tail_eq_some hrest hfull))
        fun hempty => Scope.mem_places_of_empty hempty)
  | delEmpty =>
      obtain ⟨rest, hrest, rfl⟩ := Option.map_eq_some_iff.mp hexec
      exact .inl (Scope.mem_places_of_lists hmem rfl
        (fun hfull => Scope.mem_places_of_full hfull)
        fun hempty => Scope.mem_places_of_empty (mem_of_tail_eq_some hrest hempty))
  | setMag ptr =>
      cases hexec
      obtain rfl | hmem := mem_setMag hmem
      · exact .inr rfl
      · exact .inl hmem
  | _ =>
      cases hexec
      exact .inl hmem

variable [Fintype Cpu]

theorem mem_places_of_scopeOf {s : MagAllocator Cpu α} {i : Cpu × Context}
    (hmem : mag ∈ (scopeOf s i).places) : mag ∈ s.places := by
  obtain hmem | hmem | hmem := mem_scopePlaces_iff.mp hmem
  · exact mem_places_of_pair hmem
  · exact mem_places_of_full hmem
  · exact mem_places_of_empty hmem

theorem mem_places_of_setScope [DecidableEq Cpu] {s : MagAllocator Cpu α} {i : Cpu × Context}
    {scope : Scope} (hmem : mag ∈ (setScope s i scope).places) :
    mag ∈ scope.places ∨ mag ∈ s.places := by
  obtain hmem | hmem := Multiset.mem_add.mp hmem
  · obtain ⟨k, -, hmem⟩ := Multiset.mem_sum.mp hmem
    by_cases hk : k = i
    · subst hk
      dsimp only [setScope] at hmem
      rw [Function.update_self] at hmem
      exact .inl (mem_scopePlaces_iff.mpr (.inl hmem))
    · dsimp only [setScope] at hmem
      rw [Function.update_of_ne hk] at hmem
      exact .inr (mem_places_of_pair hmem)
  · obtain hmem | hmem := Multiset.mem_add.mp hmem
    · exact .inl (Scope.mem_places_of_full hmem)
    · exact .inl (Scope.mem_places_of_empty hmem)

theorem mem_scopePlaces_of_touches {idx : Fin 2} {stmt : Stmt} {scope : Scope}
    (hmem : mag ∈ stmt.touches idx scope) : mag ∈ scope.places := by
  cases stmt with
  | addEmpty =>
      obtain rfl | hmem := List.mem_cons.mp hmem
      · exact Scope.mem_places_of_pair idx
      · exact Scope.mem_places_of_empty (List.mem_of_mem_take hmem)
  | addFull =>
      obtain rfl | hmem := List.mem_cons.mp hmem
      · exact Scope.mem_places_of_pair idx
      · exact Scope.mem_places_of_full (List.mem_of_mem_take hmem)
  | delFull => exact Scope.mem_places_of_full (List.mem_of_mem_take hmem)
  | delEmpty => exact Scope.mem_places_of_empty (List.mem_of_mem_take hmem)
  | _ => cases hmem

/-! ## Runs -/

variable {s s' : State Cpu α} {cpu : Cpu} {kzalloc : Addr}

/-- What a statement touches is a magazine. -/
theorem State.mem_places_of_touches (hmem : mag ∈ s.touches cpu) : mag ∈ s.allocator.places := by
  rw [State.touches] at hmem
  split at hmem
  · exact mem_places_of_scopeOf (mem_scopePlaces_of_touches hmem)
  · exact mem_places_of_scopeOf (mem_scopePlaces_of_touches hmem)
  · exact mem_places_of_scopeOf (mem_scopePlaces_of_touches hmem)
  · exact mem_places_of_pairAllocTouches hmem
  · rw [List.mem_singleton.mp hmem]
    exact magPtr_mem_places _
  · cases hmem

/-- The statements under the lock that are left to a call. -/
def Pc.rest : Pc α → List Stmt
  | .emptyBody _ _ rest | .fullPush _ _ _ rest | .fullPull _ _ _ _ rest => rest
  | _ => []

/-- No magazine is the null pointer, and none will be. -/
structure Mapped (s : State Cpu α) : Prop where
  places : nullMag ∉ s.allocator.places
  rest : ∀ cpu, Stmt.setMag nullMag ∉ (s.pc cpu).rest

variable [DecidableEq Cpu]

theorem Mapped.update (hmapped : Mapped s) {f : MagAllocator Cpu α} {lock : Option Cpu}
    {pc : Pc α} (hplaces : nullMag ∈ f.places → nullMag ∈ s.allocator.places)
    (hrest : Stmt.setMag nullMag ∉ pc.rest) :
    Mapped ⟨f, lock, Function.update s.pc cpu pc⟩ where
  places hmem := hmapped.places (hplaces hmem)
  rest k := by
    by_cases hk : k = cpu
    · subst hk
      dsimp only
      rwa [Function.update_self]
    · dsimp only
      rw [Function.update_of_ne hk]
      exact hmapped.rest k

/-- A statement under the lock. -/
theorem Mapped.exec (hmapped : Mapped s) {context : Context} {idx : Fin 2} {stmt : Stmt}
    {pc : Pc α} {scope : Scope} (hstmts : (s.pc cpu).rest = stmt :: pc.rest)
    (hexec : stmt.exec idx (scopeOf s.allocator (cpu, context)) = some scope) :
    Mapped { s.goto cpu pc with allocator := setScope s.allocator (cpu, context) scope } := by
  have hleft := hmapped.rest cpu
  rw [hstmts, List.mem_cons, not_or] at hleft
  refine hmapped.update (fun hmem => ?_) hleft.2
  obtain hmem | hmem := mem_places_of_setScope hmem
  · obtain hmem | hset := mem_places_of_exec hexec hmem
    · exact mem_places_of_scopeOf hmem
    · exact absurd hset.symm hleft.1
  · exact hmem

theorem Mapped.execute (hmapped : Mapped s) (hfresh : Fresh s (.take cpu kzalloc))
    (hnext : s.execute cpu kzalloc = some s') : Mapped s' := by
  have hexecutes := executes_of_execute hnext
  generalize hpc : s.pc cpu = pc at hexecutes
  cases hexecutes with
  | allocEmpty _ | allocPair _ | emptyLock _ | emptyUnlock | freeFull _ _ _ | freePair _
  | pushed | testNone _ | fullUnlock => exact hmapped.update id List.not_mem_nil
  | emptyTest =>
      refine hmapped.update id ?_
      dsimp only [Pc.rest]
      split <;> simp [exchangeFull]
  | emptyBody hexec | fullPush hexec | fullPull hexec =>
      exact hmapped.exec (by rw [hpc]; rfl) hexec
  | pairAlloc halloc =>
      refine hmapped.update (fun hmem => ?_) List.not_mem_nil
      rwa [places_setPair (magPairAlloc_mags halloc)] at hmem
  | free hfree =>
      refine hmapped.update (fun hmem => ?_) List.not_mem_nil
      rwa [(magPairFree_places hfree).1] at hmem
  | fullLock _ => exact hmapped.update id (by simp [Pc.rest, shelve])
  | testSome _ => exact hmapped.update id (by simp [Pc.rest, takeEmptied])
  | fullKzalloc =>
      refine hmapped.update id fun hmem => ?_
      have hnull := Stmt.setMag.inj (List.mem_singleton.mp hmem)
      exact (hfresh (by rw [hpc]; rfl)).1 hnull.symm
  | fullReset =>
      refine hmapped.update (fun hmem => ?_) List.not_mem_nil
      exact (congrArg (nullMag ∈ ·) (places_setPair (by rfl))).mp hmem

theorem mapped_init {mags : InitMags Cpu} (hmags : mags.Asserted) [DecidableEq α] :
    Mapped (smp mags : Machine (State Cpu α) _).init where
  places := (Kept.init hmags).notNull
  rest _ := List.not_mem_nil

theorem mapped_of_path [DecidableEq α] {mags : InitMags Cpu} (hmags : mags.Asserted)
    {labels : List (Label Cpu (Op α) Addr (Res α))} (hpath : Path (smp mags) Fresh labels s) :
    Mapped s := by
  induction hpath with
  | init => exact mapped_init hmags
  | @step labels before after label _ hfresh hnext ih =>
      cases label with
      | take cpu kzalloc =>
          obtain ⟨-, hnext⟩ := Option.ite_none_left_eq_some.mp hnext
          exact ih.execute hfresh hnext
      | event event =>
          cases event with
          | call cpu op =>
              simp only [smp] at hnext
              split at hnext
              · cases hnext
                refine ih.update id ?_
                cases op <;> exact List.not_mem_nil
              · cases hnext
          | ret cpu res =>
              simp only [smp] at hnext
              split at hnext
              · obtain ⟨-, hnext⟩ := Option.ite_none_right_eq_some.mp hnext
                cases hnext
                exact ih.update id List.not_mem_nil
              · cases hnext

/-- A statement that could be run is run. -/
theorem Mapped.statement_eq (hmapped : Mapped s) (cpu : Cpu) (kzalloc : Addr) :
    s.statement cpu kzalloc = s.execute cpu kzalloc :=
  if_neg fun hmem => hmapped.places (State.mem_places_of_touches hmem)

end KtcpSplit.MagSmp
