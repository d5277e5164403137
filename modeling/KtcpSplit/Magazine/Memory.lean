import KtcpSplit.Magazine.Refinement

/-!
# The magazines that a call touches

`mag_allocator_switch_full` puts what `kzalloc` returned into the pair without looking
at it, aligned, so that the null pointer stays null.  The pair is used again with the
next element that is freed to it.
-/

namespace KtcpSplit.MagAlloc

open KtcpSplit.Bag
open KtcpSplit.Transition

variable {Cpu α : Type*}

/-- `ALIGN((u64)NULL, L1_CACHE_BYTES)`. -/
def nullMag : Addr := 0

/-- `init_mag_pair` asserts that it got memory. -/
def InitMags.Asserted (mags : InitMags Cpu) : Prop :=
  ∀ place : (Cpu × Context) × Fin 2, magArray (mags.mag place.1) place.2 ≠ nullMag

instance decidableAsserted [Fintype Cpu] (mags : InitMags Cpu) : Decidable mags.Asserted :=
  inferInstanceAs (Decidable (∀ _place : (Cpu × Context) × Fin 2, _))

/-! ## Accesses -/

/-- The list nodes that `list_add` writes, but for the head of the list. -/
def listAdd (mag : Addr) (list : List Addr) : List Addr := mag :: list.take 1

/-- The list nodes that `list_del_init` of the first node writes. -/
def listDelFirst (list : List Addr) : List Addr := list.take 2

namespace MagAllocator

variable (s : MagAllocator Cpu α) (i : Cpu × Context)

def switchFullTouches : List Addr :=
  let pair := s.pcpPair i
  let idx : Fin 2 := if pair.count 1 = magDepth then 1 else 0
  listAdd (pair.magPtr idx) s.fullList ++
    if s.emptyCount ≠ 0 then listDelFirst s.emptyList else []

def switchEmptyTouches : List Addr :=
  let pair := s.pcpPair i
  let idx : Fin 2 := if pair.count 0 ≠ 0 then 1 else 0
  if s.fullCount ≠ 0 then
    listAdd (pair.magPtr idx) s.emptyList ++ listDelFirst s.fullList
  else []

/-- `mag_pair_alloc` reads the stack of the first magazine. -/
def pairAllocTouches : List Addr :=
  if (s.pcpPair i).count 0 = 0 then [] else [(s.pcpPair i).magPtr 0]

/-- `mag_pair_free` writes the stack of one magazine. -/
def pairFreeTouches : List Addr := [(s.pcpPair i).magPtr (freeIdx (s.pcpPair i))]

variable [DecidableEq Cpu]

/-- The magazines that `mag_alloc_elem` reads or writes. -/
def allocTouches : List Addr :=
  if magPairCount (s.pcpPair i) = 0 then
    s.switchEmptyTouches i ++ ((s.magAllocatorSwitchEmpty i).map (pairAllocTouches · i)).getD []
  else s.pairAllocTouches i

/-- `mag_free_elem` asks for a new magazine. -/
def Asks (elem : Option α) : Prop :=
  ∃ s₁ ∈ s.magPairFree i elem,
    magPairCount (s₁.pcpPair i) = magDepth <<< 1 ∧ s₁.emptyCount = 0

instance decidableAsks (elem : Option α) : Decidable (s.Asks i elem) :=
  inferInstanceAs (Decidable (∃ s₁ ∈ s.magPairFree i elem, _))

/-- The magazines that `mag_free_elem` reads or writes. -/
def freeTouches (elem : Option α) : List Addr :=
  s.pairFreeTouches i ++
    match s.magPairFree i elem with
    | none => []
    | some s₁ =>
        if magPairCount (s₁.pcpPair i) = magDepth <<< 1 then s₁.switchFullTouches i else []

end MagAllocator

/-- The magazines that a call reads or writes. -/
def Run.touches [DecidableEq Cpu] (s : Run Cpu α) : ElemCall Cpu α → List Addr
  | .allocElem i => s.allocator.allocTouches i
  | .freeElem i elem _ => s.allocator.freeTouches i (some elem)

/-! ## Every magazine that is touched has a place -/

theorem magPairAlloc_mags {memory : Addr → Magazine α} {pair pair' : MagPair}
    {elem : Option α} (halloc : magPairAlloc memory pair = some (elem, pair')) :
    pair'.mags = pair.mags := by
  unfold magPairAlloc at halloc
  split at halloc
  · cases halloc
    rfl
  · obtain ⟨_, -, heq⟩ := Option.map_eq_some_iff.mp halloc
    rw [← (Prod.mk.inj heq).2]
    split
    · exact mags_swapMags _
    · rfl

namespace MagAllocator

variable [Fintype Cpu] {s s' : MagAllocator Cpu α} {i : Cpu × Context} {mag : Addr}

theorem mem_places_of_empty (hmem : mag ∈ s.emptyList) : mag ∈ s.places :=
  Multiset.mem_add.mpr (.inr (Multiset.mem_add.mpr (.inr hmem)))

theorem magPtr_mem_places (idx : Fin 2) : (s.pcpPair i).magPtr idx ∈ s.places :=
  mem_places_of_pair (MagPair.magPtr_mem_mags _ idx)

theorem mem_places_of_listAdd {list : List Addr} {idx : Fin 2}
    (hlist : ∀ mag ∈ list, mag ∈ s.places)
    (hmem : mag ∈ listAdd ((s.pcpPair i).magPtr idx) list) : mag ∈ s.places := by
  rcases List.mem_cons.mp hmem with rfl | hmem
  · exact magPtr_mem_places idx
  · exact hlist mag (List.mem_of_mem_take hmem)

theorem mem_places_of_switchFullTouches (hmem : mag ∈ s.switchFullTouches i) :
    mag ∈ s.places := by
  rcases List.mem_append.mp hmem with hmem | hmem
  · exact mem_places_of_listAdd (fun _ => mem_places_of_full) hmem
  · split at hmem
    · exact mem_places_of_empty (List.mem_of_mem_take hmem)
    · cases hmem

theorem mem_places_of_switchEmptyTouches (hmem : mag ∈ s.switchEmptyTouches i) :
    mag ∈ s.places := by
  unfold switchEmptyTouches at hmem
  split at hmem
  · rcases List.mem_append.mp hmem with hmem | hmem
    · exact mem_places_of_listAdd (fun _ => mem_places_of_empty) hmem
    · exact mem_places_of_full (List.mem_of_mem_take hmem)
  · cases hmem

theorem mem_places_of_pairAllocTouches (hmem : mag ∈ s.pairAllocTouches i) :
    mag ∈ s.places := by
  unfold pairAllocTouches at hmem
  split at hmem
  · cases hmem
  · rw [List.mem_singleton.mp hmem]
    exact magPtr_mem_places 0

variable [DecidableEq Cpu]

theorem mem_places_of_allocTouches (hmem : mag ∈ s.allocTouches i) : mag ∈ s.places := by
  unfold allocTouches at hmem
  split at hmem
  · rcases List.mem_append.mp hmem with hmem | hmem
    · exact mem_places_of_switchEmptyTouches hmem
    · cases hswitch : s.magAllocatorSwitchEmpty i with
      | none =>
          rw [hswitch] at hmem
          cases hmem
      | some s₁ =>
          rw [hswitch] at hmem
          rw [← magAllocatorSwitchEmpty_places hswitch]
          exact mem_places_of_pairAllocTouches hmem
  · exact mem_places_of_pairAllocTouches hmem

theorem mem_places_of_freeTouches {elem : Option α} (hmem : mag ∈ s.freeTouches i elem) :
    mag ∈ s.places := by
  rcases List.mem_append.mp hmem with hmem | hmem
  · rw [List.mem_singleton.mp hmem]
    exact magPtr_mem_places _
  · split at hmem
    · cases hmem
    · rename_i s₁ hfree
      split at hmem
      · rw [← (magPairFree_places hfree).1]
        exact mem_places_of_switchFullTouches hmem
      · cases hmem

/-! ## What a call adds -/

theorem magAllocElem_places {elem : Option α} (halloc : s.magAllocElem i = some (elem, s')) :
    s'.places = s.places := by
  obtain ⟨s₁, hrefill, hrest⟩ := Option.bind_eq_some_iff.mp halloc
  obtain ⟨⟨elem', pair⟩, hpair, heq⟩ := Option.map_eq_some_iff.mp hrest
  cases heq
  have hplaces : s₁.places = s.places := by
    split at hrefill
    · exact magAllocatorSwitchEmpty_places hrefill
    · cases hrefill
      rfl
  rw [places_setPair (magPairAlloc_mags hpair), hplaces]

theorem magFreeElem_places {elem : Option α} {kzalloc : Addr}
    (hfree : s.magFreeElem i elem kzalloc = some s') :
    ¬s.Asks i elem ∧ s'.places = s.places ∨ s.Asks i elem ∧ s'.places = kzalloc ::ₘ s.places := by
  obtain ⟨s₁, hpair, hrest⟩ := Option.bind_eq_some_iff.mp hfree
  obtain ⟨hplaces, hcount⟩ := magPairFree_places hpair
  have hasks : s.Asks i elem ↔
      magPairCount (s₁.pcpPair i) = magDepth <<< 1 ∧ s₁.emptyCount = 0 := by
    simp only [Asks, hpair, Option.mem_def, Option.some.injEq, exists_eq_left']
  rw [← hplaces, hasks]
  split at hrest
  · rename_i hfull
    rcases magAllocatorSwitchFull_places hrest with ⟨hne, hsame⟩ | ⟨hzero, hnew⟩
    · exact .inl ⟨fun h => hne h.2, hsame⟩
    · exact .inr ⟨⟨hfull, hzero⟩, hnew⟩
  · rename_i hleft
    cases hrest
    exact .inl ⟨fun h => hleft h.1, rfl⟩

omit [Fintype Cpu] in
/-- What `kzalloc` would return matters only to a call that asks for memory. -/
theorem magFreeElem_of_not_asks {elem : Option α} (hasks : ¬s.Asks i elem)
    (kzalloc kzalloc' : Addr) : s.magFreeElem i elem kzalloc = s.magFreeElem i elem kzalloc' := by
  cases hpair : s.magPairFree i elem with
  | none => simp only [magFreeElem, hpair, Option.bind_none]
  | some s₁ =>
      simp only [magFreeElem, hpair, Option.bind_some]
      split
      · rename_i hfull
        have hcount : s₁.emptyCount ≠ 0 := fun hzero => hasks ⟨s₁, hpair, hfull, hzero⟩
        simp only [magAllocatorSwitchFull, if_pos hcount]
      · rfl

/-- After a request for memory that failed the next element that is freed to the pair is
stored through the null pointer. -/
theorem touches_null_of_asks (hsettled : s.Settled) {elem : Option α}
    (hasks : s.Asks i elem) (hfree : s.magFreeElem i elem nullMag = some s')
    (elem' : Option α) : nullMag ∈ s'.freeTouches i elem' := by
  obtain ⟨s₁, hpair, hfull, hzero⟩ := hasks
  rw [Option.mem_def] at hpair
  obtain ⟨s₁', hpair', htidy, -⟩ := magPairFree_spec (i := i) hsettled elem
  obtain rfl := Option.some.inj (hpair.symm.trans hpair')
  have hboth := (htidy.front i).count_eq_full_iff.mp hfull
  rw [MagPair.Room, not_or, not_not, not_not] at hboth
  simp only [magFreeElem, hpair, Option.bind_some, if_pos hfull, magAllocatorSwitchFull,
    hboth.2, hzero, if_true, ne_eq, not_true_eq_false, if_false, Option.some.injEq] at hfree
  have hpairs : s'.pcpPair i = (s₁.pcpPair i).exchange 1 nullMag 0 := by
    rw [← hfree]
    exact Function.update_self ..
  have hidx : freeIdx (s'.pcpPair i) = 1 := by
    rw [hpairs]
    exact if_pos hboth.1
  refine List.mem_append_left _ (List.mem_singleton.mpr ?_)
  rw [hidx, hpairs]
  rfl

end MagAllocator

/-! ## Runs -/

/-- The memory that a call gets is not a magazine that is in use. -/
def Fresh [Fintype Cpu] [DecidableEq Cpu] (s : Run Cpu α) : ElemCall Cpu α → Prop
  | .allocElem _ => True
  | .freeElem i elem kzalloc =>
      s.allocator.Asks i (some elem) → kzalloc ≠ nullMag → kzalloc ∉ s.allocator.places

/-- A call that asks for memory gets some. -/
def Served [DecidableEq Cpu] (s : Run Cpu α) : ElemCall Cpu α → Prop
  | .allocElem _ => True
  | .freeElem i elem kzalloc => s.allocator.Asks i (some elem) → kzalloc ≠ nullMag

variable [Fintype Cpu] [DecidableEq Cpu]

/-- No pair and no list holds the null pointer, and what was freed and not returned is
inside. -/
structure Kept (s : Run Cpu α) : Prop where
  settled : s.allocator.Settled
  notNull : nullMag ∉ s.allocator.places
  kept : s.allocator.contents + s.returned.map some = s.freed.map some

theorem Kept.init {mags : InitMags Cpu} (hmags : mags.Asserted) :
    Kept (allocatorRun mags : Machine (Run Cpu α) _).init where
  settled := MagAllocator.settled_init mags
  notNull := by
    intro hmem
    rcases Multiset.mem_add.mp hmem with hmem | hmem
    · obtain ⟨i, -, hmem⟩ := Multiset.mem_sum.mp hmem
      simp only [MagPair.mags, Multiset.insert_eq_cons, Multiset.mem_cons,
        Multiset.mem_singleton] at hmem
      rcases hmem with heq | heq
      · exact hmags (i, 0) heq.symm
      · exact hmags (i, 1) heq.symm
    · exact absurd hmem (Multiset.notMem_zero _)
  kept := by
    have hzero : (allocatorRun mags : Machine (Run Cpu α) _).init.allocator.contents = 0 :=
      MagAllocator.contents_init mags
    rw [hzero]
    rfl

variable {s s' : Run Cpu α} {mags : InitMags Cpu}

omit [DecidableEq Cpu] in
theorem Kept.none_notMem (hkept : Kept s) : none ∉ s.allocator.contents := by
  intro hmem
  have hfreed : none ∈ s.freed.map some := by
    rw [← hkept.kept]
    exact Multiset.mem_add.mpr (.inl hmem)
  obtain ⟨elem, -, helem⟩ := Multiset.mem_map.mp hfreed
  cases helem

variable (mags) in
theorem Kept.alloc (hkept : Kept s) (i : Cpu × Context) :
    ∃ s', (allocatorRun mags).next s (.allocElem i) = some s' ∧ Kept s' := by
  obtain ⟨elem, allocator, halloc, hsettled, htaken⟩ :=
    MagAllocator.magAllocElem_spec hkept.settled i
  refine ⟨s.after elem allocator, by simp only [allocatorRun, halloc]; rfl, ?_⟩
  have hplaces := MagAllocator.magAllocElem_places halloc
  rcases htaken with ⟨rfl, hsame⟩ | htaken
  · exact ⟨hsettled, hplaces.symm ▸ hkept.notNull, (congrArg (· + _) hsame).trans hkept.kept⟩
  · cases elem with
    | none =>
        have hmem : none ∈ s.allocator.contents := htaken ▸ Multiset.mem_cons_self _ _
        exact absurd hmem hkept.none_notMem
    | some e =>
        refine ⟨hsettled, hplaces.symm ▸ hkept.notNull, ?_⟩
        calc
          allocator.contents + (e ::ₘ s.returned).map some =
              some e ::ₘ allocator.contents + s.returned.map some := by
            rw [Multiset.map_cons, Multiset.add_cons, Multiset.cons_add]
          _ = s.freed.map some := by rw [← htaken, hkept.kept]

variable (mags) in
/-- A free returns whatever `kzalloc` does. -/
theorem Kept.free (hkept : Kept s) {i : Cpu × Context} {elem : α} {kzalloc : Addr}
    (hfresh : Fresh s (.freeElem i elem kzalloc)) :
    ∃ s', (allocatorRun mags).next s (.freeElem i elem kzalloc) = some s' ∧
      (Served s (.freeElem i elem kzalloc) → Kept s') ∧
      s.allocator.magFreeElem i (some elem) kzalloc = some s'.allocator := by
  obtain ⟨allocator, hfree, hsettled, hstored⟩ : ∃ allocator,
      s.allocator.magFreeElem i (some elem) kzalloc = some allocator ∧ allocator.Settled ∧
        allocator.contents = some elem ::ₘ s.allocator.contents := by
    by_cases hasks : s.allocator.Asks i (some elem) ∧ kzalloc ≠ nullMag
    · exact MagAllocator.magFreeElem_spec hkept.settled i (some elem)
        fun _ => hfresh hasks.1 hasks.2
    · obtain ⟨allocator, hfree, hspec⟩ : ∃ allocator,
          s.allocator.magFreeElem i (some elem) nullMag = some allocator ∧
            allocator.Settled ∧ allocator.contents = some elem ::ₘ s.allocator.contents :=
        MagAllocator.magFreeElem_spec hkept.settled i (some elem) fun _ => hkept.notNull
      refine ⟨allocator, ?_, hspec⟩
      rw [← hfree]
      by_cases hnot : s.allocator.Asks i (some elem)
      · have hnull : kzalloc = nullMag := by
          by_contra hne
          exact hasks ⟨hnot, hne⟩
        rw [hnull]
      · exact MagAllocator.magFreeElem_of_not_asks hnot _ _
  refine ⟨⟨allocator, elem ::ₘ s.freed, s.returned⟩, by simp only [allocatorRun, hfree]; rfl,
    fun hserved => ⟨hsettled, ?_, ?_⟩, hfree⟩
  · rcases MagAllocator.magFreeElem_places hfree with ⟨-, hplaces⟩ | ⟨hasks, hplaces⟩
    · exact hplaces.symm ▸ hkept.notNull
    · intro hmem
      rw [hplaces] at hmem
      rcases Multiset.mem_cons.mp hmem with hnull | hmem
      · exact hserved hasks hnull.symm
      · exact hkept.notNull hmem
  · calc
      allocator.contents + s.returned.map some =
          some elem ::ₘ (s.allocator.contents + s.returned.map some) := by
        rw [hstored, Multiset.cons_add]
      _ = (elem ::ₘ s.freed).map some := by rw [hkept.kept, Multiset.map_cons]

theorem Kept.next (hkept : Kept s) {call : ElemCall Cpu α} (hfresh : Fresh s call)
    (hserved : Served s call) (hnext : (allocatorRun mags).next s call = some s') : Kept s' := by
  cases call with
  | allocElem i =>
      obtain ⟨s₁, hs₁, hkept'⟩ := hkept.alloc mags i
      rw [hnext, Option.some.injEq] at hs₁
      exact hs₁ ▸ hkept'
  | freeElem i elem kzalloc =>
      obtain ⟨s₁, hs₁, hkept', -⟩ := hkept.free mags hfresh
      rw [hnext, Option.some.injEq] at hs₁
      exact hs₁ ▸ hkept' hserved

variable (mags) in
theorem Kept.next_ne_none (hkept : Kept s) {call : ElemCall Cpu α} (hfresh : Fresh s call) :
    (allocatorRun mags).next s call ≠ none := by
  intro hnone
  cases call with
  | allocElem i =>
      obtain ⟨s', hs', -⟩ := hkept.alloc mags i
      rw [hnone] at hs'
      cases hs'
  | freeElem i elem kzalloc =>
      obtain ⟨s', hs', -⟩ := hkept.free mags hfresh
      rw [hnone] at hs'
      cases hs'

theorem kept_of_reachable (hmags : mags.Asserted)
    (hreach : (allocatorRun mags).ReachableUnder
      (fun s call => Fresh s call ∧ Served s call) s) : Kept s := by
  refine hreach.invariant (P := Kept) (Kept.init hmags) ?_
  rintro before call after - hkept ⟨hfresh, hserved⟩ hnext
  exact hkept.next hfresh hserved hnext

theorem Kept.mem_places_of_touches (hkept : Kept s) {call : ElemCall Cpu α} {mag : Addr}
    (hmem : mag ∈ s.touches call) : mag ≠ nullMag ∧ mag ∈ s.allocator.places := by
  have hplaces : mag ∈ s.allocator.places := by
    cases call with
    | allocElem i => exact MagAllocator.mem_places_of_allocTouches hmem
    | freeElem i elem kzalloc => exact MagAllocator.mem_places_of_freeTouches hmem
  exact ⟨fun hnull => hkept.notNull (hnull ▸ hplaces), hplaces⟩

/-- As long as every call that asks for memory gets some, every call returns and touches
only magazines that exist, and no element is lost; after the first call that asks in
vain the next free to the same pair stores through the null pointer. -/
theorem magazines_exist (mags : InitMags Cpu) (hmags : mags.Asserted) (s : Run Cpu α)
    (hreach : (allocatorRun mags).ReachableUnder
      (fun s call => Fresh s call ∧ Served s call) s) :
    s.allocator.contents + s.returned.map some = s.freed.map some ∧
      (∀ call, Fresh s call → (allocatorRun mags).next s call ≠ none ∧
        ∀ mag ∈ s.touches call, mag ≠ nullMag ∧ mag ∈ s.allocator.places) ∧
      ∀ i elem kzalloc s', ¬Served s (.freeElem i elem kzalloc) →
        (allocatorRun mags).next s (.freeElem i elem kzalloc) = some s' →
        ∀ elem' kzalloc', nullMag ∈ s'.touches (.freeElem i elem' kzalloc') := by
  have hkept := kept_of_reachable hmags hreach
  refine ⟨hkept.kept, fun call hfresh => ⟨hkept.next_ne_none mags hfresh,
    fun _ => hkept.mem_places_of_touches⟩, ?_⟩
  · intro i elem kzalloc s' hserved hnext elem' kzalloc'
    obtain ⟨hasks, hnull⟩ := Classical.not_imp.mp hserved
    have hzero : kzalloc = nullMag := not_not.mp hnull
    subst hzero
    have hfresh : Fresh s (.freeElem i elem nullMag) := fun _ hne => absurd rfl hne
    obtain ⟨s'', hs'', -, hfree⟩ := hkept.free mags hfresh
    rw [hnext, Option.some.injEq] at hs''
    subst hs''
    exact MagAllocator.touches_null_of_asks hkept.settled hasks hfree (some elem')

instance decidableFresh (s : Run Cpu α) (call : ElemCall Cpu α) : Decidable (Fresh s call) :=
  match call with
  | .allocElem _ => inferInstanceAs (Decidable True)
  | .freeElem _ _ _ => inferInstanceAs (Decidable (_ → _ → _))

instance decidableServed (s : Run Cpu α) (call : ElemCall Cpu α) : Decidable (Served s call) :=
  match call with
  | .allocElem _ => inferInstanceAs (Decidable True)
  | .freeElem _ _ _ => inferInstanceAs (Decidable (_ → _))

/-- Eight elements fill a pair of one CPU, whose magazine goes to the depot. -/
theorem magazines_exist_full :
    ∃ s : Run Bool ℕ, s.freed.card = 8 ∧
      s.allocator.contents + s.returned.map some = s.freed.map some := by
  obtain ⟨s, hreach, hs⟩ := Machine.exists_reachable_of_run
    (allocatorRun twoCpus : Machine (Run Bool ℕ) (ElemCall Bool ℕ))
    (fun s call => Fresh s call ∧ Served s call)
    ((List.range 8).map fun elem => .freeElem (false, .task) elem
      (BitVec.ofNat 64 (65536 + 64 * elem)))
    (fun s => s.freed.card) 8 (by decide +kernel)
  exact ⟨s, hs, (magazines_exist twoCpus (by decide) s hreach).1⟩

/-- `kzalloc` fails for the eighth element, and the ninth is stored through the null
pointer. -/
theorem null_magazine_used :
    ¬∀ (mags : InitMags Bool), mags.Asserted →
      ∀ (s : Run Bool ℕ), (allocatorRun mags).ReachableUnder Fresh s →
        ∀ call, Fresh s call → ∀ mag ∈ s.touches call, mag ≠ nullMag := by
  intro hexist
  obtain ⟨s, hreach, hs⟩ := Machine.exists_reachable_of_run
    (allocatorRun twoCpus : Machine (Run Bool ℕ) (ElemCall Bool ℕ)) Fresh
    ((List.range 8).map fun elem => .freeElem (false, .task) elem nullMag)
    (fun s => s.touches (.freeElem (false, .task) 8 nullMag)) [nullMag] (by decide +kernel)
  refine hexist twoCpus (by decide) s hreach (.freeElem (false, .task) 8 nullMag) ?_ nullMag ?_ rfl
  · exact fun _ hne => absurd rfl hne
  · rw [hs]
    exact List.mem_singleton_self _

end KtcpSplit.MagAlloc
