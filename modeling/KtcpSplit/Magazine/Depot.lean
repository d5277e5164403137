import KtcpSplit.Magazine.Memory
import KtcpSplit.Magazine.Stranded

/-!
# The lists of the depot

`full_count` and `empty_count` are sixteen bits wide, and every access to the two
lists asks a counter first.  A call moves one magazine at most, to the full list
when its pair has one slot left, to the empty list when its pair is empty.
-/

namespace KtcpSplit.MagAlloc

open KtcpSplit.Transition

variable {Cpu α : Type*}

namespace MagAllocator

/-- The counters are the lengths of the lists modulo `2 ^ 16`, whatever `kzalloc`
returned. -/
structure Counted (s : MagAllocator Cpu α) : Prop where
  front : ∀ i, (s.pcpPair i).Front
  room : ∀ i, (s.pcpPair i).Room
  emptyCount : s.emptyCount = BitVec.ofNat 16 s.emptyList.length
  fullCount : s.fullCount = BitVec.ofNat 16 s.fullList.length

theorem counted_init (mags : InitMags Cpu) :
    (magAllocatorInit mags : MagAllocator Cpu α).Counted where
  front := fun _ => ⟨fun _ => Nat.zero_le _, fun _ => rfl⟩
  room := fun _ => .inl (by decide : (0 : BitVec 32) ≠ magDepth)
  emptyCount := rfl
  fullCount := rfl

/-- The counters are the lengths of the lists. -/
structure Exact (s : MagAllocator Cpu α) : Prop where
  fullCount : s.fullCount.toNat = s.fullList.length
  emptyCount : s.emptyCount.toNat = s.emptyList.length

/-- Fewer than `2 ^ 16` magazines are in each list. -/
structure Small (s : MagAllocator Cpu α) : Prop where
  full : s.fullList.length < 2 ^ 16
  empty : s.emptyList.length < 2 ^ 16

instance decidableSmall (s : MagAllocator Cpu α) : Decidable s.Small :=
  decidable_of_iff (s.fullList.length < 2 ^ 16 ∧ s.emptyList.length < 2 ^ 16)
    ⟨fun h => ⟨h.1, h.2⟩, fun h => ⟨h.full, h.empty⟩⟩

theorem count_eq_length_iff {list : List Addr} {count : BitVec 16}
    (hcount : count = BitVec.ofNat 16 list.length) :
    count.toNat = list.length ↔ list.length < 2 ^ 16 := by
  constructor
  · intro heq
    exact heq ▸ count.isLt
  · intro hlt
    rw [hcount, BitVec.toNat_ofNat, Nat.mod_eq_of_lt hlt]

theorem count_ne_zero_iff {list : List Addr} {count : BitVec 16}
    (hcount : count = BitVec.ofNat 16 list.length) (hlt : list.length < 2 ^ 16) :
    count ≠ 0 ↔ list ≠ [] := by
  have hlength := (count_eq_length_iff hcount).mpr hlt
  rw [← List.length_pos_iff, ← hlength, ne_eq, BitVec.toNat_eq]
  exact Nat.pos_iff_ne_zero.symm

variable {s s' : MagAllocator Cpu α} {i : Cpu × Context} {elem : Option α} {kzalloc : Addr}

theorem Counted.exact_iff (hcounted : s.Counted) : s.Exact ↔ s.Small := by
  have hfull := count_eq_length_iff hcounted.fullCount
  have hempty := count_eq_length_iff hcounted.emptyCount
  exact ⟨fun h => ⟨hfull.mp h.fullCount, hempty.mp h.emptyCount⟩,
    fun h => ⟨hfull.mpr h.full, hempty.mpr h.empty⟩⟩

variable [DecidableEq Cpu]

/-! ## What a call does to the lists -/

theorem Counted.magPairFree (hcounted : s.Counted)
    (hfree : s.magPairFree i elem = some s') :
    (∀ k, (s'.pcpPair k).Front) ∧ (∀ k, k ≠ i → (s'.pcpPair k).Room) ∧
      s'.emptyList = s.emptyList ∧ s'.emptyCount = s.emptyCount ∧
      s'.fullList = s.fullList ∧ s'.fullCount = s.fullCount := by
  obtain ⟨-, -, hfront⟩ := freeIdx_spec (hcounted.front i) (hcounted.room i)
  simp only [MagAllocator.magPairFree] at hfree
  obtain ⟨-, hfree⟩ := Option.ite_none_right_eq_some.mp hfree
  obtain ⟨-, hfree⟩ := Option.ite_none_right_eq_some.mp hfree
  cases hfree
  refine ⟨?_, fun k hk => ?_, rfl, rfl, rfl, rfl⟩
  · refine Function.forall_update_iff _ (fun _ => MagPair.Front) |>.mpr
      ⟨⟨hfront.count_le, hfront.front⟩, fun k _ => hcounted.front k⟩
  · dsimp only
    rw [Function.update_of_ne hk]
    exact hcounted.room k

/-- The stored element fills the pair exactly when one slot was left. -/
theorem magPairCount_full_iff (hload : (s.pcpPair i).load ≤ 7)
    (hfree : s.magPairFree i elem = some s') :
    magPairCount (s'.pcpPair i) = magDepth <<< 1 ↔ (s.pcpPair i).load = 7 := by
  obtain ⟨hload', -⟩ := magPairFree_load hfree
  have hcount : (magPairCount (s'.pcpPair i)).toNat = (s.pcpPair i).load + 1 := by
    rw [magPairCount, BitVec.toNat_add, ← hload']
    apply Nat.mod_eq_of_lt
    change (s'.pcpPair i).load < 2 ^ 32
    omega
  have height : ((magDepth <<< 1 : ℕ) : BitVec 32).toNat = 8 := rfl
  rw [BitVec.toNat_eq, hcount, height]
  omega

/-- A full magazine goes to the depot when one slot of the pair is left; the pair gets an
empty one from the depot, or new memory if `empty_count` is zero. -/
theorem Counted.magFreeElem (hcounted : s.Counted)
    (hfree : s.magFreeElem i elem kzalloc = some s') :
    s'.Counted ∧
      ((s.pcpPair i).load ≠ 7 ∧ s'.fullList = s.fullList ∧ s'.emptyList = s.emptyList ∨
        (s.pcpPair i).load = 7 ∧ s'.fullList.length = s.fullList.length + 1 ∧
          (s.emptyCount ≠ 0 ∧ s'.emptyList.length + 1 = s.emptyList.length ∨
            s.emptyCount = 0 ∧ s'.emptyList = s.emptyList)) := by
  obtain ⟨s₁, hpair, hrest⟩ := Option.bind_eq_some_iff.mp hfree
  obtain ⟨hfront, hroom, hemptyList, hemptyCount, hfullList, hfullCount⟩ :=
    hcounted.magPairFree hpair
  have hfull := magPairCount_full_iff ((hcounted.front i).load_lt (hcounted.room i)) hpair
  have hfulls := hcounted.fullCount
  have hemptys := hcounted.emptyCount
  rw [← hfullList, ← hfullCount] at hfulls
  rw [← hemptyList, ← hemptyCount] at hemptys
  split at hrest
  · rename_i height
    have hboth := (hfront i).count_eq_full_iff.mp height
    rw [MagPair.Room, not_or, not_not, not_not] at hboth
    have hfront' : ∀ mag k, (Function.update s₁.pcpPair i
        ((s₁.pcpPair i).exchange 1 mag 0) k).Front := fun mag =>
      Function.forall_update_iff _ (fun _ => MagPair.Front) |>.mpr
        ⟨⟨Fin.forall_fin_two.mpr ⟨(hfront i).count_le 0, Nat.zero_le _⟩,
          fun _ => rfl⟩, fun k _ => hfront k⟩
    have hroom' : ∀ mag k, (Function.update s₁.pcpPair i
        ((s₁.pcpPair i).exchange 1 mag 0) k).Room := fun mag =>
      Function.forall_update_iff _ (fun _ => MagPair.Room) |>.mpr
        ⟨.inr (by decide : (0 : BitVec 32) ≠ magDepth), hroom⟩
    simp only [magAllocatorSwitchFull, if_pos hboth.2] at hrest
    split at hrest
    · rename_i hne
      obtain ⟨mag, rest, hlist, hcount⟩ := exists_cons_of_count hemptys hne
      rw [hlist] at hrest
      cases hrest
      refine ⟨⟨hfront' mag, hroom' mag, hcount, count_cons hfulls _⟩, .inr
        ⟨hfull.mp height, ?_, .inl ⟨hemptyCount ▸ hne, ?_⟩⟩⟩
      · rw [← hfullList]
        rfl
      · rw [← hemptyList, hlist]
        rfl
    · rename_i hzero
      cases hrest
      refine ⟨⟨hfront' kzalloc, hroom' kzalloc, hemptys, count_cons hfulls _⟩, .inr
        ⟨hfull.mp height, ?_, .inr ⟨hemptyCount ▸ not_not.mp hzero, hemptyList⟩⟩⟩
      rw [← hfullList]
      rfl
  · rename_i hleft
    cases hrest
    refine ⟨⟨hfront, fun k => ?_, hemptys, hfulls⟩, .inl
      ⟨fun hseven => hleft (hfull.mpr hseven), hfullList, hemptyList⟩⟩
    by_cases hk : k = i
    · subst hk
      exact not_not.mp ((hfront k).count_eq_full_iff.not.mp hleft)
    · exact hroom k hk

/-- `mag_free_elem` asks for memory when one slot of the pair is left and `empty_count` is
zero. -/
theorem Counted.asks_iff (hcounted : s.Counted)
    (hfree : s.magFreeElem i elem kzalloc = some s') :
    s.Asks i elem ↔ (s.pcpPair i).load = 7 ∧ s.emptyCount = 0 := by
  obtain ⟨s₁, hpair, -⟩ := Option.bind_eq_some_iff.mp hfree
  obtain ⟨-, -, -, hcount, -⟩ := hcounted.magPairFree hpair
  have hfull := magPairCount_full_iff
    ((hcounted.front i).load_lt (hcounted.room i)) hpair
  rw [Asks, hpair, ← hfull, ← hcount]
  constructor
  · rintro ⟨s₂, hs₂, hasks⟩
    cases hs₂
    exact hasks
  · exact fun hasks => ⟨s₁, rfl, hasks⟩

/-- A full magazine of the depot and the empty one of the pair change places when the pair
is empty and `full_count` is not zero. -/
theorem Counted.magAllocElem (hcounted : s.Counted)
    (halloc : s.magAllocElem i = some (elem, s')) :
    s'.Counted ∧
      (¬((s.pcpPair i).load = 0 ∧ s.fullCount ≠ 0) ∧ s'.fullList = s.fullList ∧
          s'.emptyList = s.emptyList ∨
        ((s.pcpPair i).load = 0 ∧ s.fullCount ≠ 0) ∧
          s'.fullList.length + 1 = s.fullList.length ∧
          s'.emptyList.length = s.emptyList.length + 1) := by
  obtain ⟨s₁, hrefill, hrest⟩ := Option.bind_eq_some_iff.mp halloc
  obtain ⟨⟨elem', pair⟩, hpair, heq⟩ := Option.map_eq_some_iff.mp hrest
  cases heq
  have hzero_iff : magPairCount (s.pcpPair i) = 0 ↔ (s.pcpPair i).load = 0 := by
    rw [← (hcounted.front i).magPairCount_toNat, BitVec.toNat_eq]
    rfl
  obtain ⟨hcounted₁, hlists⟩ : s₁.Counted ∧
      (¬((s.pcpPair i).load = 0 ∧ s.fullCount ≠ 0) ∧ s₁.fullList = s.fullList ∧
          s₁.emptyList = s.emptyList ∨
        ((s.pcpPair i).load = 0 ∧ s.fullCount ≠ 0) ∧
          s₁.fullList.length + 1 = s.fullList.length ∧
          s₁.emptyList.length = s.emptyList.length + 1) := by
    split at hrefill
    · rename_i hcount
      have hzero := (hcounted.front i).count_eq_zero hcount
      have hone := (hcounted.front i).front hzero
      simp only [magAllocatorSwitchEmpty, hzero, ne_eq, not_true_eq_false, if_false]
        at hrefill
      split at hrefill
      · rename_i hne
        obtain ⟨mag, rest, hlist, hrest'⟩ := exists_cons_of_count hcounted.fullCount hne
        rw [hlist] at hrefill
        cases hrefill
        refine ⟨⟨?front, ?room, count_cons hcounted.emptyCount _, hrest'⟩,
          .inr ⟨⟨hzero_iff.mp hcount, hne⟩, ?_, rfl⟩⟩
        case front =>
          refine Function.forall_update_iff _ (fun _ => MagPair.Front) |>.mpr
            ⟨⟨Fin.forall_fin_two.mpr ⟨le_rfl, (hcounted.front i).count_le 1⟩,
              fun h => ?_⟩, fun k _ => hcounted.front k⟩
          exact absurd h (by decide : (magDepth : BitVec 32) ≠ 0)
        case room =>
          refine Function.forall_update_iff _ (fun _ => MagPair.Room) |>.mpr
            ⟨.inr fun h => ?_, fun k _ => hcounted.room k⟩
          have hback : (s.pcpPair i).count 1 = magDepth := h
          rw [hone] at hback
          exact absurd hback (by decide)
        · rw [hlist]
          rfl
      · rename_i hnone
        cases hrefill
        exact ⟨hcounted, .inl ⟨fun h => hnone h.2, rfl, rfl⟩⟩
    · rename_i hcount
      cases hrefill
      exact ⟨hcounted, .inl ⟨fun h => hcount (hzero_iff.mpr h.1), rfl, rfl⟩⟩
  refine ⟨?_, hlists⟩
  rcases magPairAlloc_spec s₁.memory (hcounted₁.front i) with
    ⟨hnull, -⟩ | ⟨elem', pair', htaken, hfront, hroom, -⟩
  · rw [hpair, Option.some.injEq, Prod.mk.injEq] at hnull
    rw [hnull.2, setPair, Function.update_eq_self]
    exact hcounted₁
  · rw [hpair, Option.some.injEq, Prod.mk.injEq] at htaken
    rw [htaken.2]
    refine ⟨?_, ?_, hcounted₁.emptyCount, hcounted₁.fullCount⟩
    · exact Function.forall_update_iff _ (fun _ => MagPair.Front) |>.mpr
        ⟨hfront, fun k _ => hcounted₁.front k⟩
    · exact Function.forall_update_iff _ (fun _ => MagPair.Room) |>.mpr
        ⟨hroom, fun k _ => hcounted₁.room k⟩

end MagAllocator

/-! ## Runs -/

section Counters

variable [DecidableEq Cpu] {mags : InitMags Cpu} {s : Run Cpu α}

/-- The call moves a magazine into a list of `2 ^ 16 - 1`. -/
def Overflows (s : Run Cpu α) : ElemCall Cpu α → Prop
  | .allocElem i =>
      ((s.allocator.pcpPair i).load = 0 ∧ s.allocator.fullCount ≠ 0) ∧
        2 ^ 16 ≤ s.allocator.emptyList.length + 1
  | .freeElem i _ _ =>
      (s.allocator.pcpPair i).load = 7 ∧ 2 ^ 16 ≤ s.allocator.fullList.length + 1

instance decidableOverflows (s : Run Cpu α) (call : ElemCall Cpu α) :
    Decidable (Overflows s call) :=
  match call with
  | .allocElem _ => inferInstanceAs (Decidable ((_ ∧ _) ∧ _))
  | .freeElem _ _ _ => inferInstanceAs (Decidable (_ ∧ _))

/-- What a call of a run does to the counters and the lists. -/
theorem counted_next {s' : Run Cpu α} (hcounted : s.allocator.Counted)
    {call : ElemCall Cpu α} (hnext : (allocatorRun mags).next s call = some s') :
    s'.allocator.Counted ∧
      (s.allocator.Small → (s'.allocator.Small ↔ ¬Overflows s call)) := by
  cases call with
  | allocElem i =>
      obtain ⟨⟨elem, allocator⟩, halloc, heq⟩ := Option.map_eq_some_iff.mp hnext
      have hafter : s'.allocator = allocator := by
        rw [← heq]
        cases elem <;> rfl
      obtain ⟨hcounted', hlists⟩ := hcounted.magAllocElem halloc
      rw [hafter]
      refine ⟨hcounted', fun hsmall => ?_⟩
      rcases hlists with ⟨hnot, hfull, hempty⟩ | ⟨htaken, hfull, hempty⟩
      · refine iff_of_true ⟨hfull ▸ hsmall.full, hempty ▸ hsmall.empty⟩ fun hover => ?_
        exact hnot hover.1
      · have hlt := hsmall.full
        constructor
        · rintro hsmall' ⟨-, hover⟩
          have hlt' := hsmall'.empty
          omega
        · intro hover
          refine ⟨by omega, ?_⟩
          by_contra hle
          exact hover ⟨htaken, by omega⟩
  | freeElem i elem kzalloc =>
      obtain ⟨allocator, hfree, rfl⟩ := Option.map_eq_some_iff.mp hnext
      obtain ⟨hcounted', hlists⟩ := hcounted.magFreeElem hfree
      refine ⟨hcounted', fun hsmall => ?_⟩
      rcases hlists with ⟨hnot, hfull, hempty⟩ | ⟨hseven, hfull, hempty⟩
      · refine iff_of_true ⟨hfull ▸ hsmall.full, hempty ▸ hsmall.empty⟩ fun hover => ?_
        exact hnot hover.1
      · have hempty' : allocator.emptyList.length ≤ s.allocator.emptyList.length := by
          rcases hempty with ⟨-, hlength⟩ | ⟨-, hsame⟩
          · omega
          · rw [hsame]
        have hlt := hsmall.empty
        constructor
        · rintro hsmall' ⟨-, hover⟩
          have hlt' := hsmall'.full
          dsimp only at hlt'
          omega
        · intro hover
          refine ⟨?_, hempty'.trans_lt hlt⟩
          dsimp only
          by_contra hle
          exact hover ⟨hseven, by omega⟩

theorem counted_of_reachable (hreach : (allocatorRun mags).Reachable s) :
    s.allocator.Counted := by
  refine hreach.invariant (P := fun s => s.allocator.Counted) ?_ ?_
  · exact MagAllocator.counted_init mags
  · rintro before call after - hcounted - hnext
    exact (counted_next hcounted hnext).1

omit [DecidableEq Cpu] in
/-- The elements in the full magazines of the depot. -/
theorem MagAllocator.card_full (s : MagAllocator Cpu α) :
    s.full.card = 4 * s.fullList.length := by
  rw [MagAllocator.full]
  induction s.fullList with
  | nil => rfl
  | cons mag rest ih =>
      rw [List.map_cons, List.sum_cons, Multiset.card_add, Multiset.coe_card,
        (s.memory mag).length_stack, ih, List.length_cons, magDepth, Nat.mul_succ,
        Nat.add_comm]

/-- In a run that moves no magazine into a list of `2 ^ 16 - 1` the counters are the lengths
of the lists, `mag_allocator_switch_empty` finds every magazine of the depot and the refill
counts their elements.  The first call that does move one there makes a counter wrong. -/
theorem depot_counters_exact (mags : InitMags Cpu) (s : Run Cpu α)
    (hreach : (allocatorRun mags).ReachableUnder (fun s call => ¬Overflows s call) s) :
    s.allocator.Exact ∧
      (s.allocator.fullCount ≠ 0 ↔ s.allocator.fullList ≠ []) ∧
      s.allocator.fullCount.toNat <<< 2 = s.allocator.full.card ∧
      ∀ call s', (allocatorRun mags).next s call = some s' →
        (s'.allocator.Exact ↔ ¬Overflows s call) := by
  have hcounted := counted_of_reachable hreach.reachable
  have hsmall : s.allocator.Small := by
    refine hreach.invariant (P := fun s => s.allocator.Small) ?_ ?_
    · exact ⟨Nat.two_pow_pos 16, Nat.two_pow_pos 16⟩
    · intro before call after hbefore hsmall hcall hnext
      have hcounted := counted_of_reachable hbefore.reachable
      exact ((counted_next hcounted hnext).2 hsmall).mpr hcall
  have hexact := hcounted.exact_iff.mpr hsmall
  refine ⟨hexact, MagAllocator.count_ne_zero_iff hcounted.fullCount hsmall.full, ?_, ?_⟩
  · rw [hexact.fullCount, s.allocator.card_full, Nat.shiftLeft_eq, Nat.mul_comm]
  · intro call s' hnext
    obtain ⟨hcounted', hsmall'⟩ := counted_next hcounted hnext
    rw [hcounted'.exact_iff, hsmall' hsmall]

/-- Eight elements are freed to one CPU, and another gets the magazine of the depot. -/
theorem depot_counters_exact_taken :
    ∃ s : Run Bool ℕ, (s.freed.card, s.returned) = (8, {7}) ∧ s.allocator.Exact := by
  obtain ⟨s, hreach, hs⟩ := Machine.exists_reachable_of_run
    (allocatorRun twoCpus : Machine (Run Bool ℕ) (ElemCall Bool ℕ))
    (fun s call => ¬Overflows s call)
    ((List.range 8).map (fun elem => .freeElem (false, .task) elem
        (BitVec.ofNat 64 (65536 + 64 * elem))) ++ [.allocElem (true, .softirq)])
    (fun s => (s.freed.card, s.returned)) (8, {7}) (by decide +kernel)
  exact ⟨s, hs, (depot_counters_exact twoCpus s hreach).1⟩

end Counters

/-! ## A depot of any size -/

section Grow

variable [Fintype Cpu]

theorem exists_fresh {places : Multiset Addr} (hcard : places.card < 2 ^ 64) :
    ∃ kzalloc, kzalloc ∉ places := by
  let addrs : Finset Addr :=
    Finset.univ.map ⟨BitVec.ofFin, fun _ _ heq => congrArg BitVec.toFin heq⟩
  have hlt : places.toFinset.card < addrs.card := by
    calc
      places.toFinset.card ≤ places.card := places.toFinset_card_le
      _ < 2 ^ 64 := hcard
      _ = addrs.card := by rw [Finset.card_map, Finset.card_univ, Fintype.card_fin]
  obtain ⟨kzalloc, -, hnot⟩ := Finset.exists_mem_notMem_of_card_lt_card hlt
  exact ⟨kzalloc, fun hmem => hnot (Multiset.mem_toFinset.mpr hmem)⟩

variable [DecidableEq Cpu] {mags : InitMags Cpu}

/-- A free that gets new memory if it asks for some. -/
theorem exists_freed {s : Run Cpu α}
    (hreach : (allocatorRun mags).ReachableUnder Allocates s)
    (hcard : s.allocator.places.card < 2 ^ 64) (i : Cpu × Context) (elem : α) :
    ∃ s', (allocatorRun mags).ReachableUnder Allocates s' ∧
      ∃ kzalloc, s.allocator.magFreeElem i (some elem) kzalloc = some s'.allocator := by
  obtain ⟨kzalloc, hfresh⟩ := exists_fresh hcard
  obtain ⟨hsettled, -⟩ := settled_of_reachable hreach
  obtain ⟨allocator, hfree, -⟩ :=
    MagAllocator.magFreeElem_spec hsettled i (some elem) fun _ => hfresh
  have hallocates : Allocates s (.freeElem i elem kzalloc) := fun _ => hfresh
  refine ⟨⟨allocator, elem ::ₘ s.freed, s.returned⟩, hreach.next hallocates ?_, kzalloc, hfree⟩
  simp only [allocatorRun, hfree]
  rfl

/-- Elements are freed to one pair until a full magazine goes to the depot. -/
theorem exists_shelved (i : Cpu × Context) (elem : α) (left : ℕ) {s : Run Cpu α}
    (hreach : (allocatorRun mags).ReachableUnder Allocates s)
    (hleft : (s.allocator.pcpPair i).load + left = 7)
    (hcard : s.allocator.places.card < 2 ^ 64) :
    ∃ s' : Run Cpu α, (allocatorRun mags).ReachableUnder Allocates s' ∧
      s'.allocator.fullList.length = s.allocator.fullList.length + 1 ∧
      s'.allocator.places.card ≤ s.allocator.places.card + 1 := by
  induction left generalizing s with
  | zero =>
      obtain ⟨s', hreach', kzalloc, hfree⟩ := exists_freed hreach hcard i elem
      have hcounted := counted_of_reachable hreach.reachable
      refine ⟨s', hreach', ?_, ?_⟩
      · rcases (hcounted.magFreeElem hfree).2 with ⟨hne, -⟩ | ⟨-, hfull, -⟩
        · exact absurd hleft hne
        · exact hfull
      · rcases MagAllocator.magFreeElem_places hfree with ⟨-, hplaces⟩ | ⟨-, hplaces⟩
        · rw [hplaces]
          exact Nat.le_succ _
        · rw [hplaces, Multiset.card_cons]
  | succ left ih =>
      obtain ⟨s', hreach', kzalloc, hfree⟩ := exists_freed hreach hcard i elem
      have hcounted := counted_of_reachable hreach.reachable
      have hne : (s.allocator.pcpPair i).load ≠ 7 := by omega
      have hfull : s'.allocator.fullList = s.allocator.fullList := by
        rcases (hcounted.magFreeElem hfree).2 with ⟨-, hfull, -⟩ | ⟨hseven, -⟩
        · exact hfull
        · exact absurd hseven hne
      have hplaces : s'.allocator.places = s.allocator.places := by
        rcases MagAllocator.magFreeElem_places hfree with ⟨-, hplaces⟩ | ⟨hasks, -⟩
        · exact hplaces
        · exact absurd ((hcounted.asks_iff hfree).mp hasks).1 hne
      have hload : (s'.allocator.pcpPair i).load = (s.allocator.pcpPair i).load + 1 := by
        rcases (MagAllocator.magFreeElem_load (hcounted.front i) hfree).2 with
          ⟨hload, -⟩ | ⟨hseven, -⟩
        · exact hload
        · exact absurd hseven hne
      rw [← hfull, ← hplaces]
      exact ih hreach' (by omega) (hplaces ▸ hcard)

variable (mags) in
/-- With every `kzalloc` succeeding the depot can be filled up to any length. -/
theorem exists_fullList (i : Cpu × Context) (elem : α) (length : ℕ)
    (hcard : 4 * Fintype.card Cpu + length < 2 ^ 64) :
    ∃ s : Run Cpu α, (allocatorRun mags).ReachableUnder Allocates s ∧
      s.allocator.fullList.length = length ∧
      s.allocator.places.card ≤ 4 * Fintype.card Cpu + length := by
  induction length with
  | zero =>
      refine ⟨_, .init, rfl, ?_⟩
      change (∑ i, (MagPair.mags ⟨magArray (mags.mag i), fun _ => 0⟩) + 0).card ≤ _
      have hpair : ∀ i : Cpu × Context, (MagPair.mags ⟨magArray (mags.mag i),
        fun _ => 0⟩).card = 2 := fun _ => rfl
      rw [add_zero, Multiset.card_sum, Finset.sum_congr rfl fun i _ => hpair i,
        Finset.sum_const, Finset.card_univ, Fintype.card_prod]
      have hcontext : Fintype.card Context = 2 := rfl
      rw [hcontext, smul_eq_mul]
      omega
  | succ length ih =>
      obtain ⟨s, hreach, hlength, hplaces⟩ := ih (by omega)
      have hcounted := counted_of_reachable hreach.reachable
      have hseven := (hcounted.front i).load_lt (hcounted.room i)
      obtain ⟨s', hreach', hlength', hplaces'⟩ := exists_shelved i elem
        (7 - (s.allocator.pcpPair i).load) hreach (by omega) (by omega)
      exact ⟨s', hreach', by omega, by omega⟩

/-- After enough frees `2 ^ 16` full magazines are in the depot, and `full_count` is zero. -/
theorem depot_counter_wraps :
    ∃ s : Run Bool ℕ, (allocatorRun twoCpus).ReachableUnder Allocates s ∧
      s.allocator.fullList.length = 2 ^ 16 ∧ s.allocator.fullCount = 0 ∧
      ¬s.allocator.Exact := by
  obtain ⟨s, hreach, hlength, -⟩ :=
    exists_fullList twoCpus (false, .task) 0 (2 ^ 16) (by decide)
  have hcounted := counted_of_reachable hreach.reachable
  have hcount : s.allocator.fullCount = 0 := by
    rw [hcounted.fullCount, hlength]
    rfl
  refine ⟨s, hreach, hlength, hcount, fun hexact => ?_⟩
  have hfull := hexact.fullCount
  rw [hlength, hcount] at hfull
  exact absurd hfull (by decide)

end Grow

end KtcpSplit.MagAlloc
