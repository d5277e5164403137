import KtcpSplit.Magazine.Loads
import KtcpSplit.Magazine.Refinement
import Mathlib.Algebra.Order.BigOperators.Group.Finset

/-!
# What is left when an allocation fails

`mag_alloc_elem` looks at the pair of its own context and at the depot, so it can
fail while other pairs hold elements.  No pair rests with two full magazines, which
bounds how many these can be.
-/

namespace KtcpSplit.MagAlloc

open KtcpSplit.Transition

variable {Cpu α : Type*}

/-! ## Counting -/

theorem Magazine.card_slots (mag : Magazine α) {count : BitVec 32}
    (hle : count.toNat ≤ magDepth) : (mag.slots count).card = count.toNat := by
  rw [Magazine.slots, Multiset.coe_card, List.length_take, mag.length_stack]
  exact Nat.min_eq_left hle

theorem MagPair.Front.card_held {pair : MagPair} (hfront : pair.Front)
    (memory : Addr → Magazine α) : (pair.held memory).card = pair.load := by
  rw [MagPair.held, Multiset.card_add, Magazine.card_slots _ (hfront.count_le 0),
    Magazine.card_slots _ (hfront.count_le 1), MagPair.load]

namespace MagAllocator

variable [Fintype Cpu] {s : MagAllocator Cpu α} {i : Cpu × Context}

/-- Without a full magazine in the depot the elements are those of the pairs. -/
theorem contents_of_fullList (hlist : s.fullList = []) :
    s.contents = ∑ k, (s.pcpPair k).held s.memory := by
  rw [contents, full, hlist, List.map_nil, List.sum_nil, add_zero]

theorem fullCount_eq_zero_iff (htidy : s.Tidy) (hlength : s.fullList.length < 2 ^ 16) :
    s.fullCount = 0 ↔ s.fullList = [] := by
  rw [htidy.fullCount, ← List.length_eq_zero_iff]
  constructor
  · intro hcount
    have hzero := congrArg BitVec.toNat hcount
    rw [BitVec.toNat_ofNat, Nat.mod_eq_of_lt hlength] at hzero
    exact hzero
  · intro hzero
    rw [hzero]
    rfl

variable [DecidableEq Cpu]

/-- The elements are in other pairs than the one that is empty. -/
theorem contents_of_empty (hlist : s.fullList = [])
    (hempty : (s.pcpPair i).held s.memory = 0) :
    s.contents = ∑ k ∈ Finset.univ.erase i, (s.pcpPair k).held s.memory := by
  rw [contents_of_fullList hlist, ← Finset.add_sum_erase _ _ (Finset.mem_univ i), hempty,
    zero_add]

/-- A settled pair holds at most seven elements. -/
theorem card_contents_le (hsettled : s.Settled) (hlist : s.fullList = [])
    (hempty : (s.pcpPair i).held s.memory = 0) :
    s.contents.card ≤ (2 * magDepth - 1) * (2 * Fintype.card Cpu - 1) := by
  have hpair : ∀ k ∈ Finset.univ.erase i,
      ((s.pcpPair k).held s.memory).card ≤ 2 * magDepth - 1 := by
    intro k _
    rw [(hsettled.front k).card_held]
    exact (hsettled.front k).load_lt (hsettled.room k)
  have hcard : (Finset.univ.erase i).card = 2 * Fintype.card Cpu - 1 := by
    rw [Finset.card_erase_of_mem (Finset.mem_univ i), Finset.card_univ, Fintype.card_prod,
      mul_comm]
    rfl
  calc
    s.contents.card =
        ∑ k ∈ Finset.univ.erase i, ((s.pcpPair k).held s.memory).card := by
      rw [contents_of_empty hlist hempty, Multiset.card_sum]
    _ ≤ (Finset.univ.erase i).card * (2 * magDepth - 1) :=
      Finset.sum_le_card_nsmul _ _ _ hpair
    _ = (2 * magDepth - 1) * (2 * Fintype.card Cpu - 1) := by
      rw [hcard, mul_comm]

/-- Only an empty pair and an empty depot make a call return the null pointer, unless
one was freed before. -/
theorem magAllocElem_eq_none_iff (hsettled : s.Settled) (hnull : none ∉ s.contents)
    (i : Cpu × Context) :
    ∃ elem s', s.magAllocElem i = some (elem, s') ∧
      (elem = none ↔ (s.pcpPair i).load = 0 ∧ s.fullCount = 0) ∧
      (elem = none → s' = s) := by
  obtain ⟨s₁, hrefill, hsettled₁, hcontents₁, hload₁⟩ : ∃ s₁,
      (if magPairCount (s.pcpPair i) = 0 then s.magAllocatorSwitchEmpty i
        else some s) = some s₁ ∧ s₁.Settled ∧ s₁.contents = s.contents ∧
        (s₁ = s ∧ ((s.pcpPair i).load = 0 → s.fullCount = 0) ∨
          (s₁.pcpPair i).load = magDepth ∧ s.fullCount ≠ 0) := by
    split
    · rename_i hcount
      obtain ⟨s₁, hswitch, hsettled₁, hcontents₁⟩ := magAllocatorSwitchEmpty_spec hsettled
        ((hsettled.front i).count_eq_zero hcount)
      have hzero : (s.pcpPair i).load = 0 := by
        rw [← (hsettled.front i).magPairCount_toNat, hcount]
        rfl
      refine ⟨s₁, hswitch, hsettled₁, hcontents₁, ?_⟩
      rcases (magAllocatorSwitchEmpty_load hzero hswitch).2 with ⟨hsame, hnone⟩ | ⟨hfull, hsome, -⟩
      · exact .inl ⟨hsame, fun _ => hnone⟩
      · exact .inr ⟨hfull, hsome⟩
    · rename_i hcount
      refine ⟨s, rfl, hsettled, rfl, .inl ⟨rfl, fun hzero => ?_⟩⟩
      rw [← (hsettled.front i).magPairCount_toNat] at hzero
      exact absurd (BitVec.eq_of_toNat_eq hzero) hcount
  simp only [magAllocElem, hrefill, Option.bind_some]
  rcases magPairAlloc_spec s₁.memory (hsettled₁.front i) with
    ⟨halloc, hzero⟩ | ⟨elem, pair, halloc, -, -, -, hheld⟩
  · have hload : (s₁.pcpPair i).load = 0 := by
      rw [MagPair.load, hzero, (hsettled₁.front i).front hzero]
      rfl
    refine ⟨none, s₁, ?_, ?_, ?_⟩
    · rw [halloc, Option.map_some, setPair, Function.update_eq_self]
    · rcases hload₁ with ⟨rfl, hnone⟩ | ⟨hfull, -⟩
      · exact iff_of_true rfl ⟨hload, hnone hload⟩
      · rw [hload] at hfull
        exact absurd hfull (by decide)
    · rcases hload₁ with ⟨hsame, -⟩ | ⟨hfull, -⟩
      · exact fun _ => hsame
      · rw [hload] at hfull
        exact absurd hfull (by decide)
  · have helem : elem ≠ none := by
      rintro rfl
      apply hnull
      rw [← hcontents₁, contents]
      refine Multiset.mem_add.mpr (.inl (Multiset.mem_sum.mpr ⟨i, Finset.mem_univ i, ?_⟩))
      rw [hheld]
      exact Multiset.mem_cons_self _ _
    refine ⟨elem, s₁.setPair i pair, by rw [halloc, Option.map_some], ?_,
      fun hnone => absurd hnone helem⟩
    refine iff_of_false helem ?_
    rintro ⟨hzero, hnone⟩
    rcases hload₁ with ⟨rfl, -⟩ | ⟨-, hsome⟩
    · rw [← (hsettled₁.front i).card_held s₁.memory, hheld, Multiset.card_cons] at hzero
      exact absurd hzero (Nat.succ_ne_zero _)
    · exact hsome hnone

end MagAllocator

/-! ## Runs -/

variable [Fintype Cpu]

/-- `kzalloc` succeeds: it returns memory that is not a magazine. -/
def Allocates (s : Run Cpu α) : ElemCall Cpu α → Prop
  | .allocElem _ => True
  | .freeElem _ _ kzalloc => s.allocator.emptyCount = 0 → kzalloc ∉ s.allocator.places

instance decidableAllocates (s : Run Cpu α) (call : ElemCall Cpu α) :
    Decidable (Allocates s call) :=
  match call with
  | .allocElem _ => inferInstanceAs (Decidable True)
  | .freeElem _ _ _ => inferInstanceAs (Decidable (_ → _))

variable [DecidableEq Cpu]

/-- Elements that are freed are not null pointers, and so none is inside. -/
theorem settled_of_reachable {mags : InitMags Cpu} {s : Run Cpu α}
    (hreach : (allocatorRun mags).ReachableUnder Allocates s) :
    s.allocator.Settled ∧ none ∉ s.allocator.contents := by
  refine hreach.invariant
    (P := fun s => s.allocator.Settled ∧ none ∉ s.allocator.contents) ?_ ?_
  · refine ⟨MagAllocator.settled_init mags, ?_⟩
    have hzero : (allocatorRun mags : Machine (Run Cpu α) _).init.allocator.contents = 0 :=
      MagAllocator.contents_init mags
    rw [hzero]
    exact Multiset.notMem_zero _
  · rintro before call after - ⟨hsettled, hnull⟩ hcall hnext
    cases call with
    | allocElem i =>
        obtain ⟨elem, allocator, halloc, hsettled', htaken⟩ :=
          MagAllocator.magAllocElem_spec hsettled i
        simp only [allocatorRun, halloc, Option.map_some, Option.some.injEq] at hnext
        have hafter : after.allocator = allocator := by
          rw [← hnext]
          cases elem <;> rfl
        rw [hafter]
        refine ⟨hsettled', fun hmem => hnull ?_⟩
        rcases htaken with ⟨-, hsame⟩ | htaken
        · rw [← hsame]
          exact hmem
        · rw [htaken]
          exact Multiset.mem_cons_of_mem hmem
    | freeElem i elem kzalloc =>
        obtain ⟨allocator, hfree, hsettled', hstored⟩ :=
          MagAllocator.magFreeElem_spec hsettled i (some elem) hcall
        simp only [allocatorRun, hfree, Option.map_some, Option.some.injEq] at hnext
        subst hnext
        refine ⟨hsettled', fun hmem => ?_⟩
        rw [hstored, Multiset.mem_cons] at hmem
        exact hmem.elim (fun hnone => by cases hnone) hnull

/-- A call returns the null pointer exactly when its own pair and the list of full
magazines are empty, and then at most seven elements are in each of the other
pairs. -/
theorem alloc_fails_when_little_left (mags : InitMags Cpu) (s : Run Cpu α)
    (hreach : (allocatorRun mags).ReachableUnder Allocates s)
    (hlength : s.allocator.fullList.length < 2 ^ 16) (i : Cpu × Context) :
    ∃ elem allocator, s.allocator.magAllocElem i = some (elem, allocator) ∧
      (elem = none ↔ (s.allocator.pcpPair i).held s.allocator.memory = 0 ∧
        s.allocator.fullList = []) ∧
      (elem = none →
        allocator.contents.card ≤ (2 * magDepth - 1) * (2 * Fintype.card Cpu - 1) ∧
        allocator.contents = ∑ k ∈ Finset.univ.erase i,
          (allocator.pcpPair k).held allocator.memory) := by
  obtain ⟨hsettled, hnull⟩ := settled_of_reachable hreach
  obtain ⟨elem, allocator, halloc, hnone, hsame⟩ :=
    MagAllocator.magAllocElem_eq_none_iff hsettled hnull i
  have hiff : elem = none ↔ (s.allocator.pcpPair i).held s.allocator.memory = 0 ∧
      s.allocator.fullList = [] := by
    rw [hnone, MagAllocator.fullCount_eq_zero_iff hsettled.toTidy hlength,
      ← (hsettled.front i).card_held s.allocator.memory, Multiset.card_eq_zero]
  refine ⟨elem, allocator, halloc, hiff, fun helem => ?_⟩
  obtain ⟨hempty, hlist⟩ := hiff.mp helem
  rw [hsame helem]
  exact ⟨MagAllocator.card_contents_le hsettled hlist hempty,
    MagAllocator.contents_of_empty hlist hempty⟩

/-- Seven elements are in one pair of two CPUs, and the other CPU gets none. -/
theorem alloc_fails_when_little_left_seven :
    ∃ s : Run Bool ℕ, s.freed.card = 7 ∧ s.returned = 0 ∧
      ∃ allocator, s.allocator.magAllocElem (true, .task) = some (none, allocator) ∧
        allocator.contents.card ≤ 21 := by
  obtain ⟨s, hreach, hs⟩ := Machine.exists_reachable_of_run
    (allocatorRun twoCpus : Machine (Run Bool ℕ) (ElemCall Bool ℕ)) Allocates
    ((List.range 7).map fun elem => .freeElem (false, .task) elem
      (BitVec.ofNat 64 (65536 + 64 * elem)))
    (fun s => (s.freed.card, s.returned, s.allocator.fullList.length,
      (s.allocator.magAllocElem (true, .task)).map Prod.fst)) (7, 0, 0, some none)
    (by decide +kernel)
  simp only [Prod.mk.injEq] at hs
  obtain ⟨hfreed, hreturned, hlength, hnull⟩ := hs
  obtain ⟨elem, allocator, halloc, -, hleft⟩ := alloc_fails_when_little_left twoCpus s hreach
    (hlength ▸ by decide) (true, .task)
  rw [halloc, Option.map_some, Option.some.injEq] at hnull
  subst hnull
  exact ⟨s, hfreed, hreturned, allocator, halloc, (hleft rfl).1⟩

end KtcpSplit.MagAlloc
