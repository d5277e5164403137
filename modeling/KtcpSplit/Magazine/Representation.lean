import KtcpSplit.Magazine.Memory
import Mathlib.Algebra.Order.BigOperators.Group.List
import Mathlib.Data.Multiset.OrderedMonoid

/-!
# The representation of the allocator

Counts, magazines and slots are kept in three places, and every magazine that was ever
allocated is in one of them.  Between two calls every pair has room for another element,
and a magazine in the full list is full.
-/

namespace KtcpSplit.MagAlloc

open KtcpSplit.Transition

variable {Cpu α : Type*} [Fintype Cpu] [DecidableEq Cpu]

/-! ## The magazines that are allocated -/

/-- A run with all magazines that were allocated. -/
structure Inventory (Cpu α : Type*) extends Run Cpu α where
  magazines : Multiset Addr

/-- The magazine that a call allocates. -/
def allocated (s : Run Cpu α) : ElemCall Cpu α → Multiset Addr
  | .allocElem _ => 0
  | .freeElem i elem kzalloc => if s.allocator.Asks i (some elem) then {kzalloc} else 0

/-- The allocator under a sequence of calls, with the magazines that it owns. -/
def allocatorInventory (mags : InitMags Cpu) :
    Machine (Inventory Cpu α) (ElemCall Cpu α) where
  init := ⟨(allocatorRun mags).init, ∑ i, {magArray (mags.mag i) 0, magArray (mags.mag i) 1}⟩
  next := fun s call =>
    ((allocatorRun mags).next s.toRun call).map fun run => {
      toRun := run
      magazines := allocated s.toRun call + s.magazines }

variable {mags : InitMags Cpu} {s : Inventory Cpu α} {call : ElemCall Cpu α}

/-- `kzalloc` returns memory, and none that is in use. -/
def Succeeds (s : Inventory Cpu α) (call : ElemCall Cpu α) : Prop :=
  Fresh s.toRun call ∧ Served s.toRun call

instance decidableSucceeds (s : Inventory Cpu α) (call : ElemCall Cpu α) :
    Decidable (Succeeds s call) :=
  inferInstanceAs (Decidable (_ ∧ _))

/-! ## The invariant -/

/-- What holds of the allocator and the magazines that it owns. -/
structure Representation (s : MagAllocator Cpu α) (magazines : Multiset Addr) : Prop where
  count_le : ∀ i idx, ((s.pcpPair i).count idx).toNat ≤ magDepth
  front : ∀ i, (s.pcpPair i).count 0 = 0 → (s.pcpPair i).count 1 = 0
  room : ∀ i, ((s.pcpPair i).count 0).toNat + ((s.pcpPair i).count 1).toNat < 2 * magDepth
  /-- The slots of the pairs and the two lists hold every magazine, and each once. -/
  places : s.places = magazines
  nodup : magazines.Nodup
  filled : ∀ mag ∈ s.fullList, ∀ slot ∈ (s.memory mag).stack, slot.isSome

omit [DecidableEq Cpu] in
theorem MagAllocator.Settled.room_lt {s : MagAllocator Cpu α} (hsettled : s.Settled)
    (i : Cpu × Context) :
    ((s.pcpPair i).count 0).toNat + ((s.pcpPair i).count 1).toNat < 2 * magDepth := by
  have h0 := (hsettled.front i).count_le 0
  have h1 := (hsettled.front i).count_le 1
  rcases hsettled.room i with hne | hne
  · have hlt := (hsettled.front i).lt_of_ne hne
    omega
  · have hlt := (hsettled.front i).lt_of_ne hne
    omega

omit [DecidableEq Cpu] in
/-- A magazine of the depot holds only what was freed. -/
theorem Kept.filled {s : Run Cpu α} (hkept : Kept s) {mag : Addr}
    (hmag : mag ∈ s.allocator.fullList) {slot : Option α}
    (hslot : slot ∈ (s.allocator.memory mag).stack) : slot.isSome := by
  have hfull : slot ∈ s.allocator.full := by
    have hstack : ((s.allocator.memory mag).stack : Multiset (Option α)) ≤ s.allocator.full :=
      List.le_sum_of_mem (List.mem_map_of_mem hmag)
    exact Multiset.mem_of_le hstack hslot
  rw [Option.isSome_iff_ne_none]
  rintro rfl
  exact hkept.none_notMem (Multiset.mem_add.mpr (.inr hfull))

omit [DecidableEq Cpu] in
theorem Kept.representation {s : Run Cpu α} (hkept : Kept s) :
    Representation s.allocator s.allocator.places where
  count_le := fun i => (hkept.settled.front i).count_le
  front := fun i => (hkept.settled.front i).front
  room := hkept.settled.room_lt
  places := rfl
  nodup := hkept.settled.nodup
  filled := fun _ hmag _ => hkept.filled hmag

/-! ## Runs -/

/-- A call adds the magazine that it allocates. -/
theorem places_of_next {run : Run Cpu α}
    (hnext : (allocatorRun mags).next s.toRun call = some run) :
    run.allocator.places = allocated s.toRun call + s.allocator.places := by
  cases call with
  | allocElem i =>
      obtain ⟨⟨elem, allocator⟩, halloc, rfl⟩ := Option.map_eq_some_iff.mp hnext
      have hplaces := MagAllocator.magAllocElem_places halloc
      rw [allocated, zero_add, ← hplaces]
      cases elem <;> rfl
  | freeElem i elem kzalloc =>
      obtain ⟨allocator, hfree, rfl⟩ := Option.map_eq_some_iff.mp hnext
      rcases MagAllocator.magFreeElem_places hfree with ⟨hnot, hplaces⟩ | ⟨hasks, hplaces⟩
      · rw [allocated, if_neg hnot, zero_add, ← hplaces]
      · rw [allocated, if_pos hasks, Multiset.singleton_add, ← hplaces]

theorem places_eq_magazines
    (hreach : (allocatorInventory mags).ReachableUnder Succeeds s) :
    s.allocator.places = s.magazines := by
  refine hreach.invariant (P := fun s => s.allocator.places = s.magazines) ?_ ?_
  · exact add_zero _
  · rintro before call after - hplaces - hnext
    obtain ⟨run, hrun, rfl⟩ := Option.map_eq_some_iff.mp hnext
    rw [places_of_next hrun, hplaces]

theorem kept_of_inventory (hmags : mags.Asserted)
    (hreach : (allocatorInventory mags).ReachableUnder Succeeds s) : Kept s.toRun := by
  refine hreach.invariant (P := fun s => Kept s.toRun) (Kept.init hmags) ?_
  rintro before call after - hkept hcall hnext
  obtain ⟨run, hrun, rfl⟩ := Option.map_eq_some_iff.mp hnext
  exact hkept.next hcall.1 hcall.2 hrun

/-- The invariant holds in every run, and no call fails an assertion or leaves a stack. -/
theorem representation_kept (mags : InitMags Cpu) (hmags : mags.Asserted) (s : Inventory Cpu α)
    (hreach : (allocatorInventory mags).ReachableUnder Succeeds s) :
    Representation s.allocator s.magazines ∧
      ∀ call, Succeeds s call → (allocatorInventory mags).next s call ≠ none := by
  have hkept := kept_of_inventory hmags hreach
  refine ⟨places_eq_magazines hreach ▸ hkept.representation, fun call hcall hnone => ?_⟩
  exact hkept.next_ne_none mags hcall.1 (Option.map_eq_none_iff.mp hnone)

/-- Twelve elements of one CPU need two more magazines, and a softirq of the other gets
one of the two that are full. -/
theorem representation_kept_depot :
    ∃ s : Inventory Bool ℕ, Representation s.allocator s.magazines ∧
      (s.magazines.card, s.allocator.fullList.length) = (10, 1) := by
  obtain ⟨s, hreach, hs⟩ := Machine.exists_reachable_of_run
    (allocatorInventory twoCpus : Machine (Inventory Bool ℕ) (ElemCall Bool ℕ)) Succeeds
    ((List.range 12).map (fun elem => .freeElem (false, .task) elem
        (BitVec.ofNat 64 (65536 + 64 * elem))) ++ [.allocElem (true, .softirq)])
    (fun s => (s.magazines.card, s.allocator.fullList.length)) (10, 1)
    (by decide +kernel)
  exact ⟨s, (representation_kept twoCpus (by decide) s hreach).1, hs⟩

end KtcpSplit.MagAlloc
