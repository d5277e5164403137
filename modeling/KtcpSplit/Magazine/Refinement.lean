import KtcpSplit.Magazine.Calls

/-!
# The magazine allocator refines a bag

A run is a sequence of calls on any CPU in either context, starting from
`mag_allocator_init`.
-/

namespace KtcpSplit.MagAlloc

open KtcpSplit.Bag
open KtcpSplit.Transition

variable {Cpu α : Type*}

/-- A call in a context of a CPU; `kzalloc` is the memory a call gets if it asks
for a magazine. -/
inductive ElemCall (Cpu α : Type*)
  | allocElem (i : Cpu × Context)
  | freeElem (i : Cpu × Context) (elem : α) (kzalloc : Addr)

/-- The allocator and its history. -/
structure Run (Cpu α : Type*) where
  allocator : MagAllocator Cpu α
  freed : Multiset α
  returned : Multiset α

def Run.after (s : Run Cpu α) (elem : Option α) (allocator : MagAllocator Cpu α) :
    Run Cpu α :=
  match elem with
  | none => { s with allocator := allocator }
  | some elem => { s with allocator := allocator, returned := elem ::ₘ s.returned }

/-- The allocator under a sequence of calls. -/
def allocatorRun [DecidableEq Cpu] (mags : InitMags Cpu) :
    Machine (Run Cpu α) (ElemCall Cpu α) where
  init := ⟨magAllocatorInit mags, 0, 0⟩
  next := fun s call =>
    match call with
    | .allocElem i =>
        (s.allocator.magAllocElem i).map fun (elem, allocator) =>
          s.after elem allocator
    | .freeElem i elem kzalloc =>
        (s.allocator.magFreeElem i (some elem) kzalloc).map fun allocator =>
          { s with allocator := allocator, freed := elem ::ₘ s.freed }

variable [Fintype Cpu]

/-- No element is freed while it is inside, and `kzalloc` returns memory that is
not a magazine. -/
def Permitted (s : Run Cpu α) : ElemCall Cpu α → Prop
  | .allocElem _ => True
  | .freeElem _ elem kzalloc =>
      some elem ∉ s.allocator.contents ∧
        (s.allocator.emptyCount = 0 → kzalloc ∉ s.allocator.places)

namespace MagAllocator

theorem settled_init (mags : InitMags Cpu) :
    (magAllocatorInit mags : MagAllocator Cpu α).Settled where
  nodup := by
    let place : (Cpu × Context) × Fin 2 → Addr := fun place =>
      magArray (mags.mag place.1) place.2
    have hplaces : (magAllocatorInit mags : MagAllocator Cpu α).places =
        Finset.univ.val.map place := by
      calc
        (magAllocatorInit mags : MagAllocator Cpu α).places =
            ∑ i, ({place (i, 0)} + {place (i, 1)}) + 0 := rfl
        _ = ∑ i, ∑ idx, {place (i, idx)} := by
            simp only [add_zero, Fin.sum_univ_two]
        _ = ∑ p, {place p} := (Fintype.sum_prod_type fun p => {place p}).symm
        _ = ((Finset.univ.val.map place).map fun mag => {mag}).sum := by
            rw [Multiset.map_map]
            rfl
        _ = Finset.univ.val.map place := Multiset.sum_map_singleton _
    rw [hplaces]
    exact Finset.univ.nodup.map mags.disjoint
  front := fun _ => ⟨fun _ => Nat.zero_le _, fun _ => rfl⟩
  emptyCount := rfl
  fullCount := rfl
  room := fun _ => .inl (by decide : (0 : BitVec 32) ≠ magDepth)

theorem contents_init (mags : InitMags Cpu) :
    (magAllocatorInit mags : MagAllocator Cpu α).contents = 0 := by
  have hheld : ∀ i, ((magAllocatorInit mags : MagAllocator Cpu α).pcpPair i).held
      (magAllocatorInit mags : MagAllocator Cpu α).memory = 0 := fun _ => rfl
  rw [contents, Finset.sum_congr rfl fun i _ => hheld i, Finset.sum_const_zero]
  rfl

end MagAllocator

/-- The allocator holds what the bag holds. -/
structure Refines (s : Run Cpu α) (ledger : Ledger α) : Prop where
  settled : s.allocator.Settled
  contents : s.allocator.contents = ledger.held.map some
  freed : s.freed = ledger.freed
  returned : s.returned = ledger.returned

variable [DecidableEq Cpu] [DecidableEq α]

/-- Every call that is permitted returns, and the bag makes the same call. -/
theorem Refines.step (mags : InitMags Cpu) {s : Run Cpu α} {ledger : Ledger α}
    (hrefines : Refines s ledger) {call : ElemCall Cpu α} (hcall : Permitted s call) :
    ∃ s', (allocatorRun mags).next s call = some s' ∧
      ∃ label ledger', NotInside ledger label ∧
        bag.next ledger label = some ledger' ∧ Refines s' ledger' := by
  cases call with
  | allocElem i =>
      obtain ⟨elem, allocator, halloc, hsettled, htaken⟩ :=
        MagAllocator.magAllocElem_spec hrefines.settled i
      refine ⟨s.after elem allocator, by simp only [allocatorRun, halloc]; rfl, ?_⟩
      rcases htaken with ⟨rfl, hsame⟩ | htaken
      · exact ⟨.fail, ledger, trivial, rfl, hsettled, hsame.trans hrefines.contents,
          hrefines.freed, hrefines.returned⟩
      · rw [hrefines.contents] at htaken
        have hmem : elem ∈ ledger.held.map some := by
          rw [htaken]
          exact Multiset.mem_cons_self _ _
        obtain ⟨e, he, rfl⟩ := Multiset.mem_map.mp hmem
        refine ⟨.take e, _, trivial, if_pos he, hsettled, ?_, hrefines.freed, ?_⟩
        · rw [← Multiset.cons_erase he, Multiset.map_cons] at htaken
          exact ((Multiset.cons_inj_right _).mp htaken).symm
        · exact congrArg (e ::ₘ ·) hrefines.returned
  | freeElem i elem kzalloc =>
      obtain ⟨houtside, hfresh⟩ := hcall
      obtain ⟨allocator, hfree, hsettled, hstored⟩ :=
        MagAllocator.magFreeElem_spec hrefines.settled i (some elem) hfresh
      refine ⟨⟨allocator, elem ::ₘ s.freed, s.returned⟩,
        by simp only [allocatorRun, hfree]; rfl, .put elem, _, ?_, rfl, hsettled, ?_, ?_,
        hrefines.returned⟩
      · intro hinside
        apply houtside
        rw [hrefines.contents]
        exact Multiset.mem_map_of_mem some hinside
      · rw [hstored, hrefines.contents, Multiset.map_cons]
      · exact congrArg (elem ::ₘ ·) hrefines.freed

theorem exists_ledger {mags : InitMags Cpu} {s : Run Cpu α}
    (hreach : (allocatorRun mags).ReachableUnder Permitted s) :
    ∃ ledger, bag.ReachableUnder NotInside ledger ∧ Refines s ledger := by
  apply hreach.simulate Refines
  case hinit =>
    exact ⟨MagAllocator.settled_init mags, MagAllocator.contents_init mags, rfl, rfl⟩
  case hstep =>
    intro before call after ledger _ hrefines hcall hnext
    obtain ⟨s', hs', hstep⟩ := Refines.step mags hrefines hcall
    rw [hnext, Option.some.injEq] at hs'
    exact hs' ▸ hstep

/-- The magazines hold what was freed and not returned since, no element twice,
and every permitted call returns. -/
theorem mag_allocator_refines_bag (mags : InitMags Cpu) (s : Run Cpu α)
    (hreach : (allocatorRun mags).ReachableUnder Permitted s) :
    s.allocator.contents = (s.freed - s.returned).map some ∧
      s.returned ≤ s.freed ∧ (s.freed - s.returned).Nodup ∧
      ∀ call, Permitted s call → (allocatorRun mags).next s call ≠ none := by
  obtain ⟨ledger, hledger, hrefines⟩ := exists_ledger hreach
  have hheld : ledger.held = s.freed - s.returned := by
    rw [hrefines.freed, hrefines.returned]
    exact held_eq_sub hledger.reachable
  refine ⟨?_, ?_, ?_, ?_⟩
  · rw [← hheld]
    exact hrefines.contents
  · rw [hrefines.freed, hrefines.returned]
    exact returned_le_freed hledger.reachable
  · rw [← hheld]
    exact held_nodup hledger
  · intro call hcall hnone
    obtain ⟨s', hs', -⟩ := Refines.step mags hrefines hcall
    rw [hnone] at hs'
    cases hs'

instance decidablePermitted (s : Run Cpu α) (call : ElemCall Cpu α) :
    Decidable (Permitted s call) :=
  match call with
  | .allocElem _ => inferInstanceAs (Decidable True)
  | .freeElem _ _ _ => inferInstanceAs (Decidable (_ ∧ (_ → _)))

/-- Two CPUs, with the pairs of magazines 256 bytes apart. -/
def twoCpus : InitMags Bool where
  mag := fun i => BitVec.ofNat 64 (4096 + 512 * i.1.toNat + if i.2 = .task then 0 else 256)
  disjoint := by decide

/-- Nine tasks return their elements to one CPU, and a softirq of the other gets
one through the depot. -/
theorem mag_allocator_refines_bag_depot :
    ∃ s : Run Bool ℕ, s.allocator.contents = (s.freed - s.returned).map some ∧
      (s.freed, s.returned) = ({0, 1, 2, 3, 4, 5, 6, 7, 8}, {7}) := by
  obtain ⟨s, hreach, hs⟩ := Machine.exists_reachable_of_run
    (allocatorRun twoCpus : Machine (Run Bool ℕ) (ElemCall Bool ℕ)) Permitted
    ((List.range 9).map (fun elem => .freeElem (false, .task) elem
        (BitVec.ofNat 64 (65536 + 64 * elem))) ++ [.allocElem (true, .softirq)])
    (fun s => (s.freed, s.returned)) ({0, 1, 2, 3, 4, 5, 6, 7, 8}, {7})
    (by decide +kernel)
  exact ⟨s, (mag_allocator_refines_bag twoCpus s hreach).1, hs⟩

end KtcpSplit.MagAlloc
