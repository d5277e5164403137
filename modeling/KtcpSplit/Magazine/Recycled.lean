import KtcpSplit.Magazine.Depot

/-!
# Magazines are recycled

No magazine is ever freed.  The depot asks for a new one only when all the magazines
that it has are full, and so it never has more than were full at one time.
-/

namespace KtcpSplit.MagAlloc

open KtcpSplit.Transition

variable {Cpu α : Type*}

/-- A run with its history: `mostFull` is the largest number of full magazines that the
depot has held, `obtained` counts the magazines that `kzalloc` returned to
`mag_allocator_switch_full`. -/
structure History (Cpu α : Type*) extends Run Cpu α where
  mostFull : ℕ
  obtained : ℕ

variable [DecidableEq Cpu]

/-- The call asks `kzalloc` for a magazine. -/
def Obtains (s : Run Cpu α) : ElemCall Cpu α → Prop
  | .allocElem _ => False
  | .freeElem i elem _ => s.allocator.Asks i (some elem)

instance decidableObtains (s : Run Cpu α) (call : ElemCall Cpu α) :
    Decidable (Obtains s call) :=
  match call with
  | .allocElem _ => inferInstanceAs (Decidable False)
  | .freeElem i elem _ => inferInstanceAs (Decidable (s.allocator.Asks i (some elem)))

/-- The allocator under a sequence of calls, with its history. -/
def allocatorHistory (mags : InitMags Cpu) :
    Machine (History Cpu α) (ElemCall Cpu α) where
  init := ⟨(allocatorRun mags).init, 0, 0⟩
  next := fun s call =>
    ((allocatorRun mags).next s.toRun call).map fun run => {
      toRun := run
      mostFull := max s.mostFull run.allocator.fullList.length
      obtained := if Obtains s.toRun call then s.obtained + 1 else s.obtained }

/-- Every magazine of the depot was full when the depot was fullest. -/
structure Recycled (s : History Cpu α) : Prop where
  counted : s.allocator.Counted
  mostFull : s.allocator.fullList.length + s.allocator.emptyList.length = s.mostFull
  obtained : s.obtained = s.mostFull

variable {mags : InitMags Cpu} {s s' : History Cpu α}

theorem Recycled.alloc (hrecycled : Recycled s) {i : Cpu × Context}
    (hnext : (allocatorHistory mags).next s (.allocElem i) = some s') : Recycled s' := by
  obtain ⟨run, hrun, rfl⟩ := Option.map_eq_some_iff.mp hnext
  obtain ⟨⟨elem, allocator⟩, halloc, heq⟩ := Option.map_eq_some_iff.mp hrun
  have hafter : run.allocator = allocator := by
    rw [← heq]
    cases elem <;> rfl
  obtain ⟨hcounted, hlists⟩ := hrecycled.counted.magAllocElem halloc
  have hsum := hrecycled.mostFull
  have htotal : allocator.fullList.length ≤ s.mostFull ∧
      allocator.fullList.length + allocator.emptyList.length = s.mostFull := by
    rcases hlists with ⟨-, hfull, hempty⟩ | ⟨-, hfull, hempty⟩
    · rw [hfull, hempty]
      omega
    · omega
  rw [← hafter] at hcounted htotal
  have hmost := max_eq_left htotal.1
  refine ⟨hcounted, ?_, ?_⟩
  · dsimp only
    rw [hmost]
    exact htotal.2
  · have hnot : ¬Obtains s.toRun (.allocElem i) := id
    dsimp only
    rw [hmost, if_neg hnot]
    exact hrecycled.obtained

/-- The list of empty magazines is used up before `kzalloc` is asked. -/
theorem Recycled.free (hrecycled : Recycled s) (hsmall : s.allocator.Small)
    {i : Cpu × Context} {elem : α} {kzalloc : Addr}
    (hnext : (allocatorHistory mags).next s (.freeElem i elem kzalloc) = some s') :
    Recycled s' := by
  obtain ⟨run, hrun, rfl⟩ := Option.map_eq_some_iff.mp hnext
  obtain ⟨allocator, hfree, rfl⟩ := Option.map_eq_some_iff.mp hrun
  obtain ⟨hcounted, hlists⟩ := hrecycled.counted.magFreeElem hfree
  have hasks := hrecycled.counted.asks_iff hfree
  have hsum := hrecycled.mostFull
  have hobtained := hrecycled.obtained
  rcases hlists with ⟨hne, hfull, hempty⟩ | ⟨hseven, hfull, hempty | hempty⟩
  · have hnot : ¬Obtains s.toRun (.freeElem i elem kzalloc) := fun h => hne (hasks.mp h).1
    refine ⟨hcounted, ?_, ?_⟩
    · dsimp only
      rw [hfull, hempty]
      omega
    · dsimp only
      rw [if_neg hnot, hfull]
      omega
  · have hnot : ¬Obtains s.toRun (.freeElem i elem kzalloc) :=
      fun h => hempty.1 (hasks.mp h).2
    refine ⟨hcounted, ?_, ?_⟩
    · dsimp only
      omega
    · dsimp only
      rw [if_neg hnot]
      omega
  · -- no empty magazine is left, and so all of them are full
    have hobtains : Obtains s.toRun (.freeElem i elem kzalloc) :=
      hasks.mpr ⟨hseven, hempty.1⟩
    have hnil : s.allocator.emptyList = [] := by
      by_contra hne
      exact (MagAllocator.count_ne_zero_iff hrecycled.counted.emptyCount
        hsmall.empty).mpr hne hempty.1
    rw [hnil, List.length_nil, Nat.add_zero] at hsum
    refine ⟨hcounted, ?_, ?_⟩
    · dsimp only
      rw [hempty.2, hnil, List.length_nil]
      omega
    · dsimp only
      rw [if_pos hobtains]
      omega

/-- In a run in which `kzalloc` succeeds and no list of the depot holds `2 ^ 16` magazines the
depot has as many magazines as were obtained, and as many as were full at one time. -/
theorem magazines_recycled [Fintype Cpu] (mags : InitMags Cpu) (s : History Cpu α)
    (hreach : (allocatorHistory mags).ReachableUnder
      (fun s call => Allocates s.toRun call ∧ s.allocator.Small) s) :
    s.allocator.fullList.length + s.allocator.emptyList.length = s.obtained ∧
      s.obtained = s.mostFull := by
  have hrecycled : Recycled s := by
    refine hreach.invariant (P := Recycled) ⟨MagAllocator.counted_init mags, rfl, rfl⟩ ?_
    rintro before call after - hrecycled ⟨-, hsmall⟩ hnext
    cases call with
    | allocElem i => exact hrecycled.alloc hnext
    | freeElem i elem kzalloc => exact hrecycled.free hsmall hnext
  exact ⟨hrecycled.mostFull.trans hrecycled.obtained.symm, hrecycled.obtained⟩

/-- Two magazines were full, and one of them is empty again. -/
theorem magazines_recycled_twelve :
    ∃ s : History Bool ℕ, (s.allocator.fullList.length, s.mostFull) = (1, 2) ∧
      s.allocator.fullList.length + s.allocator.emptyList.length = s.obtained ∧
      s.obtained = s.mostFull := by
  obtain ⟨s, hreach, hs⟩ := Machine.exists_reachable_of_run
    (allocatorHistory twoCpus : Machine (History Bool ℕ) (ElemCall Bool ℕ))
    (fun s call => Allocates s.toRun call ∧ s.allocator.Small)
    ((List.range 12).map (fun elem => .freeElem (false, .task) elem
        (BitVec.ofNat 64 (65536 + 64 * elem))) ++ [.allocElem (true, .task)])
    (fun s => (s.allocator.fullList.length, s.mostFull)) (1, 2) (by decide +kernel)
  exact ⟨s, hs, magazines_recycled twoCpus s hreach⟩

end KtcpSplit.MagAlloc
