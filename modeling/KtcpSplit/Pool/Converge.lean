import KtcpSplit.Magazine.Stranded
import KtcpSplit.Pool.Refill

/-!
# Repeated refills of an idle pool

`refill_pool` sees the depot and not the elements of its own pair, so that one call
adds too few.  Each call that does leaves more elements in the pair than the one
before, and a pair has room for seven.
-/

namespace KtcpSplit.Refill

open KtcpSplit.MagAlloc
open KtcpSplit.Transition

/-- What one round of `refill_pool` gets: an element with its thread, and the memory
that `mag_free_elem` gets if it asks for a magazine. -/
structure Round (α : Type*) where
  elem : α
  kzalloc : Addr

variable {Cpu α : Type*} [DecidableEq Cpu]

/-- `while (count--)`. -/
def refillLoop (i : Cpu × Context) (supply : ℕ → Round α) :
    ℕ → MagAllocator Cpu α → Option (MagAllocator Cpu α)
  | 0, s => some s
  | count + 1, s =>
      (s.magFreeElem i (some (supply count).elem) (supply count).kzalloc).bind
        (refillLoop i supply count)

/-- A call in which every allocation and `kthread_create` succeed. -/
def refillPool (poolSize : ℤ) (i : Cpu × Context) (supply : ℕ → Round α)
    (s : MagAllocator Cpu α) : Option (MagAllocator Cpu α) :=
  refillLoop i supply (missing poolSize s.fullCount) s

/-- `calls` and `created` count the calls of `refill_pool` and the threads they created. -/
structure Idle (Cpu α : Type*) where
  allocator : MagAllocator Cpu α
  calls : ℕ
  created : ℕ

/-- A pool in which only the refill thread is active, on one CPU. -/
def idlePool (poolSize : ℤ) (cpu : Cpu) (allocator : MagAllocator Cpu α) :
    Machine (Idle Cpu α) (ℕ → Round α) where
  init := ⟨allocator, 0, 0⟩
  next := fun s supply =>
    (refillPool poolSize (cpu, .task) supply s.allocator).map fun allocator => {
      allocator := allocator
      calls := s.calls + 1
      created := s.created + missing poolSize s.allocator.fullCount }

variable [Fintype Cpu]

/-- In every round `kzalloc` returns memory that is not a magazine. -/
def SuppliedLoop (i : Cpu × Context) (supply : ℕ → Round α) :
    ℕ → MagAllocator Cpu α → Prop
  | 0, _ => True
  | count + 1, s =>
      (s.emptyCount = 0 → (supply count).kzalloc ∉ s.places) ∧
        ∀ s' ∈ s.magFreeElem i (some (supply count).elem) (supply count).kzalloc,
          SuppliedLoop i supply count s'

def Supplied (poolSize : ℤ) (cpu : Cpu) (s : Idle Cpu α) (supply : ℕ → Round α) : Prop :=
  SuppliedLoop (cpu, .task) supply (missing poolSize s.allocator.fullCount) s.allocator

instance decidableSuppliedLoop (i : Cpu × Context) (supply : ℕ → Round α) :
    ∀ (count : ℕ) (s : MagAllocator Cpu α), Decidable (SuppliedLoop i supply count s)
  | 0, _ => inferInstanceAs (Decidable True)
  | count + 1, _ =>
      let _ := decidableSuppliedLoop i supply count
      inferInstanceAs (Decidable ((_ → _) ∧ ∀ s' ∈ _, SuppliedLoop i supply count s'))

instance decidableSupplied (poolSize : ℤ) (cpu : Cpu) (s : Idle Cpu α)
    (supply : ℕ → Round α) : Decidable (Supplied poolSize cpu s supply) :=
  decidableSuppliedLoop (cpu, .task) supply _ s.allocator

/-! ## One call -/

/-- The elements of the depot and of the pair that is filled. -/
def amount (i : Cpu × Context) (s : MagAllocator Cpu α) : ℕ :=
  4 * s.fullCount.toNat + (s.pcpPair i).load

/-- Every round adds one element, and a magazine goes to the depot from a pair that keeps
four. -/
theorem refillLoop_spec {i : Cpu × Context} {supply : ℕ → Round α} {count : ℕ}
    {s : MagAllocator Cpu α} (hsettled : s.Settled) (hsupplied : SuppliedLoop i supply count s)
    (hbound : amount i s + count ≤ 4 * (2 ^ 16 - 1) + 7) :
    ∃ s', refillLoop i supply count s = some s' ∧ s'.Settled ∧
      amount i s' = amount i s + count ∧
      (s'.fullCount = s.fullCount ∨ 4 ≤ (s'.pcpPair i).load) := by
  induction count generalizing s with
  | zero => exact ⟨s, rfl, hsettled, rfl, .inl rfl⟩
  | succ count ih =>
      obtain ⟨hfresh, hrest⟩ := hsupplied
      obtain ⟨s₁, hfree, hsettled₁, -⟩ := MagAllocator.magFreeElem_spec hsettled i
        (some (supply count).elem) hfresh
      have hload := (MagAllocator.magFreeElem_load (hsettled.front i) hfree).2
      have hadded : amount i s₁ = amount i s + 1 ∧
          (s₁.fullCount = s.fullCount ∨ (s₁.pcpPair i).load = 4) := by
        rw [amount] at hbound
        rw [amount, amount]
        rcases hload with ⟨hload, hfull⟩ | ⟨hseven, hfour, hfull⟩
        · rw [hload, hfull]
          exact ⟨rfl, .inl rfl⟩
        · -- `full_count` does not wrap, as the magazine leaves four elements behind
          have hcount : s₁.fullCount.toNat = s.fullCount.toNat + 1 := by
            rw [hfull]
            bv_omega
          exact ⟨by omega, .inr hfour⟩
      obtain ⟨s', hloop, hsettled', hamount, hleft⟩ :=
        ih hsettled₁ (hrest s₁ hfree) (by omega)
      refine ⟨s', ?_, hsettled', by omega, ?_⟩
      · rw [refillLoop, hfree]
        exact hloop
      · rcases hleft with hsame | hfour
        · rcases hadded.2 with hsame₁ | hfour₁
          · exact .inl (hsame.trans hsame₁)
          · rw [amount, amount, hsame] at hamount
            exact .inr (by omega)
        · exact .inr hfour

/-! ## Runs -/

/-- What the calls have added since the state `s₀`: nothing, or all that was missing and at
most seven more.  As long as the depot is too small every call has left at least one more
element in the pair. -/
structure Converging (poolSize : ℤ) (i : Cpu × Context) (s₀ : MagAllocator Cpu α)
    (s : Idle Cpu α) : Prop where
  settled : s.allocator.Settled
  total : amount i s.allocator = amount i s₀ + s.created
  most : s.created = 0 ∨ amount i s.allocator ≤ poolSize + 7
  pair : poolSize ≤ 4 * s.allocator.fullCount.toNat ∨
    (s₀.pcpPair i).load + s.calls ≤ (s.allocator.pcpPair i).load

variable {poolSize : ℤ} {cpu : Cpu} {s₀ : MagAllocator Cpu α} {s : Idle Cpu α}

omit [DecidableEq Cpu] [Fintype Cpu] in
theorem missing_eq (poolSize : ℤ) (fullCount : BitVec 16) :
    missing poolSize fullCount = (poolSize - 4 * fullCount.toNat).toNat := by
  rw [missing, Nat.shiftLeft_eq]
  omega

theorem Converging.next (hconverging : Converging poolSize (cpu, .task) s₀ s)
    (hsize : poolSize ≤ 4 * (2 ^ 16 - 1)) {supply : ℕ → Round α}
    (hsupplied : Supplied poolSize cpu s supply) :
    ∃ s', (idlePool poolSize cpu s₀).next s supply = some s' ∧
      Converging poolSize (cpu, .task) s₀ s' := by
  have hseven := (hconverging.settled.front _).load_lt (hconverging.settled.room (cpu, .task))
  have htotal := hconverging.total
  have hmost := hconverging.most
  have hmissing := missing_eq poolSize s.allocator.fullCount
  by_cases henough : poolSize ≤ 4 * s.allocator.fullCount.toNat
  · -- the call adds nothing
    have hnone : missing poolSize s.allocator.fullCount = 0 := by omega
    refine ⟨⟨s.allocator, s.calls + 1, s.created⟩, ?_, hconverging.settled, htotal, hmost,
      .inl henough⟩
    simp only [idlePool, refillPool, hnone, refillLoop, Option.map_some, Nat.add_zero]
  · have hadded : (amount (cpu, .task) s.allocator : ℤ) +
        missing poolSize s.allocator.fullCount =
        poolSize + (s.allocator.pcpPair (cpu, .task)).load := by
      rw [amount]
      omega
    obtain ⟨allocator, hloop, hsettled, hamount, -⟩ := refillLoop_spec hconverging.settled
      hsupplied (by omega)
    refine ⟨_, by simp only [idlePool, refillPool, hloop]; rfl, hsettled, by dsimp only; omega,
      .inr (by dsimp only; omega), ?_⟩
    have hpair := hconverging.pair.resolve_left henough
    rw [amount] at hamount
    dsimp only
    omega

/-- From every state of the allocator the calls of `refill_pool` end with one that creates no
thread after eight at most, the depot alone is as large as the pool then, and the elements
that are too many are seven at most. -/
theorem refill_converges (mags : InitMags Cpu) (poolSize : ℤ)
    (hsize : poolSize ≤ 4 * (2 ^ 16 - 1)) (cpu : Cpu) (run : Run Cpu α)
    (hrun : (allocatorRun mags).ReachableUnder Allocates run) (s : Idle Cpu α)
    (hreach : (idlePool poolSize cpu run.allocator).ReachableUnder
      (Supplied poolSize cpu) s) :
    (8 ≤ s.calls → missing poolSize s.allocator.fullCount = 0) ∧
      (missing poolSize s.allocator.fullCount = 0 →
        poolSize ≤ 4 * s.allocator.fullCount.toNat) ∧
      (s.created : ℤ) ≤ max 0 (poolSize + 7 - (4 * run.allocator.fullCount.toNat +
        (run.allocator.pcpPair (cpu, .task)).load)) ∧
      ∀ supply, Supplied poolSize cpu s supply →
        (idlePool poolSize cpu run.allocator).next s supply ≠ none := by
  have hconverging : Converging poolSize (cpu, .task) run.allocator s := by
    refine hreach.invariant (P := Converging poolSize (cpu, .task) run.allocator) ?_ ?_
    · exact ⟨(settled_of_reachable hrun).1, rfl, .inl rfl, .inr le_rfl⟩
    · intro before supply after _ hconverging hsupplied hnext
      obtain ⟨s', hs', hconverging'⟩ := hconverging.next hsize hsupplied
      rw [hnext, Option.some.injEq] at hs'
      exact hs' ▸ hconverging'
  have hmissing := missing_eq poolSize s.allocator.fullCount
  refine ⟨fun hcalls => ?_, fun hnone => ?_, ?_, fun supply hsupplied => ?_⟩
  · have hseven := (hconverging.settled.front _).load_lt
      (hconverging.settled.room (cpu, .task))
    have hpair := hconverging.pair
    omega
  · omega
  · have htotal := hconverging.total
    have hmost := hconverging.most
    unfold amount at htotal hmost
    omega
  · obtain ⟨s', hs', -⟩ := hconverging.next hsize hsupplied
    rw [hs']
    exact Option.some_ne_none s'

/-- Eight elements are missing, the first call leaves four of them in the pair, and the second
adds four more. -/
theorem refill_converges_twice :
    ∃ s : Idle Bool ℕ, (s.calls, s.created) = (3, 12) ∧
      (s.created : ℤ) ≤ max 0 ((8 : ℤ) + 7) := by
  let supply (n : ℕ) : ℕ → Round ℕ := fun count =>
    ⟨count, BitVec.ofNat 64 (65536 + 1024 * n + 64 * count)⟩
  obtain ⟨s, hreach, hs⟩ := Machine.exists_reachable_of_run
    (idlePool 8 false (magAllocatorInit twoCpus : MagAllocator Bool ℕ))
    (Supplied 8 false) [supply 0, supply 1, supply 2] (fun s => (s.calls, s.created)) (3, 12)
    (by decide +kernel)
  exact ⟨s, hs, (refill_converges twoCpus 8 (by decide) false
    (allocatorRun twoCpus : Machine (Run Bool ℕ) (ElemCall Bool ℕ)).init .init s hreach).2.2.1⟩

end KtcpSplit.Refill
