import KtcpSplit.Magazine.Calls

/-!
# How much a call moves

The number of elements in a pair and the number of full magazines in the depot,
before and after a call.
-/

namespace KtcpSplit.MagAlloc

variable {Cpu α : Type*}

/-- The elements in a pair. -/
def MagPair.load (pair : MagPair) : ℕ := (pair.count 0).toNat + (pair.count 1).toNat

theorem MagPair.Front.load_le {pair : MagPair} (hfront : pair.Front) : pair.load ≤ 8 :=
  Nat.add_le_add (hfront.count_le 0) (hfront.count_le 1)

theorem MagPair.Front.magPairCount_toNat {pair : MagPair} (hfront : pair.Front) :
    (magPairCount pair).toNat = pair.load := by
  have hle := hfront.load_le
  rw [magPairCount, BitVec.toNat_add]
  apply Nat.mod_eq_of_lt
  change pair.load < 2 ^ 32
  omega

theorem MagPair.Front.load_lt {pair : MagPair} (hfront : pair.Front) (hroom : pair.Room) :
    pair.load ≤ 7 := by
  have h0 := hfront.count_le 0
  have h1 := hfront.count_le 1
  rw [MagPair.load]
  simp only [magDepth] at h0 h1
  rcases hroom with hne | hne
  · have hlt := hfront.lt_of_ne hne
    simp only [magDepth] at hlt
    omega
  · have hlt := hfront.lt_of_ne hne
    simp only [magDepth] at hlt
    omega

/-- The count of one magazine is replaced. -/
theorem MagPair.load_update (pair : MagPair) (idx : Fin 2) (ptr : Fin 2 → Addr)
    (count : BitVec 32) :
    (MagPair.mk ptr (Function.update pair.count idx count)).load +
      (pair.count idx).toNat = pair.load + count.toNat := by
  match idx with
  | 0 =>
      change count.toNat + (pair.count 1).toNat + (pair.count 0).toNat =
        (pair.count 0).toNat + (pair.count 1).toNat + count.toNat
      omega
  | 1 =>
      change (pair.count 0).toNat + count.toNat + (pair.count 1).toNat =
        (pair.count 0).toNat + (pair.count 1).toNat + count.toNat
      omega

namespace MagAllocator

variable [DecidableEq Cpu] {s s' : MagAllocator Cpu α} {i : Cpu × Context}
  {elem : Option α} {kzalloc : Addr}

/-- Only the pair `i` may have changed. -/
def OthersKept (s s' : MagAllocator Cpu α) (i : Cpu × Context) : Prop :=
  ∀ k, k ≠ i → s'.pcpPair k = s.pcpPair k

theorem magPairFree_load (hfree : s.magPairFree i elem = some s') :
    (s'.pcpPair i).load = (s.pcpPair i).load + 1 ∧ s'.fullCount = s.fullCount ∧
      OthersKept s s' i := by
  simp only [magPairFree] at hfree
  generalize (if (s.pcpPair i).count 0 = magDepth then (1 : Fin 2) else 0) = idx at hfree
  obtain ⟨-, hfree⟩ := Option.ite_none_right_eq_some.mp hfree
  obtain ⟨hlt, hfree⟩ := Option.ite_none_right_eq_some.mp hfree
  cases hfree
  refine ⟨?_, rfl, fun k hk => Function.update_of_ne hk _ _⟩
  dsimp only
  rw [Function.update_self]
  have hload := (s.pcpPair i).load_update idx (s.pcpPair i).magPtr
    ((s.pcpPair i).count idx + 1)
  have hcount : ((s.pcpPair i).count idx + 1).toNat = ((s.pcpPair i).count idx).toNat + 1 := by
    simp only [magDepth] at hlt
    bv_omega
  omega

theorem magAllocatorSwitchFull_load (hswitch : s.magAllocatorSwitchFull i kzalloc = some s') :
    (s'.pcpPair i).load + magDepth = (s.pcpPair i).load ∧ s'.fullCount = s.fullCount + 1 ∧
      OthersKept s s' i := by
  simp only [magAllocatorSwitchFull] at hswitch
  generalize (if (s.pcpPair i).count 1 = magDepth then (1 : Fin 2) else 0) = idx at hswitch
  obtain ⟨hfull, hswitch⟩ := Option.ite_none_right_eq_some.mp hswitch
  have hload : ∀ mag, (MagPair.mk (Function.update (s.pcpPair i).magPtr idx mag)
      (Function.update (s.pcpPair i).count idx 0)).load + magDepth = (s.pcpPair i).load := by
    intro mag
    have hupdate := (s.pcpPair i).load_update idx
      (Function.update (s.pcpPair i).magPtr idx mag) 0
    rw [hfull, toNat_magDepth] at hupdate
    exact hupdate
  have hkept : ∀ pair : MagPair, ∀ k, k ≠ i →
      Function.update s.pcpPair i pair k = s.pcpPair k :=
    fun pair k hk => Function.update_of_ne hk _ _
  split at hswitch
  · split at hswitch
    · cases hswitch
    · cases hswitch
      refine ⟨?_, rfl, hkept _⟩
      dsimp only [setPair]
      rw [Function.update_self]
      exact hload _
  · cases hswitch
    refine ⟨?_, rfl, hkept _⟩
    dsimp only [setPair]
    rw [Function.update_self]
    exact hload _

/-- A free adds one element to its pair, or the second of two full magazines goes to
the depot. -/
theorem magFreeElem_load (hfront : (s.pcpPair i).Front)
    (hfree : s.magFreeElem i elem kzalloc = some s') :
    OthersKept s s' i ∧
      ((s'.pcpPair i).load = (s.pcpPair i).load + 1 ∧ s'.fullCount = s.fullCount ∨
        (s.pcpPair i).load = 7 ∧ (s'.pcpPair i).load = 4 ∧
          s'.fullCount = s.fullCount + 1) := by
  obtain ⟨s₁, hpair, hrest⟩ := Option.bind_eq_some_iff.mp hfree
  obtain ⟨hload, hcount, hkept⟩ := magPairFree_load hpair
  split at hrest
  · rename_i hfull
    obtain ⟨hload', hcount', hkept'⟩ := magAllocatorSwitchFull_load hrest
    have hseven : (s.pcpPair i).load = 7 := by
      have hle := hfront.load_le
      have htotal := congrArg BitVec.toNat hfull
      rw [magPairCount, BitVec.toNat_add] at htotal
      change (s₁.pcpPair i).load % 2 ^ 32 = 8 at htotal
      omega
    rw [hload, hseven, magDepth] at hload'
    refine ⟨fun k hk => (hkept' k hk).trans (hkept k hk), .inr ⟨hseven, ?_, ?_⟩⟩
    · omega
    · rw [hcount', hcount]
  · cases hrest
    exact ⟨hkept, .inl ⟨hload, hcount⟩⟩

/-- Taking from a pair takes one element of it, if there is one. -/
theorem magPairAlloc_load {memory : Addr → Magazine α} {pair pair' : MagPair}
    (halloc : magPairAlloc memory pair = some (elem, pair')) :
    pair' = pair ∧ pair.count 0 = 0 ∨ pair'.load + 1 = pair.load := by
  unfold magPairAlloc at halloc
  split at halloc
  · rename_i hzero
    cases halloc
    exact .inl ⟨rfl, hzero⟩
  · rename_i hne
    right
    obtain ⟨_, -, heq⟩ := Option.map_eq_some_iff.mp halloc
    have hdecremented : pair.decremented.load + 1 = pair.load := by
      have hload := pair.load_update 0 pair.magPtr (pair.count 0 - 1)
      have hcount : (pair.count 0 - 1).toNat + 1 = (pair.count 0).toNat := by bv_omega
      change (MagPair.mk _ _).load + 1 = pair.load
      omega
    have hswap : (swapMags pair.decremented).load = pair.decremented.load := by
      simp only [swapMags, xorAssign_swap, MagPair.load]
      exact Nat.add_comm _ _
    have hpair : pair' = if pair.decremented.count 0 = 0 then swapMags pair.decremented
        else pair.decremented := (Prod.mk.inj heq).2.symm
    rw [hpair]
    split
    · rw [hswap, hdecremented]
    · exact hdecremented

theorem magAllocatorSwitchEmpty_load (hzero : (s.pcpPair i).load = 0)
    (hswitch : s.magAllocatorSwitchEmpty i = some s') :
    OthersKept s s' i ∧ (s' = s ∧ s.fullCount = 0 ∨
      (s'.pcpPair i).load = magDepth ∧ s.fullCount ≠ 0 ∧
        s'.fullCount = s.fullCount - 1) := by
  simp only [magAllocatorSwitchEmpty] at hswitch
  generalize (if (s.pcpPair i).count 0 ≠ 0 then (1 : Fin 2) else 0) = idx at hswitch
  split at hswitch
  · rename_i hcount
    split at hswitch
    · cases hswitch
    · rename_i mag rest hlist
      cases hswitch
      refine ⟨fun k hk => Function.update_of_ne hk _ _, .inr ⟨?_, hcount, rfl⟩⟩
      dsimp only [setPair]
      rw [Function.update_self]
      have hload := (s.pcpPair i).load_update idx
        (Function.update (s.pcpPair i).magPtr idx mag) magDepth
      rw [toNat_magDepth] at hload
      have hpart : ((s.pcpPair i).count idx).toNat ≤ (s.pcpPair i).load := by
        rcases (by omega : idx = 0 ∨ idx = 1) with rfl | rfl
        · exact Nat.le_add_right _ _
        · exact Nat.le_add_left _ _
      omega
  · rename_i hcount
    cases hswitch
    exact ⟨fun _ _ => rfl, .inl ⟨rfl, not_not.mp hcount⟩⟩

/-- What a call of `mag_alloc_elem` takes: an element of the pair, or a magazine of
the depot for an empty pair, or nothing. -/
theorem magAllocElem_load (hfront : (s.pcpPair i).Front)
    (halloc : s.magAllocElem i = some (elem, s')) :
    OthersKept s s' i ∧
      (0 < (s.pcpPair i).load ∧ (s'.pcpPair i).load + 1 = (s.pcpPair i).load ∧
          s'.fullCount = s.fullCount ∨
        (s.pcpPair i).load = 0 ∧ s.fullCount ≠ 0 ∧ s'.fullCount = s.fullCount - 1 ∨
        (s.pcpPair i).load = 0 ∧ s.fullCount = 0 ∧ s'.fullCount = 0 ∧
          (s'.pcpPair i).load = 0) := by
  obtain ⟨s₁, hrefill, hrest⟩ := Option.bind_eq_some_iff.mp halloc
  obtain ⟨⟨elem', pair⟩, hpair, heq⟩ := Option.map_eq_some_iff.mp hrest
  cases heq
  have hset : ∀ k, k ≠ i → (s₁.setPair i pair).pcpPair k = s₁.pcpPair k :=
    fun k hk => Function.update_of_ne hk _ _
  have hself : (s₁.setPair i pair).pcpPair i = pair := Function.update_self ..
  rw [hself]
  split at hrefill
  · rename_i hcount
    have hzero : (s.pcpPair i).load = 0 := by
      rw [← hfront.magPairCount_toNat, hcount]
      rfl
    obtain ⟨hkept, hswitch⟩ := magAllocatorSwitchEmpty_load hzero hrefill
    refine ⟨fun k hk => (hset k hk).trans (hkept k hk), ?_⟩
    rcases hswitch with ⟨rfl, hnone⟩ | ⟨-, hsome, hfull⟩
    · -- the depot is empty, and so the call fails
      rcases magPairAlloc_load hpair with ⟨rfl, -⟩ | hload
      · exact .inr (.inr ⟨hzero, hnone, hnone, hzero⟩)
      · omega
    · exact .inr (.inl ⟨hzero, hsome, hfull⟩)
  · rename_i hcount
    cases hrefill
    refine ⟨hset, ?_⟩
    have hpos : (s.pcpPair i).load ≠ 0 := by
      intro hzero
      rw [← hfront.magPairCount_toNat] at hzero
      exact hcount (BitVec.eq_of_toNat_eq hzero)
    rcases magPairAlloc_load hpair with ⟨-, hzero⟩ | hload
    · have hone := hfront.front hzero
      rw [MagPair.load, hzero, hone] at hpos
      exact absurd rfl hpos
    · exact .inl ⟨by omega, hload, rfl⟩

end MagAllocator

end KtcpSplit.MagAlloc
