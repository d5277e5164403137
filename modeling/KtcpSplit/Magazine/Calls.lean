import KtcpSplit.Magazine.Contents

/-!
# What a call of the allocator does

Both calls keep every magazine in one place and every count within its stack,
never fail an assertion, and change the contents by the element they return or
are given.
-/

namespace KtcpSplit.MagAlloc

/-! ## Counts -/

@[simp]
theorem toNat_magDepth : (magDepth : BitVec 32).toNat = magDepth := rfl

theorem MagPair.Front.lt_of_ne {pair : MagPair} (hfront : pair.Front) {idx : Fin 2}
    (hne : pair.count idx ≠ magDepth) : (pair.count idx).toNat < magDepth := by
  have hle := hfront.count_le idx
  apply lt_of_le_of_ne hle
  intro heq
  exact hne (BitVec.eq_of_toNat_eq heq)

theorem MagPair.Front.count_eq_zero {pair : MagPair} (hfront : pair.Front)
    (hcount : magPairCount pair = 0) : pair.count 0 = 0 := by
  have h0 := hfront.count_le 0
  have h1 := hfront.count_le 1
  simp only [magPairCount, magDepth] at hcount h0 h1
  bv_omega

theorem MagPair.Front.count_eq_full_iff {pair : MagPair} (hfront : pair.Front) :
    magPairCount pair = magDepth <<< 1 ↔ ¬ pair.Room := by
  have h0 := hfront.count_le 0
  have h1 := hfront.count_le 1
  have hdepth : ((magDepth : ℕ) : BitVec 32) = 4 := rfl
  have htwice : ((magDepth <<< 1 : ℕ) : BitVec 32) = 8 := rfl
  simp only [magPairCount, MagPair.Room, hdepth, htwice]
  simp only [magDepth] at h0 h1
  constructor
  · intro hsum
    rw [not_or, not_not, not_not]
    constructor <;> bv_omega
  · intro hfull
    rw [not_or, not_not, not_not] at hfull
    rw [hfull.1, hfull.2]
    rfl

namespace MagAllocator

variable {Cpu α : Type*} [Fintype Cpu] [DecidableEq Cpu]
variable {s : MagAllocator Cpu α} {i : Cpu × Context}

/-! ## Places -/

/-- A full magazine of the depot and the empty one of a pair change places. -/
theorem magAllocatorSwitchEmpty_places {s' : MagAllocator Cpu α}
    (hswitch : s.magAllocatorSwitchEmpty i = some s') : s'.places = s.places := by
  simp only [magAllocatorSwitchEmpty] at hswitch
  generalize (if (s.pcpPair i).count 0 ≠ 0 then (1 : Fin 2) else 0) = idx at hswitch
  split at hswitch
  · split at hswitch
    · cases hswitch
    · rename_i mag rest hlist
      cases hswitch
      have hplaces := places_exchange s.pcpPair i idx mag magDepth
        (rest + s.emptyList : Multiset Addr)
      calc
        _ = ∑ k, (Function.update s.pcpPair i
              ((s.pcpPair i).exchange idx mag magDepth) k).mags +
            ({(s.pcpPair i).magPtr idx} + (rest + s.emptyList : Multiset Addr)) := by
          rw [← add_left_comm (rest : Multiset Addr), Multiset.singleton_add]
          rfl
        _ = ∑ k, (s.pcpPair k).mags + ({mag} + (rest + s.emptyList : Multiset Addr)) := hplaces
        _ = s.places := by
          rw [places, hlist, ← Multiset.cons_coe, ← Multiset.singleton_add, add_assoc {_}]
  · cases hswitch
    rfl

/-- The pair gets an empty magazine of the depot, or the memory from `kzalloc`. -/
theorem magAllocatorSwitchFull_places {s' : MagAllocator Cpu α} {kzalloc : Addr}
    (hswitch : s.magAllocatorSwitchFull i kzalloc = some s') :
    s.emptyCount ≠ 0 ∧ s'.places = s.places ∨
      s.emptyCount = 0 ∧ s'.places = kzalloc ::ₘ s.places := by
  simp only [magAllocatorSwitchFull] at hswitch
  generalize (if (s.pcpPair i).count 1 = magDepth then (1 : Fin 2) else 0) = idx at hswitch
  obtain ⟨-, hswitch⟩ := Option.ite_none_right_eq_some.mp hswitch
  split at hswitch
  · rename_i hcount
    split at hswitch
    · cases hswitch
    · rename_i mag rest hlist
      cases hswitch
      have hplaces := places_exchange s.pcpPair i idx mag 0
        (s.fullList + rest : Multiset Addr)
      refine .inl ⟨hcount, ?_⟩
      calc
        _ = ∑ k, (Function.update s.pcpPair i ((s.pcpPair i).exchange idx mag 0) k).mags +
            ({(s.pcpPair i).magPtr idx} + (s.fullList + rest : Multiset Addr)) := by
          rw [← add_assoc {_}, Multiset.singleton_add]
          rfl
        _ = ∑ k, (s.pcpPair k).mags + ({mag} + (s.fullList + rest : Multiset Addr)) := hplaces
        _ = s.places := by
          rw [places, hlist, ← Multiset.cons_coe, ← Multiset.singleton_add,
            add_left_comm (s.fullList : Multiset Addr)]
  · rename_i hcount
    cases hswitch
    have hplaces := places_exchange s.pcpPair i idx kzalloc 0
      (s.fullList + s.emptyList : Multiset Addr)
    refine .inr ⟨not_not.mp hcount, ?_⟩
    calc
      _ = ∑ k, (Function.update s.pcpPair i ((s.pcpPair i).exchange idx kzalloc 0) k).mags +
          ({(s.pcpPair i).magPtr idx} + (s.fullList + s.emptyList : Multiset Addr)) := by
        rw [← add_assoc {_}, Multiset.singleton_add]
        rfl
      _ = ∑ k, (s.pcpPair k).mags +
          ({kzalloc} + (s.fullList + s.emptyList : Multiset Addr)) := hplaces
      _ = kzalloc ::ₘ s.places := by
        rw [add_left_comm, Multiset.singleton_add]
        rfl

/-- Replacing a pair by one of the same magazines. -/
theorem places_setPair {pair : MagPair} (hmags : pair.mags = (s.pcpPair i).mags) :
    (s.setPair i pair).places = s.places := by
  have hsum := sum_mags_update s.pcpPair i pair
  rw [hmags] at hsum
  rw [places, setPair]
  dsimp only
  rw [add_right_cancel hsum]
  rfl

theorem magPairFree_places {s' : MagAllocator Cpu α} {elem : Option α}
    (hfree : s.magPairFree i elem = some s') :
    s'.places = s.places ∧ s'.emptyCount = s.emptyCount := by
  simp only [magPairFree] at hfree
  obtain ⟨-, hfree⟩ := Option.ite_none_right_eq_some.mp hfree
  obtain ⟨-, hfree⟩ := Option.ite_none_right_eq_some.mp hfree
  cases hfree
  exact ⟨places_setPair (s := s) (i := i) rfl, rfl⟩

/-! ## Exchanges with the depot -/

/-- An empty pair gets a full magazine, if the depot has one. -/
theorem magAllocatorSwitchEmpty_spec (hsettled : s.Settled)
    (hzero : (s.pcpPair i).count 0 = 0) :
    ∃ s', s.magAllocatorSwitchEmpty i = some s' ∧ s'.Settled ∧
      s'.contents = s.contents := by
  by_cases hcount : s.fullCount = 0
  · exact ⟨s, by simp [magAllocatorSwitchEmpty, hcount], hsettled, rfl⟩
  obtain ⟨mag, rest, hlist, hrest⟩ := exists_cons_of_count hsettled.fullCount hcount
  have hone := (hsettled.front i).front hzero
  have hswitch : s.magAllocatorSwitchEmpty i = some
      { s with
        pcpPair := Function.update s.pcpPair i
          ((s.pcpPair i).exchange 0 mag magDepth)
        emptyList := (s.pcpPair i).magPtr 0 :: s.emptyList
        emptyCount := s.emptyCount + 1
        fullList := rest
        fullCount := s.fullCount - 1 } := by
    simp only [magAllocatorSwitchEmpty, hzero, hlist, ne_eq, not_true_eq_false,
      hcount, not_false_eq_true, if_true, if_false]
    rfl
  refine ⟨_, hswitch, ⟨⟨?nodup, ?front, count_cons hsettled.emptyCount _, hrest⟩,
    ?room⟩, ?contents⟩
  case nodup => exact (magAllocatorSwitchEmpty_places hswitch).symm ▸ hsettled.nodup
  case front =>
    refine Function.forall_update_iff _ (fun _ => MagPair.Front) |>.mpr
      ⟨⟨Fin.forall_fin_two.mpr ⟨le_rfl, (hsettled.front i).count_le 1⟩, fun h => ?_⟩,
        fun k _ => hsettled.front k⟩
    exact absurd h (by decide : (magDepth : BitVec 32) ≠ 0)
  case room =>
    refine Function.forall_update_iff _ (fun _ => MagPair.Room) |>.mpr
      ⟨.inr fun h => ?_, fun k _ => hsettled.room k⟩
    have hback : (s.pcpPair i).count 1 = magDepth := h
    rw [hone] at hback
    exact absurd hback (by decide)
  case contents =>
    have hexchange := (s.pcpPair i).held_exchange s.memory 0 mag magDepth
    rw [hzero, Magazine.slots_zero, add_zero, Magazine.slots_magDepth] at hexchange
    have hsum := sum_held_update s.memory s.pcpPair i
      ((s.pcpPair i).exchange 0 mag magDepth)
    rw [hexchange, add_left_comm, add_comm] at hsum
    have hsum := add_left_cancel hsum
    simp only [contents, full, hlist, List.map_cons, List.sum_cons]
    rw [hsum, add_assoc]

/-- The second of two full magazines goes to the depot. -/
theorem magAllocatorSwitchFull_spec (htidy : s.Tidy)
    (hroom : ∀ k, k ≠ i → (s.pcpPair k).Room) (hfull : ¬ (s.pcpPair i).Room)
    {kzalloc : Addr} (hfresh : s.emptyCount = 0 → kzalloc ∉ s.places) :
    ∃ s', s.magAllocatorSwitchFull i kzalloc = some s' ∧ s'.Settled ∧
      s'.contents = s.contents := by
  rw [MagPair.Room, not_or, not_not, not_not] at hfull
  -- the exchanged pair, whatever magazine it gets
  have hfront : ∀ mag k, (Function.update s.pcpPair i
      ((s.pcpPair i).exchange 1 mag 0) k).Front := fun mag =>
    Function.forall_update_iff _ (fun _ => MagPair.Front) |>.mpr
      ⟨⟨Fin.forall_fin_two.mpr ⟨(htidy.front i).count_le 0, Nat.zero_le _⟩,
        fun _ => rfl⟩, fun k _ => htidy.front k⟩
  have hroom : ∀ mag k, (Function.update s.pcpPair i
      ((s.pcpPair i).exchange 1 mag 0) k).Room := fun mag =>
    Function.forall_update_iff _ (fun _ => MagPair.Room) |>.mpr
      ⟨.inr (by decide : (0 : BitVec 32) ≠ magDepth), hroom⟩
  by_cases hcount : s.emptyCount = 0
  · have hmem := hfresh hcount
    have hswitch : s.magAllocatorSwitchFull i kzalloc = some
        { s with
          memory := Function.update s.memory kzalloc .zeroed
          pcpPair := Function.update s.pcpPair i
            ((s.pcpPair i).exchange 1 kzalloc 0)
          fullList := (s.pcpPair i).magPtr 1 :: s.fullList
          fullCount := s.fullCount + 1 } := by
      simp only [magAllocatorSwitchFull, hfull.2, hcount, ne_eq, not_true_eq_false,
        if_true, if_false]
      rfl
    refine ⟨_, hswitch, ⟨⟨?nodup, hfront kzalloc, htidy.emptyCount,
      count_cons htidy.fullCount _⟩, hroom kzalloc⟩, ?contents⟩
    case nodup =>
      rcases magAllocatorSwitchFull_places hswitch with ⟨hne, -⟩ | ⟨-, hplaces⟩
      · exact absurd hcount hne
      · rw [hplaces]
        exact Multiset.nodup_cons.mpr ⟨hmem, htidy.nodup⟩
    case contents =>
      have hother : ∀ mag, mag ∈ s.places →
          Function.update s.memory kzalloc .zeroed mag = s.memory mag := by
        rintro mag hmag
        apply Function.update_of_ne
        rintro rfl
        exact hmem hmag
      exact (contents_shelve (s := { s with
        memory := Function.update s.memory kzalloc .zeroed }) hfull.2 kzalloc).trans
          (contents_of_memory
            (fun k => MagPair.held_of_memory fun mag hmag =>
              hother mag (mem_places_of_pair hmag))
            fun mag hmag => hother mag (mem_places_of_full hmag))
  · obtain ⟨mag, rest, hlist, hrest⟩ := exists_cons_of_count htidy.emptyCount hcount
    have hswitch : s.magAllocatorSwitchFull i kzalloc = some
        { s with
          pcpPair := Function.update s.pcpPair i ((s.pcpPair i).exchange 1 mag 0)
          emptyList := rest
          emptyCount := s.emptyCount - 1
          fullList := (s.pcpPair i).magPtr 1 :: s.fullList
          fullCount := s.fullCount + 1 } := by
      simp only [magAllocatorSwitchFull, hfull.2, hcount, hlist, ne_eq,
        not_false_eq_true, if_true]
      rfl
    refine ⟨_, hswitch, ⟨⟨?nodup, hfront mag, hrest, count_cons htidy.fullCount _⟩,
      hroom mag⟩, contents_shelve hfull.2 mag⟩
    case nodup =>
      rcases magAllocatorSwitchFull_places hswitch with ⟨-, hplaces⟩ | ⟨hzero, -⟩
      · rw [hplaces]
        exact htidy.nodup
      · exact absurd hzero hcount

/-! ## Stores -/

/-- The magazine that `mag_pair_free` stores into. -/
def freeIdx (pair : MagPair) : Fin 2 := if pair.count 0 = magDepth then 1 else 0

theorem freeIdx_spec {pair : MagPair} (hfront : pair.Front) (hroom : pair.Room) :
    (pair.count (freeIdx pair)).toNat < magDepth ∧
      (pair.count 0 < magDepth ∨ pair.count 1 < magDepth) ∧
      (pair.exchange (freeIdx pair) (pair.magPtr (freeIdx pair))
        (pair.count (freeIdx pair) + 1)).Front := by
  by_cases hfull : pair.count 0 = magDepth
  · have hlt := hfront.lt_of_ne (hroom.resolve_left (not_not.mpr hfull))
    rw [freeIdx, if_pos hfull]
    refine ⟨hlt, .inr hlt, ⟨Fin.forall_fin_two.mpr ⟨hfront.count_le 0, ?_⟩, fun h => ?_⟩⟩
    · change (pair.count 1 + 1).toNat ≤ magDepth
      simp only [magDepth] at hlt ⊢
      bv_omega
    · have hzero : pair.count 0 = 0 := h
      rw [hfull] at hzero
      exact absurd hzero (by decide)
  · have hlt := hfront.lt_of_ne hfull
    rw [freeIdx, if_neg hfull]
    refine ⟨hlt, .inl hlt, ⟨Fin.forall_fin_two.mpr ⟨?_, hfront.count_le 1⟩, fun h => ?_⟩⟩
    · change (pair.count 0 + 1).toNat ≤ magDepth
      simp only [magDepth] at hlt ⊢
      bv_omega
    · have hzero : pair.count 0 + 1 = 0 := h
      simp only [magDepth] at hlt
      bv_omega

/-- A store into one magazine of a pair, behind its counted slots. -/
theorem contents_store (htidy : s.Tidy) (idx : Fin 2) (elem : Option α) :
    let pair := s.pcpPair i
    let mag := pair.magPtr idx
    let store := (s.memory mag).store (pair.count idx).toNat elem
    ({ s with memory := Function.update s.memory mag store } :
      MagAllocator Cpu α).contents = s.contents := by
  intro pair mag store
  obtain ⟨hpairs, hlist, hne⟩ := htidy.alone (pair.magPtr_mem_mags idx)
  apply contents_of_memory
  · intro k
    by_cases hk : k = i
    · subst hk
      exact MagPair.held_store s.memory hne idx elem
    · apply MagPair.held_of_memory
      intro mag' hmag'
      apply Function.update_of_ne
      rintro rfl
      exact hpairs k hk hmag'
  · intro mag' hmag'
    apply Function.update_of_ne
    rintro rfl
    exact hlist hmag'

/-- A free stores the element behind the counted slots of its pair. -/
theorem magPairFree_spec (hsettled : s.Settled) (elem : Option α) :
    ∃ s', s.magPairFree i elem = some s' ∧ s'.Tidy ∧
      (∀ k, k ≠ i → (s'.pcpPair k).Room) ∧ s'.contents = elem ::ₘ s.contents ∧
      s'.places = s.places ∧ s'.emptyCount = s.emptyCount := by
  obtain ⟨hlt, hassert, hfront⟩ :=
    freeIdx_spec (hsettled.front i) (hsettled.room i)
  set pair := s.pcpPair i with hpair
  set idx := freeIdx pair with hidx
  set mag := pair.magPtr idx with hmag
  set memory := Function.update s.memory mag
    ((s.memory mag).store (pair.count idx).toNat elem) with hmemory
  have hexchange : pair.exchange idx mag (pair.count idx + 1) =
      { pair with count := Function.update pair.count idx (pair.count idx + 1) } := by
    rw [MagPair.exchange, hmag, Function.update_eq_self]
  have hfree : s.magPairFree i elem = some
      { s with
        memory := memory
        pcpPair := Function.update s.pcpPair i
          (pair.exchange idx mag (pair.count idx + 1)) } := by
    rw [hexchange]
    simp only [magPairFree, ← hpair, if_pos hassert]
    exact if_pos hlt
  obtain ⟨hplaces, -⟩ := magPairFree_places hfree
  refine ⟨_, hfree, ⟨?nodup, ?front, hsettled.emptyCount, hsettled.fullCount⟩,
    fun k hk => ?room, ?contents, ?places, rfl⟩
  case places => exact hplaces
  case nodup => exact hplaces.symm ▸ hsettled.nodup
  case front =>
    exact Function.forall_update_iff _ (fun _ => MagPair.Front) |>.mpr
      ⟨hfront, fun k _ => hsettled.front k⟩
  case room =>
    dsimp only
    rw [Function.update_of_ne hk]
    exact hsettled.room k
  case contents =>
    have hheld : (pair.exchange idx mag (pair.count idx + 1)).held memory =
        elem ::ₘ pair.held memory := by
      have hheld := pair.held_exchange memory idx mag (pair.count idx + 1)
      rw [← hmag, hmemory, Function.update_self, Magazine.slots_store,
        Magazine.slots_store_succ _ hlt, Multiset.add_cons, ← Multiset.cons_add] at hheld
      exact add_right_cancel hheld
    have hsum := sum_held_update memory s.pcpPair i
      (pair.exchange idx mag (pair.count idx + 1))
    rw [hheld, Multiset.add_cons, ← Multiset.cons_add] at hsum
    have hsum := add_right_cancel hsum
    calc
      _ = elem ::ₘ (∑ k, (s.pcpPair k).held memory +
          ({ s with memory := memory } : MagAllocator Cpu α).full) := by
        rw [contents, hsum, Multiset.cons_add]
        rfl
      _ = elem ::ₘ s.contents := by
        rw [← contents_store hsettled.toTidy idx elem]
        rfl

/-! ## Calls -/

theorem magAllocElem_spec (hsettled : s.Settled) (i : Cpu × Context) :
    ∃ elem s', s.magAllocElem i = some (elem, s') ∧ s'.Settled ∧
      (elem = none ∧ s'.contents = s.contents ∨ s.contents = elem ::ₘ s'.contents) := by
  obtain ⟨s₁, hrefill, hsettled₁, hcontents₁⟩ : ∃ s₁,
      (if magPairCount (s.pcpPair i) = 0 then s.magAllocatorSwitchEmpty i
        else some s) = some s₁ ∧ s₁.Settled ∧ s₁.contents = s.contents := by
    split
    · rename_i hcount
      exact magAllocatorSwitchEmpty_spec hsettled
        ((hsettled.front i).count_eq_zero hcount)
    · exact ⟨s, rfl, hsettled, rfl⟩
  simp only [magAllocElem, hrefill, Option.bind_some]
  rcases magPairAlloc_spec s₁.memory (hsettled₁.front i) with
    ⟨halloc, -⟩ | ⟨elem, pair, halloc, hfront, hroom, hmags, hheld⟩
  · refine ⟨none, s₁, ?_, hsettled₁, .inl ⟨rfl, hcontents₁⟩⟩
    rw [halloc, Option.map_some, setPair, Function.update_eq_self]
  · refine ⟨elem, s₁.setPair i pair, by rw [halloc, Option.map_some], ?_, .inr ?_⟩
    · refine ⟨⟨?nodup, ?front, hsettled₁.emptyCount, hsettled₁.fullCount⟩, ?room⟩
      case nodup => exact (places_setPair hmags).symm ▸ hsettled₁.nodup
      case front =>
        exact Function.forall_update_iff _ (fun _ => MagPair.Front) |>.mpr
          ⟨hfront, fun k _ => hsettled₁.front k⟩
      case room =>
        exact Function.forall_update_iff _ (fun _ => MagPair.Room) |>.mpr
          ⟨hroom, fun k _ => hsettled₁.room k⟩
    · have hsum := sum_held_update s₁.memory s₁.pcpPair i pair
      rw [hheld, Multiset.add_cons, ← Multiset.cons_add] at hsum
      rw [← hcontents₁, contents, ← add_right_cancel hsum, Multiset.cons_add]
      rfl

theorem magFreeElem_spec (hsettled : s.Settled) (i : Cpu × Context) (elem : Option α)
    {kzalloc : Addr} (hfresh : s.emptyCount = 0 → kzalloc ∉ s.places) :
    ∃ s', s.magFreeElem i elem kzalloc = some s' ∧ s'.Settled ∧
      s'.contents = elem ::ₘ s.contents := by
  obtain ⟨s₁, hfree, htidy, hroom, hcontents, hplaces, hcount⟩ :=
    magPairFree_spec (i := i) hsettled elem
  rw [← hplaces, ← hcount] at hfresh
  simp only [magFreeElem, hfree, Option.bind_some]
  split
  · rename_i hfull
    obtain ⟨s', hswitch, hsettled', hcontents'⟩ := magAllocatorSwitchFull_spec htidy
      hroom ((htidy.front i).count_eq_full_iff.mp hfull) hfresh
    exact ⟨s', hswitch, hsettled', hcontents'.trans hcontents⟩
  · rename_i hleft
    refine ⟨s₁, rfl, ⟨htidy, fun k => ?_⟩, hcontents⟩
    by_cases hk : k = i
    · subst hk
      exact not_not.mp ((htidy.front k).count_eq_full_iff.not.mp hleft)
    · exact hroom k hk

end MagAllocator

end KtcpSplit.MagAlloc
