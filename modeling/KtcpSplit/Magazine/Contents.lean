import KtcpSplit.Magazine.Allocator

/-!
# What the magazines hold

The elements of the allocator are the counted slots of the pairs and all slots
of the full list.  Every magazine lies in one place, so an operation on a pair
changes nothing but that pair and the depot.
-/

namespace KtcpSplit.MagAlloc

open KtcpSplit.Bag

variable {Cpu α : Type*}

/-! ## Slots -/

/-- The first `count` slots. -/
def Magazine.slots (mag : Magazine α) (count : BitVec 32) : Multiset (Option α) :=
  mag.stack.take count.toNat

@[simp]
theorem Magazine.slots_zero (mag : Magazine α) : mag.slots 0 = 0 := rfl

theorem Magazine.slots_magDepth (mag : Magazine α) :
    mag.slots magDepth = (mag.stack : Multiset (Option α)) := by
  rw [Magazine.slots, List.take_of_length_le]
  exact mag.length_stack.le

theorem Magazine.slots_succ (mag : Magazine α) {count : BitVec 32}
    (hlt : count.toNat < mag.stack.length) :
    mag.slots (count + 1) = mag.stack[count.toNat] ::ₘ mag.slots count := by
  have hdepth := mag.length_stack
  have hcount : (count + 1).toNat = count.toNat + 1 := by
    simp only [magDepth] at hdepth
    bv_omega
  rw [Magazine.slots, hcount, List.take_succ_eq_append_getElem hlt,
    ← Multiset.coe_add, Magazine.slots, Multiset.coe_singleton, Multiset.add_comm,
    Multiset.singleton_add]

/-- A store behind the counted slots does not change them. -/
theorem Magazine.slots_store (mag : Magazine α) (count : BitVec 32)
    (elem : Option α) : (mag.store count.toNat elem).slots count = mag.slots count := by
  rw [Magazine.slots, Magazine.slots, Magazine.store, List.take_set_of_le le_rfl]

theorem Magazine.slots_store_succ (mag : Magazine α) {count : BitVec 32}
    (hlt : count.toNat < magDepth) (elem : Option α) :
    (mag.store count.toNat elem).slots (count + 1) = elem ::ₘ mag.slots count := by
  have hstack : count.toNat < (mag.store count.toNat elem).stack.length :=
    hlt.trans_eq (mag.store count.toNat elem).length_stack.symm
  rw [Magazine.slots_succ _ hstack, Magazine.slots_store]
  congr 1
  exact List.getElem_set_self hstack

/-! ## Pairs -/

/-- What a pair holds. -/
def MagPair.held (memory : Addr → Magazine α) (pair : MagPair) :
    Multiset (Option α) :=
  (memory (pair.magPtr 0)).slots (pair.count 0) +
    (memory (pair.magPtr 1)).slots (pair.count 1)

def MagPair.mags (pair : MagPair) : Multiset Addr :=
  {pair.magPtr 0, pair.magPtr 1}

theorem MagPair.magPtr_mem_mags (pair : MagPair) (idx : Fin 2) :
    pair.magPtr idx ∈ pair.mags := by
  match idx with
  | 0 => simp [MagPair.mags]
  | 1 => simp [MagPair.mags]

/-- No magazine counts too many slots, and the first is not the empty one of
two. -/
structure MagPair.Front (pair : MagPair) : Prop where
  count_le : ∀ idx, (pair.count idx).toNat ≤ magDepth
  front : pair.count 0 = 0 → pair.count 1 = 0

/-- There is a slot left. -/
def MagPair.Room (pair : MagPair) : Prop :=
  pair.count 0 ≠ magDepth ∨ pair.count 1 ≠ magDepth

/-- Writes to other magazines. -/
theorem MagPair.held_of_memory {memory memory' : Addr → Magazine α} {pair : MagPair}
    (hsame : ∀ mag ∈ pair.mags, memory' mag = memory mag) :
    pair.held memory' = pair.held memory := by
  rw [MagPair.held, MagPair.held, hsame (pair.magPtr 0) (by simp [MagPair.mags]),
    hsame (pair.magPtr 1) (by simp [MagPair.mags])]

/-- A store behind the counted slots of one of the two magazines. -/
theorem MagPair.held_store (memory : Addr → Magazine α) {pair : MagPair}
    (hne : pair.magPtr 0 ≠ pair.magPtr 1) (idx : Fin 2) (elem : Option α) :
    let mag := pair.magPtr idx
    pair.held (Function.update memory mag
      ((memory mag).store (pair.count idx).toNat elem)) = pair.held memory := by
  match idx with
  | 0 =>
      simp only [MagPair.held, Function.update_self, Magazine.slots_store,
        Function.update_of_ne hne.symm]
  | 1 =>
      simp only [MagPair.held, Function.update_self, Magazine.slots_store,
        Function.update_of_ne hne]

/-- Three exclusive ors exchange the two values. -/
theorem xorAssign_swap {w : ℕ} (x : Fin 2 → BitVec w) :
    xorAssign (xorAssign (xorAssign x 0 1) 1 0) 0 1 = ![x 1, x 0] := by
  have hcancel : ∀ a b : BitVec w, b ^^^ (a ^^^ b) = a := by
    intro a b
    rw [BitVec.xor_comm a b, ← BitVec.xor_assoc, BitVec.xor_self, BitVec.zero_xor]
  funext i
  match i with
  | 0 =>
      simp only [xorAssign, Function.update_self, ne_eq, one_ne_zero, zero_ne_one,
        not_false_eq_true, Function.update_of_ne, hcancel, Matrix.cons_val_zero]
      rw [BitVec.xor_assoc, BitVec.xor_comm (x 1), ← BitVec.xor_assoc,
        BitVec.xor_self, BitVec.zero_xor]
  | 1 =>
      simp only [xorAssign, Function.update_self, ne_eq, one_ne_zero, zero_ne_one,
        not_false_eq_true, Function.update_of_ne, hcancel, Matrix.cons_val_one]
      rfl

theorem held_swapMags (memory : Addr → Magazine α) (pair : MagPair) :
    (swapMags pair).held memory = pair.held memory := by
  simp only [swapMags, xorAssign_swap, MagPair.held]
  exact Multiset.add_comm _ _

theorem mags_swapMags (pair : MagPair) : (swapMags pair).mags = pair.mags := by
  simp only [swapMags, xorAssign_swap, MagPair.mags]
  exact Multiset.pair_comm _ _

/-- The pair after `--count[0]`. -/
def MagPair.decremented (pair : MagPair) : MagPair :=
  { pair with count := Function.update pair.count 0 (pair.count 0 - 1) }

theorem MagPair.held_decremented (memory : Addr → Magazine α) {pair : MagPair}
    (hfront : pair.Front) (hzero : pair.count 0 ≠ 0) :
    ∃ elem, (memory (pair.magPtr 0)).stack[(pair.count 0 - 1).toNat]? = some elem ∧
      pair.held memory = elem ::ₘ pair.decremented.held memory := by
  have hle := hfront.count_le 0
  have hlt : (pair.count 0 - 1).toNat < (memory (pair.magPtr 0)).stack.length := by
    rw [Magazine.length_stack]
    bv_omega
  have hslots := (memory (pair.magPtr 0)).slots_succ hlt
  rw [BitVec.sub_add_cancel] at hslots
  refine ⟨_, List.getElem?_eq_getElem hlt, ?_⟩
  rw [MagPair.held, hslots, Multiset.cons_add]
  rfl

theorem MagPair.decremented_lt {pair : MagPair} (hfront : pair.Front)
    (hzero : pair.count 0 ≠ 0) : (pair.decremented.count 0).toNat < magDepth := by
  have hle := hfront.count_le 0
  simp only [MagPair.decremented, Function.update_self]
  bv_omega

/-- Taking from a pair takes one of its counted slots, unless it holds nothing. -/
theorem magPairAlloc_spec (memory : Addr → Magazine α) {pair : MagPair}
    (hfront : pair.Front) :
    (magPairAlloc memory pair = some (none, pair) ∧ pair.count 0 = 0) ∨
      ∃ elem pair', magPairAlloc memory pair = some (elem, pair') ∧ pair'.Front ∧
        pair'.Room ∧ pair'.mags = pair.mags ∧
        pair.held memory = elem ::ₘ pair'.held memory := by
  by_cases hzero : pair.count 0 = 0
  · exact .inl ⟨by rw [magPairAlloc, if_pos hzero], hzero⟩
  obtain ⟨elem, helem, hheld⟩ := pair.held_decremented memory hfront hzero
  have hlt := pair.decremented_lt hfront hzero
  have hle := hfront.count_le 1
  have halloc : magPairAlloc memory pair = some (elem,
      if pair.decremented.count 0 = 0 then swapMags pair.decremented
      else pair.decremented) := by
    rw [magPairAlloc, if_neg hzero]
    simp only [Function.update_self, helem, Option.map_some]
    rfl
  have hother : pair.decremented.count 1 = pair.count 1 := rfl
  refine .inr ⟨elem, _, halloc, ?_⟩
  split
  · -- the emptied magazine goes to the back
    rename_i hempty
    have hcount : (swapMags pair.decremented).count = ![pair.count 1, 0] := by
      simp only [swapMags, xorAssign_swap, hempty, hother]
    refine ⟨⟨?_, ?_⟩, .inr ?_, mags_swapMags _, ?_⟩
    · rw [hcount]
      exact Fin.forall_fin_two.mpr ⟨hle, Nat.zero_le _⟩
    · rw [hcount]
      exact fun _ => rfl
    · rw [hcount]
      exact (by decide : (0 : BitVec 32) ≠ magDepth)
    · rw [held_swapMags]
      exact hheld
  · rename_i hleft
    refine ⟨⟨?_, fun h => absurd h hleft⟩, .inl ?_, rfl, hheld⟩
    · exact Fin.forall_fin_two.mpr ⟨hlt.le, hle⟩
    · intro heq
      rw [heq] at hlt
      exact absurd hlt (by decide)

/-- The pair after an exchange of a magazine with the depot. -/
def MagPair.exchange (pair : MagPair) (idx : Fin 2) (mag : Addr)
    (count : BitVec 32) : MagPair :=
  ⟨Function.update pair.magPtr idx mag, Function.update pair.count idx count⟩

theorem MagPair.mags_exchange (pair : MagPair) (idx : Fin 2) (mag : Addr)
    (count : BitVec 32) :
    (pair.exchange idx mag count).mags + {pair.magPtr idx} = pair.mags + {mag} := by
  match idx with
  | 0 =>
      calc
        {mag, pair.magPtr 1} + {pair.magPtr 0} =
            {mag} + {pair.magPtr 1} + ({pair.magPtr 0} : Multiset Addr) := rfl
        _ = {pair.magPtr 0} + {pair.magPtr 1} + {mag} := by abel
  | 1 =>
      calc
        {pair.magPtr 0, mag} + {pair.magPtr 1} =
            {pair.magPtr 0} + {mag} + ({pair.magPtr 1} : Multiset Addr) := rfl
        _ = {pair.magPtr 0} + {pair.magPtr 1} + {mag} := by abel

theorem MagPair.held_exchange (memory : Addr → Magazine α) (pair : MagPair)
    (idx : Fin 2) (mag : Addr) (count : BitVec 32) :
    (pair.exchange idx mag count).held memory +
        (memory (pair.magPtr idx)).slots (pair.count idx) =
      pair.held memory + (memory mag).slots count := by
  match idx with
  | 0 =>
      calc
        (memory mag).slots count + (memory (pair.magPtr 1)).slots (pair.count 1) +
            (memory (pair.magPtr 0)).slots (pair.count 0) =
          (memory (pair.magPtr 0)).slots (pair.count 0) +
            (memory (pair.magPtr 1)).slots (pair.count 1) +
            (memory mag).slots count := by abel
  | 1 =>
      calc
        (memory (pair.magPtr 0)).slots (pair.count 0) + (memory mag).slots count +
            (memory (pair.magPtr 1)).slots (pair.count 1) =
          (memory (pair.magPtr 0)).slots (pair.count 0) +
            (memory (pair.magPtr 1)).slots (pair.count 1) +
            (memory mag).slots count := by abel

/-! ## The allocator -/

namespace MagAllocator

variable [Fintype Cpu]

/-- What the full magazines of the depot hold. -/
def full (s : MagAllocator Cpu α) : Multiset (Option α) :=
  (s.fullList.map fun mag => ((s.memory mag).stack : Multiset (Option α))).sum

/-- The counted slots of all pairs and all slots of the full list. -/
def contents (s : MagAllocator Cpu α) : Multiset (Option α) :=
  ∑ i, (s.pcpPair i).held s.memory + s.full

/-- Every magazine, as often as it can be reached. -/
def places (s : MagAllocator Cpu α) : Multiset Addr :=
  ∑ i, (s.pcpPair i).mags + (↑s.fullList + ↑s.emptyList)

structure Tidy (s : MagAllocator Cpu α) : Prop where
  nodup : s.places.Nodup
  front : ∀ i, (s.pcpPair i).Front
  emptyCount : s.emptyCount = BitVec.ofNat 16 s.emptyList.length
  fullCount : s.fullCount = BitVec.ofNat 16 s.fullList.length

/-- What holds between two calls. -/
structure Settled (s : MagAllocator Cpu α) : Prop extends Tidy s where
  room : ∀ i, (s.pcpPair i).Room

variable {s : MagAllocator Cpu α} {i : Cpu × Context}

/-- A nonzero counter stands for a list with a head. -/
theorem exists_cons_of_count {list : List Addr} {count : BitVec 16}
    (hcount : count = BitVec.ofNat 16 list.length) (hne : count ≠ 0) :
    ∃ mag rest, list = mag :: rest ∧ count - 1 = BitVec.ofNat 16 rest.length := by
  cases list with
  | nil => exact absurd hcount hne
  | cons mag rest =>
      refine ⟨mag, rest, rfl, ?_⟩
      rw [hcount, List.length_cons]
      bv_omega

theorem count_cons {list : List Addr} {count : BitVec 16}
    (hcount : count = BitVec.ofNat 16 list.length) (mag : Addr) :
    count + 1 = BitVec.ofNat 16 (mag :: list).length := by
  rw [hcount, List.length_cons]
  bv_omega

variable [DecidableEq Cpu]

omit [DecidableEq Cpu] in
theorem mem_places_of_pair {mag : Addr} (hmem : mag ∈ (s.pcpPair i).mags) :
    mag ∈ s.places :=
  Multiset.mem_add.mpr (.inl (Multiset.mem_sum.mpr ⟨i, Finset.mem_univ i, hmem⟩))

omit [DecidableEq Cpu] in
theorem mem_places_of_full {mag : Addr} (hmem : mag ∈ s.fullList) : mag ∈ s.places :=
  Multiset.mem_add.mpr (.inr (Multiset.mem_add.mpr (.inl hmem)))

/-- Every magazine is in one place. -/
theorem Tidy.alone (htidy : s.Tidy) {mag : Addr}
    (hmem : mag ∈ (s.pcpPair i).mags) :
    (∀ k, k ≠ i → mag ∉ (s.pcpPair k).mags) ∧ mag ∉ s.fullList ∧
      (s.pcpPair i).magPtr 0 ≠ (s.pcpPair i).magPtr 1 := by
  have hnodup := htidy.nodup
  rw [places, ← Finset.add_sum_erase _ _ (Finset.mem_univ i), add_assoc,
    Multiset.nodup_add] at hnodup
  obtain ⟨hpair, -, hdisjoint⟩ := hnodup
  have hnot := Multiset.disjoint_left.mp hdisjoint hmem
  simp only [Multiset.mem_add, not_or, Multiset.mem_coe, Multiset.mem_sum,
    not_exists, not_and] at hnot
  refine ⟨fun k hk hk' => ?_, hnot.2.1, ?_⟩
  · exact hnot.1 k (Finset.mem_erase.mpr ⟨hk, Finset.mem_univ k⟩) hk'
  · simpa [MagPair.mags] using hpair

/-- Replacing one pair. -/
theorem sum_held_update (memory : Addr → Magazine α)
    (pcpPair : Cpu × Context → MagPair) (i : Cpu × Context) (pair : MagPair) :
    ∑ k, (Function.update pcpPair i pair k).held memory + (pcpPair i).held memory =
      ∑ k, (pcpPair k).held memory + pair.held memory :=
  sum_update_add (MagPair.held memory) pcpPair i pair

theorem sum_mags_update (pcpPair : Cpu × Context → MagPair) (i : Cpu × Context)
    (pair : MagPair) :
    ∑ k, (Function.update pcpPair i pair k).mags + (pcpPair i).mags =
      ∑ k, (pcpPair k).mags + pair.mags :=
  sum_update_add MagPair.mags pcpPair i pair

omit [DecidableEq Cpu] in
/-- Writes that change no counted slot. -/
theorem contents_of_memory {memory : Addr → Magazine α}
    (hpair : ∀ k, (s.pcpPair k).held memory = (s.pcpPair k).held s.memory)
    (hfull : ∀ mag ∈ s.fullList, memory mag = s.memory mag) :
    ({ s with memory := memory } : MagAllocator Cpu α).contents = s.contents := by
  have hmap : (s.fullList.map fun mag => ((memory mag).stack : Multiset (Option α))) =
      s.fullList.map fun mag => ((s.memory mag).stack : Multiset (Option α)) := by
    apply List.map_congr_left
    intro mag hmem
    rw [hfull mag hmem]
  simp only [contents, full, hpair, hmap]

/-- A full magazine of a pair goes to the depot, an empty one comes back. -/
theorem contents_shelve {idx : Fin 2} (hfull : (s.pcpPair i).count idx = magDepth)
    (mag : Addr) :
    ({ s with
      fullList := (s.pcpPair i).magPtr idx :: s.fullList
      pcpPair := Function.update s.pcpPair i ((s.pcpPair i).exchange idx mag 0) } :
        MagAllocator Cpu α).contents = s.contents := by
  have hexchange := (s.pcpPair i).held_exchange s.memory idx mag 0
  rw [hfull, Magazine.slots_magDepth, Magazine.slots_zero, add_zero] at hexchange
  have hsum := sum_held_update s.memory s.pcpPair i ((s.pcpPair i).exchange idx mag 0)
  rw [← hexchange, add_left_comm, add_comm (∑ k, (s.pcpPair k).held s.memory)] at hsum
  have hsum := add_left_cancel hsum
  simp only [contents, full, List.map_cons, List.sum_cons]
  rw [← hsum, add_assoc]

theorem places_exchange (pcpPair : Cpu × Context → MagPair) (i : Cpu × Context)
    (idx : Fin 2) (mag : Addr) (count : BitVec 32) (others : Multiset Addr) :
    ∑ k, (Function.update pcpPair i ((pcpPair i).exchange idx mag count) k).mags +
        ({(pcpPair i).magPtr idx} + others) =
      ∑ k, (pcpPair k).mags + ({mag} + others) := by
  have hsum := sum_mags_update pcpPair i ((pcpPair i).exchange idx mag count)
  have hexchange := (pcpPair i).mags_exchange idx mag count
  rw [← add_assoc, ← add_assoc]
  congr 1
  apply add_right_cancel (b := (pcpPair i).mags)
  calc
    ∑ k, (Function.update pcpPair i ((pcpPair i).exchange idx mag count) k).mags +
          {(pcpPair i).magPtr idx} + (pcpPair i).mags =
        ∑ k, (Function.update pcpPair i ((pcpPair i).exchange idx mag count) k).mags +
          (pcpPair i).mags + {(pcpPair i).magPtr idx} := by abel
    _ = ∑ k, (pcpPair k).mags + (((pcpPair i).exchange idx mag count).mags +
          {(pcpPair i).magPtr idx}) := by rw [hsum, add_assoc]
    _ = ∑ k, (pcpPair k).mags + {mag} + (pcpPair i).mags := by
        rw [hexchange]
        abel

end MagAllocator

end KtcpSplit.MagAlloc
