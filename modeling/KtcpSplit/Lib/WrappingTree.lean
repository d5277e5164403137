import KtcpSplit.Lib.SearchTree
import KtcpSplit.Lib.Transition
import Mathlib.Data.BitVec
import Mathlib.Data.Set.Basic

/-!
# Search trees over a wrapping difference

A node is compared by the sign of the difference of two words, read as a signed
number.  The difference wraps, so the comparison orders some sets of words and
goes round on others.  A run inserts nodes and rebalances as it likes; which
lookups then succeed depends only on the words that were inserted.
-/

namespace KtcpSplit.WrappingTree

open KtcpSplit.SearchTree
open KtcpSplit.Transition

variable {w : ℕ} {Node : Type*}

/-! ## The comparison -/

/-- The first word compares less. -/
def Below (a b : BitVec w) : Prop := (a - b).toInt < 0

/-- The result at the node `this` when `k` is looked for. -/
def diff (key : Node → BitVec w) (k : BitVec w) (this : Node) : ℤ := (k - key this).toInt

theorem toInt_sub_eq_zero_iff (a b : BitVec w) : (a - b).toInt = 0 ↔ b = a := by
  rw [← BitVec.toInt_zero (w := w), BitVec.toInt_inj]
  exact sub_eq_zero.trans eq_comm

theorem diff_eq_zero_iff (key : Node → BitVec w) (k : BitVec w) (this : Node) :
    diff key k this = 0 ↔ key this = k :=
  toInt_sub_eq_zero_iff k (key this)

theorem not_below_self (a : BitVec w) : ¬Below a a := by
  have hzero : (a - a).toInt = 0 := (toInt_sub_eq_zero_iff a a).mpr rfl
  rw [Below, hzero]
  exact lt_irrefl 0

/-- A positive difference is negative the other way round; a negative one need
not be positive. -/
theorem below_of_pos {a b : BitVec w} (hpos : 0 < (a - b).toInt) : Below b a := by
  have hmsb : (a - b).msb = false := by
    cases hmsb : (a - b).msb with
    | false => rfl
    | true => exact absurd (BitVec.toInt_neg_of_msb_true hmsb) (by omega)
  calc
    (b - a).toInt = (-(a - b)).toInt := by rw [← neg_sub]
    _ = -(a - b).toInt := BitVec.toInt_neg_eq_of_msb hmsb
    _ < 0 := by omega

/-- Words compare less one way or the other. -/
theorem below_or_below {a b : BitVec w} (hne : a ≠ b) : Below a b ∨ Below b a := by
  rcases lt_trichotomy (a - b).toInt 0 with hneg | hzero | hpos
  · exact .inl hneg
  · exact absurd ((toInt_sub_eq_zero_iff a b).mp hzero).symm hne
  · exact .inr (below_of_pos hpos)

/-- The comparison does not go round on these words. -/
def Chained (words : Set (BitVec w)) : Prop :=
  ∀ a ∈ words, ∀ b ∈ words, ∀ c ∈ words, Below a b → Below b c → Below a c

theorem Chained.mono {words words' : Set (BitVec w)} (hchained : Chained words)
    (hsubset : words' ⊆ words) : Chained words' :=
  fun a ha b hb c hc => hchained a (hsubset ha) b (hsubset hb) c (hsubset hc)

/-- On the lower half of the range the difference does not wrap. -/
theorem chained_nonneg : Chained {a : BitVec w | 0 ≤ a.toInt} := by
  have hsub : ∀ a ∈ {a : BitVec w | 0 ≤ a.toInt}, ∀ b ∈ {a : BitVec w | 0 ≤ a.toInt},
      (a - b).toInt = a.toInt - b.toInt := by
    intro a ha b hb
    have hlta : 2 * a.toInt < 2 ^ w := BitVec.two_mul_toInt_lt
    have hltb : 2 * b.toInt < 2 ^ w := BitVec.two_mul_toInt_lt
    simp only [Set.mem_ofPred_eq] at ha hb
    rw [BitVec.toInt_sub]
    apply Int.bmod_eq_of_le_mul_two
    · push_cast
      omega
    · push_cast
      omega
  intro a ha b hb c hc hab hbc
  rw [Below, hsub a ha b hb] at hab
  rw [Below, hsub b hb c hc] at hbc
  rw [Below, hsub a ha c hc]
  omega

/-! ## Runs of insertions -/

/-- A tree and the nodes that were linked into it. -/
structure Added (Node : Type*) where
  root : BinaryTree Node
  inserted : List Node

/-- Each label is a node to insert and the tree after rebalancing. -/
def inserting [DecidableEq Node] (add : BinaryTree Node → Node → Insertion Node) :
    Machine (Added Node) (Node × BinaryTree Node) where
  init := ⟨.nil, []⟩
  next := fun s (data, root) =>
    match add s.root data with
    | .duplicate _ => some s
    | .linked linked =>
        if inorder root = inorder linked then some ⟨root, data :: s.inserted⟩ else none

/-- A word is found exactly when a node with it was inserted, and only such a node
is returned. -/
structure LookupsCorrect (key : Node → BitVec w)
    (search : BinaryTree Node → BitVec w → Option Node)
    (add : BinaryTree Node → Node → Insertion Node) (s : Added Node) : Prop where
  sound : ∀ k this, search s.root k = some this → key this = k
  found : ∀ k, (∃ this, search s.root k = some this) ↔
    ∃ data ∈ s.inserted, key data = k
  duplicate : ∀ data, (∃ this, add s.root data = .duplicate this) ↔
    ∃ this ∈ s.inserted, key this = key data
  returned : ∀ data this, add s.root data = .duplicate this → key this = key data

variable (key : Node → BitVec w)

def searchKey (root : BinaryTree Node) (k : BitVec w) : Option Node :=
  search (diff key k) root

def addKey (root : BinaryTree Node) (data : Node) : Insertion Node :=
  insert (diff key (key data)) data root

/-- The nodes stand in a chain. -/
structure Sorted (words : Set (BitVec w)) (s : Added Node) : Prop where
  mem : ∀ data, data ∈ inorder s.root ↔ data ∈ s.inserted
  words : ∀ data ∈ s.inserted, key data ∈ words
  sorted : (inorder s.root).Pairwise fun a b => Below (key a) (key b)

variable {key} {words : Set (BitVec w)} {s s' : Added Node}

theorem Sorted.guided (hsorted : Sorted key words s) (hchained : Chained words)
    {k : BitVec w} (hk : k ∈ words) : Guided (diff key k) s.root := by
  apply List.Pairwise.imp_of_mem _ hsorted.sorted
  intro a b ha hb hab hle
  have hword : ∀ data ∈ inorder s.root, key data ∈ words := fun data hdata =>
    hsorted.words data ((hsorted.mem data).mp hdata)
  rcases lt_or_eq_of_le hle with hlt | hzero
  · exact hchained k hk _ (hword a ha) _ (hword b hb) hlt hab
  · rw [diff_eq_zero_iff] at hzero
    exact hzero ▸ hab

theorem Sorted.step [DecidableEq Node] (hsorted : Sorted key words s)
    (hchained : Chained words) {label : Node × BinaryTree Node} (hword : key label.1 ∈ words)
    (hnext : (inserting (addKey key)).next s label = some s') : Sorted key words s' := by
  obtain ⟨data, root⟩ := label
  simp only [inserting] at hnext
  cases hadd : addKey key s.root data with
  | duplicate this =>
      rw [hadd] at hnext
      cases hnext
      exact hsorted
  | linked linked =>
      rw [hadd] at hnext
      simp only [Option.ite_none_right_eq_some, Option.some.injEq] at hnext
      obtain ⟨hroot, rfl⟩ := hnext
      obtain ⟨before, after, hold, hnew, hsep⟩ := insert_linked hadd
      obtain ⟨hbefore, hafter⟩ := hsep (hsorted.guided hchained hword)
      have hpairwise := hsorted.sorted
      rw [hold, List.pairwise_append] at hpairwise
      obtain ⟨hb, ha, hcross⟩ := hpairwise
      constructor
      case mem =>
        intro data'
        rw [hroot, mem_inorder_of_linked hadd, List.mem_cons, hsorted.mem]
      case words =>
        intro data' hdata'
        rcases List.mem_cons.mp hdata' with rfl | hdata'
        · exact hword
        · exact hsorted.words data' hdata'
      case sorted =>
        rw [hroot, hnew, List.pairwise_append, List.pairwise_cons]
        refine ⟨hb, ⟨hafter, ha⟩, ?_⟩
        intro a hamem b hbmem
        rcases List.mem_cons.mp hbmem with rfl | hbmem
        · exact below_of_pos (hbefore a hamem)
        · exact hcross a hamem b hbmem

theorem Sorted.lookupsCorrect (hsorted : Sorted key words s) (hchained : Chained words) :
    LookupsCorrect key (searchKey key) (addKey key) s := by
  have hsound : ∀ k this, searchKey key s.root k = some this →
      this ∈ s.inserted ∧ key this = k := by
    intro k this hsearch
    obtain ⟨hmem, hzero⟩ := search_sound hsearch
    exact ⟨(hsorted.mem this).mp hmem, (diff_eq_zero_iff key k this).mp hzero⟩
  have hfound : ∀ k, (∃ this, searchKey key s.root k = some this) ↔
      ∃ data ∈ s.inserted, key data = k := by
    intro k
    constructor
    · rintro ⟨this, hsearch⟩
      exact ⟨this, hsound k this hsearch⟩
    · rintro ⟨data, hdata, rfl⟩
      refine ⟨data, search_complete ?_ ((hsorted.mem data).mpr hdata) ?_⟩
      · exact hsorted.guided hchained (hsorted.words data hdata)
      · exact (diff_eq_zero_iff key _ data).mpr rfl
  have hadd : ∀ data this, addKey key s.root data = .duplicate this ↔
      searchKey key s.root (key data) = some this := fun data this =>
    insert_eq_duplicate_iff
  constructor
  case sound => exact fun k this hsearch => (hsound k this hsearch).2
  case found => exact hfound
  case duplicate =>
    intro data
    rw [← hfound (key data)]
    exact exists_congr fun this => hadd data this
  case returned =>
    intro data this hduplicate
    exact (hsound _ this ((hadd data this).mp hduplicate)).2

/-! ## Which sets of nodes are safe -/

section Safe

variable [DecidableEq Node] {nodes : Set Node}

/-- Every run that inserts nodes of the set has correct lookups. -/
def Safe (key : Node → BitVec w) (nodes : Set Node) : Prop :=
  ∀ s, (inserting (addKey key)).ReachableUnder (fun _ label => label.1 ∈ nodes) s →
    LookupsCorrect key (searchKey key) (addKey key) s

theorem Chained.safe (hchained : Chained (key '' nodes)) : Safe key nodes := by
  intro s hreach
  have hsorted : Sorted key (key '' nodes) s := by
    refine hreach.invariant (P := Sorted key (key '' nodes)) ?_ ?_
    · exact ⟨fun _ => Iff.rfl, fun _ hdata => absurd hdata List.not_mem_nil,
        List.Pairwise.nil⟩
    · intro before label after _ hbefore hlabel hnext
      exact hbefore.step hchained ⟨label.1, hlabel, rfl⟩ hnext
  exact hsorted.lookupsCorrect hchained

theorem Safe.found (hsafe : Safe key nodes) {s : Added Node}
    (hreach : (inserting (addKey key)).ReachableUnder (fun _ label => label.1 ∈ nodes) s)
    {data : Node} (hdata : data ∈ s.inserted) : searchKey key s.root (key data) ≠ none := by
  obtain ⟨this, hsearch⟩ := ((hsafe s hreach).found (key data)).mpr ⟨data, hdata, rfl⟩
  rw [hsearch]
  exact Option.some_ne_none this

theorem reach_add {s : Added Node}
    (hreach : (inserting (addKey key)).ReachableUnder (fun _ label => label.1 ∈ nodes) s)
    {data : Node} (hdata : data ∈ nodes) {linked root : BinaryTree Node}
    (hadd : addKey key s.root data = .linked linked) (hroot : inorder root = inorder linked) :
    (inserting (addKey key)).ReachableUnder (fun _ label => label.1 ∈ nodes)
      ⟨root, data :: s.inserted⟩ := by
  have hnext : (inserting (addKey key)).next s (data, root) =
      some ⟨root, data :: s.inserted⟩ := by
    simp only [inserting, hadd, if_pos hroot]
  exact hreach.next hdata hnext

/-- A node that compares less is linked to the left of the first one, and the
rebalancing chooses the tree. -/
theorem reach_two {x y : Node} (hx : x ∈ nodes) (hy : y ∈ nodes)
    (hxy : Below (key x) (key y)) {root : BinaryTree Node} (hroot : inorder root = [x, y]) :
    (inserting (addKey key)).ReachableUnder (fun _ label => label.1 ∈ nodes)
      ⟨root, [x, y]⟩ := by
  have hone : (inserting (addKey key)).ReachableUnder (fun _ label => label.1 ∈ nodes)
      ⟨.node y .nil .nil, [y]⟩ :=
    reach_add .init hy rfl rfl
  have hneg : diff key (key x) y < 0 := hxy
  have hadd : addKey key (.node y .nil .nil) x =
      .linked (.node y (.node x .nil .nil) .nil) := by
    simp only [addKey, SearchTree.insert, Insertion.mapRoot, if_pos hneg]
  exact reach_add hone hx hadd hroot

/-- Two nodes each of which compares less than the other: with the one above the
other, the lower one is not found. -/
theorem Safe.not_below_both (hsafe : Safe key nodes) {x y : Node} (hx : x ∈ nodes)
    (hy : y ∈ nodes) (hxy : Below (key x) (key y)) : ¬Below (key y) (key x) := by
  intro hyx
  have hreach : (inserting (addKey key)).ReachableUnder (fun _ label => label.1 ∈ nodes)
      ⟨.node x .nil (.node y .nil .nil), [x, y]⟩ :=
    reach_two hx hy hxy rfl
  have hmem : y ∈ [x, y] := List.mem_cons_of_mem _ List.mem_cons_self
  have hneg : diff key (key y) x < 0 := hyx
  apply hsafe.found hreach hmem
  simp only [searchKey, search, if_pos hneg]

theorem Safe.chained (hsafe : Safe key nodes) : Chained (key '' nodes) := by
  rintro _ ⟨a, ha, rfl⟩ _ ⟨b, hb, rfl⟩ _ ⟨c, hc, rfl⟩ hab hbc
  by_contra hac
  have hcb : ¬Below (key c) (key b) := hsafe.not_below_both hb hc hbc
  have hne : key a ≠ key c := fun heq => hcb (heq ▸ hab)
  have hca : Below (key c) (key a) := (below_or_below hne).resolve_left hac
  have hpos : 0 < (key c - key b).toInt := by
    rcases lt_trichotomy (key c - key b).toInt 0 with hneg | hzero | hpos
    · exact absurd hneg hcb
    · rw [toInt_sub_eq_zero_iff] at hzero
      exact absurd (hzero ▸ hbc) (not_below_self _)
    · exact hpos
  have hright : 0 < diff key (key c) b := hpos
  have hleft : diff key (key c) a < 0 := hca
  have hadd : addKey key (.node b (.node a .nil .nil) .nil) c =
      .linked (.node b (.node a .nil .nil) (.node c .nil .nil)) := by
    simp only [addKey, SearchTree.insert, Insertion.mapRoot, if_neg (lt_asymm hright),
      if_pos hright]
  -- `c` is linked behind `b`, and the rebalancing puts both below `a`
  have htwo : (inserting (addKey key)).ReachableUnder (fun _ label => label.1 ∈ nodes)
      ⟨.node b (.node a .nil .nil) .nil, [a, b]⟩ :=
    reach_two ha hb hab rfl
  have hthree : (inserting (addKey key)).ReachableUnder (fun _ label => label.1 ∈ nodes)
      ⟨.node a .nil (.node b .nil (.node c .nil .nil)), [c, a, b]⟩ :=
    reach_add htwo hc hadd rfl
  apply hsafe.found hthree List.mem_cons_self
  simp only [searchKey, search, if_pos hleft]

/-- Lookups are correct in every run exactly when the comparison does not go round
on the words of the nodes. -/
theorem safe_iff_chained : Safe key nodes ↔ Chained (key '' nodes) :=
  ⟨Safe.chained, Chained.safe⟩

end Safe

end KtcpSplit.WrappingTree
