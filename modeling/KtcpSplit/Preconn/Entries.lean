import KtcpSplit.Lib.Transition
import KtcpSplit.Tree.Preconn
import Mathlib.Logic.Function.Basic

/-!
# The entry of a next hop

Workers that return a connection ask for the entry of its next hop, and the first of
them creates it.  The calls of `get_rb_preconn` interleave at its four steps, each of
which holds the lock of the tree or touches only the node of its own call.
-/

namespace KtcpSplit.Entries

open KtcpSplit.Preconn
open KtcpSplit.SearchTree
open KtcpSplit.Transition

/-- The next step of a call, with the address of its node. -/
inductive Pc
  | search
  | alloc
  | init (id : ℕ)
  | add (id : ℕ)
  | returned (preconn : Option CbnPreconnection)
  deriving DecidableEq

/-- The node that only this call knows. -/
def Pc.own : Pc → Option ℕ
  | .init id => some id
  | .add id => some id
  | _ => none

/-- `pcpList` says whether the pointer `pcp_list` of a node is not null, and `freed` is
what `kmem_cache_free` got.  An address is not given out again.  `failed` records the
calls one of whose allocations failed. -/
structure State (ι : Type*) where
  root : BinaryTree CbnPreconnection
  next : ℕ
  pcpList : ℕ → Bool
  freed : List ℕ
  call : ι → Pc
  failed : ι → Bool

/-- What a step does not decide: `fail` is a failed allocation, `link` says how the tree
is rebalanced. -/
inductive Act
  | go
  | fail
  | link (root : BinaryTree CbnPreconnection)

variable {ι : Type*} [DecidableEq ι]

namespace State

variable (s : State ι) (i : ι)

def setCall (pc : Pc) : State ι := { s with call := Function.update s.call i pc }

def kmemCacheFree (id : ℕ) : State ι := { s with freed := id :: s.freed }

def fail : State ι := { s with failed := Function.update s.failed i true }

/-- `init_preconn`, up to the fields that no other call can see. -/
def initPreconn (id : ℕ) (allocated : Bool) : State ι :=
  { s with pcpList := Function.update s.pcpList id allocated }

/-- A call of `get_rb_preconn` for `key`. -/
def getRbPreconn (key : NextHop) : Pc → Act → Option (State ι)
  | .search, .go =>
      match searchRbPreconn s.root key with
      | some preconn => some (s.setCall i (.returned (some preconn)))
      | none => some (s.setCall i .alloc)
  | .alloc, .go => some { s.setCall i (.init s.next) with next := s.next + 1 }
  | .alloc, .fail => some ((s.fail i).setCall i (.returned none))
  | .init id, .go => some ((s.initPreconn id true).setCall i (.add id))
  | .init id, .fail =>
      -- the node is freed, and the call goes on with it
      some ((((s.initPreconn id false).fail i).kmemCacheFree id).setCall i (.add id))
  | .add id, .link root =>
      match addRbPreconn s.root ⟨id, key⟩ with
      | .duplicate _ => some ((s.kmemCacheFree id).setCall i (.returned none))
      | .linked linked =>
          if inorder root = inorder linked then
            some ({ s with root := root }.setCall i (.returned (some ⟨id, key⟩)))
          else none
  | _, _ => none

end State

/-- Any number of calls, each with its key. -/
def entries (key : ι → NextHop) : Machine (State ι) (ι × Act) where
  init := {
    root := .nil
    next := 0
    pcpList := fun _ => false
    freed := []
    call := fun _ => .search
    failed := fun _ => false }
  next := fun s (i, act) => s.getRbPreconn i (key i) (s.call i) act

/-- One live entry per next hop. -/
structure OneEntry (key : ι → NextHop) (s : State ι) : Prop where
  live : ∀ this ∈ inorder s.root, this.id ∉ s.freed
  pcpList : ∀ this ∈ inorder s.root, s.pcpList this.id = true
  unique : ((inorder s.root).map CbnPreconnection.key).Nodup
  returned : ∀ i preconn, s.call i = .returned (some preconn) →
    preconn ∈ inorder s.root ∧ preconn.key = key i
  null : ∀ i, s.call i = .returned none → s.failed i = true
  freedOnce : s.freed.Nodup

/-- A call is about to add a node whose per-CPU allocation failed, or one whose key is in
the tree by now. -/
def Misses (key : ι → NextHop) (s : State ι) (label : ι × Act) : Prop :=
  ∃ id ∈ (s.call label.1).own, s.call label.1 = .add id ∧
    (s.pcpList id = false ∨ ∃ this ∈ inorder s.root, this.key = key label.1)

instance decidableMisses (key : ι → NextHop) (s : State ι) (label : ι × Act) :
    Decidable (Misses key s label) :=
  inferInstanceAs (Decidable (∃ id ∈ (s.call label.1).own, _ ∧ (_ ∨ ∃ this ∈ _, _)))

/-! ## Runs without a miss -/

/-- No other call and no node of the tree has the address. -/
def Private (s : State ι) (id : ℕ) : Prop :=
  id < s.next ∧ ∀ this ∈ inorder s.root, this.id ≠ id

/-- What holds of a call between its steps. -/
def CallOk (s : State ι) (i : ι) (key : NextHop) : Pc → Prop
  | .search => s.failed i = false
  | .alloc => s.failed i = false
  | .init id => Private s id ∧ id ∉ s.freed ∧ s.failed i = false
  | .add id => Private s id ∧
      (s.pcpList id = true ∧ id ∉ s.freed ∧ s.failed i = false ∨
        s.pcpList id = false ∧ id ∈ s.freed)
  | .returned (some preconn) => preconn ∈ inorder s.root ∧ preconn.key = key
  | .returned none => s.failed i = true

structure Inv (key : ι → NextHop) (s : State ι) : Prop where
  live : ∀ this ∈ inorder s.root, this.id < s.next ∧ this.id ∉ s.freed
  pcpList : ∀ this ∈ inorder s.root, s.pcpList this.id = true
  unique : ((inorder s.root).map CbnPreconnection.key).Nodup
  call : ∀ i, CallOk s i (key i) (s.call i)
  alone : ∀ i j id, (s.call i).own = some id → (s.call j).own = some id → i = j
  freed : s.freed.Nodup ∧ ∀ id ∈ s.freed, id < s.next

variable {key : ι → NextHop} {s s' : State ι} {i : ι}

omit [DecidableEq ι] in
theorem Inv.oneEntry (hinv : Inv key s) : OneEntry key s where
  live := fun this hmem => (hinv.live this hmem).2
  pcpList := hinv.pcpList
  unique := hinv.unique
  returned := by
    intro i preconn hcall
    have hok := hinv.call i
    rw [hcall] at hok
    exact hok
  null := by
    intro i hcall
    have hok := hinv.call i
    rw [hcall] at hok
    exact hok
  freedOnce := hinv.freed.1

/-- What a step of the call `i` leaves alone: everything but the node `own`. -/
structure Frame (s s' : State ι) (i : ι) (own : Option ℕ) : Prop where
  next : s.next ≤ s'.next
  mem : ∀ this ∈ inorder s.root, this ∈ inorder s'.root
  new : ∀ this ∈ inorder s'.root, this ∈ inorder s.root ∨ own = some this.id
  pcpList : ∀ id, own ≠ some id → s'.pcpList id = s.pcpList id
  freed : ∀ id, own ≠ some id → (id ∈ s'.freed ↔ id ∈ s.freed)
  call : ∀ j, j ≠ i → s'.call j = s.call j
  failed : ∀ j, j ≠ i → s'.failed j = s.failed j

omit [DecidableEq ι] in
theorem Private.frame {own : Option ℕ} (hframe : Frame s s' i own) {id : ℕ}
    (hne : own ≠ some id) (hprivate : Private s id) : Private s' id := by
  refine ⟨hprivate.1.trans_le hframe.next, fun this hmem => ?_⟩
  rcases hframe.new this hmem with hold | hown
  · exact hprivate.2 this hold
  · rintro rfl
    exact hne hown

omit [DecidableEq ι] in
/-- A call keeps what it knows while another makes a step. -/
theorem CallOk.frame {own : Option ℕ} (hframe : Frame s s' i own) {j : ι} (hj : j ≠ i)
    {k : NextHop} {pc : Pc} (hother : ∀ id, pc.own = some id → own ≠ some id)
    (hok : CallOk s j k pc) : CallOk s' j k pc := by
  cases pc with
  | search => exact (hframe.failed j hj).trans hok
  | alloc => exact (hframe.failed j hj).trans hok
  | init id =>
      have hne := hother id rfl
      refine ⟨hok.1.frame hframe hne, ?_⟩
      rw [hframe.freed id hne, hframe.failed j hj]
      exact hok.2
  | add id =>
      have hne := hother id rfl
      refine ⟨hok.1.frame hframe hne, ?_⟩
      rw [hframe.pcpList id hne, hframe.freed id hne, hframe.failed j hj]
      exact hok.2
  | returned preconn =>
      cases preconn with
      | some preconn => exact ⟨hframe.mem preconn hok.1, hok.2⟩
      | none => exact (hframe.failed j hj).trans hok

omit [DecidableEq ι] in
/-- A step only has to account for its own call and for the tree. -/
theorem Inv.turn (hinv : Inv key s) (i : ι) (own : Option ℕ) (hframe : Frame s s' i own)
    (howner : ∀ id, own = some id → (s.call i).own = some id ∨ id = s.next)
    (hlive : ∀ this ∈ inorder s'.root, this.id < s'.next ∧ this.id ∉ s'.freed)
    (hpcpList : ∀ this ∈ inorder s'.root, s'.pcpList this.id = true)
    (hunique : ((inorder s'.root).map CbnPreconnection.key).Nodup)
    (hcall : CallOk s' i (key i) (s'.call i))
    (hkept : ∀ id, (s'.call i).own = some id → own = some id)
    (hfreed : s'.freed.Nodup ∧ ∀ id ∈ s'.freed, id < s'.next) : Inv key s' := by
  have hbelow : ∀ j id, (s.call j).own = some id → id < s.next := by
    intro j id hown
    have hok := hinv.call j
    cases hpc : s.call j with
    | init id' => rw [hpc] at hok hown; cases hown; exact hok.1.1
    | add id' => rw [hpc] at hok hown; cases hown; exact hok.1.1
    | _ => rw [hpc] at hown; cases hown
  have hother : ∀ j, j ≠ i → ∀ id, (s.call j).own = some id → own ≠ some id := by
    intro j hj id hown heq
    rcases howner id heq with howni | rfl
    · exact hj (hinv.alone j i id hown howni)
    · exact absurd (hbelow j _ hown) (Nat.lt_irrefl _)
  refine ⟨hlive, hpcpList, hunique, fun j => ?_, fun j k id hj hk => ?_, hfreed⟩
  · by_cases hji : j = i
    · subst hji
      exact hcall
    · rw [hframe.call j hji]
      exact (hinv.call j).frame hframe hji (hother j hji)
  · by_cases hji : j = i
    · by_cases hki : k = i
      · rw [hji, hki]
      · subst hji
        rw [hframe.call k hki] at hk
        exact absurd (hkept id hj) (hother k hki id hk)
    · rw [hframe.call j hji] at hj
      by_cases hki : k = i
      · subst hki
        exact absurd (hkept id hk) (hother j hji id hj)
      · rw [hframe.call k hki] at hk
        exact hinv.alone j k id hj hk

/-- The call goes on without a node, and its allocation may have failed. -/
theorem Inv.setCall (hinv : Inv key s) {failed : ι → Bool}
    (hfailed : ∀ j, j ≠ i → failed j = s.failed j) {pc : Pc} (hown : pc.own = none)
    (hcall : CallOk { s with failed := failed } i (key i) pc) :
    Inv key ({ s with failed := failed }.setCall i pc) := by
  have hself : ({ s with failed := failed }.setCall i pc).call i = pc :=
    Function.update_self ..
  refine hinv.turn i none ?frame ?_ hinv.live hinv.pcpList hinv.unique ?_ ?_ hinv.freed
  case frame =>
    exact {
      next := le_rfl
      mem := fun _ hmem => hmem
      new := fun _ hmem => .inl hmem
      pcpList := fun _ _ => rfl
      freed := fun _ _ => Iff.rfl
      call := fun j hj => Function.update_of_ne hj _ _
      failed := hfailed }
  · intro id heq
    cases heq
  · rw [hself]
    exact hcall
  · intro id hid
    rw [hself, hown] at hid
    cases hid

theorem Inv.alloc (hinv : Inv key s) (hpc : s.call i = .alloc) :
    Inv key { s.setCall i (.init s.next) with next := s.next + 1 } := by
  have hself : (s.setCall i (.init s.next)).call i = .init s.next := Function.update_self ..
  refine hinv.turn i (some s.next) ?frame (fun id heq => .inr (Option.some.inj heq).symm)
    (fun this hmem => ?_) hinv.pcpList hinv.unique ?_ ?_ ?_
  case frame =>
    exact {
      next := Nat.le_succ _
      mem := fun _ hmem => hmem
      new := fun _ hmem => .inl hmem
      pcpList := fun _ _ => rfl
      freed := fun _ _ => Iff.rfl
      call := fun j hj => Function.update_of_ne hj _ _
      failed := fun _ _ => rfl }
  · obtain ⟨hlt, hlive⟩ := hinv.live this hmem
    exact ⟨Nat.lt_succ_of_lt hlt, hlive⟩
  · dsimp only
    rw [hself]
    have hok := hinv.call i
    rw [hpc] at hok
    refine ⟨⟨Nat.lt_succ_self _, fun this hmem => (hinv.live this hmem).1.ne⟩,
      fun hmem => ?_, hok⟩
    exact absurd (hinv.freed.2 _ hmem) (Nat.lt_irrefl _)
  · intro id hid
    dsimp only at hid
    rw [hself] at hid
    exact hid
  · exact ⟨hinv.freed.1, fun id hid => Nat.lt_succ_of_lt (hinv.freed.2 id hid)⟩

/-- `init_preconn`; when it fails the node is freed before it is added. -/
theorem Inv.init (hinv : Inv key s) {id : ℕ} (hpc : s.call i = .init id) (allocated : Bool)
    {freed : List ℕ} (hfreed : freed = if allocated then s.freed else id :: s.freed)
    {failed : ι → Bool} (hfailed : ∀ j, j ≠ i ∨ allocated = true → failed j = s.failed j) :
    Inv key ({ s.initPreconn id allocated with freed := freed, failed := failed }.setCall i
      (.add id)) := by
  have hok := hinv.call i
  rw [hpc] at hok
  obtain ⟨⟨hlt, htree⟩, hlive, hsucceeded⟩ := hok
  have hmem : ∀ id', id' ∈ freed ↔ allocated = false ∧ id' = id ∨ id' ∈ s.freed := by
    intro id'
    rw [hfreed]
    cases allocated with
    | true => simp
    | false => simp
  have hself : ({ s.initPreconn id allocated with freed := freed, failed := failed }.setCall i
      (.add id)).call i = .add id := Function.update_self ..
  refine hinv.turn i (some id) ?frame ?_ (fun this hthis => ?_) (fun this hthis => ?_)
    hinv.unique ?_ ?_ ?_
  case frame =>
    exact {
      next := le_rfl
      mem := fun _ hthis => hthis
      new := fun _ hthis => .inl hthis
      pcpList := fun id' hne => Function.update_of_ne (fun heq => hne (congrArg some heq.symm)) _ _
      freed := fun id' hne =>
        (hmem id').trans (or_iff_right fun h => hne (congrArg some h.2.symm))
      call := fun j hj => Function.update_of_ne hj _ _
      failed := fun j hj => hfailed j (.inl hj) }
  · rintro id' heq
    cases heq
    rw [hpc]
    exact .inl rfl
  · obtain ⟨hlt', hlive'⟩ := hinv.live this hthis
    refine ⟨hlt', fun h => ?_⟩
    rcases (hmem _).mp h with ⟨-, heq⟩ | h
    · exact htree this hthis heq
    · exact hlive' h
  · exact (Function.update_of_ne (htree this hthis) _ _).trans (hinv.pcpList this hthis)
  · rw [hself]
    refine ⟨⟨hlt, htree⟩, ?_⟩
    have hpcp : ({ s.initPreconn id allocated with freed := freed, failed := failed }.setCall i
        (.add id)).pcpList id = allocated := Function.update_self ..
    rw [hpcp]
    cases allocated with
    | true =>
        refine .inl ⟨rfl, fun h => ?_, (hfailed i (.inr rfl)).trans hsucceeded⟩
        rcases (hmem id).mp h with ⟨hfalse, -⟩ | hold
        · cases hfalse
        · exact hlive hold
    | false => exact .inr ⟨rfl, (hmem id).mpr (.inl ⟨rfl, rfl⟩)⟩
  · intro id' hid
    rw [hself] at hid
    exact hid
  · refine ⟨?_, fun id' hid => ?_⟩
    · change freed.Nodup
      rw [hfreed]
      cases allocated with
      | true => exact hinv.freed.1
      | false => exact List.nodup_cons.mpr ⟨hlive, hinv.freed.1⟩
    · rcases (hmem id').mp hid with ⟨-, rfl⟩ | hold
      · exact hlt
      · exact hinv.freed.2 id' hold

/-- The node is linked, for no other one of the tree has its key. -/
theorem Inv.add (hinv : Inv key s) {id : ℕ} (hpc : s.call i = .add id)
    (hpcp : s.pcpList id = true) (hnew : ∀ this ∈ inorder s.root, this.key ≠ key i)
    {linked root : BinaryTree CbnPreconnection}
    (hadd : addRbPreconn s.root ⟨id, key i⟩ = .linked linked)
    (hroot : inorder root = inorder linked) :
    Inv key ({ s with root := root }.setCall i (.returned (some ⟨id, key i⟩))) := by
  have hok := hinv.call i
  rw [hpc] at hok
  obtain ⟨⟨hlt, htree⟩, hstate⟩ := hok
  have hlive : id ∉ s.freed := by
    rcases hstate with ⟨-, hlive, -⟩ | ⟨hnull, -⟩
    · exact hlive
    · rw [hpcp] at hnull
      cases hnull
  have hmem : ∀ this, this ∈ inorder root ↔ this = ⟨id, key i⟩ ∨ this ∈ inorder s.root := by
    intro this
    rw [hroot]
    exact mem_inorder_of_linked hadd this
  have hself : ({ s with root := root }.setCall i (.returned (some ⟨id, key i⟩))).call i =
      .returned (some ⟨id, key i⟩) := Function.update_self ..
  refine hinv.turn i (some id) ?frame ?_ (fun this hthis => ?_) (fun this hthis => ?_)
    ?unique ?_ ?_ hinv.freed
  case frame =>
    exact {
      next := le_rfl
      mem := fun this hthis => (hmem this).mpr (.inr hthis)
      new := fun this hthis => ((hmem this).mp hthis).symm.imp_right
        fun heq => congrArg some (congrArg CbnPreconnection.id heq).symm
      pcpList := fun _ _ => rfl
      freed := fun _ _ => Iff.rfl
      call := fun j hj => Function.update_of_ne hj _ _
      failed := fun _ _ => rfl }
  case unique =>
    obtain ⟨before, after, hold, hnewroot, -⟩ := insert_linked hadd
    have hunique := hinv.unique
    change ((inorder root).map CbnPreconnection.key).Nodup
    rw [hold] at hunique hnew
    rw [hroot, hnewroot, List.map_append, List.map_cons, List.nodup_middle, List.nodup_cons,
      ← List.map_append]
    refine ⟨fun h => ?_, hunique⟩
    obtain ⟨this, hthis, heq⟩ := List.mem_map.mp h
    exact hnew this hthis heq
  · rintro id' heq
    cases heq
    rw [hpc]
    exact .inl rfl
  · rcases (hmem this).mp hthis with rfl | hold
    · exact ⟨hlt, hlive⟩
    · exact hinv.live this hold
  · rcases (hmem this).mp hthis with rfl | hold
    · exact hpcp
    · exact hinv.pcpList this hold
  · rw [hself]
    exact ⟨(hmem _).mpr (.inl rfl), rfl⟩
  · intro id' hid
    rw [hself] at hid
    cases hid

/-- A step that does not miss keeps one entry per next hop. -/
theorem Inv.next (hinv : Inv key s) {label : ι × Act} (hmiss : ¬Misses key s label)
    (hnext : (entries key).next s label = some s') : Inv key s' := by
  obtain ⟨i, act⟩ := label
  change s.getRbPreconn i (key i) (s.call i) act = some s' at hnext
  cases hpc : s.call i with
  | search =>
      rw [hpc] at hnext
      cases act with
      | go =>
          simp only [State.getRbPreconn] at hnext
          split at hnext
          · rename_i this hsearch
            cases hnext
            obtain ⟨hmem, hzero⟩ := search_sound hsearch
            exact hinv.setCall (fun _ _ => rfl) rfl ⟨hmem, (keyDiff_eq_zero_iff _ _).mp hzero⟩
          · cases hnext
            have hok := hinv.call i
            rw [hpc] at hok
            exact hinv.setCall (fun _ _ => rfl) rfl hok
      | fail => cases hnext
      | link root => cases hnext
  | alloc =>
      rw [hpc] at hnext
      cases act with
      | go =>
          cases hnext
          exact hinv.alloc hpc
      | fail =>
          cases hnext
          exact hinv.setCall (fun j hj => Function.update_of_ne hj _ _) rfl
            (Function.update_self ..)
      | link root => cases hnext
  | init id =>
      rw [hpc] at hnext
      cases act with
      | go =>
          cases hnext
          exact hinv.init hpc true rfl fun _ _ => rfl
      | fail =>
          cases hnext
          refine hinv.init hpc false rfl fun j hj => Function.update_of_ne ?_ _ _
          rcases hj with hj | hfalse
          · exact hj
          · cases hfalse
      | link root => cases hnext
  | add id =>
      have hmiss : ¬(s.pcpList id = false ∨ ∃ this ∈ inorder s.root, this.key = key i) :=
        fun h => hmiss ⟨id, by rw [hpc]; rfl, hpc, h⟩
      rw [not_or, not_exists] at hmiss
      obtain ⟨hpcp, hnew⟩ := hmiss
      have hnew : ∀ this ∈ inorder s.root, this.key ≠ key i :=
        fun this hthis heq => hnew this ⟨hthis, heq⟩
      rw [hpc] at hnext
      cases act with
      | go => cases hnext
      | fail => cases hnext
      | link root =>
          simp only [State.getRbPreconn] at hnext
          split at hnext
          · rename_i this hduplicate
            obtain ⟨hmem, hzero⟩ := search_sound (insert_eq_duplicate_iff.mp hduplicate)
            exact absurd ((keyDiff_eq_zero_iff _ _).mp hzero) (hnew this hmem)
          · rename_i linked hadd
            obtain ⟨hroot, heq⟩ := Option.ite_none_right_eq_some.mp hnext
            cases heq
            exact hinv.add hpc (Bool.eq_true_of_not_eq_false hpcp) hnew hadd hroot
  | returned preconn =>
      rw [hpc] at hnext
      cases hnext

/-- A miss links a node that was freed or a second one with its key, frees a node twice, or
returns the null pointer to a call that got all it asked for. -/
theorem Inv.not_oneEntry (hinv : Inv key s) {label : ι × Act} (hmiss : Misses key s label)
    (hnext : (entries key).next s label = some s') : ¬OneEntry key s' := by
  obtain ⟨i, act⟩ := label
  obtain ⟨id, -, hpc, hmiss⟩ := hmiss
  change s.call i = .add id at hpc
  change s.getRbPreconn i (key i) (s.call i) act = some s' at hnext
  have hok := hinv.call i
  rw [hpc] at hok hnext
  obtain ⟨-, hstate⟩ := hok
  cases act with
  | go => cases hnext
  | fail => cases hnext
  | link root =>
      intro hone
      simp only [State.getRbPreconn] at hnext
      split at hnext
      · cases hnext
        rcases hstate with ⟨-, -, hsucceeded⟩ | ⟨-, hfreed⟩
        · have hfailed := hone.null i (Function.update_self ..)
          exact absurd (hsucceeded.symm.trans hfailed) (by decide)
        · exact (List.nodup_cons.mp hone.freedOnce).1 hfreed
      · rename_i linked hadd
        obtain ⟨hroot, heq⟩ := Option.ite_none_right_eq_some.mp hnext
        cases heq
        obtain ⟨before, after, hold, hnew, -⟩ := insert_linked hadd
        rcases hmiss with hnull | ⟨this, hthis, hkey⟩
        · have hmem : ⟨id, key i⟩ ∈ inorder root :=
            hroot ▸ (mem_inorder_of_linked hadd _).mpr (.inl rfl)
          exact absurd (hnull.symm.trans (hone.pcpList _ hmem)) (by decide)
        · have hunique : ((inorder root).map CbnPreconnection.key).Nodup := hone.unique
          rw [hroot, hnew, List.map_append, List.map_cons, List.nodup_middle, List.nodup_cons,
            ← List.map_append] at hunique
          rw [hold] at hthis
          exact hunique.1 (List.mem_map.mpr ⟨this, hthis, hkey⟩)

/-- In a run without a miss there is one live entry per next hop.  The first call that adds a
node without its lists, or one whose key another call has added meanwhile, ends that. -/
theorem one_entry_per_hop (key : ι → NextHop) (s : State ι)
    (hreach : (entries key).ReachableUnder (fun s label => ¬Misses key s label) s) :
    OneEntry key s ∧ ∀ label s', (entries key).next s label = some s' →
      (OneEntry key s' ↔ ¬Misses key s label) := by
  have hinv : Inv key s := by
    refine hreach.invariant (P := Inv key) ?_ ?_
    · refine ⟨fun _ hmem => absurd hmem List.not_mem_nil, fun _ hmem => absurd hmem
        List.not_mem_nil, List.nodup_nil, fun _ => rfl, fun i j id hown => ?_, List.nodup_nil,
        fun _ hmem => absurd hmem List.not_mem_nil⟩
      cases hown
    · rintro before label after - hinv hmiss hnext
      exact hinv.next hmiss hnext
  exact ⟨hinv.oneEntry, fun label s' hnext =>
    ⟨fun hone hmiss => hinv.not_oneEntry hmiss hnext hone,
      fun hmiss => (hinv.next hmiss hnext).oneEntry⟩⟩

/-- Two calls for one next hop: the second one finds the entry of the first. -/
theorem one_entry_per_hop_found :
    ∃ s : State Bool, (s.call false, s.call true) =
        (.returned (some ⟨0, 167772161⟩), .returned (some ⟨0, 167772161⟩)) ∧
      OneEntry (fun _ => 167772161) s := by
  obtain ⟨s, hreach, hs⟩ := Machine.exists_reachable_of_run
    (entries fun _ : Bool => (167772161 : NextHop))
    (fun s label => ¬Misses (fun _ => 167772161) s label)
    [(false, .go), (false, .go), (false, .go),
      (false, .link (.node ⟨0, 167772161⟩ .nil .nil)), (true, .go)]
    (fun s => (s.call false, s.call true))
    (.returned (some ⟨0, 167772161⟩), .returned (some ⟨0, 167772161⟩)) (by decide +kernel)
  exact ⟨s, hs, (one_entry_per_hop _ s hreach).1⟩

/-- A call whose per-CPU allocation failed returns its freed node from the tree.  Of two calls
that search at the same time one returns the null pointer, though all its allocations
succeeded. -/
theorem entry_freed_or_missing :
    (∃ s : State Unit, (entries fun _ => 167772161).Reachable s ∧
        (∃ this ∈ inorder s.root, this.id ∈ s.freed ∧ s.pcpList this.id = false) ∧
        ¬OneEntry (fun _ => 167772161) s) ∧
      ∃ s : State Bool, (entries fun _ => 167772161).Reachable s ∧
        (s.call true = .returned none ∧ s.failed true = false) ∧
        ¬OneEntry (fun _ => 167772161) s := by
  let root : BinaryTree CbnPreconnection := .node ⟨0, 167772161⟩ .nil .nil
  constructor
  · obtain ⟨s, hreach, hs⟩ := Machine.exists_reachable_of_run
      (entries fun _ : Unit => (167772161 : NextHop)) (fun _ _ => True)
      [((), .go), ((), .go), ((), .fail), ((), .link root)]
      (fun s => decide (s.root = root ∧ s.freed = [0] ∧ s.pcpList 0 = false)) true
      (by decide +kernel)
    obtain ⟨hroot, hfreed, hnull⟩ := of_decide_eq_true hs
    have hmem : ⟨0, 167772161⟩ ∈ inorder s.root := by
      rw [hroot]
      exact List.mem_singleton_self _
    have hgone : 0 ∈ s.freed := by
      rw [hfreed]
      exact List.mem_singleton_self _
    exact ⟨s, hreach, ⟨_, hmem, hgone, hnull⟩, fun hone => hone.live _ hmem hgone⟩
  · obtain ⟨s, hreach, hs⟩ := Machine.exists_reachable_of_run
      (entries fun _ : Bool => (167772161 : NextHop)) (fun _ _ => True)
      [(false, .go), (true, .go), (false, .go), (true, .go), (false, .go), (true, .go),
        (false, .link root), (true, .link root)]
      (fun s => (s.call true, s.failed true)) (.returned none, false) (by decide +kernel)
    have hnull : s.call true = .returned none := congrArg Prod.fst hs
    have hsucceeded : s.failed true = false := congrArg Prod.snd hs
    refine ⟨s, hreach, ⟨hnull, hsucceeded⟩, fun hone => ?_⟩
    exact absurd (hsucceeded.symm.trans (hone.null true hnull)) (by decide)

end KtcpSplit.Entries
