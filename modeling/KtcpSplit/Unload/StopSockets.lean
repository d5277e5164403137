import KtcpSplit.Lib.Ledger
import KtcpSplit.Lib.RedBlack.Drain
import KtcpSplit.Tree.Lookups

/-!
# Stopping the servers

`stop_sockets` walks the tree of listeners in postorder and removes each listener
that it visits.  The next listener is fetched before the removal rebalances the
tree, so it depends on the colours which listeners are visited.
-/

namespace KtcpSplit.StopSockets

open KtcpSplit.Ledger
open KtcpSplit.Listner hiding addRbListner
open KtcpSplit.RedBlack
open KtcpSplit.SearchTree (Insertion inorder)
open KtcpSplit.Transition
open KtcpSplit.WrappingTree

/-! ## The tree of listeners -/

/-- `add_rb_listner`: the listener that it returns, and the tree. -/
def addRbListner (root : RbTree CbnListner) (data : CbnListner) :
    Option CbnListner × RbTree CbnListner :=
  match descend (keyDiff data.key) root [] with
  | .error this => (some this, root)
  | .ok path => (none, link data path)

/-- Calls of `add_rb_listner`, each with a listener at a new address. -/
def registrations : Machine (RbTree CbnListner) CbnListner where
  init := .nil
  next := fun root data =>
    if data.id ∈ root.inorder.map CbnListner.id then none else some (addRbListner root data).2

/-- A balanced tree of listeners at different addresses. -/
structure Built (root : RbTree CbnListner) : Prop where
  balanced : ∃ n, Balanced root .black n
  nodup : (root.inorder.map CbnListner.id).Nodup

variable {root : RbTree CbnListner} {data : CbnListner}

theorem addRbListner_cases (root : RbTree CbnListner) (data : CbnListner) :
    (∃ this, Listner.addRbListner root.uncolored data = .duplicate this ∧
      addRbListner root data = (some this, root)) ∨
    ∃ path linked, descend (keyDiff data.key) root [] = .ok path ∧
      Listner.addRbListner root.uncolored data = .linked linked ∧
      inorder linked = (link data path).inorder ∧
      addRbListner root data = (none, link data path) := by
  rw [addRbListner]
  cases hdescend : descend (keyDiff data.key) root [] with
  | error this =>
      refine .inl ⟨this, ?_, rfl⟩
      exact SearchTree.insert_eq_duplicate_iff.mpr ((descend_eq_error_iff []).mp hdescend)
  | ok path =>
      obtain ⟨linked, hlinked, hinorder⟩ := insert_of_descend data hdescend
      refine .inr ⟨path, linked, rfl, hlinked, ?_, rfl⟩
      rw [inorder_link, ← hinorder]
      simp [before, after]

/-- The colours decide one of the trees that the run without colours may choose. -/
theorem uncolored_reachable (hreach : registrations.Reachable root) :
    ∃ s, (inserting Listner.addRbListner).Reachable s ∧ s.root = root.uncolored := by
  refine hreach.simulate (N := inserting Listner.addRbListner)
    (fun root s => s.root = root.uncolored) rfl ?_
  intro before data after s _ hs _ hnext
  simp only [registrations] at hnext
  split at hnext
  · cases hnext
  · cases hnext
    refine ⟨(data, (addRbListner before data).2.uncolored), ?_⟩
    simp only [inserting, hs]
    rcases addRbListner_cases before data with ⟨this, hadd, hroot⟩ |
      ⟨path, linked, -, hadd, hinorder, hroot⟩
    · exact ⟨s, trivial, by rw [hadd], by rw [hroot, hs]⟩
    · refine ⟨⟨(link data path).uncolored, data :: s.inserted⟩, trivial, ?_, by rw [hroot]⟩
      rw [hadd, hroot]
      exact if_pos (by rw [inorder_uncolored, hinorder])

theorem Built.add (hbuilt : Built root) (hnew : data.id ∉ root.inorder.map CbnListner.id) :
    Built (addRbListner root data).2 := by
  rw [addRbListner]
  cases hdescend : descend (keyDiff data.key) root [] with
  | error this => exact hbuilt
  | ok path =>
      obtain ⟨n, hbalanced⟩ := hbuilt.balanced
      refine ⟨hbalanced.link hdescend data, ?_⟩
      have hroot : root.inorder = before path ++ after path := by
        rw [show root = plug path .nil from (plug_descend hdescend).symm, inorder_plug]
        simp
      have hnodup := hbuilt.nodup
      rw [hroot] at hnew hnodup
      rw [inorder_link]
      refine (List.perm_middle.map CbnListner.id).nodup_iff.mpr ?_
      exact List.nodup_cons.mpr ⟨hnew, hnodup⟩

theorem built_of_reachable (hreach : registrations.Reachable root) : Built root := by
  have hempty : Built .nil := ⟨⟨0, .nil⟩, List.nodup_nil⟩
  refine hreach.invariant (P := Built) hempty ?_
  intro before data after _ hbuilt _ hnext
  simp only [registrations] at hnext
  split at hnext
  · cases hnext
  · rename_i hnew
    cases hnext
    exact hbuilt.add hnew

/-! ## The walk -/

/-- A listener, by its address, and a socket. -/
inductive Res
  | listner (l : ℕ)
  | sock (s : ℕ)
  deriving DecidableEq

/-- The library looks at nodes that are linked, and only at these. -/
def readLinked (root : RbTree CbnListner) : List (Event Res) :=
  root.inorder.map fun l => .access (.listner l.id)

/-- `remove_listner_server` with the field `sock` of the listeners. -/
def removeListnerServer (sock : CbnListner → Option ℕ) (pos : CbnListner)
    (root : RbTree CbnListner) : List (Event Res) :=
  .access (.listner pos.id) ::
    ((sock pos).toList.map fun s => .access (.sock s)) ++
    readLinked root ++ [.release (.listner pos.id)]

/-- The body of the loop, after `rb_next_postorder` for the next listener. -/
def visit (sock : CbnListner → Option ℕ) : CbnListner × RbTree CbnListner → List (Event Res)
  | (pos, root) =>
      .access (.listner pos.id) :: readLinked root ++ removeListnerServer sock pos root

/-- What `stop_sockets` does, and the tree that it leaves. -/
def stopSockets (sock : CbnListner → Option ℕ) (root : RbTree CbnListner) :
    List (Event Res) × RbTree CbnListner :=
  (readLinked root ++ (drain root).visits.flatMap (visit sock), (drain root).root)

/-- Every listener is stopped and freed. -/
structure Stopped (sock : CbnListner → Option ℕ) (root : RbTree CbnListner) : Prop where
  /-- The loop ends. -/
  ends : (drain root).pos = none
  visits : ((drain root).visits.map Prod.fst).Perm root.inorder
  empty : (stopSockets sock root).2 = .nil
  shutdown : ∀ l ∈ root.inorder, ∀ s, sock l = some s →
    .access (.sock s) ∈ (stopSockets sock root).1
  /-- Each listener is freed once, and not looked at afterwards. -/
  freed : ∀ l ∈ root.inorder,
    status (.listner l.id) .held (stopSockets sock root).1 = .released

variable {sock : CbnListner → Option ℕ} {x : CbnListner} {id : ℕ}

/-- A use of a socket or of a listener that is linked. -/
structure Uses (root : RbTree CbnListner) (event : Event Res) : Prop where
  access : event = .access event.res
  linked : ∀ id, event.res = .listner id → id ∈ root.inorder.map CbnListner.id

theorem uses_listner (hx : x ∈ root.inorder) : Uses root (.access (.listner x.id)) := by
  refine ⟨rfl, fun id hres => ?_⟩
  cases hres
  exact List.mem_map_of_mem hx

theorem uses_readLinked : ∀ event ∈ readLinked root, Uses root event := by
  rw [readLinked, List.forall_mem_map]
  exact fun l => uses_listner

/-- A visit uses the listeners that are linked, and frees its own. -/
theorem exists_uses (sock : CbnListner → Option ℕ) (hx : x ∈ root.inorder) :
    ∃ uses, visit sock (x, root) = uses ++ [.release (.listner x.id)] ∧
      ∀ event ∈ uses, Uses root event := by
  refine ⟨.access (.listner x.id) :: readLinked root ++ (.access (.listner x.id) ::
    ((sock x).toList.map fun s => .access (.sock s)) ++ readLinked root), ?_, ?_⟩
  · simp [visit, removeListnerServer]
  · simp only [List.forall_mem_append, List.forall_mem_cons, List.forall_mem_map]
    exact ⟨⟨uses_listner hx, uses_readLinked⟩,
      ⟨uses_listner hx, fun s _ => ⟨rfl, fun _ hres => Res.noConfusion hres⟩⟩, uses_readLinked⟩

theorem visit_mem (hx : x ∈ root.inorder) : ∀ event ∈ visit sock (x, root), ∀ id,
    event.res = .listner id → id ∈ root.inorder.map CbnListner.id := by
  obtain ⟨uses, hvisit, huses⟩ := exists_uses sock hx
  rw [hvisit]
  refine List.forall_mem_append.mpr ⟨fun event hevent => (huses event hevent).linked, ?_⟩
  refine List.forall_mem_singleton.mpr fun id hres => ?_
  cases hres
  exact List.mem_map_of_mem hx

theorem status_visit (hx : x ∈ root.inorder) :
    status (.listner id) .held (visit sock (x, root)) =
      if id = x.id then .released else .held := by
  obtain ⟨uses, hvisit, huses⟩ := exists_uses sock hx
  have huse : ∀ event ∈ uses, event.res = .listner id → event = .access (.listner id) :=
    fun event hevent hres => hres ▸ (huses event hevent).access
  rw [hvisit, status_append, status_held_of_access huse, status_cons, status_nil]
  split <;> split <;> simp_all

theorem ids_rbErase (hnodup : (root.inorder.map CbnListner.id).Nodup) (hx : x ∈ root.inorder) :
    (root.inorder.map CbnListner.id).Perm
      (x.id :: (rbErase x root).inorder.map CbnListner.id) := by
  rw [inorder_rbErase (List.Nodup.of_map _ hnodup)]
  exact (List.perm_cons_erase hx).map CbnListner.id

/-- What a walk does with the listeners of a tree. -/
structure Treated (sock : CbnListner → Option ℕ) (root : RbTree CbnListner)
    (walk : Walk CbnListner) : Prop where
  mem : ∀ event ∈ walk.visits.flatMap (visit sock), ∀ id, event.res = .listner id →
    id ∈ root.inorder.map CbnListner.id
  status : ∀ l ∈ root.inorder,
    status (.listner l.id) .held (walk.visits.flatMap (visit sock)) = .released ∨
      l ∈ walk.root.inorder ∧
        status (.listner l.id) .held (walk.visits.flatMap (visit sock)) = .held

theorem Treated.visit {walk : Walk CbnListner}
    (hnodup : (root.inorder.map CbnListner.id).Nodup) (hx : x ∈ root.inorder)
    (htreated : Treated sock (rbErase x root) walk) :
    Treated sock root { walk with visits := (x, root) :: walk.visits } := by
  have hperm := ids_rbErase hnodup hx
  obtain ⟨hgone, -⟩ := List.nodup_cons.mp (hperm.nodup_iff.mp hnodup)
  constructor
  · rw [List.flatMap_cons, List.forall_mem_append]
    refine ⟨visit_mem hx, fun event hevent id hres => ?_⟩
    exact hperm.mem_iff.mpr (List.mem_cons_of_mem _ (htreated.mem event hevent id hres))
  · intro l hl
    rw [List.flatMap_cons, status_append, status_visit hx]
    by_cases hid : l.id = x.id
    · -- Nothing that is still linked has the address.
      rw [if_pos hid, status_of_not_mem]
      · exact .inl rfl
      · exact fun event hevent hres => hgone (hid ▸ htreated.mem event hevent l.id hres)
    · rw [if_neg hid]
      refine htreated.status l ?_
      rw [inorder_rbErase (List.Nodup.of_map _ hnodup), List.mem_erase_of_ne]
      · exact hl
      · rintro rfl
        exact hid rfl

theorem treated (sock : CbnListner → Option ℕ)
    (hnodup : (root.inorder.map CbnListner.id).Nodup) : Treated sock root (drain root) := by
  refine drainFrom_induct (P := fun _ root walk =>
    (root.inorder.map CbnListner.id).Nodup → Treated sock root walk) ?_ ?_
    (List.Nodup.of_map _ hnodup) (fun _ => first_mem) (Nat.le_refl _) hnodup
  · exact fun root _ => ⟨fun _ h => absurd h List.not_mem_nil, fun l hl => .inr ⟨hl, rfl⟩⟩
  · intro x root walk _ hx hwalk hnodup
    refine Treated.visit hnodup hx (hwalk ?_)
    exact ((ids_rbErase hnodup hx).nodup_iff.mp hnodup).of_cons

theorem status_stopSockets (sock : CbnListner → Option ℕ)
    (hnodup : (root.inorder.map CbnListner.id).Nodup) :
    ∀ l ∈ root.inorder,
      status (.listner l.id) .held (stopSockets sock root).1 = .released ∨
        l ∈ (stopSockets sock root).2.inorder ∧
          status (.listner l.id) .held (stopSockets sock root).1 = .held := by
  intro l hl
  rw [stopSockets, status_append, status_held_of_access]
  · exact (treated sock hnodup).status l hl
  · exact fun event hevent hres => hres ▸ (uses_readLinked event hevent).access

/-- Whatever is skipped, no listener is looked at after it was freed. -/
theorem never_broken (hreach : registrations.Reachable root) (id : ℕ) :
    status (.listner id) .held (stopSockets sock root).1 ≠ .broken := by
  have hnodup := (built_of_reachable hreach).nodup
  by_cases hid : id ∈ root.inorder.map CbnListner.id
  · obtain ⟨l, hl, rfl⟩ := List.mem_map.mp hid
    rcases status_stopSockets sock hnodup l hl with h | ⟨-, h⟩
    · rw [h]
      exact Status.noConfusion
    · rw [h]
      exact Status.noConfusion
  · rw [stopSockets, status_of_not_mem]
    · exact Status.noConfusion
    · refine List.forall_mem_append.mpr ⟨?_, ?_⟩
      · exact fun event hevent hres => hid ((uses_readLinked event hevent).linked id hres)
      · exact fun event hevent hres => hid ((treated sock hnodup).mem event hevent id hres)

/-- The servers are all stopped exactly when the walk never skips a listener. -/
theorem stopped_iff (sock : CbnListner → Option ℕ) (root : RbTree CbnListner)
    (hreach : registrations.Reachable root) : Stopped sock root ↔ Drains root := by
  have hbuilt := built_of_reachable hreach
  have hnodup : root.inorder.Nodup := List.Nodup.of_map _ hbuilt.nodup
  obtain ⟨n, hbalanced⟩ := hbuilt.balanced
  rw [← hbalanced.drain_root_eq_nil_iff hnodup]
  refine ⟨fun hstopped => hstopped.empty, fun hempty => ?_⟩
  have hvisits : ((drain root).visits.map Prod.fst).Perm root.inorder := by
    simpa [hempty] using drain_perm hnodup
  refine ⟨drain_pos hnodup, hvisits, hempty, fun l hl s hs => ?_, fun l hl => ?_⟩
  · obtain ⟨⟨x, t⟩, hmem, rfl⟩ := List.mem_map.mp (hvisits.mem_iff.mpr hl)
    refine List.mem_append_right _ (List.mem_flatMap.mpr ⟨(x, t), hmem, ?_⟩)
    simp only at hs
    simp [visit, removeListnerServer, hs]
  · rcases status_stopSockets sock hbuilt.nodup l hl with h | ⟨hleft, -⟩
    · exact h
    · rw [stopSockets, hempty] at hleft
      cases hleft

/-- Four tenants whose servers are all stopped: the fourth mark is the lowest. -/
theorem stopped_four : ∃ root, registrations.Reachable root ∧
    root.inorder.map CbnListner.id = [4, 1, 2, 3] ∧ Stopped (fun l => some l.id) root := by
  obtain ⟨root, hreach, rfl⟩ := Machine.exists_reachable_of_run registrations
    (fun _ _ => True) [⟨1, 10⟩, ⟨2, 20⟩, ⟨3, 30⟩, ⟨4, 5⟩] (fun root => root)
    (.node .black (.node .black (.node .red .nil ⟨4, 5⟩ .nil) ⟨1, 10⟩ .nil) ⟨2, 20⟩
      (.node .black .nil ⟨3, 30⟩ .nil)) (by decide +kernel)
  refine ⟨_, hreach, rfl, (stopped_iff _ _ hreach).mpr ?_⟩
  exact .step rfl rfl (.step rfl rfl (.step rfl rfl (.step rfl rfl .nil)))

/-- Four tenants with increasing marks: the server of the second one is left running. -/
theorem listner_left_behind : ∃ root, registrations.Reachable root ∧
    root.inorder.map CbnListner.id = [1, 2, 3, 4] ∧
    (stopSockets (fun l => some l.id) root).2.inorder.map CbnListner.id = [2] ∧
    .access (.sock 2) ∉ (stopSockets (fun l => some l.id) root).1 ∧
    ¬ Stopped (fun l => some l.id) root := by
  obtain ⟨root, hreach, hroot⟩ := Machine.exists_reachable_of_run registrations
    (fun _ _ => True) [⟨1, 10⟩, ⟨2, 20⟩, ⟨3, 30⟩, ⟨4, 40⟩]
    (fun root => decide (root.inorder.map CbnListner.id = [1, 2, 3, 4] ∧
      (stopSockets (fun l => some l.id) root).2.inorder.map CbnListner.id = [2] ∧
      .access (.sock 2) ∉ (stopSockets (fun l => some l.id) root).1)) true (by decide +kernel)
  obtain ⟨hids, hleft, hsock⟩ := of_decide_eq_true hroot
  refine ⟨root, hreach, hids, hleft, hsock, fun hstopped => ?_⟩
  rw [hstopped.empty] at hleft
  cases hleft

end KtcpSplit.StopSockets
