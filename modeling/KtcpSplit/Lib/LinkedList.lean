import Mathlib.Data.List.Nodup
import Mathlib.Logic.Function.Basic

/-!
# Doubly linked lists with a head

The nodes of a list point to each other, and its head is a node that closes the ring.  A
node that is added a second time is not taken out of its old place first, and a loop that
follows the pointers may then never come back to the head.
-/

namespace KtcpSplit.LinkedList

variable {α σ : Type*} [DecidableEq α]

/-- The two pointers of every node. -/
structure Links (α : Type*) where
  next : α → α
  prev : α → α

def initListHead (links : Links α) (list : α) : Links α where
  next := Function.update links.next list list
  prev := Function.update links.prev list list

/-- The four assignments of `__list_add`, in their order. -/
def listAdd (links : Links α) (new prev next : α) : Links α where
  next := Function.update (Function.update links.next new next) prev new
  prev := Function.update (Function.update links.prev next new) new prev

def listAddTail (links : Links α) (new head : α) : Links α :=
  listAdd links new (links.prev head) head

@[simp]
theorem next_listAddTail (links : Links α) (new head : α) :
    (listAddTail links new head).next =
      Function.update (Function.update links.next new head) (links.prev head) new := rfl

@[simp]
theorem prev_listAddTail (links : Links α) (new head : α) :
    (listAddTail links new head).prev =
      Function.update (Function.update links.prev head new) new (links.prev head) := rfl

/-- The loop from the cursor `pos` on, where `n` is the node to be visited next; `none`
when the fuel runs out. -/
def loopSafe (links : Links α) (head : α) (body : σ → α → σ) : ℕ → α → α → σ → Option σ
  | 0, _, _, _ => none
  | fuel + 1, pos, n, s =>
      if pos = head then some s else loopSafe links head body fuel n (links.next n) (body s pos)

/-- `list_for_each_safe` around a body that leaves the pointers alone. -/
def listForEachSafe (links : Links α) (head : α) (body : σ → α → σ) (fuel : ℕ) (s : σ) :
    Option σ :=
  loopSafe links head body fuel (links.next head) (links.next (links.next head)) s

/-! ## Paths -/

/-- The pointers lead from `pos` through the nodes to `stop`. -/
def Path (next : α → α) : α → List α → α → Prop
  | pos, [], stop => pos = stop
  | pos, node :: nodes, stop => pos = node ∧ Path next (next node) nodes stop

variable {next next' : α → α} {links : Links α} {head node new : α} {nodes : List α}

omit [DecidableEq α] in
theorem Path.congr {pos stop : α} (hpath : Path next pos nodes stop)
    (hsame : ∀ node ∈ nodes, next' node = next node) : Path next' pos nodes stop := by
  induction nodes generalizing pos with
  | nil => exact hpath
  | cons node nodes ih =>
      obtain ⟨rfl, hrest⟩ := hpath
      obtain ⟨hnode, hnodes⟩ := List.forall_mem_cons.mp hsame
      exact ⟨rfl, hnode ▸ ih hrest hnodes⟩

omit [DecidableEq α] in
theorem path_concat {pos stop : α} :
    Path next pos (nodes ++ [node]) stop ↔ Path next pos nodes node ∧ next node = stop := by
  induction nodes generalizing pos with
  | nil => exact Iff.rfl
  | cons other nodes ih => exact (and_congr_right fun _ => ih).trans (and_assoc).symm

/-! ## Rings -/

/-- The pointers lead from the head through the nodes back to it, and the head knows the
last node. -/
structure Ring (links : Links α) (head : α) (nodes : List α) : Prop where
  path : Path links.next head (head :: nodes) head
  prev : (head :: nodes).getLast? = some (links.prev head)
  nodup : (head :: nodes).Nodup

theorem ring_initListHead (links : Links α) (head : α) :
    Ring (initListHead links head) head [] where
  path := ⟨rfl, Function.update_self ..⟩
  prev := by
    have hprev : (initListHead links head).prev head = head := Function.update_self ..
    rw [hprev, List.getLast?_singleton]
  nodup := List.nodup_singleton head

/-- A node that was not in the list is its last one. -/
theorem Ring.listAddTail (hring : Ring links head nodes) (hnew : new ∉ head :: nodes) :
    Ring (listAddTail links new head) head (nodes ++ [new]) := by
  obtain ⟨front, hfront⟩ := List.getLast?_eq_some_iff.mp hring.prev
  obtain ⟨hpath, hprev, hnodup⟩ := hring
  set last := links.prev head with hlast
  have hhead : new ≠ head := List.ne_of_not_mem_cons hnew
  rw [hfront] at hpath hnodup hnew
  obtain ⟨hpath, hnext⟩ := path_concat.mp hpath
  obtain ⟨hnewFront, hnewLast⟩ : new ∉ front ∧ new ≠ last := by simpa using hnew
  have hlastFront : last ∉ front := by
    rw [← List.concat_eq_append, List.nodup_concat] at hnodup
    exact hnodup.1
  refine ⟨?_, ?_, ?_⟩
  · rw [← List.cons_append, hfront]
    refine path_concat.mpr ⟨path_concat.mpr ⟨hpath.congr ?_, ?_⟩, ?_⟩
    · intro node hnode
      exact (Function.update_of_ne (ne_of_mem_of_not_mem hnode hlastFront) ..).trans
        (Function.update_of_ne (ne_of_mem_of_not_mem hnode hnewFront) ..)
    · exact Function.update_self ..
    · exact (Function.update_of_ne hnewLast ..).trans (Function.update_self ..)
  · rw [← List.cons_append, List.getLast?_concat, prev_listAddTail,
      Function.update_of_ne hhead.symm, Function.update_self]
  · rw [← List.cons_append, hfront, ← List.concat_eq_append]
    exact hnodup.concat hnew

theorem loopSafe_of_path {pos : α} (hpath : Path links.next pos nodes head)
    (hhead : head ∉ nodes) (body : σ → α → σ) (s : σ) :
    loopSafe links head body (nodes.length + 1) pos (links.next pos) s =
      some (nodes.foldl body s) := by
  induction nodes generalizing pos s with
  | nil => exact if_pos hpath
  | cons node nodes ih =>
      obtain ⟨rfl, hrest⟩ := hpath
      obtain ⟨hne, hnodes⟩ := not_or.mp (mt List.mem_cons.mpr hhead)
      rw [List.length_cons, loopSafe, if_neg (Ne.symm hne), ih hrest hnodes]
      rfl

/-- The loop visits every node of a ring once. -/
theorem Ring.listForEachSafe (hring : Ring links head nodes) (body : σ → α → σ) (s : σ) :
    listForEachSafe links head body (nodes.length + 1) s = some (nodes.foldl body s) :=
  loopSafe_of_path hring.path.2 (List.nodup_cons.mp hring.nodup).1 body s

/-! ## Loops that miss the head -/

/-- The pointers lead from the head to a node that points to itself, and the head takes it
for the last one. -/
structure Stuck (links : Links α) (head : α) (nodes : List α) (node : α) : Prop where
  path : Path links.next (links.next head) nodes node
  next : links.next node = node
  prev : links.prev head = node
  notMem : head ∉ node :: nodes

/-- The last node is added again. -/
theorem Ring.listAddTail_last (hring : Ring links head (nodes ++ [node])) :
    Stuck (LinkedList.listAddTail links node head) head nodes node := by
  obtain ⟨hpath, hprev, hnodup⟩ := hring
  rw [← List.cons_append, List.getLast?_concat, Option.some.injEq] at hprev
  rw [← List.cons_append] at hnodup
  have hnode : node ∉ head :: nodes := by
    rw [← List.concat_eq_append, List.nodup_concat] at hnodup
    exact hnodup.1
  obtain ⟨hne, hnodes⟩ := not_or.mp (mt List.mem_cons.mpr hnode)
  have hhead : head ∉ nodes := by
    have hfirst := (List.nodup_cons.mp hnodup).1
    exact fun hmem => hfirst (List.mem_append_left _ hmem)
  have hsame : ∀ other, other ≠ node →
      (LinkedList.listAddTail links node head).next other = links.next other := by
    intro other hother
    rw [next_listAddTail, ← hprev, Function.update_of_ne hother, Function.update_of_ne hother]
  refine ⟨?_, ?_, ?_, ?_⟩
  · rw [hsame head (Ne.symm hne)]
    refine (path_concat.mp hpath.2).1.congr fun other hother => hsame other ?_
    exact ne_of_mem_of_not_mem hother hnodes
  · rw [next_listAddTail, ← hprev, Function.update_self]
  · rw [prev_listAddTail, Function.update_of_ne (Ne.symm hne), Function.update_self]
  · exact fun hmem => (List.mem_cons.mp hmem).elim (Ne.symm hne) hhead

/-- Adding it once more changes nothing. -/
theorem Stuck.listAddTail (hstuck : Stuck links head nodes node) :
    Stuck (LinkedList.listAddTail links node head) head nodes node := by
  obtain ⟨hpath, hnext, hprev, hhead⟩ := hstuck
  have hne : head ≠ node := List.ne_of_not_mem_cons hhead
  have hsame : (LinkedList.listAddTail links node head).next = links.next := by
    rw [next_listAddTail, hprev, Function.update_idem]
    exact Function.update_eq_self_iff.mpr hnext.symm
  refine ⟨hsame.symm ▸ hpath, hsame.symm ▸ hnext, ?_, hhead⟩
  rw [prev_listAddTail, Function.update_of_ne hne, Function.update_self]

theorem loopSafe_of_stuck {pos : α} (hpath : Path links.next pos nodes node)
    (hnext : links.next node = node) (hhead : head ∉ node :: nodes) (body : σ → α → σ)
    (fuel : ℕ) (s : σ) : loopSafe links head body fuel pos (links.next pos) s = none := by
  induction fuel generalizing pos nodes s with
  | zero => rfl
  | succ fuel ih =>
      obtain ⟨hnode, hnodes⟩ := not_or.mp (mt List.mem_cons.mpr hhead)
      rw [loopSafe]
      cases nodes with
      | nil =>
          have hpos : pos = node := hpath
          have hself : Path links.next node [] node := rfl
          have hloop := ih hself hhead (body s node)
          rw [hnext] at hloop
          rw [hpos, if_neg (Ne.symm hnode), hnext, hnext, hloop]
      | cons other nodes =>
          obtain ⟨rfl, hrest⟩ := hpath
          obtain ⟨hpos, hnodes⟩ := not_or.mp (mt List.mem_cons.mpr hnodes)
          rw [if_neg (Ne.symm hpos)]
          exact ih hrest (fun hmem => (List.mem_cons.mp hmem).elim hnode hnodes) _

theorem Stuck.listForEachSafe (hstuck : Stuck links head nodes node) (body : σ → α → σ)
    (fuel : ℕ) (s : σ) : LinkedList.listForEachSafe links head body fuel s = none :=
  loopSafe_of_stuck hstuck.path hstuck.next hstuck.notMem body fuel s

end KtcpSplit.LinkedList
