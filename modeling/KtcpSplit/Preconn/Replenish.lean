import KtcpSplit.Lib.Ranking
import KtcpSplit.Preconn.Idle

/-!
# Draws are made up for

Every draw from a list, also one that finds it empty, has the lists of its next hop
refilled.  A refill looks at the lists one after the other while others draw from them
and workers add to them, and it schedules a batch for each list that is not full.
-/

namespace KtcpSplit.PreconnPool

open KtcpSplit.Bag
open KtcpSplit.Preconn
open KtcpSplit.SearchTree
open KtcpSplit.Transition

variable {Cpu : Type*} [DecidableEq Cpu]

/-! ## Refills -/

/-- A thread that is going to look at the list of a CPU. -/
def Pc.Serves (possible : List Cpu) (ip : NextHop) (cpu : Cpu) : Pc Cpu → Prop
  | .refill ip' => ip' = ip ∧ cpu ∈ possible
  | .poolSearch ip' => ip' = ip ∧ cpu ∈ possible
  | .cpus _ ip' rest => ip' = ip ∧ cpu ∈ rest
  | .batch _ ip' _ _ rest => ip' = ip ∧ cpu ∈ rest
  | _ => False

/-- The connections of a next hop and a CPU that a failed call costs, and those that their
worker adds on another CPU: a refill that is not started costs its batch. -/
def lostBy (s : State Cpu) (ip : NextHop) (cpu : Cpu) : Pc Cpu → Act Cpu → ℕ
  | .refill ip', .fail => if ip' = ip then perCorePoolMin else 0
  | .batch _ ip' cpu' _ _, .fail => if ip' = ip ∧ cpu' = cpu then 1 else 0
  | .connect cpu' ip', .fail => if ip' = ip ∧ cpu' = cpu then 1 else 0
  | .getAlloc cpu' ip' _, .fail => if ip' = ip ∧ cpu' = cpu then 1 else 0
  | .getAdd cpu' ip' _ preconn, .link _ =>
      match addRbPreconn s.root preconn with
      | .duplicate _ => if ip' = ip ∧ cpu' = cpu then 1 else 0
      | .linked _ => 0
  | .add cpu' ip' _ _, .on here => if ip' = ip ∧ cpu' = cpu ∧ here ≠ cpu then 1 else 0
  | _, _ => 0

def lost (ip : NextHop) (cpu : Cpu) (s : State Cpu) : Label Cpu → ℕ
  | .step pc act => lostBy s ip cpu pc act
  | _ => 0

/-- The pool that a refill found. -/
def Pc.found : Pc Cpu → Option CbnPreconnection
  | .cpus (.pool preconn) _ _ => preconn
  | .batch (.pool preconn) _ _ _ _ => preconn
  | _ => none

/-- The pool that a refill found is allocated and is that of its next hop. -/
def Pc.Looks (s : State Cpu) (pc : Pc Cpu) : Prop :=
  ∀ preconn, pc.found = some preconn → preconn.id < s.next ∧ preconn.key = pc.hop

/-- The counters count modulo their width. -/
def Tallied (s : State Cpu) : Prop :=
  ∀ preconn cpu, (s.pcpList preconn cpu).len =
    BitVec.ofNat 32 (s.pcpList preconn cpu).list.length

variable {s s' : State Cpu} {ip : NextHop} {cpu : Cpu} {possible : List Cpu}

theorem Tallied.setList (htallied : Tallied s) (preconn : CbnPreconnection) (cpu : Cpu)
    {pcpl : PercpuList} (hpcpl : pcpl.len = BitVec.ofNat 32 pcpl.list.length) :
    Tallied (s.setList preconn cpu pcpl) := by
  intro preconn' cpu'
  by_cases hpreconn : preconn' = preconn
  · subst hpreconn
    by_cases hcpu : cpu' = cpu
    · subst hcpu
      simp only [State.setList, Function.update_self]
      exact hpcpl
    · simp only [State.setList, Function.update_self, Function.update_of_ne hcpu]
      exact htallied preconn' cpu'
  · simp only [State.setList, Function.update_of_ne hpreconn]
    exact htallied preconn' cpu'

theorem Tallied.draw (htallied : Tallied s) (preconn : CbnPreconnection) (cpu : Cpu) :
    Tallied (s.draw preconn cpu) := by
  have hlen := htallied preconn cpu
  rw [State.draw]
  split
  case h_1 => exact htallied
  case h_2 head rest hlist =>
    rw [hlist, List.length_cons, BitVec.ofNat_add] at hlen
    refine htallied.setList preconn cpu ?_
    rw [hlen]
    exact BitVec.add_sub_cancel _ _

theorem Tallied.listAdd (htallied : Tallied s) (preconn : CbnPreconnection) (cpu : Cpu)
    (qp : ℕ) : Tallied (s.listAdd preconn cpu qp) := by
  refine htallied.setList preconn cpu ?_
  rw [List.length_cons, BitVec.ofNat_add, ← htallied preconn cpu]
  rfl

omit [DecidableEq Cpu] in
/-- A list that a refill leaves alone is full. -/
theorem Tallied.le_of_not_admits (htallied : Tallied s)
    {preconn : CbnPreconnection} (hid : preconn.id < s.next)
    (hfull : ¬(s.pcpList preconn cpu).len.toInt < perCorePoolMax) :
    perCorePoolMin ≤ s.idle preconn.key cpu := by
  have hlength : perCorePoolMax ≤ (s.pcpList preconn cpu).list.length := by
    have hlen : (s.pcpList preconn cpu).len.toInt ≤ (s.pcpList preconn cpu).list.length := by
      have hmod := Nat.mod_le (s.pcpList preconn cpu).list.length (2 ^ 32)
      rw [htallied preconn cpu, BitVec.toInt, BitVec.toNat_ofNat]
      split <;> omega
    omega
  have hle : (s.pcpList preconn cpu).list.length ≤ s.idle preconn.key cpu := by
    apply Finset.single_le_sum (f := fun id => (s.pcpList ⟨id, preconn.key⟩ cpu).list.length)
    · exact fun _ _ => Nat.zero_le _
    · exact Finset.mem_range.mpr hid
  have hmin : perCorePoolMin ≤ perCorePoolMax := by decide
  omega

/-! ## Steps -/

/-- What one statement does for a list: another thread looks at it, or a batch is on its
way or idle, or the thread was not to look at it and no connection is missing that was not
lost. -/
inductive Keeps (possible : List Cpu) (ip : NextHop) (cpu : Cpu) (s s' : State Cpu)
    (pc : Pc Cpu) (act : Act Cpu) (pcs : List (Pc Cpu)) : Prop
  | serves (pc' : Pc Cpu) (hmem : pc' ∈ pcs) (hserves : pc'.Serves possible ip cpu)
  | batch (hbatch : perCorePoolMin ≤
      s'.idle ip cpu + (pcs.map (Pc.pending ip cpu)).sum + lostBy s ip cpu pc act)
  | same (hserves : ¬pc.Serves possible ip cpu) (hbalance : s.idle ip cpu + pc.pending ip cpu ≤
      s'.idle ip cpu + (pcs.map (Pc.pending ip cpu)).sum + lostBy s ip cpu pc act)

/-- The thread goes on with what it had to do. -/
theorem Keeps.goOn {pc pc' : Pc Cpu} {act : Act Cpu} (hidle : s'.idle ip cpu = s.idle ip cpu)
    (hserves : pc.Serves possible ip cpu → pc'.Serves possible ip cpu)
    (hpending : pc.pending ip cpu ≤ pc'.pending ip cpu) :
    Keeps possible ip cpu s s' pc act [pc'] := by
  by_cases hpc : pc.Serves possible ip cpu
  · exact .serves pc' (List.mem_singleton_self pc') (hserves hpc)
  · refine .same hpc ?_
    rw [hidle, List.map_singleton, List.sum_singleton]
    omega

/-- The thread ends, and what it had on its way is lost. -/
theorem Keeps.exit {pc : Pc Cpu} {act : Act Cpu} (hserves : ¬pc.Serves possible ip cpu)
    (hpending : pc.pending ip cpu ≤ lostBy s ip cpu pc act) :
    Keeps possible ip cpu s s pc act [] := by
  refine .same hserves ?_
  rw [List.map_nil, List.sum_nil]
  omega

/-- After a draw a refill is due. -/
theorem Keeps.draw {cpu' : Cpu} {ip' : NextHop} {preconn : CbnPreconnection}
    (hid : preconn.id < s.next) (hkey : preconn.key = ip') (hcpu : cpu ∈ possible) :
    Keeps possible ip cpu s (s.draw preconn cpu') (.alloc ip' (some preconn)) (.on cpu')
      [.refill ip'] := by
  by_cases hip : ip' = ip
  · exact .serves _ (List.mem_singleton_self _) ⟨hip, hcpu⟩
  · refine .goOn ?_ (fun hserves => hserves.elim) (Nat.zero_le _)
    rw [State.draw]
    split
    case h_1 => rfl
    case h_2 head rest hlist =>
      -- the list is one of another next hop
      have hidle : _ + (if preconn.key = ip ∧ cpu' = cpu then _ else 0) =
          s.idle ip cpu + if preconn.key = ip ∧ cpu' = cpu then _ else 0 :=
        idle_setList hid cpu' ⟨rest, (s.pcpList preconn cpu').len - 1⟩
      rw [hkey, if_neg fun hhere => hip hhere.1, if_neg fun hhere => hip hhere.1] at hidle
      exact hidle

/-- The refill looks at a list. -/
theorem Keeps.nextCpu (htallied : Tallied s) {fill : Fill} {cpu' : Cpu} {ip' : NextHop}
    {rest : List Cpu} (hlooks : (Pc.cpus fill ip' (cpu' :: rest)).Looks s) :
    Keeps possible ip cpu s s (.cpus fill ip' (cpu' :: rest)) .go
      [if fill.admits s cpu' then .batch fill ip' cpu' perCorePoolMin rest
        else .cpus fill ip' rest] := by
  by_cases hhere : ip' = ip ∧ cpu' = cpu
  case neg =>
    refine .goOn rfl ?_ (Nat.zero_le _)
    rintro ⟨hip, hcpu⟩
    have hrest : cpu ∈ rest := (List.mem_cons.mp hcpu).resolve_left fun heq =>
      hhere ⟨hip, heq.symm⟩
    split <;> exact ⟨hip, hrest⟩
  case pos =>
    obtain ⟨rfl, rfl⟩ := hhere
    refine .batch ?_
    cases hadmits : fill.admits s cpu' with
    | true =>
        simp only [if_true, List.map_singleton, List.sum_singleton, Pc.pending, and_self]
        omega
    | false =>
        obtain ⟨preconn, rfl⟩ : ∃ preconn, fill = .pool (some preconn) := by
          cases fill with
          | write => cases hadmits
          | pool preconn =>
              cases preconn with
              | none => cases hadmits
              | some preconn => exact ⟨preconn, rfl⟩
        obtain ⟨hid, hkey⟩ := hlooks preconn rfl
        have hfull := htallied.le_of_not_admits hid (of_decide_eq_false hadmits)
        have hkey : preconn.key = ip' := hkey
        rw [hkey] at hfull
        omega

/-- A worker takes over one connection of the batch. -/
theorem Keeps.spawn {fill : Fill} {cpu' : Cpu} {ip' : NextHop} {left : ℕ} {rest : List Cpu} :
    Keeps possible ip cpu s s (.batch fill ip' cpu' (left + 1) rest) .go
      [.connect cpu' ip', .batch fill ip' cpu' left rest] := by
  by_cases hserves : (Pc.batch fill ip' cpu' (left + 1) rest).Serves possible ip cpu
  · exact .serves (.batch fill ip' cpu' left rest) (by simp) hserves
  · refine .same hserves ?_
    simp only [List.map_cons, List.map_nil, List.sum_cons, List.sum_nil, Pc.pending]
    split <;> omega

/-- The call for one connection of the batch fails. -/
theorem Keeps.spawnFails {fill : Fill} {cpu' : Cpu} {ip' : NextHop} {left : ℕ}
    {rest : List Cpu} :
    Keeps possible ip cpu s s (.batch fill ip' cpu' (left + 1) rest) .fail
      [.batch fill ip' cpu' left rest] := by
  by_cases hserves : (Pc.batch fill ip' cpu' (left + 1) rest).Serves possible ip cpu
  · exact .serves (.batch fill ip' cpu' left rest) (by simp) hserves
  · refine .same hserves ?_
    simp only [List.map_cons, List.map_nil, List.sum_cons, List.sum_nil, Pc.pending, lostBy]
    split <;> omega

/-- A refill that is not started. -/
theorem Keeps.refillFails {ip' : NextHop} :
    Keeps possible ip cpu s s (.refill ip') .fail [] := by
  by_cases hip : ip' = ip
  · refine .batch ?_
    simp only [lostBy, if_pos hip]
    omega
  · exact .exit (fun hserves => hip hserves.1) (Nat.zero_le _)

/-- A worker puts its connection on a list of the CPU that it runs on. -/
theorem Keeps.listAdd (cpu' here : Cpu) {ip' : NextHop} {qp : ℕ} {preconn : CbnPreconnection}
    (hid : preconn.id < s.next) (hkey : preconn.key = ip') :
    Keeps possible ip cpu s (s.listAdd preconn here qp) (.add cpu' ip' qp preconn) (.on here)
      [] := by
  refine .same (fun hserves => hserves.elim) ?_
  have hidle : (s.listAdd preconn here qp).idle ip cpu +
        (if ip' = ip ∧ here = cpu then (s.pcpList preconn here).list.length else 0) =
      s.idle ip cpu +
        if ip' = ip ∧ here = cpu then (s.pcpList preconn here).list.length + 1 else 0 := by
    rw [← hkey]
    exact idle_setList hid here _
  rw [Pc.pending, lostBy, List.map_nil, List.sum_nil]
  by_cases hhere : ip' = ip ∧ here = cpu
  · rw [if_pos hhere, if_pos hhere] at hidle
    split <;> omega
  · rw [if_neg hhere, if_neg hhere] at hidle
    by_cases hmine : ip' = ip ∧ cpu' = cpu
    · -- its CPU does without the connection
      rw [if_pos hmine, if_pos ⟨hmine.1, hmine.2, fun heq => hhere ⟨hmine.1, heq⟩⟩]
      omega
    · rw [if_neg hmine]
      omega

omit [DecidableEq Cpu] in
/-- A thread that looks at a list or makes connections does so for its next hop. -/
theorem hop_of_serves {pc : Pc Cpu} (hserves : pc.Serves possible ip cpu) : pc.hop = ip := by
  cases pc with
  | refill ip' => exact hserves.1
  | poolSearch ip' => exact hserves.1
  | cpus fill ip' rest => exact hserves.1
  | batch fill ip' cpu' left rest => exact hserves.1
  | _ => exact hserves.elim

theorem pending_of_hop_ne {pc : Pc Cpu} (hhop : pc.hop ≠ ip) : pc.pending ip cpu = 0 := by
  cases pc <;> first | rfl | exact if_neg fun hhere => hhop hhere.1

/-- What every statement does for a list. -/
theorem stepPc_keeps (hcpu : cpu ∈ possible) (halloc : Allocated s) (htallied : Tallied s)
    {pc : Pc Cpu} (hvalid : pc.Valid s) (hlooks : pc.Looks s) {act : Act Cpu}
    {pcs : List (Pc Cpu)} (hstep : stepPc possible s pc act = some (s', pcs)) :
    Keeps possible ip cpu s s' pc act pcs := by
  cases stepPc_cases hstep with
  | allocSearch | noPool => exact .goOn rfl (fun hserves => hserves.elim) (Nat.zero_le _)
  | draw =>
      obtain ⟨hid, hkey⟩ := hvalid _ rfl
      exact .draw hid hkey hcpu
  | refill | poolSearch => exact .goOn rfl id (Nat.zero_le _)
  | refillFails => exact .refillFails
  | lastCpu => exact .exit (fun hserves => absurd hserves.2 List.not_mem_nil) (Nat.zero_le _)
  | nextCpu => exact .nextCpu htallied hlooks
  | batchDone =>
      refine .goOn rfl id ?_
      simp only [Pc.pending, ite_self, Nat.le_refl]
  | spawn => exact .spawn
  | spawnFails => exact .spawnFails
  | connect => exact .goOn halloc.idle_succ id (Nat.le_refl _)
  | getAlloc =>
      rw [halloc.initPreconn rfl]
      exact .goOn halloc.idle_succ id (Nat.le_refl _)
  | listFails => exact .goOn halloc.idle_succ id (Nat.le_refl _)
  | duplicate hadd =>
      refine .exit id ?_
      simp only [lostBy, hadd, Pc.pending, Nat.le_refl]
  | found _ | notFound | link _ _ => exact .goOn rfl id (Nat.le_refl _)
  | connectFails | getAllocFails => exact .exit id (Nat.le_refl _)
  | add =>
      obtain ⟨hid, hkey⟩ := hvalid _ rfl
      exact .listAdd _ _ hid hkey

omit [DecidableEq Cpu] in
theorem forall_looks_singleton {pc : Pc Cpu} (hlooks : pc.Looks s) :
    ∀ pc' ∈ [pc], pc'.Looks s := by
  intro pc' hpc'
  rw [List.mem_singleton.mp hpc']
  exact hlooks

omit [DecidableEq Cpu] in
theorem looks_of_none {pc : Pc Cpu} (hnone : pc.found = none) : pc.Looks s := by
  intro preconn hpreconn
  rw [hnone] at hpreconn
  cases hpreconn

omit [DecidableEq Cpu] in
theorem Pc.Looks.mono {pc : Pc Cpu} (hlooks : pc.Looks s) (hnext : s.next ≤ s'.next) :
    pc.Looks s' := by
  intro preconn hpreconn
  obtain ⟨hid, hkey⟩ := hlooks preconn hpreconn
  exact ⟨Nat.lt_of_lt_of_le hid hnext, hkey⟩

omit [DecidableEq Cpu] in
theorem Allocated.looks_search (halloc : Allocated s) (ip : NextHop) (rest : List Cpu) :
    (Pc.cpus (.pool (searchRbPreconn s.root ip)) ip rest).Looks s := by
  intro preconn hpreconn
  obtain ⟨hmem, hzero⟩ := search_sound hpreconn
  exact ⟨halloc.tree preconn hmem, (keyDiff_eq_zero_iff ip preconn).mp hzero⟩

/-- Every statement keeps the counters right, and a refill keeps the pool that it found. -/
theorem stepPc_tallied (halloc : Allocated s) (htallied : Tallied s) {pc : Pc Cpu}
    (hlooks : pc.Looks s) {act : Act Cpu} {pcs : List (Pc Cpu)}
    (hstep : stepPc possible s pc act = some (s', pcs)) :
    Tallied s' ∧ ∀ pc' ∈ pcs, pc'.Looks s := by
  cases stepPc_cases hstep with
  | draw => exact ⟨htallied.draw _ _, forall_looks_singleton (looks_of_none rfl)⟩
  | poolSearch => exact ⟨htallied, forall_looks_singleton (halloc.looks_search _ possible)⟩
  | @nextCpu fill =>
      refine ⟨htallied, forall_looks_singleton ?_⟩
      split <;> cases fill <;> exact hlooks
  | @batchDone fill | @spawnFails fill =>
      refine ⟨htallied, forall_looks_singleton ?_⟩
      cases fill <;> exact hlooks
  | @spawn fill =>
      refine ⟨htallied, ?_⟩
      intro pc' hpc'
      rcases List.mem_cons.mp hpc' with rfl | hpc'
      · exact looks_of_none rfl
      · rw [List.mem_singleton.mp hpc']
        cases fill <;> exact hlooks
  | getAlloc =>
      rw [halloc.initPreconn rfl]
      exact ⟨htallied, forall_looks_singleton (looks_of_none rfl)⟩
  | add => exact ⟨htallied.listAdd _ _ _, nofun⟩
  | allocSearch | noPool | refill | connect | found _ | notFound | listFails | link _ _ =>
      exact ⟨htallied, forall_looks_singleton (looks_of_none rfl)⟩
  | refillFails | lastCpu | connectFails | getAllocFails | duplicate _ =>
      exact ⟨htallied, nofun⟩

/-! ## What is left to do -/

/-- The statements of a batch with so many calls left, and of its workers. -/
def batchWork (left : ℕ) : ℕ := 6 * left + 1

/-- The statements of a loop over so many CPUs, and of the batches in it. -/
def cpusWork (rest : ℕ) : ℕ := (batchWork perCorePoolMin + 1) * rest + 1

/-- The statements that a thread and the threads that it starts have left at most. -/
def Pc.work (possible : List Cpu) : Pc Cpu → ℕ
  | .allocSearch _ => cpusWork possible.length + 4
  | .alloc _ _ => cpusWork possible.length + 3
  | .refill _ => cpusWork possible.length + 2
  | .poolSearch _ => cpusWork possible.length + 1
  | .cpus _ _ rest => cpusWork rest.length
  | .batch _ _ _ left rest => batchWork left + cpusWork rest.length
  | .connect _ _ => 5
  | .getSearch _ _ _ => 4
  | .getAlloc _ _ _ => 3
  | .getAdd _ _ _ _ => 2
  | .add _ _ _ _ => 1

/-- What is left to do for a next hop. -/
def Pc.workFor (possible : List Cpu) (ip : NextHop) (pc : Pc Cpu) : ℕ :=
  if pc.hop = ip then pc.work possible else 0

def State.work (possible : List Cpu) (ip : NextHop) (s : State Cpu) : ℕ :=
  (s.threads.map (Pc.workFor possible ip)).sum

def Label.serves (ip : NextHop) : Label Cpu → Bool
  | .step pc _ => decide (pc.hop = ip)
  | _ => false

/-- Nothing new is asked of the pool of a next hop. -/
def Unasked (ip : NextHop) (_ : State Cpu) : Label Cpu → Prop
  | .write ip' => ip' ≠ ip
  | .draw ip' => ip' ≠ ip
  | .step _ _ => True

instance decidableUnasked (ip : NextHop) (s : State Cpu) (label : Label Cpu) :
    Decidable (Unasked ip s label) :=
  match label with
  | .write ip' => inferInstanceAs (Decidable (ip' ≠ ip))
  | .draw ip' => inferInstanceAs (Decidable (ip' ≠ ip))
  | .step _ _ => inferInstanceAs (Decidable True)

/-- A thread hands all that is left on to threads of its next hop. -/
structure Works (possible : List Cpu) (pc : Pc Cpu) (pcs : List (Pc Cpu)) : Prop where
  hop : ∀ pc' ∈ pcs, pc'.hop = pc.hop
  less : (pcs.map (Pc.work possible)).sum < pc.work possible

omit [DecidableEq Cpu] in
theorem Works.goOn {pc pc' : Pc Cpu} (hhop : pc'.hop = pc.hop)
    (hless : pc'.work possible < pc.work possible) : Works possible pc [pc'] where
  hop := by
    intro pc'' hpc''
    rw [List.mem_singleton.mp hpc'', hhop]
  less := by
    rw [List.map_singleton, List.sum_singleton]
    exact hless

omit [DecidableEq Cpu] in
theorem Works.exit {pc : Pc Cpu} (hpos : 0 < pc.work possible) : Works possible pc [] where
  hop := nofun
  less := hpos

omit [DecidableEq Cpu] in
theorem Works.nextCpu {fill : Fill} {cpu : Cpu} {ip : NextHop} {rest : List Cpu}
    {admits : Bool} :
    Works possible (.cpus fill ip (cpu :: rest))
      [if admits then .batch fill ip cpu perCorePoolMin rest else .cpus fill ip rest] := by
  refine .goOn ?_ ?_
  · split <;> rfl
  · have hcons : cpusWork (cpu :: rest).length =
        cpusWork rest.length + (batchWork perCorePoolMin + 1) := by
      rw [cpusWork, cpusWork, List.length_cons, Nat.mul_succ]
      exact Nat.add_right_comm _ _ _
    cases admits with
    | true =>
        simp only [if_true, Pc.work, hcons]
        omega
    | false =>
        simp only [Bool.false_eq_true, if_false, Pc.work, hcons]
        omega

omit [DecidableEq Cpu] in
theorem Works.spawn {fill : Fill} {cpu : Cpu} {ip : NextHop} {left : ℕ} {rest : List Cpu} :
    Works possible (.batch fill ip cpu (left + 1) rest)
      [.connect cpu ip, .batch fill ip cpu left rest] where
  hop := by
    intro pc' hpc'
    rcases List.mem_pair.mp hpc' with rfl | rfl <;> rfl
  less := by
    simp only [List.map_cons, List.map_nil, List.sum_cons, List.sum_nil, Pc.work, batchWork]
    omega

theorem stepPc_works {pc : Pc Cpu} {act : Act Cpu} {pcs : List (Pc Cpu)}
    (hstep : stepPc possible s pc act = some (s', pcs)) : Works possible pc pcs := by
  cases stepPc_cases hstep with
  | nextCpu => exact .nextCpu
  | batchDone | spawnFails => exact .goOn rfl (by simp only [Pc.work, batchWork]; omega)
  | spawn => exact .spawn
  | found _ | notFound => exact .goOn rfl (by simp [Pc.work])
  | refillFails | lastCpu | connectFails | getAllocFails | duplicate _ | add =>
      exact .exit (Nat.succ_pos _)
  | _ => exact .goOn rfl (Nat.lt_succ_self _)

/-- Every thread can go on, while no pool was freed. -/
theorem stepPc_isSome [Nonempty Cpu] (possible : List Cpu) (hfreed : s.freed = []) (pc : Pc Cpu) :
    ∃ act, (stepPc possible s pc act).isSome := by
  cases pc with
  | alloc ip preconn =>
      cases preconn with
      | none => exact ⟨.go, rfl⟩
      | some preconn => exact ⟨.on (Classical.arbitrary Cpu), rfl⟩
  | cpus fill ip rest => exact ⟨.go, by cases rest <;> rfl⟩
  | batch fill ip cpu left rest => exact ⟨.go, by cases left <;> rfl⟩
  | getSearch cpu ip qp => exact ⟨.go, by simp only [stepPc]; split <;> rfl⟩
  | getAdd cpu ip qp preconn =>
      have hlive : preconn ∉ s.freed := hfreed ▸ List.not_mem_nil
      cases hadd : addRbPreconn s.root preconn with
      | duplicate this =>
          exact ⟨.link s.root, by simp only [stepPc, hlive, hadd, if_false, Option.isSome_some]⟩
      | linked linked =>
          exact ⟨.link linked, by
            simp only [stepPc, hlive, hadd, if_false, if_true, Option.isSome_some]⟩
  | add cpu ip qp preconn => exact ⟨.on cpu, rfl⟩
  | _ => exact ⟨.go, rfl⟩

/-- Only a failed `alloc_reserved_percpu` has a pool freed. -/
theorem stepPc_freed {pc : Pc Cpu} {act : Act Cpu} {pcs : List (Pc Cpu)}
    (hlisted : Listed (.step pc act)) (hstep : stepPc possible s pc act = some (s', pcs)) :
    s'.freed = s.freed := by
  cases stepPc_cases hstep with
  | draw =>
      rw [State.draw]
      split <;> rfl
  | listFails => cases hlisted
  | _ => rfl

/-! ## Runs -/

/-- What the threads and the lists keep in every run. -/
structure Stocked (s : State Cpu) : Prop extends Allocated s where
  valid : ∀ pc ∈ s.threads, pc.Valid s
  looks : ∀ pc ∈ s.threads, pc.Looks s
  tallied : Tallied s

/-- Somebody is going to look at the list, or a batch is idle, on its way or lost. -/
def Covered (possible : List Cpu) (ip : NextHop) (cpu : Cpu) (n : ℕ) (s : State Cpu) : Prop :=
  (∃ pc ∈ s.threads, pc.Serves possible ip cpu) ∨
    perCorePoolMin ≤ s.idle ip cpu + s.pending ip cpu + n

omit [DecidableEq Cpu] in
theorem Stocked.start (hstocked : Stocked s) {pc : Pc Cpu} (hpreconn : pc.preconn = none)
    (hfound : pc.found = none) : Stocked { s with threads := pc ::ₘ s.threads } where
  toAllocated := ⟨hstocked.fresh, hstocked.tree⟩
  valid := by
    intro pc' hpc'
    rcases Multiset.mem_cons.mp hpc' with rfl | hpc'
    · exact valid_of_none hpreconn
    · exact hstocked.valid pc' hpc'
  looks := by
    intro pc' hpc'
    rcases Multiset.mem_cons.mp hpc' with rfl | hpc'
    · exact looks_of_none hfound
    · exact hstocked.looks pc' hpc'
  tallied := hstocked.tallied

theorem Covered.start {n : ℕ} (hcovered : Covered possible ip cpu n s) (pc : Pc Cpu) :
    Covered possible ip cpu n { s with threads := pc ::ₘ s.threads } := by
  rcases hcovered with ⟨pc', hpc', hserves⟩ | hbatch
  · exact .inl ⟨pc', Multiset.mem_cons_of_mem hpc', hserves⟩
  · have hpending : State.pending { s with threads := pc ::ₘ s.threads } ip cpu =
        pc.pending ip cpu + s.pending ip cpu := by
      rw [State.pending, Multiset.map_cons, Multiset.sum_cons]
      rfl
    refine .inr ?_
    rw [hpending]
    exact hbatch.trans (by
      change s.idle ip cpu + _ + _ ≤ s.idle ip cpu + _ + _
      omega)

theorem Stocked.step (hstocked : Stocked s) {label : Label Cpu}
    (hnext : (pools possible).next s label = some s') : Stocked s' := by
  cases label with
  | write ip =>
      simp only [pools] at hnext
      split at hnext <;> cases hnext
      · exact hstocked
      · exact hstocked.start rfl rfl
  | draw ip =>
      cases hnext
      exact hstocked.start rfl rfl
  | step pc act =>
      simp only [pools, Option.ite_none_right_eq_some] at hnext
      obtain ⟨hpc, hnext⟩ := hnext
      obtain ⟨⟨after, pcs⟩, hstep, rfl⟩ := Option.map_eq_some_iff.mp hnext
      have hpasses := stepPc_passes possible hstocked.toAllocated (hstocked.valid pc hpc) hstep
      obtain ⟨htallied, hlooks⟩ := stepPc_tallied hstocked.toAllocated hstocked.tallied
        (hstocked.looks pc hpc) hstep
      constructor
      case toAllocated => exact ⟨hpasses.allocated.fresh, hpasses.allocated.tree⟩
      case valid =>
        intro pc' hpc'
        rcases Multiset.mem_add.mp hpc' with hpc' | hpc'
        · exact (hstocked.valid pc' (Multiset.mem_of_mem_erase hpc')).mono hpasses.next
        · exact hpasses.valid pc' hpc'
      case looks =>
        intro pc' hpc'
        rcases Multiset.mem_add.mp hpc' with hpc' | hpc'
        · exact (hstocked.looks pc' (Multiset.mem_of_mem_erase hpc')).mono hpasses.next
        · exact (hlooks pc' hpc').mono hpasses.next
      case tallied => exact htallied

theorem stocked_of_reachable (hreach : (pools possible).Reachable s) : Stocked s := by
  refine hreach.invariant (P := Stocked) ?_ ?_
  · exact {
      fresh := fun _ _ _ => rfl
      tree := fun _ hmem => absurd hmem List.not_mem_nil
      valid := fun _ hpc => absurd hpc (Multiset.notMem_zero _)
      looks := fun _ hpc => absurd hpc (Multiset.notMem_zero _)
      tallied := fun _ _ => rfl }
  · intro before label after _ hstocked _ hnext
    exact hstocked.step hnext

/-- While `alloc_reserved_percpu` succeeds, no pool is freed. -/
theorem freed_of_reachable
    (hreach : (pools possible).ReachableUnder (fun _ label => Listed label) s) :
    s.freed = [] := by
  refine hreach.invariant (P := fun s => s.freed = []) rfl ?_
  intro before label after _ hfreed hlisted hnext
  cases label with
  | write ip =>
      simp only [pools] at hnext
      split at hnext <;> cases hnext <;> exact hfreed
  | draw ip =>
      cases hnext
      exact hfreed
  | step pc act =>
      simp only [pools, Option.ite_none_right_eq_some] at hnext
      obtain ⟨-, hnext⟩ := hnext
      obtain ⟨⟨s', pcs⟩, hstep, rfl⟩ := Option.map_eq_some_iff.mp hnext
      exact (stepPc_freed hlisted hstep).trans hfreed

theorem Covered.step (hcpu : cpu ∈ possible) (hstocked : Stocked s) {n : ℕ}
    (hcovered : Covered possible ip cpu n s) {label : Label Cpu}
    (hnext : (pools possible).next s label = some s') :
    Covered possible ip cpu (n + lost ip cpu s label) s' := by
  cases label with
  | write ip' =>
      simp only [pools] at hnext
      split at hnext <;> cases hnext
      · exact hcovered
      · exact hcovered.start _
  | draw ip' =>
      cases hnext
      exact hcovered.start _
  | step pc act =>
      simp only [pools, Option.ite_none_right_eq_some] at hnext
      obtain ⟨hpc, hnext⟩ := hnext
      obtain ⟨⟨after, pcs⟩, hstep, rfl⟩ := Option.map_eq_some_iff.mp hnext
      have hpending :
          State.pending { after with threads := s.threads.erase pc + ↑pcs } ip cpu +
              pc.pending ip cpu =
            s.pending ip cpu + (pcs.map (Pc.pending ip cpu)).sum :=
        pending_step hpc pcs
      have hidle : State.idle { after with threads := s.threads.erase pc + ↑pcs } ip cpu =
          after.idle ip cpu := rfl
      simp only [Covered, lost, hidle]
      have hkeeps : Keeps possible ip cpu s after pc act pcs :=
        stepPc_keeps hcpu hstocked.toAllocated hstocked.tallied (hstocked.valid pc hpc)
          (hstocked.looks pc hpc) hstep
      cases hkeeps with
      | serves pc' hmem hserves =>
          exact .inl ⟨pc', Multiset.mem_add.mpr (.inr hmem), hserves⟩
      | batch hbatch =>
          have hle : pc.pending ip cpu ≤ s.pending ip cpu :=
            Multiset.single_le_sum (fun _ _ => Nat.zero_le _) _ (Multiset.mem_map_of_mem _ hpc)
          exact .inr (by omega)
      | same hserves hbalance =>
          rcases hcovered with ⟨pc', hpc', hserves'⟩ | hbatch
          · -- the thread that looks is another one
            have hne : pc' ≠ pc := fun heq => hserves (heq ▸ hserves')
            exact .inl ⟨pc', Multiset.mem_add.mpr
              (.inl ((Multiset.mem_erase_of_ne hne).mpr hpc')), hserves'⟩
          · exact .inr (by omega)

theorem work_step (ip : NextHop) {label : Label Cpu} (hunasked : Unasked ip s label)
    (hnext : (pools possible).next s label = some s') :
    (if label.serves ip then 1 else 0) + s'.work possible ip ≤ s.work possible ip := by
  cases label with
  | write ip' =>
      simp only [pools] at hnext
      split at hnext <;> cases hnext
      · exact Nat.le_of_eq (Nat.zero_add _)
      · rw [State.work, Multiset.map_cons, Multiset.sum_cons, Pc.workFor, Pc.hop,
          if_neg hunasked]
        simp [Label.serves, State.work]
  | draw ip' =>
      cases hnext
      rw [State.work, Multiset.map_cons, Multiset.sum_cons, Pc.workFor, Pc.hop,
        if_neg hunasked]
      simp [Label.serves, State.work]
  | step pc act =>
      simp only [pools, Option.ite_none_right_eq_some] at hnext
      obtain ⟨hpc, hnext⟩ := hnext
      obtain ⟨⟨after, pcs⟩, hstep, rfl⟩ := Option.map_eq_some_iff.mp hnext
      have hworks := stepPc_works hstep
      have hsum : State.work possible ip { after with threads := s.threads.erase pc + ↑pcs } +
            pc.workFor possible ip =
          s.work possible ip + (pcs.map (Pc.workFor possible ip)).sum :=
        sum_map_erase_add (Pc.workFor possible ip) hpc pcs
      change _ + State.work possible ip { after with threads := s.threads.erase pc + ↑pcs } ≤ _
      by_cases hhop : pc.hop = ip
      · have hpcs : pcs.map (Pc.workFor possible ip) = pcs.map (Pc.work possible) :=
          List.map_congr_left fun pc' hpc' => if_pos ((hworks.hop pc' hpc').trans hhop)
        have hless := hworks.less
        rw [hpcs, Pc.workFor, if_pos hhop] at hsum
        rw [Label.serves, if_pos (decide_eq_true hhop)]
        omega
      · have hpcs : (pcs.map (Pc.workFor possible ip)).sum = 0 := by
          refine List.sum_eq_zero fun n hn => ?_
          obtain ⟨pc', hpc', rfl⟩ := List.mem_map.mp hn
          exact if_neg fun heq => hhop (hworks.hop pc' hpc' ▸ heq)
        rw [hpcs, Pc.workFor, if_neg hhop] at hsum
        rw [Label.serves, if_neg (by simp [hhop])]
        omega

/-- Whatever is going on, as long as `alloc_reserved_percpu` succeeds, what is left to do for
a next hop is done after so many statements if nothing new is asked for it, and every thread
can go on.  When nothing is left to do for a next hop since one of its refills or commands
was due, every CPU has a batch of idle connections to it, less those that were lost to failed
calls or added on another CPU meanwhile. -/
theorem replenished [Nonempty Cpu] (possible : List Cpu) (ip : NextHop) (s : State Cpu)
    (hreach : (pools possible).ReachableUnder (fun _ label => Listed label) s) :
    (∀ labels s', (pools possible).runUnder (Unasked ip) s labels = some s' →
      labels.countP (Label.serves ip) ≤ s.work possible ip) ∧
    (∀ pc ∈ s.threads, ∃ act, ((pools possible).next s (.step pc act)).isSome) ∧
    ∀ labels s', (pools possible).run s labels = some s' →
      .refill ip ∈ s.threads ∨ .cpus .write ip possible ∈ s.threads →
      (∀ pc ∈ s'.threads, pc.hop ≠ ip) →
      ∀ cpu ∈ possible, perCorePoolMin ≤
        s'.idle ip cpu + (pools possible).total (lost ip cpu) s labels := by
  refine ⟨?bound, ?progress, ?batch⟩
  case bound =>
    intro labels s' hrun
    have hle := Machine.countP_add_le (Label.serves ip) (State.work possible ip)
      (P := fun _ => True)
      (fun _ _ _ _ hunasked hnext => ⟨trivial, work_step ip hunasked hnext⟩) trivial hrun
    exact Nat.le_of_add_right_le hle.2
  case progress =>
    intro pc hpc
    obtain ⟨act, hact⟩ := stepPc_isSome possible (freed_of_reachable hreach) pc
    refine ⟨act, ?_⟩
    simp only [pools, if_pos hpc, Option.isSome_map, hact]
  case batch =>
    intro labels s' hrun hdue hdone cpu hcpu
    have hcovered : Covered possible ip cpu 0 s := by
      rcases hdue with hdue | hdue
      · exact .inl ⟨_, hdue, rfl, hcpu⟩
      · exact .inl ⟨_, hdue, rfl, hcpu⟩
    have hfinal : Covered possible ip cpu
        (0 + (pools possible).total (lost ip cpu) s labels) s' :=
      (Machine.invariant_total (Q := fun n s => Stocked s ∧ Covered possible ip cpu n s)
        (fun n _ _ _ hbefore _ hnext =>
          ⟨hbefore.1.step hnext, hbefore.2.step hcpu hbefore.1 hnext⟩)
        hrun ⟨stocked_of_reachable hreach.reachable, hcovered⟩).2
    rw [Nat.zero_add] at hfinal
    rcases hfinal with ⟨pc, hpc, hserves⟩ | hbatch
    · exact absurd (hop_of_serves hserves) (hdone pc hpc)
    · have hpending : s'.pending ip cpu = 0 := by
        refine Multiset.sum_eq_zero fun n hn => ?_
        obtain ⟨pc, hpc, rfl⟩ := Multiset.mem_map.mp hn
        exact pending_of_hop_ne (hdone pc hpc)
      omega

/-- The workers of a command, of which one cannot connect. -/
def fillRun : List (Label Unit) :=
  writeRun.tail ++ firstRun ++ connectRun 2 ++ connectRun 3 ++ [.step (.connect () 9) .fail]

/-- A command whose last worker cannot connect leaves three connections. -/
theorem replenished_write :
    ∃ s : State Unit, s.threads = 0 ∧ perCorePoolMin ≤ s.idle 9 () + 1 := by
  obtain ⟨s, hreach, hs⟩ := Machine.exists_reachable_of_run (pools [()])
    (fun _ label => Listed label) [.write 9]
    (fun s => (decide (.cpus .write 9 [()] ∈ s.threads),
      ((pools [()]).run s fillRun).map State.threads, (pools [()]).total (lost 9 ()) s fillRun))
    (true, some 0, 1) (by decide +kernel)
  obtain ⟨hdue, hs⟩ := Prod.mk.inj hs
  obtain ⟨hrun, hlost⟩ := Prod.mk.inj hs
  obtain ⟨s', hrun, hdone⟩ := Option.map_eq_some_iff.mp hrun
  refine ⟨s', hdone, ?_⟩
  rw [← hlost]
  refine (replenished [()] 9 s hreach).2.2 fillRun s' hrun (.inr (of_decide_eq_true hdue)) ?_ ()
    (List.mem_singleton_self ())
  rw [hdone]
  exact fun pc hpc => absurd hpc (Multiset.notMem_zero pc)

end KtcpSplit.PreconnPool
