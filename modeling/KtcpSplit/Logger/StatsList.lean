import KtcpSplit.Lib.LinkedList
import KtcpSplit.Logger.Model

/-!
# The list of the statistics callbacks

Every write to the stats file adds the one entry of the module to the list, whether or not
it is there.  A read walks the list before it copies anything to the user.
-/

namespace KtcpSplit.StatsList

open KtcpSplit.ConnKey (Byte)
open KtcpSplit.LinkedList
open KtcpSplit.Logger (GetStat TrvlBufferMgr)

/-! ## The files -/

/-- The nodes of the list: its head in `struct stats_cb_mgr`, and the entry. -/
inductive Node
  | head
  | debugEntry
  deriving DecidableEq

/-- `"Hello World\n"`. -/
def helloWorld : List Byte := [72, 101, 108, 108, 111, 32, 87, 111, 114, 108, 100, 10]

/-- The string as `scnprintf` stores it, and the number of its characters that were stored. -/
def debugStats : GetStat where
  written := fun tailroom =>
    if tailroom = 0 then [] else helloWorld.take (tailroom - 1) ++ [0]
  size := fun tailroom => (helloWorld.take (tailroom - 1)).length
  written_le := by
    intro tailroom
    split
    · exact Nat.zero_le _
    · rw [List.length_append, List.length_singleton, List.length_take]
      omega
  size_lt := by
    intro tailroom
    have hlength : helloWorld.length = 12 := rfl
    rw [List.length_take]
    omega

/-- The callback of the entry that holds a node. -/
def listEntry : Node → GetStat
  | .head => debugStats
  | .debugEntry => debugStats

structure State where
  scbm : Links Node
  log : Logger.State

def scbmRegister (scbm : Links Node) (entry : Node) : Links Node := listAddTail scbm entry .head

/-- The loop; `none` when the fuel runs out. -/
def scbmCollectStats (fuel : ℕ) (scbm : Links Node) (log : Logger.State) : Option Logger.State :=
  listForEachSafe scbm .head (fun log itr => Logger.scbmCollectStats log [listEntry itr]) fuel log

/-- A read collects unless there is no buffer or it follows one that returned data. -/
def Collects (buf : Bool) (ppos : BitVec 64) : Prop := ¬(buf = false ∨ ppos &&& 1 ≠ 0)

instance decidableCollects (buf : Bool) (ppos : BitVec 64) : Decidable (Collects buf ppos) :=
  inferInstanceAs (Decidable ¬_)

/-- What follows the loop is a read with nothing to collect. -/
def statsLogRead (fuel : ℕ) (s : State) (buf : Bool) (len : ℕ) (ppos : BitVec 64)
    (copyFails : ℕ → Bool) : Option State :=
  if Collects buf ppos then
    (scbmCollectStats fuel s.scbm s.log).map fun log =>
      { s with log := log.statsLogRead buf len ppos [] copyFails }
  else some s

inductive Call
  | statsLogWrite
  | loggerLogWrite (buf : List Byte) (memdup : Bool)
  | statsLogRead (buf : Bool) (len : ℕ) (ppos : BitVec 64) (copyFails : ℕ → Bool)

def step (fuel : ℕ) (s : State) : Call → Option State
  | .statsLogWrite => some { s with scbm := scbmRegister s.scbm .debugEntry }
  | .loggerLogWrite buf memdup => some { s with log := s.log.loggerLogWrite buf memdup }
  | .statsLogRead buf len ppos copyFails => statsLogRead fuel s buf len ppos copyFails

/-- `md_init`, whatever the memory holds. -/
def mdInit (links : Links Node) (mgr : TrvlBufferMgr) : State where
  scbm := initListHead links .head
  log := ⟨mgr.reset, [], []⟩

/-- Every call of the sequence returns. -/
def AllReturn : State → List Call → Prop
  | _, [] => True
  | s, call :: calls => ∃ fuel s', step fuel s call = some s' ∧ AllReturn s' calls

/-- The call adds the entry. -/
def Call.registers : Call → Bool
  | .statsLogWrite => true
  | _ => false

/-- The call walks the list. -/
def Call.Walks : Call → Prop
  | .statsLogRead buf _ ppos _ => Collects buf ppos
  | _ => False

/-! ## The list after a number of writes -/

/-- The list of the entries, which its second registration breaks. -/
def Registered (scbm : Links Node) : ℕ → Prop
  | 0 => Ring scbm .head []
  | 1 => Ring scbm .head [.debugEntry]
  | _ + 2 => Stuck scbm .head [] .debugEntry

theorem Registered.scbmRegister {scbm : Links Node} {count : ℕ}
    (hregistered : Registered scbm count) :
    Registered (scbmRegister scbm .debugEntry) (count + 1) := by
  match count, hregistered with
  | 0, hring => exact hring.listAddTail (by decide)
  | 1, hring => exact Ring.listAddTail_last hring
  | _ + 2, hstuck => exact hstuck.listAddTail

/-- Up to one registration the walk is the one of the list of entries. -/
theorem Registered.collects {scbm : Links Node} {count : ℕ}
    (hregistered : Registered scbm count) (hcount : count ≤ 1) (log : Logger.State) :
    scbmCollectStats (count + 1) scbm log =
      some (Logger.scbmCollectStats log (List.replicate count debugStats)) := by
  match count, hregistered with
  | 0, hring => exact hring.listForEachSafe _ log
  | 1, hring => exact hring.listForEachSafe _ log

theorem Registered.collects_iff {scbm : Links Node} {count : ℕ}
    (hregistered : Registered scbm count) (log : Logger.State) :
    (∃ fuel log', scbmCollectStats fuel scbm log = some log') ↔ count ≤ 1 := by
  constructor
  · rintro ⟨fuel, log', hcollect⟩
    match count, hregistered with
    | 0, _ => exact Nat.zero_le 1
    | 1, _ => exact le_rfl
    | _ + 2, hstuck => cases (hstuck.listForEachSafe _ fuel log).symm.trans hcollect
  · intro hcount
    exact ⟨_, _, hregistered.collects hcount log⟩

/-- The read is then one with the entry as often as it was added. -/
theorem Registered.read_eq {s : State} {count : ℕ} (hregistered : Registered s.scbm count)
    (hcount : count ≤ 1) (buf : Bool) (len : ℕ) (ppos : BitVec 64) (copyFails : ℕ → Bool) :
    statsLogRead (count + 1) s buf len ppos copyFails = some { s with
      log := s.log.statsLogRead buf len ppos (List.replicate count debugStats) copyFails } := by
  rw [statsLogRead]
  split
  · next hcollects =>
      rw [hregistered.collects hcount, Option.map_some, Logger.State.statsLogRead,
        if_neg hcollects, Logger.State.statsLogRead, if_neg hcollects]
      rfl
  · next hskips => rw [Logger.State.statsLogRead, if_pos (not_not.mp hskips)]

/-! ## Sequences -/

variable {s s' : State} {count : ℕ} {call : Call} {calls : List Call}

theorem Registered.step (hregistered : Registered s.scbm count) {fuel : ℕ}
    (hstep : step fuel s call = some s') :
    Registered s'.scbm (count + if call.registers then 1 else 0) := by
  cases call with
  | statsLogWrite =>
      cases hstep
      exact hregistered.scbmRegister
  | loggerLogWrite buf memdup =>
      cases hstep
      exact hregistered
  | statsLogRead buf len ppos copyFails =>
      rw [StatsList.step, statsLogRead] at hstep
      split at hstep
      · obtain ⟨log, -, rfl⟩ := Option.map_eq_some_iff.mp hstep
        exact hregistered
      · cases hstep
        exact hregistered

/-- A call that walks the list returns if the entry was added at most once. -/
theorem Registered.returns_iff (hregistered : Registered s.scbm count) (call : Call) :
    (∃ fuel s', StatsList.step fuel s call = some s') ↔ (call.Walks → count ≤ 1) := by
  cases call with
  | statsLogWrite => exact iff_of_true ⟨0, _, rfl⟩ False.elim
  | loggerLogWrite buf memdup => exact iff_of_true ⟨0, _, rfl⟩ False.elim
  | statsLogRead buf len ppos copyFails =>
      rw [Call.Walks, ← hregistered.collects_iff s.log]
      simp only [StatsList.step, statsLogRead]
      constructor
      · rintro ⟨fuel, s', hread⟩ hcollects
        rw [if_pos hcollects] at hread
        obtain ⟨log', hlog, -⟩ := Option.map_eq_some_iff.mp hread
        exact ⟨fuel, log', hlog⟩
      · intro hreturns
        by_cases hcollects : Collects buf ppos
        · obtain ⟨fuel, log', hlog⟩ := hreturns hcollects
          refine ⟨fuel, { s with log := log'.statsLogRead buf len ppos [] copyFails }, ?_⟩
          rw [if_pos hcollects, hlog, Option.map_some]
        · exact ⟨0, s, if_neg hcollects⟩

/-- What holds of every call and the calls before it. -/
theorem forall_split_cons {P : List Call → Call → Prop} :
    (∀ before next after, call :: calls = before ++ next :: after → P before next) ↔
      P [] call ∧ ∀ before next after, calls = before ++ next :: after →
        P (call :: before) next := by
  constructor
  · intro hall
    exact ⟨hall [] call calls rfl, fun before next after heq =>
      hall (call :: before) next after (congrArg (call :: ·) heq)⟩
  · rintro ⟨hfirst, hrest⟩ before next after heq
    cases before with
    | nil =>
        obtain ⟨rfl, -⟩ := List.cons.inj heq
        exact hfirst
    | cons first before =>
        obtain ⟨rfl, hcalls⟩ := List.cons.inj heq
        exact hrest before next after hcalls

theorem allReturn_iff (hregistered : Registered s.scbm count) (calls : List Call) :
    AllReturn s calls ↔ ∀ before call after, calls = before ++ call :: after → call.Walks →
      count + before.countP Call.registers ≤ 1 := by
  induction calls generalizing s count with
  | nil =>
      refine iff_of_true trivial fun before call after heq => ?_
      cases List.append_ne_nil_of_right_ne_nil before (List.cons_ne_nil call after) heq.symm
  | cons call calls ih =>
      simp only [forall_split_cons, List.countP_nil, Nat.add_zero,
        ← hregistered.returns_iff call, List.countP_cons]
      constructor
      · rintro ⟨fuel, s', hstep, hreturn⟩
        refine ⟨⟨fuel, s', hstep⟩, fun before next after heq hwalks => ?_⟩
        have hle := (ih (hregistered.step hstep)).mp hreturn before next after heq hwalks
        omega
      · rintro ⟨⟨fuel, s', hstep⟩, hrest⟩
        refine ⟨fuel, s', hstep, (ih (hregistered.step hstep)).mpr ?_⟩
        intro before next after heq hwalks
        have hle := hrest before next after heq hwalks
        omega

/-- Every call returns if and only if no read that walks the list comes after two writes to
the stats file. -/
theorem collecting_terminates_iff (links : Links Node) (mgr : TrvlBufferMgr)
    (calls : List Call) :
    AllReturn (mdInit links mgr) calls ↔
      ∀ before call after, calls = before ++ call :: after → call.Walks →
        before.countP Call.registers ≤ 1 := by
  have hring : Registered (mdInit links mgr).scbm 0 := ring_initListHead links .head
  simpa only [Nat.zero_add] using allReturn_iff hring calls

/-- Memory that is zero. -/
def zeros : List Byte := List.replicate Logger.trvlBufferSize 0

theorem length_zeros : zeros.length = Logger.trvlBufferSize := List.length_replicate

def emptyMgr : TrvlBufferMgr where
  len := 0
  buffer := zeros
  len_le := Nat.zero_le _
  length_buffer := length_zeros

/-- After two writes to the stats file the loop of a read never ends. -/
theorem second_write_hangs_read :
    let s := mdInit ⟨id, id⟩ emptyMgr
    let scbm := scbmRegister (scbmRegister s.scbm .debugEntry) .debugEntry
    scbm.next .head = .debugEntry ∧ scbm.next .debugEntry = .debugEntry ∧
      (∀ fuel log, scbmCollectStats fuel scbm log = none) ∧
      ¬AllReturn s [.statsLogWrite, .statsLogWrite, .statsLogRead true 4096 0 fun _ => false] := by
  intro s scbm
  have hring : Registered s.scbm 0 := ring_initListHead ⟨id, id⟩ Node.head
  have hstuck : Registered scbm 2 := hring.scbmRegister.scbmRegister
  refine ⟨by decide, by decide, fun fuel log => hstuck.listForEachSafe _ fuel log, ?_⟩
  rintro ⟨_, s₁, hfirst, _, s₂, hsecond, fuel, s₃, hread, -⟩
  cases hfirst
  cases hsecond
  have hwalks : Collects true 0 := by decide
  have hcount := (hstuck.returns_iff (.statsLogRead true 4096 0 fun _ => false)).mp
    ⟨fuel, s₃, hread⟩ hwalks
  exact absurd hcount (by decide)

end KtcpSplit.StatsList
