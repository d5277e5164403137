import KtcpSplit.Duplex.HalfDuplex

/-!
# The stack frame that two directions share

`start_new_pending_connection` hands the addresses of its locals `ptr_pair` and
`sockets_rx` to a thread that runs `start_half_duplex`, and returns when its own
call of `half_duplex` does.  The other thread reads the locals before every call
on a socket.
-/

namespace KtcpSplit.StackFrame

open KtcpSplit.HalfDuplex (Outcome vecSz)
open KtcpSplit.Transition

/-! ## The two threads -/

/-- The next statement of `start_new_pending_connection`. -/
inductive MainPc
  /-- Everything up to the result of `kernel_connect`. -/
  | connect
  | getFirst
  | getSecond
  /-- `kthread_pool_run` of `start_half_duplex`. -/
  | poolRun
  | duplex (pc : HalfDuplex.Pc)
  | returned
  deriving DecidableEq

/-- The next statement of the other thread. -/
inductive PairPc
  | notStarted
  /-- `args[0]`. -/
  | readSockets
  /-- `args[1]`. -/
  | readQp
  /-- `sock->dir`. -/
  | readDir
  /-- Inside `half_duplex`; `called` says whether the call that stands next on a
  socket has read the socket and been made. -/
  | duplex (pc : HalfDuplex.Pc) (called : Bool)
  | returned
  deriving DecidableEq

/-- `gets` counts the references that were taken. -/
structure State where
  main : MainPc
  pair : PairPc
  gets : ℕ
  deriving DecidableEq

inductive Act
  | connect (succeeds : Bool)
  | getQp
  | poolRun (accepted : Bool)
  | main (outcome : Outcome Unit)
  /-- The other thread reads the stack frame. -/
  | read
  | pair (outcome : Outcome Unit)
  deriving DecidableEq

/-- The call that stands next is one on a socket. -/
def onSocket : HalfDuplex.Pc → Bool
  | .recv => true
  | .send _ => true
  | _ => false

/-- What a read of the stack frame leads to. -/
def PairPc.read : PairPc → Option PairPc
  | .readSockets => some .readQp
  | .readQp => some .readDir
  | .readDir => some (.duplex (.alloc 0) false)
  | .duplex pc false => if onSocket pc then some (.duplex pc true) else none
  | _ => none

def PairPc.next : PairPc → Outcome Unit → Option PairPc
  | .duplex pc called, outcome =>
      if onSocket pc = called then
        (pc.next outcome).map fun pc' => if pc' = .done then .returned else .duplex pc' false
      else none
  | _, _ => none

def MainPc.next : MainPc → Outcome Unit → Option MainPc
  | .duplex pc, outcome =>
      (pc.next outcome).map fun pc' => if pc' = .done then .returned else .duplex pc'
  | _, _ => none

def step (s : State) : Act → Option State
  | .connect succeeds =>
      if s.main = .connect then
        some { s with main := if succeeds then .getFirst else .returned }
      else none
  | .getQp =>
      match s.main with
      | .getFirst => some { s with main := .getSecond, gets := s.gets + 1 }
      | .getSecond => some { s with main := .poolRun, gets := s.gets + 1 }
      | _ => none
  | .poolRun accepted =>
      if s.main = .poolRun then
        some { s with
          main := .duplex (.alloc 0)
          pair := if accepted then .readSockets else s.pair }
      else none
  | .main outcome => (s.main.next outcome).map fun main => { s with main := main }
  | .read => s.pair.read.map fun pair => { s with pair := pair }
  | .pair outcome => (s.pair.next outcome).map fun pair => { s with pair := pair }

def pendingConnection : Machine State Act where
  init := ⟨.connect, .notStarted, 0⟩
  next := step

/-! ## The frame outlives its use -/

/-- No read of the frame is left for after the return, and both directions are
started when two references were taken. -/
structure Safe (s : State) : Prop where
  frame : s.main = .returned → s.pair.read = none
  started : s.gets = 2 → s.main ≠ .poolRun → s.pair ≠ .notStarted

/-- `half_duplex` does not go on to another call on a socket. -/
def stops : HalfDuplex.Pc → Outcome Unit → Bool
  | .alloc i, .page true => i + 1 < vecSz
  | .recv, .received _ => false
  | .test, .stop false => false
  | _, _ => true

def PairPc.stops : PairPc → Outcome Unit → Bool
  | .duplex pc _, outcome => StackFrame.stops pc outcome
  | _, _ => true

/-- The other thread is started.  The main thread leaves `half_duplex` only when the
other one has no read before it, and from then on that one makes no further call on
a socket. -/
def InTime (s : State) : Act → Prop
  | .poolRun accepted => accepted = true
  | .main _ => s.main = .duplex .err → s.pair.read = none
  | .pair outcome => s.main = .returned → s.pair.stops outcome = true
  | _ => True

instance decidableInTime (s : State) (act : Act) : Decidable (InTime s act) :=
  match act with
  | .poolRun accepted => inferInstanceAs (Decidable (accepted = true))
  | .main _ => inferInstanceAs (Decidable (s.main = .duplex .err → s.pair.read = none))
  | .pair outcome =>
      inferInstanceAs (Decidable (s.main = .returned → s.pair.stops outcome = true))
  | .connect _ => inferInstanceAs (Decidable True)
  | .getQp => inferInstanceAs (Decidable True)
  | .read => inferInstanceAs (Decidable True)

/-- Nothing was handed over yet. -/
def MainPc.early : MainPc → Bool
  | .duplex _ => false
  | .returned => false
  | _ => true

def MainPc.gets : MainPc → ℕ
  | .connect => 0
  | .getFirst => 0
  | .getSecond => 1
  | _ => 2

structure Inv (s : State) : Prop where
  safe : Safe s
  early : s.main.early = true → s.pair = .notStarted
  gets : s.main ≠ .returned → s.gets = s.main.gets

variable {s s' : State}

theorem stops_iff {pc pc' : HalfDuplex.Pc} {outcome : Outcome Unit}
    (hnext : pc.next outcome = some pc') : onSocket pc' = false ↔ stops pc outcome = true := by
  cases pc with
  | alloc i =>
      cases outcome <;> try cases hnext
      case page allocated =>
        cases allocated <;> simp only [HalfDuplex.Pc.next, Option.some.injEq] at hnext
        case false =>
          subst hnext
          exact ⟨fun _ => rfl, fun _ => rfl⟩
        case true =>
          subst hnext
          by_cases hlt : i + 1 < vecSz
          · rw [if_pos hlt]
            exact ⟨fun _ => decide_eq_true hlt, fun _ => rfl⟩
          · rw [if_neg hlt]
            exact ⟨Bool.noConfusion, fun h => absurd (of_decide_eq_true h) hlt⟩
  | recv =>
      cases outcome <;> simp only [HalfDuplex.Pc.next, reduceCtorEq] at hnext
      case received bytes =>
        split at hnext <;> cases hnext
        exact ⟨Bool.noConfusion, Bool.noConfusion⟩
      case recvFailed rc =>
        split at hnext <;> cases hnext
        exact ⟨fun _ => rfl, fun _ => rfl⟩
  | send count =>
      cases outcome <;> simp only [HalfDuplex.Pc.next, reduceCtorEq] at hnext
      case sent accepted =>
        split at hnext <;> cases hnext
        exact ⟨fun _ => rfl, fun _ => rfl⟩
      case sendFailed rc =>
        split at hnext <;> cases hnext
        exact ⟨fun _ => rfl, fun _ => rfl⟩
  | test =>
      cases outcome <;> simp only [HalfDuplex.Pc.next, reduceCtorEq] at hnext
      case stop should =>
        cases should <;> cases hnext
        case false => exact ⟨Bool.noConfusion, Bool.noConfusion⟩
        case true => exact ⟨fun _ => rfl, fun _ => rfl⟩
  | done => cases outcome <;> cases hnext
  | _ =>
      cases outcome <;> cases hnext
      exact ⟨fun _ => rfl, fun _ => rfl⟩

/-- Where the other thread stands after a step of `half_duplex`. -/
theorem read_next_iff {pair pair' : PairPc} {outcome : Outcome Unit}
    (hnext : pair.next outcome = some pair') :
    pair' ≠ .notStarted ∧ (pair'.read = none ↔ pair.stops outcome = true) := by
  cases pair with
  | duplex pc called =>
      obtain ⟨-, hmap⟩ := Option.ite_none_right_eq_some.mp hnext
      obtain ⟨pc', hpc, rfl⟩ := Option.map_eq_some_iff.mp hmap
      have hstops := stops_iff hpc
      have hread : ((if pc' = .done then PairPc.returned else .duplex pc' false).read = none) ↔
          onSocket pc' = false := by
        split
        · rename_i hdone
          rw [hdone]
          exact ⟨fun _ => rfl, fun _ => rfl⟩
        · cases honSocket : onSocket pc' <;> simp [PairPc.read, honSocket]
      refine ⟨?_, hread.trans hstops⟩
      split <;> exact PairPc.noConfusion
  | _ => cases hnext

/-- Every exit of `half_duplex` goes through `err`. -/
theorem err_of_done {pc : HalfDuplex.Pc} {outcome : Outcome Unit}
    (hnext : pc.next outcome = some .done) : pc = .err := by
  unfold HalfDuplex.Pc.next at hnext
  split at hnext
  all_goals first | rfl | cases hnext | (split at hnext <;> cases hnext)

theorem main_next {main main' : MainPc} {outcome : Outcome Unit}
    (hnext : main.next outcome = some main') :
    (∃ pc, main = .duplex pc) ∧ main'.early = false ∧
      (main' ≠ .returned → main'.gets = 2) ∧ main' ≠ .poolRun ∧
      (main' = .returned ↔ main = .duplex .err) := by
  cases main with
  | duplex pc =>
      obtain ⟨pc', hpc, rfl⟩ := Option.map_eq_some_iff.mp hnext
      refine ⟨⟨pc, rfl⟩, ?_⟩
      by_cases hdone : pc' = .done
      · subst hdone
        rw [if_pos rfl, err_of_done hpc]
        exact ⟨rfl, fun h => absurd rfl h, by decide, fun _ => rfl, fun _ => rfl⟩
      · rw [if_neg hdone]
        refine ⟨rfl, fun _ => rfl, MainPc.noConfusion, MainPc.noConfusion, ?_⟩
        rintro ⟨⟩
        cases outcome <;> cases hpc
        exact absurd rfl hdone
  | _ => cases hnext

theorem pair_of_read {pair pair' : PairPc} (hread : pair.read = some pair') :
    pair' ≠ .notStarted := by
  unfold PairPc.read at hread
  split at hread
  case h_4 => split at hread <;> cases hread; exact PairPc.noConfusion
  all_goals cases hread <;> exact PairPc.noConfusion

/-- A step keeps the frame safe exactly if it is taken in time. -/
theorem Inv.next (hinv : Inv s) {act : Act} (hnext : pendingConnection.next s act = some s') :
    (s'.main.early = true → s'.pair = .notStarted) ∧
      (s'.main ≠ .returned → s'.gets = s'.main.gets) ∧ (Safe s' ↔ InTime s act) := by
  cases act with
  | connect succeeds =>
      obtain ⟨hmain, heq⟩ := Option.ite_none_right_eq_some.mp hnext
      have hpair := hinv.early (by rw [hmain]; rfl)
      have hgets : s.gets = 0 := by
        rw [hinv.gets (by rw [hmain]; decide), hmain]
        rfl
      cases heq
      refine ⟨fun _ => hpair, ?_, fun _ => trivial, fun _ => ⟨fun _ => ?_, fun h => ?_⟩⟩
      · cases succeeds
        · exact fun h => absurd rfl h
        · exact fun _ => hgets
      · rw [hpair]
        rfl
      · rw [hgets] at h
        cases h
  | getQp =>
      cases hmain : s.main <;> simp only [pendingConnection, step, hmain] at hnext
      case getFirst =>
        have hpair := hinv.early (by rw [hmain]; rfl)
        have hgets := hinv.gets (by rw [hmain]; decide)
        rw [hmain] at hgets
        cases hnext
        refine ⟨fun _ => hpair, fun _ => congrArg (· + 1) hgets, fun _ => trivial,
          fun _ => ⟨MainPc.noConfusion, fun h => ?_⟩⟩
        rw [hgets] at h
        cases h
      case getSecond =>
        have hpair := hinv.early (by rw [hmain]; rfl)
        have hgets := hinv.gets (by rw [hmain]; decide)
        rw [hmain] at hgets
        cases hnext
        exact ⟨fun _ => hpair, fun _ => congrArg (· + 1) hgets, fun _ => trivial,
          fun _ => ⟨MainPc.noConfusion, fun _ h => absurd rfl h⟩⟩
      all_goals cases hnext
  | poolRun accepted =>
      obtain ⟨hmain, heq⟩ := Option.ite_none_right_eq_some.mp hnext
      have hpair := hinv.early (by rw [hmain]; rfl)
      have hgets : s.gets = 2 := by
        rw [hinv.gets (by rw [hmain]; decide), hmain]
        rfl
      cases heq
      refine ⟨Bool.noConfusion, fun _ => hgets, ?_⟩
      cases accepted with
      | true => exact ⟨fun _ => rfl, fun _ => ⟨MainPc.noConfusion, fun _ _ => PairPc.noConfusion⟩⟩
      | false =>
          -- the two references are there, but only one thread is
          constructor
          · intro hsafe
            exact absurd hpair (hsafe.started hgets MainPc.noConfusion)
          · exact Bool.noConfusion
  | main outcome =>
      obtain ⟨main, hmain, rfl⟩ := Option.map_eq_some_iff.mp hnext
      obtain ⟨⟨pc, hpc⟩, hearly, hgets', -, hreturned⟩ := main_next hmain
      have hgets : s.gets = 2 := by
        rw [hinv.gets (by rw [hpc]; exact MainPc.noConfusion), hpc]
        rfl
      have hpair := hinv.safe.started hgets (by rw [hpc]; exact MainPc.noConfusion)
      refine ⟨fun h => absurd (hearly.symm.trans h) Bool.false_ne_true,
        fun h => hgets.trans (hgets' h).symm, ?_, fun htime => ⟨?_, fun _ _ => hpair⟩⟩
      · exact fun hsafe herr => hsafe.frame (hreturned.mpr herr)
      · exact fun h => htime (hreturned.mp h)
  | read =>
      obtain ⟨pair, hread, rfl⟩ := Option.map_eq_some_iff.mp hnext
      have hmain : s.main ≠ .returned := by
        intro h
        rw [hinv.safe.frame h] at hread
        cases hread
      have hearly : s.main.early ≠ true := by
        intro h
        rw [hinv.early h] at hread
        cases hread
      exact ⟨fun h => absurd h hearly, hinv.gets, fun _ => trivial,
        fun _ => ⟨fun h => absurd h hmain, fun _ _ => pair_of_read hread⟩⟩
  | pair outcome =>
      obtain ⟨pair, hpair, rfl⟩ := Option.map_eq_some_iff.mp hnext
      obtain ⟨hstarted, hread⟩ := read_next_iff hpair
      have hearly : s.main.early ≠ true := by
        intro h
        rw [hinv.early h] at hpair
        cases hpair
      refine ⟨fun h => absurd h hearly, hinv.gets, ?_, fun htime => ⟨?_, fun _ _ => hstarted⟩⟩
      · exact fun hsafe hreturned => hread.mp (hsafe.frame hreturned)
      · exact fun hreturned => hread.mpr (htime hreturned)

theorem inv_of_reachable (hreach : pendingConnection.ReachableUnder InTime s) : Inv s := by
  refine hreach.invariant (P := Inv) ?_ ?_
  · exact ⟨⟨MainPc.noConfusion, fun h => nomatch h⟩, fun _ => rfl, fun _ => rfl⟩
  · intro before act after _ hinv htime hnext
    obtain ⟨hearly, hgets, hsafe⟩ := hinv.next hnext
    exact ⟨hsafe.mpr htime, hearly, hgets⟩

/-- In a run whose steps are all in time the other thread reads the frame only before
the return, and both directions are started when two references were taken.  After
the first step that is not in time, a read after the return is next or the second
direction is missing. -/
theorem frame_outlives (hreach : pendingConnection.ReachableUnder InTime s) :
    (∀ s', pendingConnection.next s .read = some s' → s.main ≠ .returned) ∧
      (s.gets = 2 → s.main ≠ .poolRun → s.pair ≠ .notStarted) ∧
      ∀ act s', pendingConnection.next s act = some s' → (Safe s' ↔ InTime s act) := by
  have hinv := inv_of_reachable hreach
  refine ⟨?_, hinv.safe.started, fun act s' hnext => (hinv.next hnext).2.2⟩
  intro s' hnext hreturned
  obtain ⟨pair, hread, -⟩ := Option.map_eq_some_iff.mp hnext
  rw [hinv.safe.frame hreturned] at hread
  cases hread

/-- Both references are taken and the other direction is started. -/
def startRun : List Act := [.connect true, .getQp, .getQp, .poolRun true]

/-- Both directions get their pages, and the other one ends first. -/
theorem frame_outlives_pair :
    ∃ s, pendingConnection.ReachableUnder InTime s ∧ s = ⟨.returned, .returned, 2⟩ ∧
      (∀ s', pendingConnection.next s .read = some s' → s.main ≠ .returned) ∧
      s.pair ≠ .notStarted := by
  obtain ⟨s, hreach, hs⟩ := Machine.exists_reachable_of_run pendingConnection InTime
    (List.flatten [startRun, [.read, .read, .read], List.replicate vecSz (.pair (.page true)),
      [.read, .pair (.recvFailed 0), .pair .go, .pair .go],
      List.replicate vecSz (.main (.page true)),
      [.main (.recvFailed 0), .main .go, .main .go]])
    id ⟨.returned, .returned, 2⟩ (by decide +kernel)
  obtain ⟨hread, hstarted, -⟩ := frame_outlives hreach
  have hs : s = ⟨.returned, .returned, 2⟩ := hs
  exact ⟨s, hreach, hs, hread, hstarted (by rw [hs]) (by rw [hs]; decide)⟩

/-- The main direction ends before the other thread has read its arguments. -/
theorem frame_read_after_return :
    ¬∀ s, pendingConnection.Reachable s →
      (∀ s', pendingConnection.next s .read = some s' → s.main ≠ .returned) ∧
      (s.gets = 2 → s.main ≠ .poolRun → s.pair ≠ .notStarted) := by
  intro hsafe
  obtain ⟨s, hreach, hs⟩ := Machine.exists_reachable_of_run pendingConnection
    (fun _ _ => True)
    (List.flatten [startRun, List.replicate vecSz (.main (.page true)),
      [.main (.recvFailed 0), .main .go, .main .go]])
    id ⟨.returned, .readSockets, 2⟩ (by decide +kernel)
  have hs : s = ⟨.returned, .readSockets, 2⟩ := hs
  subst hs
  exact (hsafe _ hreach).1 ⟨.returned, .readQp, 2⟩ rfl rfl

end KtcpSplit.StackFrame
