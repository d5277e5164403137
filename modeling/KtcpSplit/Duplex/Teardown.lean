import KtcpSplit.Duplex.Forwarding
import KtcpSplit.Lib.Ranking
import KtcpSplit.Rendezvous.Owners

/-!
# The end of a connection

Two calls of `half_duplex` share a QP and its two sockets, and each of them reads
from the socket that the other one writes to.  The first one that ends shuts both
sockets down in `put_qp`, which takes the other one down, and the second one
releases them.
-/

namespace KtcpSplit.Teardown

open KtcpSplit.HalfDuplex
open KtcpSplit.PageVec
open KtcpSplit.Rendezvous (Dir)
open KtcpSplit.Transition

variable {α : Type*}

/-- The call for a direction reads from `qp_dir[dir]` and writes to the other socket.
The fields after `queue` are those of the QP; `dropped` and `stray` record the
history: the directions that called `put_qp`, and whether a socket was used after it
was released. -/
structure State (α : Type*) where
  frame : Dir → Frame α
  /-- What has arrived at a socket and was not received. -/
  queue : Dir → List α
  refCnt : ℤ
  /-- Both sockets were shut down. -/
  shut : Bool
  /-- The calls of `sock_release` for a socket. -/
  released : Dir → ℕ
  freed : ℕ
  dropped : Dir → Bool
  stray : Bool

inductive Act (α : Type*)
  | arrive (dir : Dir) (bytes : List α)
  | call (dir : Dir) (outcome : Outcome α)

/-- The socket that a call of the direction used. -/
def usedSocket (dir : Dir) : Outcome α → Option Dir
  | .received _ => some dir
  | .recvFailed _ => some dir
  | .sent _ => some dir.peer
  | .sendFailed _ => some dir.peer
  | _ => none

/-- The next statement is `put_qp`. -/
def puts : Pc → Bool
  | .recvPut => true
  | .sendPut => true
  | _ => false

/-- The loop is over, and no reference is dropped any more. -/
def ended : Pc → Bool
  | .err => true
  | .done => true
  | _ => false

namespace State

variable (s : State α)

/-- A socket returns what is in its queue, and after the shutdown it accepts nothing. -/
def permits [DecidableEq α] (dir : Dir) : Outcome α → Bool
  | .received bytes => bytes.isPrefixOf (s.queue dir)
  | .sent _ => !s.shut
  | _ => true

/-- `put_qp`. -/
def putQp (dir : Dir) : State α :=
  let dropped := Function.update s.dropped dir true
  let rc := s.refCnt - 1
  if rc = 0 then
    { s with
      dropped := dropped
      refCnt := rc
      released := fun dir => s.released dir + 1
      freed := s.freed + 1 }
  else { s with dropped := dropped, refCnt := rc, shut := true }

/-- The call goes on to `f`. -/
def goOn (dir : Dir) (outcome : Outcome α) (f : Frame α) : State α :=
  { s with
    frame := Function.update s.frame dir f
    queue := Function.update s.queue dir ((s.queue dir).drop outcome.bytes.length)
    stray := s.stray ||
      (usedSocket dir outcome).any fun socket => decide (s.released socket ≠ 0) }

end State

/-- Both workers have taken their references and start to forward. -/
def connection [DecidableEq α] (memory : Dir → Pages α) : Machine (State α) (Act α) where
  init := {
    frame := fun dir => (halfDuplex (memory dir)).init
    queue := fun _ => []
    refCnt := 2
    shut := false
    released := fun _ => 0
    freed := 0
    dropped := fun _ => false
    stray := false }
  next := fun s act =>
    match act with
    | .arrive dir bytes =>
        if s.shut then none
        else some { s with queue := Function.update s.queue dir (s.queue dir ++ bytes) }
    | .call dir outcome =>
        if s.permits dir outcome then
          ((halfDuplex (memory dir)).next (s.frame dir) outcome).map fun f =>
            if puts (s.frame dir).pc then (s.goOn dir outcome f).putQp dir
            else s.goOn dir outcome f
        else none

/-! ## One statement -/

/-- The statements of `half_duplex` and where they lead. -/
inductive Move : Pc → Outcome α → Pc → Prop
  | page {i : ℕ} (hlt : i + 1 < vecSz) : Move (.alloc i) (.page true) (.alloc (i + 1))
  | pages {i : ℕ} : Move (.alloc i) (.page true) .recv
  | noPage {i : ℕ} : Move (.alloc i) (.page false) .err
  | received {bytes : List α} : Move .recv (.received bytes) (.send bytes.length)
  | recvFailed {rc : ℤ} : Move .recv (.recvFailed rc) .recvPut
  | recvPut : Move .recvPut .go .err
  | sent {count accepted : ℕ} : Move (.send count) (.sent accepted) .test
  | sendFailed {count : ℕ} {rc : ℤ} : Move (.send count) (.sendFailed rc) .sendPut
  | sendPut : Move .sendPut .go .err
  | goOn : Move .test (.stop false) .recv
  | stop : Move .test (.stop true) .err
  | leave : Move .err .go .done

theorem Move.of_next {pc pc' : Pc} {outcome : Outcome α} (hnext : pc.next outcome = some pc') :
    Move pc outcome pc' := by
  cases pc with
  | alloc i =>
      cases outcome with
      | page allocated =>
          cases allocated with
          | true =>
              simp only [Pc.next, Option.some.injEq] at hnext
              split at hnext
              · rename_i hlt
                exact hnext ▸ .page hlt
              · exact hnext ▸ .pages
          | false => cases hnext; exact .noPage
      | _ => cases hnext
  | recv =>
      cases outcome with
      | received bytes =>
          simp only [Pc.next, Option.ite_none_right_eq_some, Option.some.injEq] at hnext
          exact hnext.2 ▸ .received
      | recvFailed rc =>
          simp only [Pc.next, Option.ite_none_right_eq_some, Option.some.injEq] at hnext
          exact hnext.2 ▸ .recvFailed
      | _ => cases hnext
  | send count =>
      cases outcome with
      | sent accepted =>
          simp only [Pc.next, Option.ite_none_right_eq_some, Option.some.injEq] at hnext
          exact hnext.2 ▸ .sent
      | sendFailed rc =>
          simp only [Pc.next, Option.ite_none_right_eq_some, Option.some.injEq] at hnext
          exact hnext.2 ▸ .sendFailed
      | _ => cases hnext
  | test =>
      cases outcome with
      | stop should =>
          cases should with
          | true => cases hnext; exact .stop
          | false => cases hnext; exact .goOn
      | _ => cases hnext
  | recvPut => cases outcome <;> cases hnext; exact .recvPut
  | sendPut => cases outcome <;> cases hnext; exact .sendPut
  | err => cases outcome <;> cases hnext; exact .leave
  | done => cases outcome <;> cases hnext

/-- The statements that are left when nothing can be sent any more. -/
def rank : Pc → ℕ
  | .done => 0
  | .err => 1
  | .recvPut => 2
  | .sendPut => 2
  | .send _ => 3
  | .recv => 4
  | .test => 5
  | .alloc i => 5 + (vecSz - i)

theorem rank_le (pc : Pc) : rank pc ≤ 21 := by
  cases pc with
  | alloc i =>
      simp only [rank, vecSz]
      omega
  | _ => simp [rank]

theorem rank_le_of_ended {pc : Pc} (hended : ended pc = true) : rank pc ≤ 1 := by
  cases pc <;> cases hended <;> simp [rank]

section Statement

variable {pc pc' : Pc} {outcome : Outcome α} (hmove : Move pc outcome pc')
include hmove

/-- Only the calls on sockets stand before the loop is over. -/
theorem Move.usedSocket_eq_none {dir : Dir} (hended : ended pc = true) :
    usedSocket dir outcome = none := by
  cases hmove <;> first | rfl | cases hended

theorem Move.ended_of_ended (hended : ended pc = true) : ended pc' = true ∧ puts pc = false := by
  cases hmove <;> first | exact ⟨rfl, rfl⟩ | cases hended

theorem Move.ended_of_puts (hputs : puts pc = true) : ended pc' = true := by
  cases hmove <;> first | rfl | cases hputs

/-- The ways out of the loop. -/
theorem Move.ended_cases (hended : ended pc' = true) :
    ended pc = true ∨ puts pc = true ∨ outcome = .page false ∨ outcome = .stop true := by
  cases hmove <;> cases hended <;> simp [ended, puts]

/-- Every statement that sends nothing brings the call closer to its end. -/
theorem Move.rank_lt (hsent : ∀ accepted, outcome ≠ .sent accepted) : rank pc' < rank pc := by
  cases hmove with
  | page hlt =>
      simp only [rank]
      omega
  | sent => exact absurd rfl (hsent _)
  | _ =>
      simp only [rank]
      omega

end Statement

/-- A call that ends drops its reference on the way: its pages are allocated, and its
thread is not stopped. -/
def Drops : Outcome α → Prop
  | .page false => False
  | .stop true => False
  | _ => True

instance decidableDrops (outcome : Outcome α) : Decidable (Drops outcome) :=
  match outcome with
  | .page false => inferInstanceAs (Decidable False)
  | .page true => inferInstanceAs (Decidable True)
  | .stop true => inferInstanceAs (Decidable False)
  | .stop false => inferInstanceAs (Decidable True)
  | .received _ => inferInstanceAs (Decidable True)
  | .recvFailed _ => inferInstanceAs (Decidable True)
  | .sent _ => inferInstanceAs (Decidable True)
  | .sendFailed _ => inferInstanceAs (Decidable True)
  | .go => inferInstanceAs (Decidable True)

/-- A call that is not done can go on without bytes to receive or room to send. -/
theorem exists_next {pc : Pc} (hpc : pc ≠ .done) :
    ∃ outcome pc', pc.next (outcome : Outcome α) = some pc' ∧ Drops outcome ∧
      outcome.bytes = [] ∧ ∀ accepted, outcome ≠ .sent accepted := by
  cases pc with
  | alloc i => exact ⟨.page true, _, rfl, trivial, rfl, nofun⟩
  | recv => exact ⟨.recvFailed 0, _, rfl, trivial, rfl, nofun⟩
  | recvPut => exact ⟨.go, _, rfl, trivial, rfl, nofun⟩
  | send count => exact ⟨.sendFailed 0, _, rfl, trivial, rfl, nofun⟩
  | sendPut => exact ⟨.go, _, rfl, trivial, rfl, nofun⟩
  | test => exact ⟨.stop false, _, rfl, trivial, rfl, nofun⟩
  | err => exact ⟨.go, _, rfl, trivial, rfl, nofun⟩
  | done => exact absurd rfl hpc

/-! ## The references -/

/-- A direction that has not dropped its reference. -/
def State.holds (s : State α) (dir : Dir) : ℤ := if s.dropped dir then 0 else 1

/-- The counter counts the directions that hold a reference, the sockets are shut down
by the first `put_qp` and released by the second, and nobody uses them after that. -/
structure Inv (s : State α) : Prop where
  dropped : ∀ dir, s.dropped dir = true → ended (s.frame dir).pc = true
  refCnt : s.refCnt = s.holds .tx + s.holds .rx
  shut : s.shut = true ↔ ∃ dir, s.dropped dir = true
  released : ∀ dir, s.released dir = s.freed
  freed : s.freed = if s.dropped .tx && s.dropped .rx then 1 else 0
  stray : s.stray = false

theorem State.holds_of_dropped {s : State α} {dir : Dir} (hdropped : s.dropped dir = true) :
    s.holds dir = 0 :=
  if_pos hdropped

theorem State.holds_of_not_dropped {s : State α} {dir : Dir} (hdropped : s.dropped dir = false) :
    s.holds dir = 1 := by
  rw [holds, hdropped]
  rfl

/-- Both directions, from either side. -/
theorem State.holds_add (s : State α) (dir : Dir) :
    s.holds .tx + s.holds .rx = s.holds dir + s.holds dir.peer := by
  cases dir with
  | tx => rfl
  | rx => exact Int.add_comm _ _

theorem State.dropped_and (s : State α) (dir : Dir) :
    (s.dropped .tx && s.dropped .rx) = (s.dropped dir && s.dropped dir.peer) := by
  cases dir with
  | tx => rfl
  | rx => exact Bool.and_comm _ _

theorem ended_update {s : State α} {dir : Dir} {f : Frame α} (hinv : Inv s)
    (hended : ended (s.frame dir).pc = true → ended f.pc = true) (dir' : Dir)
    (hdropped : s.dropped dir' = true) : ended (Function.update s.frame dir f dir').pc = true := by
  by_cases hdir : dir' = dir
  · subst hdir
    rw [Function.update_self]
    exact hended (hinv.dropped dir' hdropped)
  · rw [Function.update_of_ne hdir]
    exact hinv.dropped dir' hdropped

/-- A direction whose loop is not over still holds its reference, so nothing was
released. -/
theorem Inv.not_freed {s : State α} (hinv : Inv s) {dir : Dir}
    (hended : ended (s.frame dir).pc = false) : s.dropped dir = false ∧ s.freed = 0 := by
  have hdropped : s.dropped dir = false := by
    cases hdropped : s.dropped dir with
    | false => rfl
    | true => exact absurd (hinv.dropped dir hdropped) (by rw [hended]; exact nofun)
  refine ⟨hdropped, ?_⟩
  rw [hinv.freed]
  cases dir <;> simp [hdropped]

theorem Inv.stray_goOn {s : State α} (hinv : Inv s) {dir : Dir} {outcome : Outcome α}
    {f : Frame α} (hmove : Move (s.frame dir).pc outcome f.pc) :
    (s.goOn dir outcome f).stray = false := by
  simp only [State.goOn, hinv.stray, Bool.false_or]
  cases hended : ended (s.frame dir).pc with
  | true => rw [hmove.usedSocket_eq_none hended, Option.any_none]
  | false =>
      cases usedSocket dir outcome with
      | none => rfl
      | some socket => simp [hinv.released, (hinv.not_freed hended).2]

/-- A statement other than `put_qp` leaves the QP alone. -/
theorem Inv.goOn {s : State α} (hinv : Inv s) {dir : Dir} {outcome : Outcome α} {f : Frame α}
    (hmove : Move (s.frame dir).pc outcome f.pc) : Inv (s.goOn dir outcome f) where
  dropped := ended_update hinv fun hended => (hmove.ended_of_ended hended).1
  refCnt := hinv.refCnt
  shut := hinv.shut
  released := hinv.released
  freed := hinv.freed
  stray := hinv.stray_goOn hmove

/-- `put_qp` drops a reference that is held. -/
theorem Inv.putQp {s : State α} (hinv : Inv s) {dir : Dir} {outcome : Outcome α} {f : Frame α}
    (hmove : Move (s.frame dir).pc outcome f.pc) (hputs : puts (s.frame dir).pc = true) :
    Inv ((s.goOn dir outcome f).putQp dir) := by
  have hended : ended (s.frame dir).pc = false := by
    cases hended : ended (s.frame dir).pc with
    | false => rfl
    | true => exact absurd hputs (by rw [(hmove.ended_of_ended hended).2]; exact nofun)
  obtain ⟨hdropped, hfreed⟩ := hinv.not_freed hended
  have hstray := hinv.stray_goOn hmove
  have hfover := hmove.ended_of_puts hputs
  have hframe : ∀ dir', Function.update s.dropped dir true dir' = true →
      ended (Function.update s.frame dir f dir').pc = true := by
    intro dir' hdir'
    by_cases hdir : dir' = dir
    · rw [hdir, Function.update_self]
      exact hfover
    · rw [Function.update_of_ne hdir] at hdir'
      exact ended_update hinv (fun _ => hfover) dir' hdir'
  have hrefCnt : s.refCnt - 1 = s.holds dir.peer := by
    rw [hinv.refCnt, s.holds_add dir, State.holds_of_not_dropped hdropped]
    omega
  have hown : Function.update s.dropped dir true dir = true := Function.update_self ..
  have hother : Function.update s.dropped dir true dir.peer = s.dropped dir.peer :=
    Function.update_of_ne (Dir.peer_ne dir) ..
  cases hpeer : s.dropped dir.peer with
  | true =>
      have hzero : s.refCnt - 1 = 0 := hrefCnt.trans (State.holds_of_dropped hpeer)
      rw [State.putQp, if_pos (show (s.goOn dir outcome f).refCnt - 1 = 0 from hzero)]
      constructor
      case dropped => exact hframe
      case refCnt =>
        rw [State.holds_add _ dir, State.holds_of_dropped hown,
          State.holds_of_dropped (hother.trans hpeer)]
        exact hzero
      case shut => exact iff_of_true (hinv.shut.mpr ⟨dir.peer, hpeer⟩) ⟨dir, hown⟩
      case released => exact fun dir' => congrArg (· + 1) (hinv.released dir')
      case freed =>
        rw [State.dropped_and _ dir]
        simp only [State.goOn, hown, hother, hpeer, hfreed, Bool.and_self, if_true]
      case stray => exact hstray
  | false =>
      have hone : s.refCnt - 1 = 1 := hrefCnt.trans (State.holds_of_not_dropped hpeer)
      have hne : (s.goOn dir outcome f).refCnt - 1 ≠ 0 := by
        change s.refCnt - 1 ≠ 0
        rw [hone]
        decide
      rw [State.putQp, if_neg hne]
      constructor
      case dropped => exact hframe
      case refCnt =>
        rw [State.holds_add _ dir, State.holds_of_dropped hown,
          State.holds_of_not_dropped (hother.trans hpeer)]
        exact hone
      case shut => exact iff_of_true rfl ⟨dir, hown⟩
      case released => exact hinv.released
      case freed =>
        rw [State.dropped_and _ dir]
        simp only [State.goOn, hown, hother, hpeer, hfreed, Bool.and_false, Bool.false_eq_true,
          if_false]
      case stray => exact hstray

section Runs

variable [DecidableEq α] {memory : Dir → Pages α} {s s' : State α}

/-- What a step of a call does. -/
theorem next_call {dir : Dir} {outcome : Outcome α}
    (hnext : (connection memory).next s (.call dir outcome) = some s') :
    s.permits dir outcome = true ∧ ∃ f, Move (s.frame dir).pc outcome f.pc ∧
      f.accepted = ((s.frame dir).record outcome).accepted ∧
      s' = if puts (s.frame dir).pc then (s.goOn dir outcome f).putQp dir
        else s.goOn dir outcome f := by
  simp only [connection, Option.ite_none_right_eq_some, Option.map_eq_some_iff] at hnext
  obtain ⟨hpermits, f, hf, rfl⟩ := hnext
  obtain ⟨pc', hpc', rfl⟩ := Option.map_eq_some_iff.mp hf
  exact ⟨hpermits, { (s.frame dir).record outcome with pc := pc' }, .of_next hpc', rfl, rfl⟩

theorem inv_init : Inv (connection memory).init where
  dropped := fun _ hdropped => nomatch hdropped
  refCnt := rfl
  shut := ⟨nofun, nofun⟩
  released := fun _ => rfl
  freed := rfl
  stray := rfl

theorem Inv.step (hinv : Inv s) {act : Act α} (hnext : (connection memory).next s act = some s') :
    Inv s' := by
  cases act with
  | arrive dir bytes =>
      simp only [connection, Option.ite_none_left_eq_some, Option.some.injEq] at hnext
      obtain ⟨-, rfl⟩ := hnext
      exact ⟨hinv.dropped, hinv.refCnt, hinv.shut, hinv.released, hinv.freed, hinv.stray⟩
  | call dir outcome =>
      obtain ⟨-, f, hmove, -, rfl⟩ := next_call hnext
      split
      · rename_i hputs
        exact hinv.putQp hmove hputs
      · exact hinv.goOn hmove

theorem inv_of_reachable (hreach : (connection memory).Reachable s) : Inv s :=
  hreach.invariant (P := Inv) inv_init fun _ _ _ _ hinv _ hnext => hinv.step hnext

/-! ## Once one direction has ended -/

/-- Every call that ends calls `put_qp`. -/
def PutsOnExit (_ : State α) : Act α → Prop
  | .arrive _ _ => True
  | .call _ outcome => Drops outcome

instance decidablePutsOnExit (s : State α) (act : Act α) : Decidable (PutsOnExit s act) :=
  match act with
  | .arrive _ _ => inferInstanceAs (Decidable True)
  | .call _ outcome => decidableDrops outcome

/-- The sockets are shut down. -/
structure Shut (s : State α) : Prop where
  inv : Inv s
  shut : s.shut = true

def State.rank (s : State α) : ℕ :=
  Teardown.rank (s.frame .tx).pc + Teardown.rank (s.frame .rx).pc

omit [DecidableEq α] in
theorem Shut.rank_le (hshut : Shut s) : s.rank ≤ 22 := by
  obtain ⟨dir, hdropped⟩ := hshut.inv.shut.mp hshut.shut
  have hended := rank_le_of_ended (hshut.inv.dropped dir hdropped)
  have htx := Teardown.rank_le (s.frame .tx).pc
  have hrx := Teardown.rank_le (s.frame .rx).pc
  rw [State.rank]
  cases dir <;> omega

omit [DecidableEq α] in
theorem putQp_frame (s : State α) (dir : Dir) : (s.putQp dir).frame = s.frame := by
  simp only [State.putQp]
  split <;> rfl

omit [DecidableEq α] in
theorem putQp_shut {s : State α} (dir : Dir) (hshut : s.shut = true) :
    (s.putQp dir).shut = true := by
  simp only [State.putQp]
  split
  · exact hshut
  · rfl

/-- After the shutdown a step moves one call, which sends nothing. -/
theorem Shut.next (hshut : Shut s) {act : Act α}
    (hnext : (connection memory).next s act = some s') :
    Shut s' ∧ ∃ dir f, s'.frame = Function.update s.frame dir f ∧
      f.accepted = (s.frame dir).accepted ∧
      Teardown.rank f.pc < Teardown.rank (s.frame dir).pc := by
  have hinv' := hshut.inv.step hnext
  cases act with
  | arrive dir bytes =>
      simp only [connection, Option.ite_none_left_eq_some] at hnext
      exact absurd hshut.shut hnext.1
  | call dir outcome =>
      obtain ⟨hpermits, f, hmove, haccepted, rfl⟩ := next_call hnext
      have hsent : ∀ accepted, outcome ≠ .sent accepted := by
        rintro accepted rfl
        simp [State.permits, hshut.shut] at hpermits
      have hsame : f.accepted = (s.frame dir).accepted := by
        rw [haccepted]
        cases outcome with
        | sent accepted => exact absurd rfl (hsent accepted)
        | page allocated => cases allocated <;> rfl
        | _ => rfl
      refine ⟨⟨hinv', ?_⟩, dir, f, ?_, hsame, hmove.rank_lt hsent⟩
      · split
        · exact putQp_shut dir hshut.shut
        · exact hshut.shut
      · split
        · exact putQp_frame _ dir
        · rfl

theorem Shut.ranked : (connection memory).Ranked PutsOnExit Shut State.rank := by
  intro before act after hshut _ hnext
  obtain ⟨hshut', dir, f, hframe, -, hless⟩ := hshut.next hnext
  refine ⟨hshut', ?_⟩
  rw [State.rank, State.rank, hframe]
  cases dir <;> simp only [Function.update_self, ne_eq, reduceCtorEq, not_false_eq_true,
    Function.update_of_ne] <;> omega

/-- What was forwarded when the sockets were shut down is all that ever is. -/
theorem Shut.accepted_eq (hshut : Shut s) {acts : List (Act α)}
    (hrun : (connection memory).runUnder PutsOnExit s acts = some s') (dir : Dir) :
    (s'.frame dir).accepted = (s.frame dir).accepted := by
  induction acts generalizing s with
  | nil =>
      simp only [Machine.runUnder, Option.some.injEq] at hrun
      rw [hrun]
  | cons act acts ih =>
      simp only [Machine.runUnder, Option.ite_none_right_eq_some] at hrun
      obtain ⟨after, hnext, hrest⟩ := Option.bind_eq_some_iff.mp hrun.2
      obtain ⟨hshut', dir', f, hframe, haccepted, -⟩ := hshut.next hnext
      rw [ih hshut' hrest, hframe]
      by_cases hdir : dir = dir'
      · rw [hdir, Function.update_self, haccepted]
      · rw [Function.update_of_ne hdir]

/-- Nothing holds a call up. -/
theorem stuck_iff : (connection memory).Stuck PutsOnExit s ↔
    s.shut = true ∧ ∀ dir, (s.frame dir).pc = .done := by
  constructor
  · intro hstuck
    refine ⟨?_, fun dir => ?_⟩
    · by_contra hopen
      have harrive := hstuck (.arrive .tx []) trivial
      simp only [connection, if_neg hopen] at harrive
      cases harrive
    · by_contra hpc
      obtain ⟨outcome, pc', hnext, hdrops, hbytes, hsent⟩ := exists_next (α := α) hpc
      have hpermits : s.permits dir outcome = true := by
        cases outcome with
        | received bytes =>
            rw [show bytes = [] from hbytes]
            rfl
        | sent accepted => exact absurd rfl (hsent accepted)
        | _ => rfl
      have hcall := hstuck (.call dir outcome) hdrops
      simp only [connection, if_pos hpermits, halfDuplex, hnext, Option.map_some] at hcall
      cases hcall
  · rintro ⟨hshut, hdone⟩ act -
    cases act with
    | arrive dir bytes => exact if_pos hshut
    | call dir outcome =>
        have hnone : (s.frame dir).pc.next outcome = none := by
          rw [hdone dir]
          cases outcome <;> rfl
        simp only [connection, halfDuplex, hnone, Option.map_none, ite_self]

/-- A call that ended has dropped its reference. -/
def Dropped (s : State α) : Prop := ∀ dir, ended (s.frame dir).pc = true → s.dropped dir = true

omit [DecidableEq α] in
theorem putQp_dropped (s : State α) (dir : Dir) :
    (s.putQp dir).dropped = Function.update s.dropped dir true := by
  simp only [State.putQp]
  split <;> rfl

theorem Dropped.step (hdropped : Dropped s) {act : Act α} (hputs : PutsOnExit s act)
    (hnext : (connection memory).next s act = some s') : Dropped s' := by
  cases act with
  | arrive dir bytes =>
      simp only [connection, Option.ite_none_left_eq_some, Option.some.injEq] at hnext
      obtain ⟨-, rfl⟩ := hnext
      exact hdropped
  | call dir outcome =>
      obtain ⟨-, f, hmove, -, rfl⟩ := next_call hnext
      intro dir' hended
      by_cases hput : puts (s.frame dir).pc = true
      · rw [if_pos hput, putQp_frame] at hended
        rw [if_pos hput, putQp_dropped]
        by_cases hdir : dir' = dir
        · rw [hdir, Function.update_self]
        · simp only [State.goOn, Function.update_of_ne hdir] at hended ⊢
          exact hdropped dir' hended
      · rw [if_neg hput] at hended ⊢
        by_cases hdir : dir' = dir
        · subst hdir
          simp only [State.goOn, Function.update_self] at hended ⊢
          -- the other ways out of the loop are not taken
          obtain hbefore | hbefore | rfl | rfl := hmove.ended_cases hended
          · exact hdropped dir' hbefore
          · exact absurd hbefore hput
          · exact hputs.elim
          · exact hputs.elim
        · simp only [State.goOn, Function.update_of_ne hdir] at hended ⊢
          exact hdropped dir' hended

theorem dropped_of_reachable (hreach : (connection memory).ReachableUnder PutsOnExit s) :
    Dropped s := by
  refine hreach.invariant (P := Dropped) (fun _ hended => Bool.noConfusion hended) ?_
  intro before act after _ hdropped hputs hnext
  exact hdropped.step hputs hnext

end Runs

end KtcpSplit.Teardown
