import KtcpSplit.Rendezvous.Lifetime

/-!
# Forwarding on two live sockets

`wait_qp_ready` reports an error only when the wait timed out.  A wait that a
signal ended returns zero with the peer's socket still missing, so each caller
has to look at both sockets again before it calls `half_duplex`.
-/

namespace KtcpSplit.Rendezvous

open KtcpSplit.Transition

/-! ## The three callers -/

section Callers

variable {P : Type*} (isErrOrNull : P → Bool)

/-- `wait_qp_ready` by the content of `qp_dir` on entry and the result of
`wait_event_interruptible_timeout`, which is only called if the peer is missing. -/
def waitQpReady (qpDir : Dir → P) (dir : Dir) (rc : ℤ) : ℤ :=
  if isErrOrNull (qpDir dir.peer) then (if rc = 0 then 1 else 0) else 0

/-- What a caller does after the wait. -/
inductive Exit
  | halfDuplex
  | putQp
  | out
  deriving DecidableEq

/-- The end of a caller; `recheck` is where it goes with a missing socket, if it
looks for one. -/
def afterWait (recheck : Option Exit) (err : ℤ) (qpDir : Dir → P) : Exit :=
  if err ≠ 0 then .out
  else
    match recheck with
    | none => .halfDuplex
    | some exit =>
        if isErrOrNull (qpDir .rx) || isErrOrNull (qpDir .tx) then exit else .halfDuplex

def Fn.recheck : Fn → Option Exit
  | .startNewConnectionSyn => some .putQp
  | .startNewPreConnectionSyn => none
  | .startNewConnection => some .out

/-- The end of `fn`, with the content of `qp_dir` before and after the wait. -/
def Fn.tail (fn : Fn) (before after : Dir → P) (rc : ℤ) : Exit :=
  afterWait isErrOrNull fn.recheck (waitQpReady isErrOrNull before fn.dir rc) after

/-- Both sockets are there. -/
def Live (qpDir : Dir → P) : Prop :=
  ∀ dir, isErrOrNull (qpDir dir) = false

/-- The wait returns a positive value when it saw the peer's socket, and a pointer
to a socket is not taken back. -/
structure Waited (before after : Dir → P) (dir : Dir) (rc : ℤ) : Prop where
  met : 0 < rc → isErrOrNull (after dir.peer) = false
  kept : isErrOrNull (before dir.peer) = false → isErrOrNull (after dir.peer) = false

/-- The caller looks at both sockets, or its wait timed out, or its own socket is
valid and its wait did not end by a signal with the peer still missing. -/
def Assured (fn : Fn) (before after : Dir → P) (rc : ℤ) : Prop :=
  fn.recheck ≠ none ∨ isErrOrNull (before fn.dir.peer) = true ∧ rc = 0 ∨
    isErrOrNull (after fn.dir) = false ∧
      ¬(rc < 0 ∧ isErrOrNull (after fn.dir.peer) = true)

variable {isErrOrNull} {fn : Fn} {before after : Dir → P} {rc : ℤ}

theorem waitQpReady_eq_zero {dir : Dir} : waitQpReady isErrOrNull before dir rc = 0 ↔
    ¬(isErrOrNull (before dir.peer) = true ∧ rc = 0) := by
  unfold waitQpReady
  split <;> rename_i hpeer
  · split <;> simp_all
  · simp_all

theorem live_iff (dir : Dir) : Live isErrOrNull after ↔
    isErrOrNull (after dir) = false ∧ isErrOrNull (after dir.peer) = false := by
  constructor
  · exact fun hlive => ⟨hlive dir, hlive dir.peer⟩
  · rintro ⟨hown, hpeer⟩ dir'
    by_cases hdir : dir' = dir
    · rw [hdir, hown]
    · rw [Dir.eq_peer_of_ne hdir, hpeer]

/-- A caller that looks again is safe whatever the wait returned. -/
theorem live_of_recheck {exit : Exit} {err : ℤ} (hexit : exit ≠ .halfDuplex)
    (htail : afterWait isErrOrNull (some exit) err after = .halfDuplex) :
    Live isErrOrNull after := by
  unfold afterWait at htail
  dsimp only at htail
  split at htail
  · cases htail
  · split at htail
    · exact absurd htail hexit
    · rename_i hlive
      rw [Bool.or_eq_true, not_or, Bool.not_eq_true, Bool.not_eq_true] at hlive
      exact (live_iff .tx).mpr ⟨hlive.2, hlive.1⟩

theorem Fn.recheck_ne {exit : Exit} (hrecheck : fn.recheck = some exit) :
    exit ≠ .halfDuplex := by
  rintro rfl
  cases fn <;> cases hrecheck

end Callers

/-! ## The statements of the machine -/

section Machine

variable {W : Type*} [DecidableEq W] (cfg : Config W) (s : State W) (w : W)

def Exit.pc (q : ℕ) : Exit → Pc
  | .halfDuplex => .duplex q
  | .putQp => .dropRef q
  | .out => .done

/-- After a wait that reported no error, the machine goes where the caller does. -/
theorem stepThread_ready (fn : Fn) (q : ℕ) : stepThread cfg s w fn (.ready q) .go =
    some (s.setThread w
      ⟨fn, (afterWait SockPtr.isErrOrNull fn.recheck 0 (s.heap q).qpDir).pc q⟩) := by
  have hboth : (s.heap q).bothValid =
      !(((s.heap q).qpDir .rx).isErrOrNull || ((s.heap q).qpDir .tx).isErrOrNull) := by
    rw [Qp.bothValid, Bool.not_or, Bool.and_comm]
  cases fn <;> simp only [stepThread, afterWait, Fn.recheck, hboth] <;>
    cases ((s.heap q).qpDir .rx).isErrOrNull <;>
    cases ((s.heap q).qpDir .tx).isErrOrNull <;> rfl

/-- A step that ends the wait, by the result of the wait. -/
def waitAct (rc : ℤ) : Act :=
  if 0 < rc then .go else if rc = 0 then .timeout else .signal

/-- A wait that ended is followed by the timeout branch of `wait_qp_ready` exactly
when `wait_qp_ready` is going to report an error. -/
theorem stepThread_wait {s' : State W} {fn : Fn} {q : ℕ} {rc : ℤ} (before : Dir → SockPtr W)
    (hbefore : (before fn.dir.peer).isErrOrNull = true)
    (hstep : stepThread cfg s w fn (.wait q) (waitAct rc) = some s') :
    s' = s.setThread w ⟨fn,
      if waitQpReady SockPtr.isErrOrNull before fn.dir rc = 0 then .ready q
      else .expired q⟩ := by
  rw [waitAct] at hstep
  rw [waitQpReady, if_pos hbefore]
  rcases lt_trichotomy rc 0 with hneg | rfl | hpos
  · rw [if_neg (by omega), if_neg (by omega)] at hstep
    simp only [stepThread] at hstep
    split at hstep <;> cases hstep
    simp [hneg.ne]
  · simp only [stepThread, lt_irrefl, if_false, if_true] at hstep
    split at hstep <;> cases hstep
    rfl
  · rw [if_pos hpos] at hstep
    simp only [stepThread] at hstep
    split at hstep <;> cases hstep
    simp [hpos.ne']

end Machine

/-! ## Runs -/

section Runs

variable {W : Type*} {cfg : Config W} {s s' : State W} {w w' : W} {act : Act} {q : ℕ}

/-- No signal ends the wait of `start_new_pre_connection_syn`. -/
def NotInterrupted (s : State W) (label : W × Act) : Prop :=
  label.2 = .signal → (s.thread label.1).fn ≠ .startNewPreConnectionSyn

/-- Whoever forwards has two sockets, and a worker that does not look at them again
has seen both. -/
structure Forwards (s : State W) : Prop where
  duplex : ∀ w q, (s.thread w).pc = .duplex q → Live SockPtr.isErrOrNull (s.heap q).qpDir
  paired : ∀ w q, (s.thread w).fn = .startNewPreConnectionSyn →
    (s.thread w).pc.paired = some q → Live SockPtr.isErrOrNull (s.heap q).qpDir

variable [DecidableEq W]

omit [DecidableEq W] in
theorem Qp.live_of_bothValid {qp : Qp W} (hvalid : qp.bothValid = true) :
    Live SockPtr.isErrOrNull qp.qpDir := by
  rw [Qp.bothValid, Bool.and_eq_true, Bool.not_eq_true', Bool.not_eq_true'] at hvalid
  exact (live_iff .tx).mpr hvalid

omit [DecidableEq W] in
theorem Turn.fn_pre {before after : Thread} (hturn : Turn cfg s w act before after)
    (hfn : after.fn = .startNewPreConnectionSyn) :
    before.fn = .startNewPreConnectionSyn := by
  cases hturn with
  | move hmove => cases hmove <;> first | exact hfn | cases hfn
  | _ => exact hfn

omit [DecidableEq W] in
/-- A worker starts to forward on two sockets, or without having looked. -/
theorem Turn.duplex {before after : Thread} (hturn : Turn cfg s w act before after)
    (hpc : after.pc = .duplex q) : before.pc = .ready q ∧
      (before.fn = .startNewPreConnectionSyn ∨ (s.heap q).bothValid = true) := by
  cases hturn with
  | move hmove =>
      cases hmove with
      | duplex hvalid =>
          cases hpc
          exact ⟨rfl, hvalid⟩
      | rejected hinsert hadd hdir =>
          rename_i fn _ _ _ _
          cases fn <;> cases hpc
      | _ => cases hpc
  | claim hpc' hnew =>
      rename_i fn _ _ _ _
      cases fn <;> cases hpc
  | getFirst hone =>
      rename_i waits
      cases waits <;> cases hpc
  | erase herase =>
      cases herase with
      | fin =>
          rename_i waits
          cases waits <;> cases hpc
      | expired => cases hpc
  | _ => cases hpc

theorem Forwards.init : Forwards (rendezvous cfg).init := by
  constructor <;> simp [rendezvous, Pc.paired]

theorem live_step (howned : Owned cfg s) (hstep : Step cfg s w act s')
    (hqp : (s.thread w').pc.qp = some q)
    (hlive : Live SockPtr.isErrOrNull (s.heap q).qpDir) :
    Live SockPtr.isErrOrNull (s'.heap q).qpDir :=
  fun dir => hstep.valid (howned.lt_of_qp hqp) (hlive dir)

theorem Forwards.step (hforwards : Forwards s) (howned : Owned cfg s)
    (hlinked : Linked cfg s) (hguard : NotInterrupted s (w, act))
    (hstep : Step cfg s w act s') : Forwards s' := by
  have hturn := hstep.turn howned hlinked
  constructor
  case duplex =>
    intro w' q' hpc
    by_cases hw : w' = w
    · subst hw
      obtain ⟨hready, hfn | hvalid⟩ := hturn.duplex hpc
      · exact live_step howned hstep (by rw [hready]; rfl)
          (hforwards.paired w' q' hfn (by rw [hready]; rfl))
      · exact live_step howned hstep (by rw [hready]; rfl) (Qp.live_of_bothValid hvalid)
    · rw [hstep.thread_ne hw] at hpc
      exact live_step howned hstep (by rw [hpc]; rfl) (hforwards.duplex w' q' hpc)
  case paired =>
    intro w' q' hfn hpc
    by_cases hw : w' = w
    · subst hw
      have hbefore := hturn.fn_pre hfn
      have hsignal : act ≠ .signal := fun hsignal => hguard hsignal hbefore
      rcases hturn.paired hsignal hpc with hold | ⟨hqp, hconnect, hpeer⟩
      · exact live_step howned hstep (Pc.qp_of_paired hold)
          (hforwards.paired w' q' hbefore hold)
      · refine live_step howned hstep hqp ((live_iff (cfg.dir w')).mpr ⟨?_, ?_⟩)
        · exact howned.valid w' q' hqp hconnect
        · rw [← howned.fn_dir w']
          exact hpeer
    · rw [hstep.thread_ne hw] at hfn hpc
      exact live_step howned hstep (Pc.qp_of_paired hpc) (hforwards.paired w' q' hfn hpc)

/-- In every run that keeps its trees and in which no signal ends the wait of a
pre-connection worker, all forwarding is on two live sockets. -/
theorem forwards_of_notInterrupted
    (hreach : (rendezvous cfg).ReachableUnder (Keeping NotInterrupted) s) : Forwards s :=
  hreach.invariant (P := Forwards) Forwards.init
    fun _ _ _ hbefore hforwards hguard hnext =>
      hforwards.step (owned_of_reachable (reachable_of_keeping hbefore))
        (linked_of_reachable (reachable_of_keeping hbefore)) hguard.2
        (step_of_next hguard.1 hnext)

end Runs

/-! ## When forwarding starts on two live sockets -/

section Callers

variable {P : Type*} (isErrOrNull : P → Bool)

/-- The three callers, for every result of the wait and every content of
`qp_dir`. -/
theorem half_duplex_live_iff (fn : Fn) (before after : Dir → P) (rc : ℤ)
    (hwaited : Waited isErrOrNull before after fn.dir rc) :
    (fn.tail isErrOrNull before after rc = .halfDuplex → Live isErrOrNull after) ↔
      Assured isErrOrNull fn before after rc := by
  cases hrecheck : fn.recheck with
  | some exit =>
      refine iff_of_true (fun htail => ?_) (.inl (by rw [hrecheck]; exact nofun))
      rw [Fn.tail, hrecheck] at htail
      exact live_of_recheck (Fn.recheck_ne hrecheck) htail
  | none =>
      have htail : fn.tail isErrOrNull before after rc = .halfDuplex ↔
          ¬(isErrOrNull (before fn.dir.peer) = true ∧ rc = 0) := by
        rw [← waitQpReady_eq_zero, Fn.tail, hrecheck, afterWait]
        split <;> simp_all
      rw [htail, live_iff fn.dir, Assured, hrecheck]
      constructor
      · intro hlive
        by_cases htimeout : isErrOrNull (before fn.dir.peer) = true ∧ rc = 0
        · exact .inr (.inl htimeout)
        · obtain ⟨hown, hpeer⟩ := hlive htimeout
          exact .inr (.inr ⟨hown, fun hsignal => by simp [hpeer] at hsignal⟩)
      · rintro (hnone | htimeout | ⟨hown, hsignal⟩) hwent
        · exact absurd rfl hnone
        · exact absurd htimeout hwent
        · refine ⟨hown, ?_⟩
          -- The peer was there on entry, or the wait saw it, or a signal came.
          by_contra hpeer
          rw [Bool.not_eq_false] at hpeer
          have hbefore : isErrOrNull (before fn.dir.peer) = true := by
            by_contra hthere
            rw [hwaited.kept (by simpa using hthere)] at hpeer
            cases hpeer
          rcases lt_trichotomy rc 0 with hneg | hzero | hpos
          · exact hsignal ⟨hneg, hpeer⟩
          · exact hwent ⟨hbefore, hzero⟩
          · rw [hwaited.met hpos] at hpeer
            cases hpeer

/-- The content of `qp_dir` while the peer of a pre-connected socket is missing. -/
def peerMissing : Dir → SockPtr Dir
  | .tx => .sock .tx .startNewPreConnectionSyn
  | .rx => .null

def peerThere : Dir → SockPtr Dir
  | .tx => .sock .tx .startNewPreConnectionSyn
  | .rx => .sock .rx .startNewConnection

/-- The peer arrives while a pre-connection worker waits. -/
theorem half_duplex_live_iff_woken :
    Fn.tail SockPtr.isErrOrNull .startNewPreConnectionSyn peerMissing peerThere 250 =
      .halfDuplex ∧ Live SockPtr.isErrOrNull peerThere := by
  have hlive := (half_duplex_live_iff SockPtr.isErrOrNull .startNewPreConnectionSyn
    peerMissing peerThere 250 ⟨fun _ => rfl, fun _ => rfl⟩).mpr
      (.inr (.inr ⟨rfl, by decide⟩))
  exact ⟨by decide, hlive (by decide)⟩

/-- A signal ends the wait, and a pre-connection worker forwards to a null
pointer. -/
theorem half_duplex_on_null :
    ¬∀ (fn : Fn) (before after : Dir → SockPtr Dir) (rc : ℤ),
      Waited SockPtr.isErrOrNull before after fn.dir rc →
        fn.tail SockPtr.isErrOrNull before after rc = .halfDuplex →
          Live SockPtr.isErrOrNull after := by
  intro hlive
  have hnull := hlive .startNewPreConnectionSyn peerMissing peerMissing (-512)
    ⟨fun hpos => absurd hpos (by decide), id⟩ (by decide) .rx
  cases hnull

end Callers

end KtcpSplit.Rendezvous
