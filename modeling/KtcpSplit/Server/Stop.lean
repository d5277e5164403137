import KtcpSplit.Lib.Ledger
import KtcpSplit.Server.Listners

/-!
# What a split server leaves behind

`split_server` has two exits.  The label `error` removes the listener, the label `out`
takes for granted that somebody did.  Both release the listening socket; the raw
socket of the probes is released by neither, nor by `craete_prec_conn_probe` when it
fails.
-/

namespace KtcpSplit.Stop

open KtcpSplit.Ledger
open KtcpSplit.Listner
open KtcpSplit.Server
open KtcpSplit.Transition

/-- The sockets that `split_server` creates. -/
inductive Socket
  | sock
  | raw
  deriving DecidableEq

/-- The results of the kernel calls in `craete_prec_conn_probe`. -/
structure ProbeOutcome where
  sockCreate : ℤ
  soMark : ℤ
  hdrincl : ℤ
  deriving DecidableEq

/-- Whether it returns the socket, and what it does to it. -/
def craetePrecConnProbe (o : ProbeOutcome) : Bool × List (Event Socket) :=
  if o.sockCreate ≠ 0 then (false, [])
  else if o.soMark < 0 then (false, [.acquire .raw, .access .raw])
  else if o.hdrincl ≠ 0 then (false, [.acquire .raw, .access .raw, .access .raw])
  else (true, [.acquire .raw, .access .raw, .access .raw])

/-- The servers, what `craete_prec_conn_probe` met with in each thread, and what each
thread did to its sockets. -/
structure State (W D : Type*) where
  servers : Server.State W D
  probed : W → Option ProbeOutcome
  calls : W → List (Event Socket)

inductive Label (W D : Type*)
  | server (label : Server.Label W D)
  /-- `craete_prec_conn_probe`. -/
  | probe (w : W) (o : ProbeOutcome)

variable {W D : Type*}

/-- The raw socket was created. -/
def State.hasRaw (s : State W D) (w : W) : Bool :=
  match s.probed w with
  | some o => o.sockCreate = 0
  | none => false

variable [DecidableEq W] [DecidableEq D]

/-- What a statement of `split_server` does to the sockets. -/
def socketCalls (s : Server.State W D) (w : W) : SplitPc → Act → List (Event Socket)
  | .sockCreate, .ok => [.acquire .sock]
  | .setMark, _ => [.access .sock]
  | .bind, _ => [.access .sock]
  | .listen, _ => [.access .sock]
  | .accept, _ => [.access .sock]
  | .error, _ =>
      match (s.server w).map fun l => (s.fields l).sock with
      | some (.sock _) => [.access .sock]
      | _ => []
  | .out, _ => if s.sock w = .absent then [] else [.release .sock]
  | _, _ => []

def stops (cfg : Config W D) : Machine (State W D) (Label W D) where
  init := {
    servers := (servers cfg).init
    probed := fun _ => none
    calls := fun _ => [] }
  next := fun s label =>
    match label with
    | .server (.split w act) =>
        if s.servers.pc w = .createProbe then none
        else ((servers cfg).next s.servers (.split w act)).map fun servers =>
          { s with
            servers := servers
            calls := Function.update s.calls w
              (s.calls w ++ socketCalls s.servers w (s.servers.pc w) act) }
    | .server (.remove d act) =>
        ((servers cfg).next s.servers (.remove d act)).map fun servers =>
          { s with servers := servers }
    | .probe w o =>
        if s.servers.pc w = .createProbe then
          let act := if (craetePrecConnProbe o).1 then Act.ok else Act.fail
          ((servers cfg).next s.servers (.split w act)).map fun servers =>
            { servers := servers
              probed := Function.update s.probed w (some o)
              calls := Function.update s.calls w
                (s.calls w ++ (craetePrecConnProbe o).2) }
        else none

/-- Nothing of the server is left: its listener is not in the tree, no command finds a
listener with its socket there, and a socket that was created was released once. -/
structure LeavesNoTrace (s : State W D) (w : W) (l : ℕ) : Prop where
  unlinked : ¬ s.servers.Linked l
  notFound : ∀ mark data, searchRbListner s.servers.root mark = some data →
    data.id ≠ l ∧ (s.servers.fields data.id).sock ≠ .sock w
  settled : ∀ socket, Settled socket (s.calls w) .absent

/-- `rb_erase` is called on listeners that are linked. -/
def ErasesLinked (s : State W D) : Label W D → Prop
  | .server label => EraseLinked s.servers label
  | .probe _ _ => True

instance decidableErasesLinked (s : State W D) :
    (label : Label W D) → Decidable (ErasesLinked s label)
  | .server label => inferInstanceAs (Decidable (EraseLinked s.servers label))
  | .probe _ _ => isTrue trivial

/-! ## The probe socket -/

omit [DecidableEq W] [DecidableEq D] in
/-- Once created, the raw socket is held for good. -/
theorem status_raw_probe (o : ProbeOutcome) :
    status .raw .absent (craetePrecConnProbe o).2 =
      if o.sockCreate = 0 then .held else .absent := by
  unfold craetePrecConnProbe
  by_cases hcreate : o.sockCreate = 0
  · rw [if_neg (not_not.mpr hcreate), if_pos hcreate]
    split
    · rfl
    · split <;> rfl
  · rw [if_pos hcreate, if_neg hcreate]
    rfl

theorem status_sock_probe (o : ProbeOutcome) (st : Status) :
    status .sock st (craetePrecConnProbe o).2 = st := by
  refine status_of_not_mem ?_
  unfold craetePrecConnProbe
  split
  · simp
  · split
    · simp
    · split <;> simp

theorem sockCreate_of_returns {o : ProbeOutcome} (hreturns : (craetePrecConnProbe o).1 = true) :
    o.sockCreate = 0 := by
  by_contra hcreate
  rw [craetePrecConnProbe, if_pos hcreate] at hreturns
  cases hreturns

/-! ## One step of a thread -/

/-- A socket that was created and not released. -/
def isOpen : Sock → Bool
  | .listening => true
  | .shut => true
  | _ => false

/-- The status of the listening socket. -/
def sockStatus : Sock → Status
  | .absent => .absent
  | .listening => .held
  | .shut => .held
  | .released => .released

/-- Which sockets there are, by the next statement of the thread. -/
def Phase (sock : Sock) (raw : Bool) : SplitPc → Prop
  | .search | .alloc | .add _ | .registered | .sockCreate => sock = .absent ∧ raw = false
  | .setMark | .bind | .listen | .createProbe => isOpen sock = true ∧ raw = false
  | .accept | .test => isOpen sock = true ∧ raw = true
  | .error | .erase | .free | .out => sock ≠ .released
  | .over => isOpen sock = false

/-- A socket stays as it is, or somebody shuts it down. -/
def KeptOpen (sock sock' : Sock) : Prop := sock' = sock ∨ sock = .listening ∧ sock' = .shut

theorem Phase.keptOpen {sock sock' : Sock} {raw : Bool} {pc : SplitPc}
    (hphase : Phase sock raw pc) (hsock : KeptOpen sock sock') : Phase sock' raw pc := by
  rcases hsock with rfl | ⟨rfl, rfl⟩
  · exact hphase
  · cases pc <;> simp_all [Phase, isOpen]

theorem KeptOpen.sockStatus {sock sock' : Sock} (hsock : KeptOpen sock sock') :
    sockStatus sock' = sockStatus sock := by
  rcases hsock with rfl | ⟨rfl, rfl⟩
  · rfl
  · rfl

theorem KeptOpen.absent {sock sock' : Sock} (hsock : KeptOpen sock sock')
    (habsent : sock' = .absent) : sock = .absent := by
  rcases hsock with rfl | ⟨-, rfl⟩
  · exact habsent
  · cases habsent

omit [DecidableEq D] in
theorem keptOpen_shutdown (s : Server.State W D) (l : ℕ) (w : W) :
    KeptOpen (s.sock w) ((s.shutdown l).sock w) := by
  unfold Server.State.shutdown
  split
  · rename_i w' hsock
    split
    · rename_i hlistening
      by_cases hw : w = w'
      · subst hw
        exact .inr ⟨hlistening, Function.update_self _ _ _⟩
      · exact .inl (Function.update_of_ne hw _ _)
    · exact .inl rfl
  · exact .inl rfl

/-- What a step of a thread does to the sockets, to the pointers to them, and where it
goes. -/
structure OwnStep (s : Server.State W D) (w : W) (act : Act) (s' : Server.State W D) :
    Prop where
  phase : s.pc w ≠ .createProbe → ∀ raw, Phase (s.sock w) raw (s.pc w) →
    Phase (s'.sock w) raw (s'.pc w)
  calls : (∀ l w', s.server w = some l → (s.fields l).sock = .sock w' → s.sock w ≠ .absent) →
    ∀ raw, Phase (s.sock w) raw (s.pc w) →
      status .sock (sockStatus (s.sock w)) (socketCalls s w (s.pc w) act) = sockStatus (s'.sock w)
  others : ∀ w', w' ≠ w → KeptOpen (s.sock w') (s'.sock w')
  stored : ∀ l w', (s'.fields l).sock = .sock w' →
    (s.fields l).sock = .sock w' ∨ w' = w ∧ s.server w = some l ∧ s'.sock w = .listening
  absent : s'.sock w = .absent → s.sock w = .absent
  out : s'.pc w = .out →
    s.pc w = .accept ∨ s.pc w = .free ∨ s.pc w = .error ∧ s.server w = none
  ended : s'.pc w = .over → s.pc w = .out

variable {cfg : Config W D} {s s' : Server.State W D} {w : W} {l : ℕ} {act : Act}

theorem status_access {sock : Sock} (hopen : isOpen sock = true) :
    status Socket.sock (sockStatus sock) [.access .sock] = sockStatus sock := by
  cases sock <;> first | rfl | cases hopen

/-- The ways from one statement to another on which the sockets stay as they are. -/
def goes : SplitPc → SplitPc → Bool
  | .search, .alloc => true
  | .search, .error => true
  | .alloc, .add _ => true
  | .alloc, .error => true
  | .add _, .registered => true
  | .registered, .sockCreate => true
  | .sockCreate, .error => true
  | .setMark, .bind => true
  | .setMark, .error => true
  | .bind, .listen => true
  | .bind, .error => true
  | .listen, .createProbe => true
  | .listen, .error => true
  | .createProbe, .accept => true
  | .createProbe, .error => true
  | .accept, .test => true
  | .accept, .out => true
  | .test, .accept => true
  | .test, .error => true
  | .erase, .free => true
  | .free, .out => true
  | _, _ => false

structure Goes (pc pc' : SplitPc) : Prop where
  phase : pc ≠ .createProbe → ∀ sock raw, Phase sock raw pc → Phase sock raw pc'
  notError : pc ≠ .error
  notOut : pc ≠ .out
  create : pc = .sockCreate → pc' = .error
  out : pc' = .out → pc = .accept ∨ pc = .free
  notOver : pc' ≠ .over

theorem goes_spec {pc pc' : SplitPc} (hgoes : goes pc pc' = true) : Goes pc pc' := by
  unfold goes at hgoes
  split at hgoes
  case h_22 => cases hgoes
  all_goals
    refine ⟨?_, by simp, by simp, by simp, by simp, by simp⟩
    rintro hne (_ | _ | _ | _) raw <;> simp_all [Phase, isOpen]

omit [DecidableEq W] [DecidableEq D] in
/-- The statements that leave the sockets alone, or use the listening socket. -/
theorem OwnStep.of_goes {pc' : SplitPc} (hgoes : goes (s.pc w) pc' = true)
    (hpc' : s'.pc w = pc') (hact : s.pc w = .sockCreate → act = .fail)
    (hsock : s'.sock = s.sock)
    (hfields : ∀ l, (s'.fields l).sock = (s.fields l).sock ∨ (s'.fields l).sock = .null) :
    OwnStep s w act s' where
  phase := fun hne raw hold => hsock ▸ hpc' ▸ (goes_spec hgoes).phase hne _ _ hold
  calls := by
    intro _ raw hold
    have hspec := goes_spec hgoes
    rw [hsock]
    generalize s.pc w = pc at hold hact hspec
    unfold socketCalls
    split
    case h_1 => cases hact rfl
    case h_6 => exact absurd rfl hspec.notError
    case h_7 => exact absurd rfl hspec.notOut
    case h_8 => rfl
    all_goals exact status_access hold.1
  others := fun w' _ => .inl (congrFun hsock w')
  stored := by
    intro l w' hstored
    rcases hfields l with hkept | hnull
    · exact .inl (hkept ▸ hstored)
    · cases hnull.symm.trans hstored
  absent := fun h => hsock ▸ h
  out := fun h => ((goes_spec hgoes).out (hpc' ▸ h)).imp_right .inl
  ended := fun h => absurd (hpc' ▸ h) (goes_spec hgoes).notOver

omit [DecidableEq D] in
/-- `sock_create_kern` makes the socket, and the listener points to it. -/
theorem OwnStep.sockCreate (hpc : s.pc w = .sockCreate) (hserver : s.server w = some l) :
    OwnStep s w .ok (((s.access l { s.fields l with sock := .sock w, status := 2 }).setSock w
      .listening).setPc w .setMark) where
  phase := by simp [State.setPc, State.setSock, State.access, Phase, isOpen, hpc]
  calls := by
    intro _ raw hold
    simp only [hpc, Phase] at hold
    simp [State.setPc, State.setSock, State.access, hpc, hold.1, socketCalls, sockStatus]
  others := fun w' hw => .inl (Function.update_of_ne hw _ _)
  stored := by
    intro l' w' hstored
    simp only [State.setPc, State.setSock, State.access, Function.update_apply] at hstored
    split at hstored
    · rename_i hl
      cases hstored
      exact .inr ⟨rfl, hl ▸ hserver, Function.update_self _ _ _⟩
    · exact .inl hstored
  absent := by simp [State.setPc, State.setSock]
  out := by simp [State.setPc]
  ended := by simp [State.setPc]

omit [DecidableEq D] in
/-- `kernel_sock_shutdown` of the socket that the listener points to. -/
theorem OwnStep.shutdown (hpc : s.pc w = .error) (hserver : s.server w = some l) :
    OwnStep s w .ok (((s.access l (s.fields l)).shutdown l).setPc w .erase) := by
  have hkept := keptOpen_shutdown (s.access l (s.fields l)) l
  have hfields : (s.access l (s.fields l)).fields = s.fields := Function.update_eq_self _ _
  obtain ⟨sock, hshutdown⟩ := shutdown_eq (s.access l (s.fields l)) l
  rw [hshutdown] at hkept ⊢
  exact {
    phase := by
      intro _ raw hold
      rw [hpc] at hold
      simp only [State.setPc, Function.update_self]
      exact (show Phase (s.sock w) raw .erase from hold).keptOpen (hkept w)
    calls := by
      intro hstored raw hold
      refine Eq.trans ?_ (hkept w).sockStatus.symm
      simp only [hpc, Phase] at hold
      simp only [socketCalls, hpc, hserver, Option.map_some]
      split
      · rename_i hsock
        have habsent := hstored l _ hserver (Option.some.inj hsock)
        refine status_access ?_
        cases hs : s.sock w <;> simp_all [isOpen]
      · rfl
    others := fun w' _ => hkept w'
    stored := fun l' w' hstored => .inl (congrFun hfields l' ▸ hstored)
    absent := (hkept w).absent
    out := by simp [State.setPc]
    ended := by simp [State.setPc] }

omit [DecidableEq D] in
/-- `sock_release` of a socket that was created. -/
theorem OwnStep.sockRelease (hpc : s.pc w = .out) :
    OwnStep s w .ok ((if s.sock w = .absent then s else s.setSock w .released).setPc w .over) := by
  by_cases habsent : s.sock w = .absent
  · rw [if_pos habsent]
    exact {
      phase := by simp [State.setPc, Phase, isOpen, habsent]
      calls := by
        intro _ raw _
        simp [socketCalls, hpc, habsent, State.setPc]
      others := fun w' _ => .inl rfl
      stored := fun l' w' hstored => .inl hstored
      absent := fun h => h
      out := by simp [State.setPc]
      ended := fun _ => hpc }
  · rw [if_neg habsent]
    exact {
      phase := by simp [State.setPc, State.setSock, Phase, isOpen]
      calls := by
        intro _ raw hold
        simp only [hpc, Phase] at hold
        rw [hpc, socketCalls, if_neg habsent]
        simp only [State.setPc, State.setSock, Function.update_self]
        cases hs : s.sock w <;> simp_all [sockStatus]
      others := fun w' hw => .inl (Function.update_of_ne hw _ _)
      stored := fun l' w' hstored => .inl hstored
      absent := by simp [State.setPc, State.setSock]
      out := by simp [State.setPc]
      ended := fun _ => hpc }

omit [DecidableEq D] in
/-- Without a listener there is nothing to shut down. -/
theorem OwnStep.noServer (hpc : s.pc w = .error) (hserver : s.server w = none) :
    OwnStep s w act (s.setPc w .out) where
  phase := by simp [State.setPc, Phase, hpc]
  calls := by
    intro _ raw _
    simp [socketCalls, hpc, hserver, State.setPc]
  others := fun w' _ => .inl rfl
  stored := fun l' w' hstored => .inl hstored
  absent := fun h => h
  out := fun _ => .inr (.inr ⟨hpc, hserver⟩)
  ended := by simp [State.setPc]

omit [DecidableEq D] in
theorem ownStep_of_stepServer (hserver : s.server w = some l)
    (hguard : s.pc w = .erase → s.Linked l)
    (hnext : stepServer s w l (s.pc w) act = some s') : OwnStep s w act s' := by
  generalize hpc : s.pc w = pc at hnext
  have hmove : ∀ pc', goes pc pc' = true → (pc = .sockCreate → act = .fail) →
      OwnStep s w act (s.setPc w pc') := by
    subst hpc
    exact fun pc' hgoes hact =>
      .of_goes hgoes (Function.update_self _ _ _) hact rfl fun _ => .inl rfl
  have hstore : ∀ status raw pc', goes pc pc' = true → (pc = .sockCreate → act = .fail) →
      OwnStep s w act ((s.access l ⟨status, (s.fields l).sock, raw⟩).setPc w pc') := by
    subst hpc
    refine fun status raw pc' hgoes hact =>
      .of_goes hgoes (Function.update_self _ _ _) hact rfl fun l' => .inl ?_
    simp only [State.setPc, State.access, Function.update_apply]
    split
    · rename_i hl
      rw [hl]
    · rfl
  cases pc with
  | registered =>
      cases act <;> cases hnext
      exact hstore _ _ .sockCreate rfl (by simp)
  | sockCreate =>
      cases act <;> cases hnext
      · exact .sockCreate hpc hserver
      · exact hmove .error rfl (by simp)
  | setMark =>
      cases act <;> cases hnext
      · exact hstore _ _ .bind rfl (by simp)
      · exact hmove .error rfl (by simp)
  | bind =>
      cases act <;> cases hnext
      · exact hstore _ _ .listen rfl (by simp)
      · exact hmove .error rfl (by simp)
  | listen =>
      cases act <;> cases hnext
      · exact hstore _ _ .createProbe rfl (by simp)
      · exact hmove .error rfl (by simp)
  | createProbe =>
      cases act <;> cases hnext
      · exact hstore _ _ .accept rfl (by simp)
      · exact hstore _ _ .error rfl (by simp)
  | accept =>
      cases act with
      | ok =>
          simp only [stepServer] at hnext
          split at hnext <;> cases hnext
          exact hmove .test rfl (by simp)
      | fail =>
          cases hnext
          exact hmove .out rfl (by simp)
      | _ => cases hnext
  | test =>
      cases act <;> cases hnext
      · exact hmove .accept rfl (by simp)
      · exact hstore _ _ .error rfl (by simp)
  | error =>
      cases act <;> cases hnext
      exact .shutdown hpc hserver
  | erase =>
      cases act with
      | tree root =>
          obtain ⟨s₁, herase, rfl⟩ := Option.map_eq_some_iff.mp hnext
          obtain ⟨-, rfl⟩ := rbErase_of_linked (hguard hpc) herase
          exact .of_goes (hpc ▸ rfl : goes (s.pc w) .free = true) (Function.update_self _ _ _)
            (by simp [hpc]) rfl fun _ => .inl rfl
      | _ => cases hnext
  | free =>
      cases act <;> cases hnext
      exact .of_goes (hpc ▸ rfl : goes (s.pc w) .out = true) (Function.update_self _ _ _)
        (by simp [hpc]) rfl fun _ => .inl rfl
  | _ => cases act <;> cases hnext

omit [DecidableEq D] in
theorem ownStep_of_stepSplit (hguard : EraseLinked s (.split w act))
    (hnext : stepSplit cfg s w (s.pc w) act = some s') : OwnStep s w act s' := by
  generalize hpc : s.pc w = pc at hnext
  have hgo : ∀ {s'' : Server.State W D} pc', s''.pc w = pc' → goes pc pc' = true →
      (pc = .sockCreate → act = .fail) → s''.sock = s.sock →
      (∀ l, (s''.fields l).sock = (s.fields l).sock ∨ (s''.fields l).sock = .null) →
      OwnStep s w act s'' := by
    subst hpc
    exact fun pc' hpc' hgoes => .of_goes hgoes hpc'
  unfold stepSplit at hnext
  split at hnext
  case h_1 =>
    split at hnext <;> cases hnext
    · exact hgo .error (Function.update_self _ _ _) rfl (by simp) rfl fun _ => .inl rfl
    · exact hgo .alloc (Function.update_self _ _ _) rfl (by simp) rfl fun _ => .inl rfl
  case h_2 =>
    cases hnext
    refine hgo (.add s.next) (Function.update_self _ _ _) rfl (by simp) rfl fun l => ?_
    simp only [Function.update_apply]
    split
    · exact .inr rfl
    · exact .inl rfl
  case h_3 =>
    cases hnext
    exact hgo .error (Function.update_self _ _ _) rfl (by simp) rfl fun _ => .inl rfl
  case h_4 l root =>
    dsimp only at hnext
    split at hnext
    · cases hnext
      exact hgo .registered (Function.update_self _ _ _) rfl (by simp) rfl fun _ => .inl rfl
    · split at hnext <;> cases hnext
      exact hgo .registered (Function.update_self _ _ _) rfl (by simp) rfl fun _ => .inl rfl
  case h_5 => cases hnext; exact .sockRelease hpc
  case h_6 =>
    split at hnext
    · rename_i l hserver
      exact ownStep_of_stepServer hserver
        (fun herase => hguard l (erasing_of_pc herase hserver)) (hpc ▸ hnext)
    · rename_i hserver
      split at hnext <;> cases hnext
      rename_i herror
      exact .noServer (hpc.trans herror) hserver

/-! ## Every run -/

/-- What the calls of every thread come to. -/
structure Books (s : State W D) : Prop where
  stored : ∀ l w, (s.servers.fields l).sock = .sock w →
    s.servers.server w = some l ∧ s.servers.sock w ≠ .absent
  phase : ∀ w, Phase (s.servers.sock w) (s.hasRaw w) (s.servers.pc w)
  sock : ∀ w, status .sock .absent (s.calls w) = sockStatus (s.servers.sock w)
  raw : ∀ w, status .raw .absent (s.calls w) = if s.hasRaw w then .held else .absent
  removed : ∀ w l, s.servers.server w = some l →
    s.servers.pc w = .out ∨ s.servers.pc w = .over →
    0 < s.servers.erased l ∨ s.hasRaw w = true

omit [DecidableEq W] [DecidableEq D] in
theorem socketCalls_ne_raw (s : Server.State W D) (w : W) (pc : SplitPc) (act : Act) :
    ∀ event ∈ socketCalls s w pc act, event.res ≠ .raw := by
  unfold socketCalls
  split
  case h_6 => split <;> simp
  case h_7 => split <;> simp
  all_goals simp

section Step

variable {t t' : State W D} {servers' : Server.State W D}

/-- A step of a thread, by what it does to the thread's own books. -/
theorem Books.own (hbooks : Books t) (hwf : Wf t.servers)
    (hguard : EraseLinked t.servers (.split w act))
    (hnext : (servers cfg).next t.servers (.split w act) = some t'.servers)
    (hcalls : ∀ w', w' ≠ w → t'.calls w' = t.calls w')
    (hothers : ∀ w', w' ≠ w → t'.hasRaw w' = t.hasRaw w')
    (hmono : t.hasRaw w = true → t'.hasRaw w = true)
    (hphase : Phase (t'.servers.sock w) (t'.hasRaw w) (t'.servers.pc w))
    (hsock : status .sock .absent (t'.calls w) = sockStatus (t'.servers.sock w))
    (hraw : status .raw .absent (t'.calls w) = if t'.hasRaw w then .held else .absent) :
    Books t' := by
  have hown : OwnStep t.servers w act t'.servers := ownStep_of_stepSplit hguard hnext
  have heffect := effect_of_next hguard hnext
  have hframe : ∀ w', w' ≠ w → t'.servers.pc w' = t.servers.pc w' ∧
      t'.servers.server w' = t.servers.server w' := fun w' hw =>
    heffect.thread_ne fun act' hlabel => hw (by cases hlabel; rfl)
  refine ⟨?_, ?_, ?_, ?_, ?_⟩
  · intro l w' hstored
    rcases hown.stored l w' hstored with hold | ⟨rfl, hserver, hlistening⟩
    · obtain ⟨hserver, hcreated⟩ := hbooks.stored l w' hold
      refine ⟨hwf.server_mono heffect hserver, fun habsent => hcreated ?_⟩
      by_cases hw : w' = w
      · subst hw
        exact hown.absent habsent
      · exact (hown.others w' hw).absent habsent
    · refine ⟨hwf.server_mono heffect hserver, fun habsent => ?_⟩
      cases hlistening.symm.trans habsent
  · intro w'
    by_cases hw : w' = w
    · subst hw
      exact hphase
    · rw [(hframe w' hw).1, hothers w' hw]
      exact (hbooks.phase w').keptOpen (hown.others w' hw)
  · intro w'
    by_cases hw : w' = w
    · subst hw
      exact hsock
    · rw [hcalls w' hw, (hown.others w' hw).sockStatus]
      exact hbooks.sock w'
  · intro w'
    by_cases hw : w' = w
    · subst hw
      exact hraw
    · rw [hcalls w' hw, hothers w' hw]
      exact hbooks.raw w'
  · intro w' l hserver hpc
    by_cases hw : w' = w
    case neg =>
      rw [(hframe w' hw).2] at hserver
      rw [(hframe w' hw).1] at hpc
      rw [hothers w' hw]
      exact (hbooks.removed w' l hserver hpc).imp_left fun herased =>
        herased.trans_le (heffect.erased_mono l)
    case pos =>
      subst hw
      have hkept : (t.servers.pc w').adding = none → t.servers.server w' = some l := by
        intro hadding
        rcases heffect.server_cases w' with heq | ⟨l', hadd, -⟩
        · exact heq ▸ hserver
        · rw [hadd] at hadding
          cases hadding
      have herased := heffect.erased_mono l
      rcases hpc with hout | hover
      · rcases hown.out hout with haccept | hfree | ⟨herror, hnone⟩
        · have hold := hbooks.phase w'
          rw [haccept] at hold
          exact .inr (hmono hold.2)
        · have hold := hwf.erased_of_freeing w' l (hkept (by rw [hfree]; rfl)) hfree
          exact .inl (hold.trans_le herased)
        · cases hnone.symm.trans (hkept (by rw [herror]; rfl))
      · have hout := hown.ended hover
        exact (hbooks.removed w' l (hkept (by rw [hout]; rfl)) (.inl hout)).imp
          (fun h => h.trans_le herased) hmono

/-- `socketCalls` belongs to a statement other than `craete_prec_conn_probe`. -/
theorem Books.split (hbooks : Books t) (hwf : Wf t.servers)
    (hpc : t.servers.pc w ≠ .createProbe) (hguard : EraseLinked t.servers (.split w act))
    (hnext : (servers cfg).next t.servers (.split w act) = some servers') :
    Books { t with
      servers := servers'
      calls := Function.update t.calls w
        (t.calls w ++ socketCalls t.servers w (t.servers.pc w) act) } := by
  have hown : OwnStep t.servers w act servers' := ownStep_of_stepSplit hguard hnext
  have hphase := hbooks.phase w
  refine hbooks.own hwf hguard hnext (fun w' hw => Function.update_of_ne hw _ _) (fun _ _ => rfl)
    (fun h => h) (hown.phase hpc _ hphase) ?_ ?_
  · have hstored : ∀ l w', t.servers.server w = some l →
        (t.servers.fields l).sock = .sock w' → t.servers.sock w ≠ .absent := by
      intro l w' hserver hsock
      obtain ⟨hserver', hcreated⟩ := hbooks.stored l w' hsock
      exact hwf.server_inj hserver hserver' ▸ hcreated
    dsimp only
    rw [Function.update_self, status_append, hbooks.sock w]
    exact hown.calls hstored _ hphase
  · dsimp only
    rw [Function.update_self, status_append, status_of_not_mem (socketCalls_ne_raw _ _ _ _)]
    exact hbooks.raw w

/-- After `craete_prec_conn_probe` the thread accepts or gives up. -/
theorem createProbe_cases (hpc : s.pc w = .createProbe)
    (hnext : (servers cfg).next s (.split w act) = some s') :
    s'.sock = s.sock ∧ (act = .ok ∧ s'.pc w = .accept ∨ act = .fail ∧ s'.pc w = .error) := by
  simp only [servers, hpc, stepSplit] at hnext
  split at hnext
  · cases act with
    | ok =>
        cases hnext
        exact ⟨rfl, .inl ⟨rfl, Function.update_self _ _ _⟩⟩
    | fail =>
        cases hnext
        exact ⟨rfl, .inr ⟨rfl, Function.update_self _ _ _⟩⟩
    | _ => cases hnext
  · cases hnext

omit [DecidableEq W] [DecidableEq D] in
theorem eraseLinked_of_createProbe (hpc : s.pc w = .createProbe) :
    EraseLinked s (.split w act) := by
  intro l herasing
  simp [Label.party, State.erasing, hpc] at herasing

theorem Books.probe {o : ProbeOutcome} (hbooks : Books t) (hwf : Wf t.servers)
    (hpc : t.servers.pc w = .createProbe)
    (hnext : (servers cfg).next t.servers
      (.split w (if (craetePrecConnProbe o).1 then .ok else .fail)) = some servers') :
    Books {
      servers := servers'
      probed := Function.update t.probed w (some o)
      calls := Function.update t.calls w (t.calls w ++ (craetePrecConnProbe o).2) } := by
  obtain ⟨hopen, hnone⟩ : Phase (t.servers.sock w) (t.hasRaw w) .createProbe :=
    hpc ▸ hbooks.phase w
  obtain ⟨hsock, hpc'⟩ := createProbe_cases hpc hnext
  have hraw : ∀ t' : State W D, t'.probed = Function.update t.probed w (some o) →
      t'.hasRaw w = decide (o.sockCreate = 0) := by
    intro t' hprobed
    rw [State.hasRaw, hprobed, Function.update_self]
  refine hbooks.own hwf (eraseLinked_of_createProbe hpc) hnext
    (fun w' hw => Function.update_of_ne hw _ _) (fun w' hw => ?_)
    (fun h => ?_) ?_ ?_ ?_
  · simp only [State.hasRaw, Function.update_of_ne hw]
  · cases hnone.symm.trans h
  · rw [hraw _ rfl, hsock]
    rcases hpc' with ⟨hok, haccept⟩ | ⟨hfail, herror⟩
    · have hreturns : (craetePrecConnProbe o).1 = true := by
        by_contra hnot
        rw [if_neg hnot] at hok
        cases hok
      rw [haccept]
      exact ⟨hopen, decide_eq_true (sockCreate_of_returns hreturns)⟩
    · rw [herror]
      intro hreleased
      rw [hreleased] at hopen
      cases hopen
  · dsimp only
    rw [Function.update_self, status_append, status_sock_probe, hsock]
    exact hbooks.sock w
  · dsimp only
    rw [Function.update_self, status_append, hbooks.raw w, hnone, hraw _ rfl]
    simpa using status_raw_probe o

theorem remove_frame {d : D} (hguard : EraseLinked s (.remove d act))
    (hnext : (servers cfg).next s (.remove d act) = some s') :
    (∀ w, KeptOpen (s.sock w) (s'.sock w)) ∧ s'.fields = s.fields := by
  have hsame : ∀ w, KeptOpen (s.sock w) (s.sock w) := fun _ => .inl rfl
  simp only [servers] at hnext
  generalize hpc : s.remover d = pc at hnext
  cases pc with
  | start =>
      cases act with
      | ok =>
          simp only [stepRemove] at hnext
          split at hnext
          · split at hnext <;> cases hnext <;> exact ⟨hsame, rfl⟩
          · cases hnext
            exact ⟨hsame, rfl⟩
      | pick l =>
          simp only [stepRemove] at hnext
          split at hnext
          · cases hnext
          · split at hnext <;> cases hnext
            exact ⟨hsame, rfl⟩
      | _ => cases hnext
  | shutdown l =>
      cases act <;> cases hnext
      have hkept := keptOpen_shutdown s l
      obtain ⟨sock, hshutdown⟩ := shutdown_eq s l
      rw [hshutdown] at hkept ⊢
      exact ⟨hkept, rfl⟩
  | erase l =>
      cases act with
      | tree root =>
          obtain ⟨s₁, herase, rfl⟩ := Option.map_eq_some_iff.mp hnext
          obtain ⟨-, rfl⟩ := rbErase_of_linked (hguard l (erasing_of_remover hpc)) herase
          exact ⟨hsame, rfl⟩
      | _ => cases hnext
  | free l =>
      cases act <;> cases hnext
      exact ⟨hsame, rfl⟩
  | _ => cases act <;> cases hnext

/-- A remover shuts sockets down, and leaves the pointers to them alone. -/
theorem Books.remove {d : D} (hbooks : Books t)
    (hguard : EraseLinked t.servers (.remove d act))
    (hnext : (servers cfg).next t.servers (.remove d act) = some servers') :
    Books { t with servers := servers' } := by
  have heffect := effect_of_next hguard hnext
  obtain ⟨hkept, hfields⟩ := remove_frame hguard hnext
  have hframe : ∀ w, servers'.pc w = t.servers.pc w ∧
      servers'.server w = t.servers.server w := fun w =>
    heffect.thread_ne fun act' hlabel => by cases hlabel
  refine ⟨?_, ?_, ?_, hbooks.raw, ?_⟩
  · intro l w hstored
    dsimp only at hstored ⊢
    rw [hfields] at hstored
    obtain ⟨hserver, hcreated⟩ := hbooks.stored l w hstored
    exact ⟨(hframe w).2.trans hserver, fun habsent => hcreated ((hkept w).absent habsent)⟩
  · intro w
    dsimp only
    rw [(hframe w).1]
    exact (hbooks.phase w).keptOpen (hkept w)
  · intro w
    exact (hbooks.sock w).trans (hkept w).sockStatus.symm
  · intro w l hserver hpc
    dsimp only at hserver hpc ⊢
    rw [(hframe w).2] at hserver
    rw [(hframe w).1] at hpc
    exact (hbooks.removed w l hserver hpc).imp_left fun herased =>
      herased.trans_le (heffect.erased_mono l)

theorem Books.step {label : Label W D} (hbooks : Books t) (hwf : Wf t.servers)
    (hguard : ErasesLinked t label)
    (hnext : (stops cfg).next t label = some t') : Books t' := by
  cases label with
  | server label =>
      cases label with
      | split w act =>
          simp only [stops] at hnext
          split at hnext
          · cases hnext
          · rename_i hpc
            obtain ⟨servers', hservers, rfl⟩ := Option.map_eq_some_iff.mp hnext
            exact hbooks.split hwf hpc hguard hservers
      | remove d act =>
          obtain ⟨servers', hservers, rfl⟩ := Option.map_eq_some_iff.mp hnext
          exact hbooks.remove hguard hservers
  | probe w o =>
      simp only [stops] at hnext
      split at hnext
      · rename_i hpc
        obtain ⟨servers', hservers, rfl⟩ := Option.map_eq_some_iff.mp hnext
        exact hbooks.probe hwf hpc hservers
      · cases hnext

end Step

theorem Books.init : Books (stops cfg).init := by
  refine ⟨fun l w hstored => ?_, fun w => ⟨rfl, rfl⟩, fun _ => rfl, fun _ => rfl,
    fun w l hserver _ => ?_⟩
  · cases hstored
  · cases hserver

/-- The servers run as they do without the books. -/
theorem servers_of_reachable {t : State W D}
    (hreach : (stops cfg).ReachableUnder ErasesLinked t) :
    (servers cfg).ReachableUnder EraseLinked t.servers := by
  refine hreach.invariant
    (P := fun t => (servers cfg).ReachableUnder EraseLinked t.servers) .init ?_
  rintro before label after - hbefore hguard hnext
  cases label with
  | server label =>
      cases label with
      | split w act =>
          simp only [stops] at hnext
          split at hnext
          · cases hnext
          · obtain ⟨servers', hservers, rfl⟩ := Option.map_eq_some_iff.mp hnext
            exact hbefore.next hguard hservers
      | remove d act =>
          obtain ⟨servers', hservers, rfl⟩ := Option.map_eq_some_iff.mp hnext
          exact hbefore.next hguard hservers
  | probe w o =>
      simp only [stops] at hnext
      split at hnext
      · rename_i hpc
        obtain ⟨servers', hservers, rfl⟩ := Option.map_eq_some_iff.mp hnext
        exact hbefore.next (eraseLinked_of_createProbe hpc) hservers
      · cases hnext

theorem books_of_reachable {t : State W D}
    (hreach : (stops cfg).ReachableUnder ErasesLinked t) : Wf t.servers ∧ Books t := by
  refine ⟨wf_of_reachable (servers_of_reachable hreach), ?_⟩
  refine hreach.invariant Books.init ?_
  rintro before label after hreach' hbooks hguard hnext
  exact hbooks.step (wf_of_reachable (servers_of_reachable hreach')) hguard hnext

/-- A server that registered a listener leaves no trace exactly when it returns before
its raw socket is created, if `rb_erase` was never called on a listener that was not
linked. -/
theorem leaves_no_trace_iff (cfg : Config W D) (s : State W D)
    (hreach : (stops cfg).ReachableUnder ErasesLinked s) (w : W) (l : ℕ)
    (hover : s.servers.pc w = .over) (hserver : s.servers.server w = some l) :
    LeavesNoTrace s w l ↔ ∀ o, s.probed w = some o → o.sockCreate ≠ 0 := by
  obtain ⟨hwf, hbooks⟩ := books_of_reachable hreach
  have hraw : s.hasRaw w = false ↔ ∀ o, s.probed w = some o → o.sockCreate ≠ 0 := by
    unfold State.hasRaw
    cases s.probed w <;> simp
  rw [← hraw]
  constructor
  · intro htrace
    by_contra hheld
    have hsettled := htrace.settled .raw
    rw [Settled, hbooks.raw w, if_pos (Bool.eq_true_of_not_eq_false hheld)] at hsettled
    rcases hsettled with h | h <;> cases h
  · intro hnone
    have hunlinked : ¬ s.servers.Linked l := by
      intro hlinked
      have hzero := hwf.erased_of_linked l hlinked
      rcases hbooks.removed w l hserver (.inr hover) with herased | hheld
      · omega
      · cases hnone.symm.trans hheld
    refine ⟨hunlinked, fun mark data hsearch => ?_, fun socket => ?_⟩
    · have hlinked : s.servers.Linked data.id :=
        ⟨data, (searchRbListner_sound hsearch).1, rfl⟩
      have hne : data.id ≠ l := fun heq => hunlinked (heq ▸ hlinked)
      refine ⟨hne, fun hsock => hne ?_⟩
      exact Option.some.inj ((hbooks.stored data.id w hsock).1.symm.trans hserver)
    · cases socket with
      | sock =>
          have hphase := hbooks.phase w
          rw [hover] at hphase
          rw [Settled, hbooks.sock w]
          cases hs : s.servers.sock w <;> simp_all [Phase, isOpen, sockStatus]
      | raw =>
          rw [Settled, hbooks.raw w, hnone]
          exact .inl rfl

def tenant : Config Unit Unit := ⟨fun _ => 7, fun _ => .delServerCb 7⟩

/-- `kernel_bind` fails: the listener and its socket are gone. -/
theorem leaves_no_trace_iff_bind :
    ∃ s : State Unit Unit, s.servers.server () = some 0 ∧
      status .sock .absent (s.calls ()) = .released ∧ LeavesNoTrace s () 0 := by
  obtain ⟨s, hreach, hs⟩ := Machine.exists_reachable_of_run (stops tenant) ErasesLinked
    [.server (.split () .ok), .server (.split () (.slab 0)),
      .server (.split () (.tree (.node ⟨0, 7⟩ .nil .nil))), .server (.split () .ok),
      .server (.split () .ok), .server (.split () .ok), .server (.split () .fail),
      .server (.split () .ok), .server (.split () (.tree .nil)), .server (.split () .ok),
      .server (.split () .ok)]
    (fun s => decide (s.servers.pc () = .over ∧ s.servers.server () = some 0 ∧
      s.probed () = none ∧ status .sock .absent (s.calls ()) = .released)) true
    (by decide +kernel)
  obtain ⟨hover, hserver, hprobed, hreleased⟩ := of_decide_eq_true hs
  refine ⟨s, hserver, hreleased, ?_⟩
  refine (leaves_no_trace_iff tenant s hreach () 0 hover hserver).mpr fun o ho => ?_
  cases hprobed.symm.trans ho

/-- `kernel_accept` fails, and nobody deleted the server: its listener stays in the tree
with a released socket, and its raw socket is lost. -/
theorem trace_left_on_accept :
    ∃ s : State Unit Unit, (stops tenant).ReachableUnder ErasesLinked s ∧ s.servers.pc () = .over ∧
      s.servers.server () = some 0 ∧ s.servers.remover () = .start ∧
      searchRbListner s.servers.root 7 = some ⟨0, 7⟩ ∧
      (s.servers.fields 0).sock = .sock () ∧
      status .sock .absent (s.calls ()) = .released ∧
      status .raw .absent (s.calls ()) = .held ∧ ¬ LeavesNoTrace s () 0 := by
  obtain ⟨s, hreach, hs⟩ := Machine.exists_reachable_of_run (stops tenant) ErasesLinked
    [.server (.split () .ok), .server (.split () (.slab 0)),
      .server (.split () (.tree (.node ⟨0, 7⟩ .nil .nil))), .server (.split () .ok),
      .server (.split () .ok), .server (.split () .ok), .server (.split () .ok),
      .server (.split () .ok), .probe () ⟨0, 0, 0⟩, .server (.split () .fail),
      .server (.split () .ok)]
    (fun s => decide (s.servers.pc () = .over ∧ s.servers.server () = some 0 ∧
      s.servers.remover () = .start ∧ searchRbListner s.servers.root 7 = some ⟨0, 7⟩ ∧
      (s.servers.fields 0).sock = .sock () ∧ status .sock .absent (s.calls ()) = .released ∧
      status .raw .absent (s.calls ()) = .held)) true (by decide +kernel)
  obtain ⟨hpc, hserver, hremover, hsearch, hsock, hreleased, hheld⟩ := of_decide_eq_true hs
  refine ⟨s, hreach, hpc, hserver, hremover, hsearch, hsock, hreleased, hheld, ?_⟩
  exact fun htrace => (htrace.notFound 7 _ hsearch).1 rfl

end KtcpSplit.Stop
