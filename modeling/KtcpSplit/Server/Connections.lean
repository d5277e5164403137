import KtcpSplit.Rendezvous.Frames
import KtcpSplit.Server.Probes

/-!
# Connections of listeners that come and go

The servers with their probes, and the workers of `KtcpSplit.Rendezvous`, whose
listeners are now those that `search_rb_listner` finds in the tree of the moment, or
the one that accepted the connection.  A worker that finds none has a null pointer.
-/

namespace KtcpSplit.Connections

open KtcpSplit.ConnKey
open KtcpSplit.Listner
open KtcpSplit.SearchTree
open KtcpSplit.Transition

/-- The argument of a worker thread, with the mark of its packet or socket. -/
structure Worker where
  fn : Rendezvous.Fn
  tuple : Tuple
  mark : Mark

structure Config (W D K V : Type*) where
  probes : Probes.Config W D K
  worker : V → Worker
  possibleCpus : List (BitVec 32)

/-- `start_new_pending_connection`, by the calls of `get_qp` it has made. -/
inductive PendingPc
  | accepted
  | first
  | second
  deriving DecidableEq

/-- `listner` is what a worker found and has not given to `qp_exists` yet: nothing, or
a pointer that may be null. -/
structure State (W D K V P : Type*) where
  probes : Probes.State W D K
  conns : Rendezvous.State V
  listner : V → Option (Option ℕ)
  pending : P → PendingPc
  /-- A null listener was dereferenced. -/
  nullListner : Bool

inductive Label (W D K V P : Type*)
  | probe (label : Probes.Label W D K)
  /-- `kernel_accept` in `split_server`, which starts a worker. -/
  | accept (w : W) (v : V)
  /-- `search_rb_listner` in a TX-side worker. -/
  | lookup (v : V)
  | conn (v : V) (act : Rendezvous.Act)
  | pending (p : P)

variable {W D K V P : Type*}

/-- What `qp_exists` dereferences. -/
def qpExistsDerefs (listner : Option ℕ) : Option (Option ℕ) := some listner

/-- What `fin_connected_qp` dereferences: it checks for a null pointer. -/
def finConnectedQpDerefs (listner : Option ℕ) : Option (Option ℕ) := listner.map some

namespace State

/-- The workers with the listeners they have now; a QP that was created keeps its own. -/
def rendezvous (cfg : Config W D K V) (s : State W D K V P) : Rendezvous.Config V where
  worker := fun v =>
    let worker := cfg.worker v
    ⟨worker.fn, worker.tuple, worker.mark,
      ⟨((s.listner v).bind id).getD 0, worker.mark⟩, rfl⟩

variable [DecidableEq V]

def setListner (s : State W D K V P) (v : V) (listner : Option (Option ℕ)) :
    State W D K V P :=
  { s with listner := Function.update s.listner v listner }

def setPc (s : State W D K V P) (v : V) (pc : Rendezvous.Pc) : State W D K V P :=
  { s with conns := s.conns.setThread v ⟨(s.conns.thread v).fn, pc⟩ }

end State

/-- The statements before which a TX-side worker searches its listener. -/
def looksUp : Rendezvous.Pc → Bool
  | .enter => true
  | .fallback _ => true
  | _ => false

def isAccept (s : Server.State W D) : Probes.Label W D K → Prop
  | .server (.split w .ok) => s.pc w = .accept
  | _ => False

instance decidableIsAccept (s : Server.State W D) :
    (label : Probes.Label W D K) → Decidable (isAccept s label)
  | .server (.split w .ok) => inferInstanceAs (Decidable (s.pc w = .accept))
  | .server (.split _ .fail) => isFalse id
  | .server (.split _ (.slab _)) => isFalse id
  | .server (.split _ (.tree _)) => isFalse id
  | .server (.split _ (.pick _)) => isFalse id
  | .server (.remove _ _) => isFalse id
  | .packet _ _ => isFalse id

variable [DecidableEq W] [DecidableEq D] [DecidableEq K] [DecidableEq V] [DecidableEq P]
  (cfg : Config W D K V)

def stepProbe (s : State W D K V P) (label : Probes.Label W D K) : Option (State W D K V P) :=
  ((Probes.probes cfg.probes).next s.probes label).map fun probes =>
    { s with probes := probes }

/-- The QP of an accepted connection gets the listener of the thread. -/
def stepAccept (s : State W D K V P) (w : W) (v : V) : Option (State W D K V P) :=
  match s.probes.servers.server w with
  | some l =>
      if s.probes.servers.pc w = .accept ∧ (cfg.worker v).fn = .startNewConnection ∧
          (s.conns.thread v).pc = .idle ∧
          (cfg.worker v).mark = cfg.probes.servers.mark w then
        (stepProbe cfg s (.server (.split w .ok))).map fun s =>
          (s.setListner v (some (some l))).setPc v .enter
      else none
  | none => none

def stepLookup (s : State W D K V P) (v : V) : Option (State W D K V P) :=
  let thread := s.conns.thread v
  if thread.fn.dir = .tx ∧ looksUp thread.pc = true ∧ s.listner v = none then
    match searchRbListner s.probes.servers.root (cfg.worker v).mark with
    | some data => some (s.setListner v (some (some data.id)))
    | none =>
        if thread.fn = .startNewPreConnectionSyn then some (s.setPc v .done)
        else some (s.setListner v (some none))
  else none

/-- A step of `KtcpSplit.Rendezvous`; a listener is used up by `qp_exists`. -/
def stepRendezvous (s : State W D K V P) (v : V) (act : Rendezvous.Act) :
    Option (State W D K V P) :=
  ((Rendezvous.rendezvous (s.rendezvous cfg)).next s.conns (v, act)).map fun conns =>
    { s with conns := conns }.setListner v none

def stepConn (s : State W D K V P) (v : V) : Rendezvous.Act → Option (State W D K V P)
  | .start =>
      if (cfg.worker v).fn = .startNewConnection then none
      else stepRendezvous cfg s v .start
  | .poolEmpty => if s.listner v = none then stepRendezvous cfg s v .poolEmpty else none
  | .insert cpu root =>
      match (s.listner v).bind qpExistsDerefs with
      | some (some _) =>
          if cpu ∈ cfg.possibleCpus then stepRendezvous cfg s v (.insert cpu root) else none
      | some none => some { s.setPc v .oops with nullListner := true }
      | none => none
  | act => stepRendezvous cfg s v act

/-- The QPs of `prec_conn_listner_server` have no listener. -/
def stepPending (s : State W D K V P) (p : P) : PendingPc → Option (State W D K V P)
  | .accepted => some { s with pending := Function.update s.pending p .first }
  | .first =>
      some { s with
        pending := Function.update s.pending p .second
        nullListner := s.nullListner || decide (finConnectedQpDerefs none = some none) }
  | .second => none

def connections : Machine (State W D K V P) (Label W D K V P) where
  init := {
    probes := (Probes.probes cfg.probes).init
    conns := (Rendezvous.rendezvous
      ⟨fun v => ⟨(cfg.worker v).fn, (cfg.worker v).tuple, (cfg.worker v).mark,
        ⟨0, (cfg.worker v).mark⟩, rfl⟩⟩).init
    listner := fun _ => none
    pending := fun _ => .accepted
    nullListner := false }
  next := fun s label =>
    match label with
    | .probe label => if isAccept s.probes.servers label then none else stepProbe cfg s label
    | .accept w v => stepAccept cfg s w v
    | .lookup v => stepLookup cfg s v
    | .conn v act => stepConn cfg s v act
    | .pending p => stepPending s p (s.pending p)

end KtcpSplit.Connections
