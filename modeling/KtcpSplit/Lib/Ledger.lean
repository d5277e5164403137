import Mathlib.Data.List.Basic

/-!
# Acquired, used and released

A trace lists what a piece of code does to the resources it works with.  The
status of one resource is read off the trace by a small automaton, which ends in
`broken` if the resource is used or released while it is not held.
-/

namespace KtcpSplit.Ledger

variable {R : Type*}

inductive Event (R : Type*)
  | acquire (r : R)
  | access (r : R)
  | release (r : R)
  deriving DecidableEq

def Event.res : Event R → R
  | .acquire r => r
  | .access r => r
  | .release r => r

def Event.map {R' : Type*} (f : R → R') : Event R → Event R'
  | .acquire r => .acquire (f r)
  | .access r => .access (f r)
  | .release r => .release (f r)

/-- What is known of a resource at one point of a trace. -/
inductive Status
  | absent
  | held
  | released
  | broken
  deriving DecidableEq

/-- The status after an event on the resource. -/
def Event.after : Event R → Status → Status
  | .acquire _, .absent => .held
  | .access _, .held => .held
  | .release _, .held => .released
  | _, _ => .broken

@[simp]
theorem res_acquire {r : R} : (Event.acquire r).res = r := rfl

@[simp]
theorem res_access {r : R} : (Event.access r).res = r := rfl

@[simp]
theorem res_release {r : R} : (Event.release r).res = r := rfl

@[simp]
theorem res_map {R' : Type*} {f : R → R'} {event : Event R} :
    (event.map f).res = f event.res := by
  cases event <;> rfl

@[simp]
theorem after_acquire {r : R} : (Event.acquire r).after .absent = .held := rfl

@[simp]
theorem after_access {r : R} : (Event.access r).after .held = .held := rfl

@[simp]
theorem after_release {r : R} : (Event.release r).after .held = .released := rfl

variable [DecidableEq R] (r : R)

/-- The status of `r` after a trace. -/
def status : Status → List (Event R) → Status
  | st, [] => st
  | st, event :: trace => status (if event.res = r then event.after st else st) trace

/-- The resource was never there, or it was released and not used since. -/
def Settled (trace : List (Event R)) (st : Status) : Prop :=
  status r st trace = .absent ∨ status r st trace = .released

instance decidableSettled (trace : List (Event R)) (st : Status) :
    Decidable (Settled r trace st) :=
  inferInstanceAs (Decidable (_ ∨ _))

variable {r}
variable {event : Event R} {before trace : List (Event R)} {st : Status}

@[simp]
theorem status_nil : status r st [] = st := rfl

@[simp]
theorem status_cons : status r st (event :: trace) =
    status r (if event.res = r then event.after st else st) trace := rfl

@[simp]
theorem status_append : status r st (before ++ trace) =
    status r (status r st before) trace := by
  induction before generalizing st with
  | nil => rfl
  | cons event before ih => exact ih

/-- A trace without the resource leaves its status. -/
theorem status_of_not_mem (hnone : ∀ event ∈ trace, event.res ≠ r) :
    status r st trace = st := by
  induction trace generalizing st with
  | nil => rfl
  | cons event trace ih =>
      rw [status_cons, if_neg (hnone event (List.mem_cons_self ..))]
      exact ih fun event' hevent' => hnone event' (List.mem_cons_of_mem _ hevent')

/-- Uses leave a resource held. -/
theorem status_held_of_access
    (haccess : ∀ event ∈ trace, event.res = r → event = .access r) :
    status r .held trace = .held := by
  induction trace with
  | nil => rfl
  | cons event trace ih =>
      obtain ⟨hevent, hrest⟩ := List.forall_mem_cons.mp haccess
      rw [status_cons]
      split
      · rename_i hres
        rw [hevent hres]
        exact ih hrest
      · exact ih hrest

/-- Once broken, always broken. -/
@[simp]
theorem status_broken : status r .broken trace = .broken := by
  induction trace with
  | nil => rfl
  | cons event trace ih =>
      rw [status_cons]
      split
      · cases event <;> exact ih
      · exact ih

/-- A released resource is not touched by what follows, if all ends well. -/
theorem status_released_iff : status r .released trace = .released ↔
    ∀ event ∈ trace, event.res ≠ r := by
  refine ⟨fun hstatus => ?_, status_of_not_mem⟩
  induction trace with
  | nil => exact fun _ hevent => absurd hevent List.not_mem_nil
  | cons event trace ih =>
      rw [status_cons] at hstatus
      split at hstatus
      · have hbroken : event.after .released = .broken := by cases event <;> rfl
        rw [hbroken, status_broken] at hstatus
        cases hstatus
      · rename_i hne
        exact List.forall_mem_cons.mpr ⟨hne, ih hstatus⟩

/-- A held resource ends released exactly when the trace uses it, releases it once
and leaves it alone from then on. -/
theorem status_held_eq_released_iff : status r .held trace = .released ↔
    ∃ before after, trace = before ++ .release r :: after ∧
      (∀ event ∈ before, event.res = r → event = .access r) ∧
      ∀ event ∈ after, event.res ≠ r := by
  constructor
  · intro hstatus
    induction trace with
    | nil => cases hstatus
    | cons event trace ih =>
        rw [status_cons] at hstatus
        split at hstatus
        · rename_i hres
          -- A second acquisition breaks the resource.
          cases event <;> rw [Event.res] at hres <;> subst hres
          · exact absurd (hstatus.symm.trans status_broken) Status.noConfusion
          · obtain ⟨before, after, rfl, hbefore, hafter⟩ := ih hstatus
            exact ⟨_ :: before, after, rfl,
              List.forall_mem_cons.mpr ⟨fun _ => rfl, hbefore⟩, hafter⟩
          · exact ⟨[], trace, rfl, fun _ hevent => absurd hevent List.not_mem_nil,
              status_released_iff.mp hstatus⟩
        · rename_i hne
          obtain ⟨before, after, rfl, hbefore, hafter⟩ := ih hstatus
          exact ⟨event :: before, after, rfl,
            List.forall_mem_cons.mpr ⟨fun hres => absurd hres hne, hbefore⟩, hafter⟩
  · rintro ⟨before, after, rfl, hbefore, hafter⟩
    rw [status_append, status_held_of_access hbefore, status_cons, res_release, if_pos rfl,
      after_release]
    exact status_of_not_mem hafter

variable (r) in
/-- The resource is acquired, used, released once and not touched again. -/
def FreedOnce (trace : List (Event R)) : Prop :=
  ∃ before after, trace = .acquire r :: (before ++ .release r :: after) ∧
    (∀ event ∈ before, event.res = r → event = .access r) ∧
    ∀ event ∈ after, event.res ≠ r

theorem freedOnce_acquire_iff :
    FreedOnce r (.acquire r :: trace) ↔ status r .held trace = .released := by
  rw [status_held_eq_released_iff]
  simp only [FreedOnce, List.cons.injEq, true_and]

/-! ## Calls that can fail -/

omit [DecidableEq R] in
/-- A call: what it does, whether it succeeds, and how the code goes on. -/
def call (events : List (Event R)) (succeeds : Bool) (fail rest : List (Event R)) :
    List (Event R) :=
  events ++ if succeeds then rest else fail

@[simp]
theorem status_call {events fail rest : List (Event R)} {succeeds : Bool} :
    status r st (call events succeeds fail rest) =
      if succeeds then status r (status r st events) rest
      else status r (status r st events) fail := by
  rw [call, status_append]
  split <;> rfl

section Calls

variable {events fail rest : List (Event R)} {succeeds : Bool}

/-- After a call whose failure leaves the resource behind. -/
theorem released_call_iff (hevents : status r .held events = .held)
    (hfail : status r .held fail ≠ .released) :
    status r .held (call events succeeds fail rest) = .released ↔
      succeeds = true ∧ status r .held rest = .released := by
  rw [status_call, hevents]
  cases succeeds
  · exact iff_of_false hfail fun h => Bool.noConfusion h.1
  · exact (and_iff_right rfl).symm

/-- After a call whose failure releases the resource by the code that follows it. -/
theorem released_call_fail_iff (hevents : status r .held events = .held) :
    status r .held (call events succeeds fail rest) = .released ↔
      if succeeds then status r .held rest = .released
      else status r .held fail = .released := by
  rw [status_call, hevents]
  split <;> rfl

end Calls

end KtcpSplit.Ledger
