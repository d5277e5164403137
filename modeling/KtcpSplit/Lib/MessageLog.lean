import Mathlib.Data.List.Basic

/-!
# A log of messages

Messages are accepted into a log and stay pending until all of them are
delivered together or discarded together.  The log says of every message ever
accepted what became of it.
-/

namespace KtcpSplit.MessageLog

variable {α : Type*}

inductive Fate
  | delivered
  | discarded
  deriving DecidableEq

inductive Event (α : Type*)
  | accept (msg : List α)
  /-- All pending messages meet the same fate. -/
  | settle (fate : Fate)
  deriving DecidableEq

structure Log (α : Type*) where
  settled : List (Fate × List α)
  pending : List (List α)

namespace Log

def empty : Log α := ⟨[], []⟩

def after (log : Log α) : Event α → Log α
  | .accept msg => { log with pending := log.pending ++ [msg] }
  | .settle fate => ⟨log.settled ++ log.pending.map (fate, ·), []⟩

/-- The log of a history, from the first event to the last. -/
def of (history : List (Event α)) : Log α := history.foldl after empty

variable (log : Log α)

/-- Every message that was accepted, in order. -/
def accepted : List (List α) := log.settled.map Prod.snd ++ log.pending

/-- The messages that met a fate, in the order in which they were accepted. -/
def withFate (fate : Fate) : List (List α) :=
  (log.settled.filter fun message => message.1 = fate).map Prod.snd

@[simp]
theorem accepted_accept (msg : List α) :
    (log.after (.accept msg)).accepted = log.accepted ++ [msg] := by
  simp [after, accepted]

@[simp]
theorem accepted_settle (fate : Fate) : (log.after (.settle fate)).accepted = log.accepted := by
  simp [after, accepted, List.map_map, Function.comp_def]

@[simp]
theorem pending_accept (msg : List α) :
    (log.after (.accept msg)).pending = log.pending ++ [msg] := rfl

@[simp]
theorem pending_settle (fate : Fate) : (log.after (.settle fate)).pending = [] := rfl

@[simp]
theorem withFate_accept (msg : List α) (fate : Fate) :
    (log.after (.accept msg)).withFate fate = log.withFate fate := rfl

@[simp]
theorem withFate_settle (fate : Fate) :
    (log.after (.settle fate)).withFate fate = log.withFate fate ++ log.pending := by
  simp [after, withFate, List.filter_map, Function.comp_def, List.map_map]

@[simp]
theorem withFate_settle_ne {fate fate' : Fate} (hne : fate ≠ fate') :
    (log.after (.settle fate)).withFate fate' = log.withFate fate' := by
  simp [after, withFate, List.filter_map, Function.comp_def, hne]

/-- Messages are delivered whole, at most once and in order. -/
theorem withFate_sublist (fate : Fate) : (log.withFate fate).Sublist log.accepted :=
  (List.filter_sublist.map _).trans (List.sublist_append_left _ _)

/-- What was neither delivered nor discarded is pending. -/
theorem accepted_perm :
    log.accepted.Perm
      (log.withFate .delivered ++ log.withFate .discarded ++ log.pending) := by
  refine List.Perm.append_right _ ?_
  rw [withFate, withFate, ← List.map_append]
  refine (List.filter_append_perm (fun message => decide (message.1 = .delivered))
    log.settled).symm.trans ?_ |>.map _
  refine List.Perm.append_left _ (List.Perm.of_eq (List.filter_congr fun message _ => ?_))
  cases message.1 <;> rfl

end Log

@[simp]
theorem of_nil : Log.of ([] : List (Event α)) = Log.empty := rfl

@[simp]
theorem of_concat (history : List (Event α)) (event : Event α) :
    Log.of (history ++ [event]) = (Log.of history).after event := by
  rw [Log.of, List.foldl_append]
  rfl

end KtcpSplit.MessageLog
