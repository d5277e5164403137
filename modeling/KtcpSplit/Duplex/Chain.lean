import KtcpSplit.Duplex.Forwarding
import KtcpSplit.Lib.Pipeline
import Mathlib.Logic.Function.Basic

/-!
# A path of proxies

On its way a connection passes one proxy after the other, and on each of them a
call of `half_duplex` forwards it to the next.  The calls run side by side, and
every one of them only receives what the one before it has sent.
-/

namespace KtcpSplit.Chain

open KtcpSplit.HalfDuplex
open KtcpSplit.PageVec
open KtcpSplit.Pipeline
open KtcpSplit.Transition

variable {α : Type*}

/-- The calls by their place on the path, and the bytes between a call and the
next one; behind the last call they have arrived. -/
structure State (α : Type*) where
  relay : ℕ → Frame α
  link : ℕ → List α

/-- The bytes that a call has sent. -/
def sent (f : Frame α) : List α := f.accepted.map Prod.fst

/-- The bytes that a step of a call has sent. -/
def sentBy (f f' : Frame α) : List α := (f'.accepted.drop f.accepted.length).map Prod.fst

/-- The bytes that relay `i` receives stand at the front of its connection; what the
first one receives is up to the client. -/
def State.available [DecidableEq α] (s : State α) (bytes : List α) : ℕ → Bool
  | 0 => true
  | i + 1 => bytes.isPrefixOf (s.link i)

/-- The connections after relay `i` has received so many bytes. -/
def State.consume (s : State α) (count : ℕ) : ℕ → ℕ → List α
  | 0 => s.link
  | i + 1 => Function.update s.link i ((s.link i).drop count)

/-- Relay `i` goes on to `f`, after it received so many bytes. -/
def State.advance (s : State α) (i count : ℕ) (f : Frame α) : State α where
  relay := Function.update s.relay i f
  link := Function.update (s.consume count i) i (s.link i ++ sentBy (s.relay i) f)

/-- A path of `n` proxies; a label is a call and the outcome of its next statement. -/
def chain [DecidableEq α] (n : ℕ) (memory : ℕ → Pages α) :
    Machine (State α) (ℕ × Outcome α) where
  init := ⟨fun i => (halfDuplex (memory i)).init, fun _ => []⟩
  next := fun s (i, outcome) =>
    if i < n ∧ s.available outcome.bytes i then
      ((halfDuplex (memory i)).next (s.relay i) outcome).map
        (s.advance i outcome.bytes.length)
    else none

/-- No call accepts bytes after one of its writes was short. -/
def Whole (s : State α) (label : ℕ × Outcome α) : Prop :=
  Unbroken (s.relay label.1) label.2

/-- The path as a row of stages. -/
def State.line (s : State α) : Line α where
  stage := fun i => ⟨(s.relay i).received, sent (s.relay i)⟩
  link := s.link

/-! ## One call -/

/-- Without a short write a call holds one message at most. -/
structure Relay (f : Frame α) : Prop where
  inv : Inv f
  held : f.short = false → f.received.length - f.accepted.length ≤ pageSize * vecSz

theorem relay_init (memory : Pages α) : Relay (halfDuplex memory).init where
  inv := by
    have hreach : (halfDuplex memory).ReachableUnder Unbroken (halfDuplex memory).init := .init
    exact inv_of_reachable hreach
  held := fun _ => Nat.zero_le _

/-- The bytes that were accepted before stay in front. -/
theorem sent_append_sentBy (f : Frame α) {f' : Frame α} (hfront : f.accepted <+: f'.accepted) :
    sent f' = sent f ++ sentBy f f' := by
  obtain ⟨new, hnew⟩ := hfront
  rw [sent, sent, sentBy, ← hnew, List.drop_left, List.map_append]

theorem length_zipIdx_eq {f : Frame α} (haccepted : f.accepted = f.received.zipIdx) :
    f.received.length - f.accepted.length = 0 := by
  rw [haccepted, List.length_zipIdx, Nat.sub_self]

/-- What a step of a call does to its two streams. -/
theorem Relay.step {f f' : Frame α} (hrelay : Relay f) {memory : Pages α} {outcome : Outcome α}
    (hunbroken : Unbroken f outcome) (hnext : (halfDuplex memory).next f outcome = some f') :
    Relay f' ∧ f'.received = f.received ++ outcome.bytes ∧ sent f' = sent f ++ sentBy f f' := by
  have hinv' := hrelay.inv.step hunbroken hnext
  obtain ⟨pc', hpc', rfl⟩ := Option.map_eq_some_iff.mp hnext
  have haccepted : f.accepted <+: (f.record outcome).accepted := accepted_record f outcome
  have hreceived : (f.record outcome).received = f.received ++ outcome.bytes :=
    received_record f outcome
  refine ⟨⟨hinv', fun hshort => ?_⟩, hreceived, sent_append_sentBy f haccepted⟩
  cases outcome with
  | received bytes =>
      cases hpc : f.pc with
      | recv =>
          rw [hpc] at hpc'
          simp only [Pc.next, Option.ite_none_right_eq_some] at hpc'
          have hsettled := length_zipIdx_eq
            (hrelay.inv.settled (by rw [hpc]; rfl) (show f.short = false from hshort))
          simp only [Frame.record, List.length_append]
          omega
      | _ =>
          rw [hpc] at hpc'
          cases hpc'
  | sent accepted =>
      have hheld := hrelay.held hunbroken
      simp only [Frame.record, List.length_append]
      omega
  | page allocated =>
      cases allocated with
      | true => exact hrelay.held hshort
      | false => exact hrelay.held hshort
  | recvFailed rc => exact hrelay.held hshort
  | sendFailed rc => exact hrelay.held hshort
  | stop should => exact hrelay.held hshort
  | go => exact hrelay.held hshort

/-! ## The path -/

/-- The calls of the path are in order, and so is what is between them. -/
structure Inv (n : ℕ) (s : State α) : Prop where
  relay : ∀ i, Relay (s.relay i)
  link : ∀ i, i + 1 < n → sent (s.relay i) = (s.relay (i + 1)).received ++ s.link i

theorem Relay.ordered {f : Frame α} (hrelay : Relay f) :
    (⟨f.received, sent f⟩ : Stage α).Ordered := by
  have hmap := hrelay.inv.faithful.map Prod.fst
  rw [List.zipIdx_map_fst] at hmap
  exact hmap

theorem Inv.ordered {n : ℕ} {s : State α} (hinv : Inv n s) : s.line.Ordered n where
  stage := fun i _ => (hinv.relay i).ordered
  link := hinv.link

theorem State.relay_advance_self (s : State α) (i count : ℕ) (f : Frame α) :
    (s.advance i count f).relay i = f := by
  simp only [State.advance, Function.update_self]

theorem State.relay_advance_of_ne (s : State α) {i j : ℕ} (hj : j ≠ i) (count : ℕ) (f : Frame α) :
    (s.advance i count f).relay j = s.relay j := by
  simp only [State.advance, Function.update_of_ne hj]

/-- A connection that neither receives nor gets anything. -/
theorem State.link_advance_of_ne (s : State α) {i j count : ℕ} (hj : j ≠ i) (hj' : j + 1 ≠ i)
    (f : Frame α) : (s.advance i count f).link j = s.link j := by
  have hconsume : s.consume count i j = s.link j := by
    cases i with
    | zero => rfl
    | succ i => exact Function.update_of_ne (fun h => hj' (congrArg (· + 1) h)) _ _
  exact (Function.update_of_ne hj _ _).trans hconsume

/-- The connection that relay `i + 1` receives from. -/
theorem State.link_advance_pred (s : State α) (i count : ℕ) (f : Frame α) :
    (s.advance (i + 1) count f).link i = (s.link i).drop count :=
  (Function.update_of_ne (Nat.ne_of_lt (Nat.lt_succ_self i)) _ _).trans
    (Function.update_self i _ s.link)

theorem State.link_advance_self (s : State α) (i count : ℕ) (f : Frame α) :
    (s.advance i count f).link i = s.link i ++ sentBy (s.relay i) f :=
  Function.update_self i _ _

/-- A step keeps the connection behind the call that it belongs to and the one
before it in order. -/
theorem Inv.step [DecidableEq α] {n : ℕ} {memory : ℕ → Pages α} {s s' : State α}
    (hinv : Inv n s) {label : ℕ × Outcome α} (hwhole : Whole s label)
    (hnext : (chain n memory).next s label = some s') : Inv n s' := by
  obtain ⟨i, outcome⟩ := label
  simp only [chain, Option.ite_none_right_eq_some, Option.map_eq_some_iff] at hnext
  obtain ⟨⟨-, havailable⟩, f, hf, rfl⟩ := hnext
  obtain ⟨hrelay, hreceived, hsent⟩ := (hinv.relay i).step hwhole hf
  constructor
  case relay =>
    intro j
    by_cases hj : j = i
    · rw [hj, s.relay_advance_self]
      exact hrelay
    · rw [s.relay_advance_of_ne hj]
      exact hinv.relay j
  case link =>
    intro j hlt
    have hbefore := hinv.link j hlt
    by_cases hj : j = i
    · subst hj
      rw [s.relay_advance_self, s.relay_advance_of_ne (Nat.succ_ne_self j), s.link_advance_self,
        hsent, hbefore, List.append_assoc]
    by_cases hj' : j + 1 = i
    · subst hj'
      have hfront : outcome.bytes <+: s.link j := List.isPrefixOf_iff_prefix.mp havailable
      rw [s.relay_advance_self, s.relay_advance_of_ne hj, s.link_advance_pred, hreceived, hbefore,
        List.append_assoc]
      congr 1
      obtain ⟨rest, hrest⟩ := hfront
      rw [← hrest, List.drop_left]
    · rw [s.relay_advance_of_ne hj, s.relay_advance_of_ne hj', s.link_advance_of_ne hj hj', hbefore]

theorem inv_of_reachable [DecidableEq α] {n : ℕ} {memory : ℕ → Pages α} {s : State α}
    (hreach : (chain n memory).ReachableUnder Whole s) : Inv n s := by
  refine hreach.invariant (P := Inv n) ?_ ?_
  · exact ⟨fun i => relay_init (memory i), fun _ _ => rfl⟩
  · intro before label after _ hinv hwhole hnext
    exact hinv.step hwhole hnext

/-- A call that waits for bytes and had no short write holds nothing. -/
theorem Relay.held_eq_nil {f : Frame α} (hrelay : Relay f) (hsettled : f.pc.settled = true)
    (hshort : f.short = false) : (⟨f.received, sent f⟩ : Stage α).held = [] := by
  rw [Stage.held, sent, hrelay.inv.settled hsettled hshort, List.length_map, List.length_zipIdx,
    List.drop_length]

/-- As long as no call accepts bytes after a short write of its own, what any call on
the path received is what any later one has sent, followed by what is still between
them, in order; nothing is between them once the calls wait and the connections are
empty; and no call holds more than its sixteen pages. -/
theorem path_conserves [DecidableEq α] (n : ℕ) (memory : ℕ → Pages α) (s : State α)
    (hreach : (chain n memory).ReachableUnder Whole s) (i k : ℕ) (hlt : i + k < n) :
    (s.relay i).received = sent (s.relay (i + k)) ++ s.line.between i k ∧
      ((∀ j, i ≤ j → j ≤ i + k →
          (s.relay j).pc.settled = true ∧ (s.relay j).short = false) →
        (∀ j, i ≤ j → j < i + k → s.link j = []) →
        sent (s.relay (i + k)) = (s.relay i).received) ∧
      ((s.relay i).short = false →
        (s.relay i).received.length - (sent (s.relay i)).length ≤ pageSize * vecSz) := by
  have hinv := inv_of_reachable hreach
  have hconserve : (s.relay i).received = sent (s.relay (i + k)) ++ s.line.between i k :=
    hinv.ordered.taken_eq hlt
  refine ⟨hconserve, fun hsettled hlink => ?_, fun hshort => ?_⟩
  · have hnil : s.line.between i k = [] := by
      apply Line.between_eq_nil
      · intro j hle hle'
        exact (hinv.relay j).held_eq_nil (hsettled j hle hle').1 (hsettled j hle hle').2
      · exact hlink
    rw [hconserve, hnil, List.append_nil]
  · rw [sent, List.length_map]
    exact (hinv.relay i).held hshort

instance decidableWhole (s : State α) (label : ℕ × Outcome α) : Decidable (Whole s label) :=
  decidableUnbroken (s.relay label.1) label.2

/-- Two proxies, and one of three bytes has arrived. -/
theorem path_conserves_two :
    ∃ s : State ℕ, ((s.relay 0).received, sent (s.relay 1), s.line.between 0 1) =
        ([1, 2, 3], [1], [2, 3]) ∧
      (s.relay 0).received = sent (s.relay 1) ++ s.line.between 0 1 := by
  obtain ⟨s, hreach, hs⟩ := Machine.exists_reachable_of_run (chain 2 fun _ _ _ => 0) Whole
    (pagesAllocated.map (Prod.mk 0) ++ pagesAllocated.map (Prod.mk 1) ++
      [(0, .received [1, 2]), (0, .sent 2), (1, .received [1]), (0, .stop false),
        (0, .received [3]), (1, .sent 1)])
    (fun s => ((s.relay 0).received, sent (s.relay 1), s.line.between 0 1))
    ([1, 2, 3], [1], [2, 3]) (by decide +kernel)
  exact ⟨s, hs, (path_conserves 2 _ s hreach 0 1 (by decide)).1⟩

end KtcpSplit.Chain
