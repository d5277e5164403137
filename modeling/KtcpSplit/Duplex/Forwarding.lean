import KtcpSplit.Duplex.HalfDuplex

/-!
# The bytes of one direction

What was received last stands at the front of the pages, so a send takes it up
where the receive put it.  What a short write leaves there is overwritten by the
next receive.
-/

namespace KtcpSplit.HalfDuplex

open KtcpSplit.PageVec
open KtcpSplit.Transition

variable {α : Type*}

/-- The accepted bytes are a prefix of the received ones, position by position. -/
def Faithful (f : Frame α) : Prop := f.accepted <+: f.received.zipIdx

/-- No bytes are accepted after a write that was short. -/
def Unbroken (f : Frame α) : Outcome α → Prop
  | .sent _ => f.short = false
  | _ => True

theorem zipIdx_isPrefix (front back : List α) : front.zipIdx <+: (front ++ back).zipIdx := by
  rw [List.zipIdx_append]
  exact List.prefix_append _ _

/-- Nothing that was received waits to be sent. -/
def Pc.settled : Pc → Bool
  | .alloc _ => true
  | .recv => true
  | .recvPut => true
  | .test => true
  | _ => false

/-- What was accepted, and where the message stands that is to be sent. -/
structure Inv (f : Frame α) : Prop where
  faithful : Faithful f
  settled : f.pc.settled = true → f.short = false → f.accepted = f.received.zipIdx
  behind : f.short = true → f.accepted.length < f.received.length
  sending : ∀ count, f.pc = .send count → f.rc = count ∧ ∃ before bytes,
    bytes.length = count ∧ f.received = before ++ bytes ∧
      gather pageSize f.kvec count = bytes ∧
      (f.short = false → f.accepted = before.zipIdx) ∧
      (f.short = true → f.accepted.length < before.length)

variable {f f' : Frame α}

theorem received_record (f : Frame α) (outcome : Outcome α) :
    (f.record outcome).received = f.received ++ outcome.bytes := by
  cases outcome with
  | received bytes => rfl
  | page allocated => cases allocated <;> exact (List.append_nil _).symm
  | _ => exact (List.append_nil _).symm

/-- What was accepted stays accepted. -/
theorem accepted_record (f : Frame α) (outcome : Outcome α) :
    f.accepted <+: (f.record outcome).accepted := by
  cases outcome with
  | sent accepted => exact List.prefix_append _ _
  | page allocated => cases allocated <;> exact List.prefix_refl _
  | _ => exact List.prefix_refl _

/-- A statement that moves no bytes. -/
theorem Inv.move (hinv : Inv f) (pc : Pc) (rc : ℤ)
    (hsettled : pc.settled = true → f.pc.settled = true) (hsend : ∀ count, pc ≠ .send count) :
    Inv { f with pc := pc, rc := rc } where
  faithful := hinv.faithful
  settled := fun hpc => hinv.settled (hsettled hpc)
  behind := hinv.behind
  sending := fun count hpc => absurd hpc (hsend count)

/-- The message that was received stands at the front of the pages. -/
theorem Inv.receive (hinv : Inv f) (hpc : f.pc = .recv) {bytes : List α}
    (hbytes : 0 < bytes.length) :
    Inv { f.record (.received bytes) with pc := .send bytes.length } where
  faithful := by
    exact hinv.faithful.trans (zipIdx_isPrefix f.received bytes)
  settled := fun hpc' => nomatch hpc'
  behind := by
    intro hshort
    have hlt := hinv.behind hshort
    simp only [Frame.record, List.length_append]
    omega
  sending := by
    rintro _ ⟨⟩
    refine ⟨rfl, f.received, bytes, rfl, rfl, ?_, ?_, hinv.behind⟩
    · calc
        gather pageSize (scatter pageSize f.kvec bytes) bytes.length =
            bytes.take bytes.length := gather_scatter pageSize f.kvec bytes (Nat.le_refl _)
        _ = bytes := List.take_length
    · exact hinv.settled (by rw [hpc]; rfl)

/-- The accepted bytes continue the stream where the message begins. -/
theorem Inv.accepted_sent (hinv : Inv f) {count accepted : ℕ} (hpc : f.pc = .send count)
    (hle : accepted ≤ count) :
    ∃ before bytes, bytes.length = count ∧ f.received = before ++ bytes ∧
      (f.record (.sent accepted)).accepted =
        f.accepted ++ (bytes.take accepted).zipIdx before.length ∧
      (f.record (.sent accepted)).short = (f.short || decide (accepted < count)) ∧
      (f.short = false → f.accepted = before.zipIdx) ∧
      (f.short = true → f.accepted.length < before.length) := by
  obtain ⟨hrc, before, bytes, hlength, hreceived, hgather, hwhole, hbehind⟩ :=
    hinv.sending count hpc
  have hstart : f.received.length - f.rc.toNat = before.length := by
    rw [hreceived, hrc, Int.toNat_natCast, List.length_append]
    omega
  have htake : gather pageSize f.kvec accepted = bytes.take accepted := by
    rw [gather_take pageSize f.kvec hle, hgather]
  refine ⟨before, bytes, hlength, hreceived, ?_, ?_, hwhole, hbehind⟩
  · simp only [Frame.record, hstart, htake]
  · simp only [Frame.record, hrc, Int.toNat_natCast]

theorem Inv.sent (hinv : Inv f) {count accepted : ℕ} (hpc : f.pc = .send count)
    (hle : accepted ≤ count) (hshort : f.short = false) :
    Inv { f.record (.sent accepted) with pc := .test } := by
  obtain ⟨before, bytes, hlength, hreceived, haccepted, hshort', hwhole, -⟩ :=
    hinv.accepted_sent hpc hle
  have hstream : (f.record (.sent accepted)).accepted =
      (before ++ bytes.take accepted).zipIdx := by
    rw [haccepted, hwhole hshort, List.zipIdx_append, Nat.zero_add]
  have hsplit : f.received = before ++ bytes.take accepted ++ bytes.drop accepted := by
    rw [hreceived, List.append_assoc, List.take_append_drop]
  rw [hshort, Bool.false_or] at hshort'
  constructor
  case faithful =>
    change (f.record (.sent accepted)).accepted <+: f.received.zipIdx
    rw [hstream, hsplit]
    exact zipIdx_isPrefix _ _
  case settled =>
    intro _ hwrite
    have hall : ¬accepted < count := by
      rw [hshort'] at hwrite
      exact of_decide_eq_false hwrite
    change (f.record (.sent accepted)).accepted = f.received.zipIdx
    rw [hstream, hreceived, List.take_of_length_le (by omega)]
  case behind =>
    intro hwrite
    have hsome : accepted < count := by
      rw [hshort'] at hwrite
      exact of_decide_eq_true hwrite
    change (f.record (.sent accepted)).accepted.length < f.received.length
    rw [hstream, hreceived, List.length_zipIdx, List.length_append, List.length_append,
      List.length_take]
    omega
  case sending => exact fun _ hpc' => nomatch hpc'

theorem Inv.step {memory : Pages α} (hinv : Inv f) {outcome : Outcome α}
    (hunbroken : Unbroken f outcome) (hnext : (halfDuplex memory).next f outcome = some f') :
    Inv f' := by
  obtain ⟨pc', hpc', rfl⟩ := Option.map_eq_some_iff.mp hnext
  cases hpc : f.pc with
  | alloc i =>
      rw [hpc] at hpc'
      cases outcome with
      | page allocated =>
          cases allocated with
          | true =>
              cases hpc'
              apply hinv.move _ f.rc
              · exact fun _ => by rw [hpc]; rfl
              · intro count
                split <;> exact nofun
          | false =>
              cases hpc'
              exact hinv.move .err (-enomem) nofun nofun
      | _ => cases hpc'
  | recv =>
      rw [hpc] at hpc'
      cases outcome with
      | received bytes =>
          simp only [Pc.next, Option.ite_none_right_eq_some, Option.some.injEq] at hpc'
          obtain ⟨⟨hpos, -⟩, rfl⟩ := hpc'
          exact hinv.receive hpc hpos
      | recvFailed rc =>
          simp only [Pc.next, Option.ite_none_right_eq_some, Option.some.injEq] at hpc'
          obtain ⟨-, rfl⟩ := hpc'
          exact hinv.move .recvPut rc (fun _ => by rw [hpc]; rfl) nofun
      | _ => cases hpc'
  | recvPut =>
      rw [hpc] at hpc'
      cases outcome with
      | go =>
          cases hpc'
          exact hinv.move .err f.rc nofun nofun
      | _ => cases hpc'
  | send count =>
      rw [hpc] at hpc'
      cases outcome with
      | sent accepted =>
          simp only [Pc.next, Option.ite_none_right_eq_some, Option.some.injEq] at hpc'
          obtain ⟨⟨-, hle⟩, rfl⟩ := hpc'
          exact hinv.sent hpc hle hunbroken
      | sendFailed rc =>
          simp only [Pc.next, Option.ite_none_right_eq_some, Option.some.injEq] at hpc'
          obtain ⟨-, rfl⟩ := hpc'
          exact hinv.move .sendPut rc nofun nofun
      | _ => cases hpc'
  | sendPut =>
      rw [hpc] at hpc'
      cases outcome with
      | go =>
          cases hpc'
          exact hinv.move .err f.rc nofun nofun
      | _ => cases hpc'
  | test =>
      rw [hpc] at hpc'
      cases outcome with
      | stop should =>
          cases hpc'
          apply hinv.move _ f.rc
          · exact fun _ => by rw [hpc]; rfl
          · intro count
            split <;> exact nofun
      | _ => cases hpc'
  | err =>
      rw [hpc] at hpc'
      cases outcome with
      | go =>
          cases hpc'
          exact hinv.move .done f.rc nofun nofun
      | _ => cases hpc'
  | done =>
      rw [hpc] at hpc'
      cases outcome <;> cases hpc'

theorem inv_of_reachable {memory : Pages α}
    (hreach : (halfDuplex memory).ReachableUnder Unbroken f) : Inv f := by
  refine hreach.invariant (P := Inv) ?_ ?_
  · exact ⟨List.prefix_refl _, fun _ _ => rfl, nofun, nofun⟩
  · intro before outcome after _ hinv hunbroken hnext
    exact hinv.step hunbroken hnext

/-- Bytes that are accepted after a short write leave a gap. -/
theorem Inv.not_faithful (hinv : Inv f) {memory : Pages α} {outcome : Outcome α}
    (hbroken : ¬Unbroken f outcome) (hnext : (halfDuplex memory).next f outcome = some f') :
    ¬Faithful f' := by
  obtain ⟨pc', hpc', rfl⟩ := Option.map_eq_some_iff.mp hnext
  cases outcome with
  | sent accepted =>
      obtain ⟨count, hpc, hpos, hle⟩ : ∃ count, f.pc = .send count ∧ 0 < accepted ∧
          accepted ≤ count := by
        cases hpc : f.pc with
        | send count =>
            rw [hpc] at hpc'
            simp only [Pc.next, Option.ite_none_right_eq_some] at hpc'
            exact ⟨count, rfl, hpc'.1⟩
        | _ =>
            rw [hpc] at hpc'
            cases hpc'
      obtain ⟨before, bytes, hlength, hreceived, haccepted, -, -, hbehind⟩ :=
        hinv.accepted_sent hpc hle
      have hgap := hbehind (Bool.of_not_eq_false hbroken)
      obtain ⟨byte, rest, htake⟩ : ∃ byte rest, bytes.take accepted = byte :: rest := by
        cases htake : bytes.take accepted with
        | nil =>
            have hzero := congrArg List.length htake
            rw [List.length_take, List.length_nil] at hzero
            omega
        | cons byte rest => exact ⟨byte, rest, rfl⟩
      intro hprefix
      -- the byte at the end of what was accepted carries a later position
      have hnew : (f.record (.sent accepted)).accepted[f.accepted.length]? =
          some (byte, before.length) := by
        rw [haccepted, htake, List.zipIdx_cons, List.getElem?_append_right (Nat.le_refl _),
          Nat.sub_self, List.getElem?_cons_zero]
      obtain ⟨tail, htail⟩ := hprefix
      have hold : f.received.zipIdx[f.accepted.length]? = some (byte, before.length) := by
        calc
          f.received.zipIdx[f.accepted.length]? =
              ((f.record (.sent accepted)).accepted ++ tail)[f.accepted.length]? :=
            congrArg (·[f.accepted.length]?) htail.symm
          _ = some (byte, before.length) := by
            rw [List.getElem?_append_left, hnew]
            exact (List.getElem?_eq_some_iff.mp hnew).1
      rw [List.getElem?_zipIdx, Option.map_eq_some_iff] at hold
      obtain ⟨_, -, hposition⟩ := hold
      have heq := congrArg Prod.snd hposition
      simp only at heq
      omega
  | _ => exact absurd trivial hbroken

/-- As long as no bytes are accepted after a short write, what was accepted is a
prefix of what was received, and the first bytes that are accepted after one are
out of place. -/
theorem forwarded_in_order (memory : Pages α) (f : Frame α)
    (hreach : (halfDuplex memory).ReachableUnder Unbroken f) :
    Faithful f ∧ f.accepted.map Prod.fst <+: f.received ∧
      ∀ outcome f', (halfDuplex memory).next f outcome = some f' →
        (Faithful f' ↔ Unbroken f outcome) := by
  have hinv := inv_of_reachable hreach
  refine ⟨hinv.faithful, ?_, ?_⟩
  · have hmap := hinv.faithful.map Prod.fst
    rw [List.zipIdx_map_fst] at hmap
    exact hmap
  · intro outcome f' hnext
    constructor
    · intro hfaithful
      by_contra hbroken
      exact hinv.not_faithful hbroken hnext hfaithful
    · exact fun hunbroken => (hinv.step hunbroken hnext).faithful

instance decidableUnbroken (f : Frame α) (outcome : Outcome α) :
    Decidable (Unbroken f outcome) :=
  match outcome with
  | .sent _ => inferInstanceAs (Decidable (f.short = false))
  | .page _ => inferInstanceAs (Decidable True)
  | .received _ => inferInstanceAs (Decidable True)
  | .recvFailed _ => inferInstanceAs (Decidable True)
  | .sendFailed _ => inferInstanceAs (Decidable True)
  | .stop _ => inferInstanceAs (Decidable True)
  | .go => inferInstanceAs (Decidable True)

/-- The sixteen pages are there. -/
def pagesAllocated : List (Outcome ℕ) := List.replicate vecSz (.page true)

/-- Two messages go through whole. -/
theorem forwarded_in_order_whole :
    ∃ f : Frame ℕ, (f.received, f.accepted) = ([1, 2, 3], [(1, 0), (2, 1), (3, 2)]) ∧
      f.accepted.map Prod.fst <+: f.received := by
  obtain ⟨f, hreach, hf⟩ := Machine.exists_reachable_of_run (halfDuplex fun _ _ => 0) Unbroken
    (pagesAllocated ++ [.received [1, 2], .sent 2, .stop false, .received [3], .sent 1])
    (fun f => (f.received, f.accepted)) ([1, 2, 3], [(1, 0), (2, 1), (3, 2)])
    (by decide +kernel)
  exact ⟨f, hf, (forwarded_in_order _ f hreach).2.1⟩

/-- One byte of two is accepted, and the second is never sent. -/
theorem lost_tail :
    ¬∀ (memory : Pages ℕ) (f : Frame ℕ), (halfDuplex memory).Reachable f →
      f.accepted.map Prod.fst <+: f.received := by
  intro hfaithful
  obtain ⟨f, hreach, hf⟩ := Machine.exists_reachable_of_run (halfDuplex fun _ _ => 0)
    (fun _ _ => True)
    (pagesAllocated ++ [.received [1, 2], .sent 1, .stop false, .received [3], .sent 1])
    (fun f => (f.received, f.accepted.map Prod.fst)) ([1, 2, 3], [1, 3]) (by decide +kernel)
  obtain ⟨hreceived, haccepted⟩ := Prod.mk.inj hf
  have hprefix := hfaithful _ f hreach
  rw [hreceived, haccepted] at hprefix
  exact absurd hprefix (by decide)

end KtcpSplit.HalfDuplex
