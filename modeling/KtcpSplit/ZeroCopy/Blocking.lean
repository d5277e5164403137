import Mathlib.Algebra.Ring.Nat
import Mathlib.Data.Int.Order.Basic
import Mathlib.Data.List.TakeWhile

/-!
# The blocking zero-copy read

`tcp_read_sock_zcopy_blocking` reads when there is something in the receive queue and waits
when there is not.  Segments arrive between any two steps of the thread until the peer
closes or resets the connection.
-/

namespace KtcpSplit.ReadBlocking

/-- An skb of the receive queue: its bytes that are not read yet, and whether there is
urgent data. -/
structure Skb where
  unread : ℕ
  urgent : Bool

abbrev Queue := List Skb

/-- There is no urgent data. -/
def Plain (queue : Queue) : Prop := ∀ skb ∈ queue, skb.urgent = false

inductive Ending
  | close
  | reset

/-- What happens to the socket before every step of the thread, the ticks of a second, and
what `sk_wait_data` leaves of the timeout when it returns in a step. -/
structure Stream where
  segments : ℕ → Queue
  ending : Ending
  endsAt : ℕ
  segments_of_lt : ∀ n, endsAt < n → segments n = []
  hz : ℕ
  wake : ℕ → ℕ

/-- What is known of `tcp_read_sock`, which is not here: without urgent data, in front of
which it stops, it returns zero when there is nothing to read and then only; and then it
leaves no more than there was. -/
structure ReadsSock (tcpReadSockZcopy : Queue → ℤ × Queue) : Prop where
  zero_iff : ∀ queue, Plain queue →
    ((tcpReadSockZcopy queue).1 = 0 ↔ ∀ skb ∈ queue, skb.unread = 0)
  left : ∀ queue, (tcpReadSockZcopy queue).1 = 0 →
    ∀ skb ∈ (tcpReadSockZcopy queue).2, skb ∈ queue

inductive Pc
  | retry
  | read
  | wait
  | out (rc : ℤ)

/-- The variables of the function and the socket; `ended` is what `sk_shutdown` and `sk_err`
say. -/
structure State where
  pc : Pc
  timeo : ℕ
  queue : Queue
  ended : Option Ending

def start (stream : Stream) (queue : Queue) : State := ⟨.retry, 1 * stream.hz, queue, none⟩

/-- What arrives before step `n`. -/
def Stream.deliver (stream : Stream) (n : ℕ) (s : State) : State :=
  { s with
    queue := s.queue ++ stream.segments n
    ended := if n = stream.endsAt then some stream.ending else s.ended }

/-- A step of `tcp_read_sock_zcopy_blocking`.  `sk_wait_data` returns in the step `wait`, when
it is woken or its timeout is over; its result and that of the second `skb_peek_tail` are
overwritten before they are read. -/
def threadStep (tcpReadSockZcopy : Queue → ℤ × Queue) (wake : ℕ) (s : State) : State :=
  match s.pc with
  | .retry => if s.queue = [] then { s with pc := .wait } else { s with pc := .read }
  | .read =>
      let (rc, queue) := tcpReadSockZcopy s.queue
      if rc < 0 then { s with pc := .out rc, queue := queue }
      else if rc = 0 then { s with pc := .wait, queue := queue }
      else { s with pc := .out rc, queue := queue }
  | .wait => { s with pc := .retry, timeo := min s.timeo wake }
  | .out _ => s

/-- The state after `n` steps of the thread. -/
def run (tcpReadSockZcopy : Queue → ℤ × Queue) (stream : Stream) (s : State) : ℕ → State
  | 0 => s
  | n + 1 =>
      threadStep tcpReadSockZcopy (stream.wake n)
        (stream.deliver n (run tcpReadSockZcopy stream s n))

/-- The call returns. -/
def Returns (tcpReadSockZcopy : Queue → ℤ × Queue) (stream : Stream) (queue : Queue) : Prop :=
  ∃ n rc, (run tcpReadSockZcopy stream (start stream queue) n).pc = .out rc

variable {tcpReadSockZcopy : Queue → ℤ × Queue} {stream : Stream}

/-! ## Without a byte to read -/

theorem Plain.append {front back : Queue} (hfront : Plain front) (hback : Plain back) :
    Plain (front ++ back) := fun skb hskb =>
  (List.mem_append.mp hskb).elim (hfront skb) (hback skb)

/-- Nothing is there to be read, and the call has not returned. -/
structure Idle (s : State) : Prop where
  plain : Plain s.queue
  queue : ∀ skb ∈ s.queue, skb.unread = 0
  pc : ∀ rc, s.pc ≠ .out rc

theorem Idle.deliver {s : State} (hidle : Idle s) {n : ℕ} (hplain : Plain (stream.segments n))
    (hsegments : ∀ skb ∈ stream.segments n, skb.unread = 0) : Idle (stream.deliver n s) where
  plain := hidle.plain.append hplain
  queue skb hskb := (List.mem_append.mp hskb).elim (hidle.queue skb) (hsegments skb)
  pc := hidle.pc

theorem Idle.threadStep (hreads : ReadsSock tcpReadSockZcopy) {s : State} (hidle : Idle s)
    (wake : ℕ) : Idle (threadStep tcpReadSockZcopy wake s) := by
  have hzero := (hreads.zero_iff s.queue hidle.plain).mpr hidle.queue
  rw [ReadBlocking.threadStep]
  split
  · split
    · exact ⟨hidle.plain, hidle.queue, fun rc => by simp⟩
    · exact ⟨hidle.plain, hidle.queue, fun rc => by simp⟩
  · dsimp only
    rw [hzero, if_neg (lt_irrefl 0), if_pos rfl]
    have hleft := hreads.left s.queue hzero
    exact ⟨fun skb hskb => hidle.plain skb (hleft skb hskb),
      fun skb hskb => hidle.queue skb (hleft skb hskb), fun rc => by simp⟩
  · exact ⟨hidle.plain, hidle.queue, fun rc => by simp⟩
  · rename_i rc hout
    exact absurd hout (hidle.pc rc)

/-- As long as nothing arrives that can be read, the loop goes on. -/
theorem Idle.run (hreads : ReadsSock tcpReadSockZcopy) {s : State} (hidle : Idle s)
    (hplain : ∀ n, Plain (stream.segments n))
    (hsegments : ∀ n, ∀ skb ∈ stream.segments n, skb.unread = 0) (n : ℕ) :
    Idle (run tcpReadSockZcopy stream s n) := by
  induction n with
  | zero => exact hidle
  | succ n ih => exact (ih.deliver (hplain n) (hsegments n)).threadStep hreads (stream.wake n)

/-! ## With a byte to read -/

/-- The call has returned, or there is no urgent data. -/
def Open (s : State) : Prop := (∃ rc, s.pc = .out rc) ∨ Plain s.queue

theorem Open.threadStep (hreads : ReadsSock tcpReadSockZcopy) {s : State} (hopen : Open s)
    (wake : ℕ) : Open (threadStep tcpReadSockZcopy wake s) := by
  obtain ⟨rc, hout⟩ | hplain := hopen
  · rw [ReadBlocking.threadStep, hout]
    exact .inl ⟨rc, hout⟩
  · rw [ReadBlocking.threadStep]
    split
    · split
      · exact .inr hplain
      · exact .inr hplain
    · dsimp only
      split
      · exact .inl ⟨_, rfl⟩
      · split
        · rename_i hzero
          exact .inr fun skb hskb => hplain skb (hreads.left s.queue hzero skb hskb)
        · exact .inl ⟨_, rfl⟩
    · exact .inr hplain
    · exact .inr hplain

theorem Open.run (hreads : ReadsSock tcpReadSockZcopy) {s : State} (hopen : Open s)
    (hplain : ∀ n, Plain (stream.segments n)) (n : ℕ) :
    Open (run tcpReadSockZcopy stream s n) := by
  induction n with
  | zero => exact hopen
  | succ n ih =>
      have hdelivered : Open (stream.deliver n (ReadBlocking.run tcpReadSockZcopy stream s n)) :=
        ih.imp_right fun h => h.append (hplain n)
      exact hdelivered.threadStep hreads (stream.wake n)

/-- The call has returned, or something is there to be read. -/
def Pending (s : State) : Prop :=
  (∃ rc, s.pc = .out rc) ∨ Plain s.queue ∧ ∃ skb ∈ s.queue, skb.unread ≠ 0

/-- The steps of the thread that are left when something is there to be read. -/
def Pc.rank : Pc → ℕ
  | .out _ => 0
  | .read => 1
  | .retry => 2
  | .wait => 3

theorem Pending.deliver {s : State} (hpending : Pending s) {n : ℕ}
    (hplain : Plain (stream.segments n)) : Pending (stream.deliver n s) :=
  hpending.imp_right fun ⟨hcalm, skb, hskb, hne⟩ =>
    ⟨hcalm.append hplain, skb, List.mem_append_left _ hskb, hne⟩

/-- Every step brings the call closer to its end. -/
theorem Pending.threadStep (hreads : ReadsSock tcpReadSockZcopy) {s : State}
    (hpending : Pending s) (wake : ℕ) :
    Pending (threadStep tcpReadSockZcopy wake s) ∧
      (threadStep tcpReadSockZcopy wake s).pc.rank ≤ s.pc.rank - 1 := by
  obtain ⟨rc, hout⟩ | ⟨hplain, skb, hskb, hne⟩ := hpending
  · have hstep : ReadBlocking.threadStep tcpReadSockZcopy wake s = s := by
      rw [ReadBlocking.threadStep, hout]
    rw [hstep, hout]
    exact ⟨.inl ⟨rc, hout⟩, Nat.le_refl _⟩
  · have hrc : (tcpReadSockZcopy s.queue).1 ≠ 0 := fun hzero =>
      hne ((hreads.zero_iff s.queue hplain).mp hzero skb hskb)
    have hqueue : s.queue ≠ [] := List.ne_nil_of_mem hskb
    cases hpc : s.pc with
    | retry =>
        have hstep : ReadBlocking.threadStep tcpReadSockZcopy wake s = { s with pc := .read } := by
          rw [ReadBlocking.threadStep, hpc]
          exact if_neg hqueue
        rw [hstep]
        exact ⟨.inr ⟨hplain, skb, hskb, hne⟩, Nat.le_refl _⟩
    | read =>
        have hstep : ReadBlocking.threadStep tcpReadSockZcopy wake s =
            { s with
              pc := .out (tcpReadSockZcopy s.queue).1
              queue := (tcpReadSockZcopy s.queue).2 } := by
          rw [ReadBlocking.threadStep, hpc]
          dsimp only
          rw [if_neg hrc, ite_self]
        rw [hstep]
        exact ⟨.inl ⟨_, rfl⟩, Nat.le_refl _⟩
    | wait =>
        have hstep : ReadBlocking.threadStep tcpReadSockZcopy wake s =
            { s with pc := .retry, timeo := min s.timeo wake } := by
          rw [ReadBlocking.threadStep, hpc]
        rw [hstep]
        exact ⟨.inr ⟨hplain, skb, hskb, hne⟩, Nat.le_refl _⟩
    | out rc =>
        have hstep : ReadBlocking.threadStep tcpReadSockZcopy wake s = s := by
          rw [ReadBlocking.threadStep, hpc]
        rw [hstep, hpc]
        exact ⟨.inl ⟨rc, hpc⟩, Nat.le_refl _⟩

theorem Pc.eq_out_of_rank {pc : Pc} (hrank : pc.rank = 0) : ∃ rc, pc = .out rc := by
  cases pc with
  | out rc => exact ⟨rc, rfl⟩
  | read => cases hrank
  | retry => cases hrank
  | wait => cases hrank

theorem returns_of_pending (hreads : ReadsSock tcpReadSockZcopy)
    (hplain : ∀ n, Plain (stream.segments n)) {s : State} {n : ℕ}
    (hpending : Pending (stream.deliver n (run tcpReadSockZcopy stream s n))) :
    ∃ m rc, (run tcpReadSockZcopy stream s m).pc = .out rc := by
  -- the number of steps that are left decides
  generalize hrank : (run tcpReadSockZcopy stream s n).pc.rank = rank
  induction rank using Nat.strongRecOn generalizing n with
  | _ rank ih =>
      by_cases hzero : rank = 0
      · exact ⟨n, Pc.eq_out_of_rank (hrank.trans hzero)⟩
      obtain ⟨hnext, hle⟩ := hpending.threadStep hreads (stream.wake n)
      have hless : (run tcpReadSockZcopy stream s (n + 1)).pc.rank < rank := by
        have hsame : (stream.deliver n (run tcpReadSockZcopy stream s n)).pc.rank = rank := hrank
        rw [hsame] at hle
        exact Nat.lt_of_le_of_lt hle (Nat.sub_one_lt hzero)
      exact ih _ hless (hnext.deliver (hplain (n + 1))) rfl

/-- Everything in the queue is read, as far as the first urgent data. -/
def readAll (queue : Queue) : ℤ × Queue :=
  let front := queue.takeWhile (!·.urgent)
  (((front.map Skb.unread).sum : ℕ), queue.drop front.length)

theorem readsSock_readAll : ReadsSock readAll where
  zero_iff queue hplain := by
    have hfront : queue.takeWhile (!·.urgent) = queue := by
      refine List.takeWhile_eq_self_iff.mpr fun skb hskb => ?_
      rw [hplain skb hskb]
      rfl
    rw [readAll, hfront, Int.natCast_eq_zero, List.sum_eq_zero_iff_forall_eq_nat]
    simp
  left queue _ skb hskb := List.mem_of_mem_drop hskb

/-- A segment that arrives after the thread has waited, and the end. -/
def lateSegment : Stream where
  segments n := if n = 2 then [⟨1448, false⟩] else []
  ending := .close
  endsAt := 3
  segments_of_lt n hn := if_neg (by omega)
  hz := 1000
  wake _ := 0

theorem plain_lateSegment (n : ℕ) : Plain (lateSegment.segments n) := by
  intro skb hskb
  unfold lateSegment at hskb
  dsimp only at hskb
  split at hskb
  · cases List.mem_singleton.mp hskb
    rfl
  · cases hskb

/-- The peer closes, and there is nothing left to be read. -/
def closedStream : Stream where
  segments _ := []
  ending := .close
  endsAt := 0
  segments_of_lt _ _ := rfl
  hz := 1000
  wake _ := 0

end KtcpSplit.ReadBlocking
