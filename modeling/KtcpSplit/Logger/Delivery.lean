import KtcpSplit.Logger.Model

/-!
# Messages are delivered whole, in order and once

The content of the buffer is the concatenation of the pending messages at every
point of a run.  A read takes all of it or nothing, because its loop finds an
empty buffer after the first copy that succeeds.
-/

namespace KtcpSplit.Logger

open KtcpSplit.ConnKey (Byte)
open KtcpSplit.MessageLog
open KtcpSplit.Transition

/-! ## The content of the buffer -/

namespace TrvlBufferMgr

variable (mgr : TrvlBufferMgr) {data : List Byte} {len : ℕ}

theorem length_content : mgr.content.length = mgr.len := by
  rw [content, List.length_take, mgr.length_buffer]
  exact min_eq_left mgr.len_le

@[simp]
theorem content_reset : mgr.reset.content = [] := rfl

theorem buffer_copyToHead (hfits : mgr.len + data.length ≤ trvlBufferSize) :
    (mgr.copyToHead data hfits).buffer =
      mgr.content ++ (data ++ mgr.buffer.drop (mgr.len + data.length)) :=
  List.append_assoc ..

/-- A store after the head does not reach the content. -/
@[simp]
theorem content_copyToHead (hfits : mgr.len + data.length ≤ trvlBufferSize) :
    (mgr.copyToHead data hfits).content = mgr.content := by
  rw [content, buffer_copyToHead]
  exact List.take_left' mgr.length_content

theorem head_copyToHead (hfits : mgr.len + data.length ≤ trvlBufferSize) :
    (mgr.copyToHead data hfits).head data.length = data := by
  rw [head, buffer_copyToHead]
  exact (congrArg (List.take _) (List.drop_left' mgr.length_content)).trans List.take_left

/-- What is added to the content is what stands after the head. -/
theorem content_advance (hfits : mgr.len + len ≤ trvlBufferSize) :
    (mgr.advance len hfits).content = mgr.content ++ mgr.head len :=
  List.take_add

theorem content_copy_advance (hfits : mgr.len + data.length ≤ trvlBufferSize) :
    ((mgr.copyToHead data hfits).advance data.length hfits).content =
      mgr.content ++ data := by
  refine ((mgr.copyToHead data hfits).content_advance hfits).trans ?_
  rw [content_copyToHead, head_copyToHead]

end TrvlBufferMgr

variable {s : State} {mgr : TrvlBufferMgr}

/-- What `trvlb_log_formated_string` makes of the content. -/
theorem content_trvlbLogFormatedString (mgr : TrvlBufferMgr) (buff : List Byte) :
    (trvlbLogFormatedString mgr buff).1.content =
      match (trvlbLogFormatedString mgr buff).2 with
      | .dropped => mgr.content
      | .appended => mgr.content ++ buff
      | .replaced => buff := by
  unfold trvlbLogFormatedString
  split
  · split
    · exact TrvlBufferMgr.content_copy_advance ..
    · exact mgr.reset.content_copy_advance _
  · rfl

/-- A callback adds the message that was committed, whatever it wrote. -/
theorem content_collectStat (mgr : TrvlBufferMgr) (entry : GetStat) :
    (collectStat mgr entry).1.content = mgr.content ++ (collectStat mgr entry).2.getD [] := by
  unfold collectStat trvlbPutBuffHead
  dsimp only
  split
  · rw [Option.getD_none, List.append_nil, TrvlBufferMgr.content_copyToHead]
  · rename_i mgr' hput
    split at hput
    · rename_i hfits
      cases hput
      rw [Option.getD_some, TrvlBufferMgr.content_advance, TrvlBufferMgr.content_copyToHead]
    · cases hput

/-! ## One call -/

/-- The buffer holds the pending messages, and reads returned the delivered ones,
together with what the current read has copied. -/
structure Tracks (s : State) (copied : List Byte) : Prop where
  pending : s.mgr.content = (Log.of s.history).pending.flatten
  delivered : s.returned ++ copied = ((Log.of s.history).withFate .delivered).flatten

variable {copied : List Byte}

theorem Tracks.record_nil (htracks : Tracks s copied) (hcontent : mgr.content = s.mgr.content) :
    Tracks (s.record mgr []) copied where
  pending := by simpa [State.record, hcontent] using htracks.pending
  delivered := by simpa [State.record] using htracks.delivered

theorem Tracks.record_accept (htracks : Tracks s copied) {msg : List Byte}
    (hcontent : mgr.content = s.mgr.content ++ msg) :
    Tracks (s.record mgr [.accept msg]) copied where
  pending := by
    simp only [State.record, of_concat, Log.pending_accept, List.flatten_append, hcontent,
      htracks.pending, List.flatten_singleton]
  delivered := by
    simpa only [State.record, of_concat, Log.withFate_accept] using htracks.delivered

theorem Tracks.record_discard (htracks : Tracks s copied) (hcontent : mgr.content = []) :
    Tracks (s.record mgr [.settle .discarded]) copied where
  pending := by simp [State.record, hcontent]
  delivered := by
    have hne : Fate.discarded ≠ .delivered := by decide
    simpa only [State.record, of_concat, Log.withFate_settle_ne _ hne] using htracks.delivered

/-- The content of the buffer is copied and the buffer emptied. -/
theorem Tracks.record_deliver (htracks : Tracks s copied) :
    Tracks (s.record s.mgr.reset [.settle .delivered]) (copied ++ s.mgr.content) where
  pending := by simp [State.record]
  delivered := by
    simp only [State.record, of_concat, Log.withFate_settle, List.flatten_append,
      ← htracks.delivered, htracks.pending, List.append_assoc]

theorem Tracks.loggerLogWrite (htracks : Tracks s copied) (buf : List Byte) (memdup : Bool) :
    Tracks (s.loggerLogWrite buf memdup) copied := by
  unfold State.loggerLogWrite
  split
  · exact htracks
  have hcontent := content_trvlbLogFormatedString s.mgr buf
  generalize trvlbLogFormatedString s.mgr buf = logged at hcontent
  obtain ⟨mgr, _ | _ | _⟩ := logged
  · exact htracks.record_nil hcontent
  · exact htracks.record_accept hcontent
  · have haccept : Tracks (State.record _ mgr [.accept buf]) copied :=
      (htracks.record_discard s.mgr.content_reset).record_accept hcontent
    simpa only [State.record, List.append_assoc, List.singleton_append] using haccept

theorem Tracks.scbmCollectStats (entries : List GetStat) (htracks : Tracks s copied) :
    Tracks (scbmCollectStats s entries) copied := by
  induction entries generalizing s with
  | nil => exact htracks
  | cons entry entries ih =>
      have hcontent := content_collectStat s.mgr entry
      rw [Logger.scbmCollectStats]
      generalize collectStat s.mgr entry = collected at hcontent
      obtain ⟨mgr, _ | msg⟩ := collected
      · exact ih (htracks.record_nil (hcontent.trans (List.append_nil _)))
      · exact ih (htracks.record_accept hcontent)

/-- The read returns what it consumed: it copies only if nothing was copied yet. -/
theorem Tracks.readLoop (htracks : Tracks s copied) (len cnt : ℕ) (copyFails : ℕ → Bool)
    (honce : copied = [] ∨ s.mgr.len = 0) :
    Tracks (readLoop len copyFails s cnt copied).1
      ((readLoop len copyFails s cnt copied).2.getD []) := by
  fun_induction Logger.readLoop len copyFails s cnt copied with
  | case1 => exact htracks
  | case2 => exact htracks
  | case3 s cnt copied hcnt hsize hlen hfails =>
      obtain rfl := honce.resolve_right hsize
      exact htracks
  | case4 s cnt copied hcnt hsize hlen hcopied ih => exact ih htracks.record_deliver (.inr rfl)
  | case5 => exact htracks

theorem Tracks.statsLogRead (htracks : Tracks s []) (buf : Bool) (len : ℕ)
    (ppos : BitVec 64) (entries : List GetStat) (copyFails : ℕ → Bool) :
    Tracks (s.statsLogRead buf len ppos entries copyFails) [] := by
  unfold State.statsLogRead
  split
  · exact htracks
  · have hread := (htracks.scbmCollectStats entries).readLoop len 0 copyFails (.inl rfl)
    exact ⟨hread.pending, by simpa only [List.append_nil] using hread.delivered⟩

/-! ## What discards messages -/

/-- The history goes on from `s` without a discard. -/
def Extends (s s' : State) : Prop :=
  ∃ events, s'.history = s.history ++ events ∧ Event.settle .discarded ∉ events

theorem Extends.refl : Extends s s := ⟨[], (List.append_nil _).symm, List.not_mem_nil⟩

theorem Extends.trans {s' s'' : State} (hfirst : Extends s s') (hsecond : Extends s' s'') :
    Extends s s'' := by
  obtain ⟨events, hevents, hnone⟩ := hfirst
  obtain ⟨events', hevents', hnone'⟩ := hsecond
  refine ⟨events ++ events', by rw [hevents', hevents, List.append_assoc], fun hmem => ?_⟩
  exact (List.mem_append.mp hmem).elim hnone hnone'

theorem extends_record {events : List (Event Byte)}
    (hnone : Event.settle .discarded ∉ events) : Extends s (s.record mgr events) :=
  ⟨events, rfl, hnone⟩

theorem extends_scbmCollectStats (entries : List GetStat) :
    Extends s (scbmCollectStats s entries) := by
  induction entries generalizing s with
  | nil => exact .refl
  | cons entry entries ih =>
      rw [scbmCollectStats]
      obtain ⟨mgr, _ | msg⟩ := collectStat s.mgr entry
      · exact (extends_record List.not_mem_nil).trans ih
      · exact (extends_record (by simp)).trans ih

theorem extends_readLoop (len cnt : ℕ) (copyFails : ℕ → Bool) (copied : List Byte) :
    Extends s (readLoop len copyFails s cnt copied).1 := by
  fun_induction readLoop len copyFails s cnt copied with
  | case4 s cnt copied hcnt hsize hlen hcopied ih =>
      exact (extends_record (by simp)).trans ih
  | _ => exact .refl

theorem extends_statsLogRead (buf : Bool) (len : ℕ) (ppos : BitVec 64)
    (entries : List GetStat) (copyFails : ℕ → Bool) :
    Extends s (s.statsLogRead buf len ppos entries copyFails) := by
  unfold State.statsLogRead
  split
  · exact .refl
  · exact (extends_scbmCollectStats entries).trans (extends_readLoop len 0 copyFails [])

/-- Only a message that does not fit behind the others discards them. -/
theorem overflow_of_replaced {buff : List Byte}
    (hreplaced : (trvlbLogFormatedString mgr buff).2 = .replaced) :
    buff.length ≤ trvlBufferSize ∧ trvlBufferSize < mgr.len + buff.length := by
  unfold trvlbLogFormatedString at hreplaced
  split at hreplaced
  · rename_i hlen
    split at hreplaced
    · cases hreplaced
    · rename_i hfits
      rw [intAdd_le_iff mgr.len_le (hlen.trans_lt (by decide)), not_le] at hfits
      exact ⟨hlen, hfits⟩
  · cases hreplaced

theorem loggerLogWrite_cases (s : State) (buf : List Byte) (memdup : Bool) :
    Extends s (s.loggerLogWrite buf memdup) ∨
      buf.length ≤ trvlBufferSize ∧ trvlBufferSize < s.mgr.len + buf.length := by
  unfold State.loggerLogWrite
  split
  · exact .inl .refl
  have hoverflow : (trvlbLogFormatedString s.mgr buf).2 = .replaced → _ :=
    overflow_of_replaced
  generalize trvlbLogFormatedString s.mgr buf = logged at hoverflow
  obtain ⟨mgr, _ | _ | _⟩ := logged
  · exact .inl (extends_record List.not_mem_nil)
  · exact .inl (extends_record (by simp))
  · exact .inr (hoverflow rfl)

/-! ## Runs -/

section Runs

variable {memory : List Byte} {hmemory : memory.length = trvlBufferSize}

theorem tracks_of_reachable (hreach : (logger memory hmemory).Reachable s) : Tracks s [] := by
  refine hreach.invariant (P := (Tracks · [])) ⟨rfl, rfl⟩ ?_
  rintro before call after - htracks - hnext
  cases call with
  | write buf memdup =>
      cases hnext
      exact htracks.loggerLogWrite buf memdup
  | read buf len ppos entries copyFails =>
      cases hnext
      exact htracks.statsLogRead buf len ppos entries copyFails

end Runs

/-- Reads return whole messages, in order and once; what they did not return is in
the buffer or was discarded, with all that was in the buffer then, by a write that did
not fit. -/
theorem messages_delivered_once (memory : List Byte)
    (hmemory : memory.length = trvlBufferSize) (s : State)
    (hreach : (logger memory hmemory).Reachable s) :
    let log := Log.of s.history
    s.returned = (log.withFate .delivered).flatten ∧
      (log.withFate .delivered).Sublist log.accepted ∧
      s.mgr.content = log.pending.flatten ∧
      log.accepted.Perm
        (log.withFate .delivered ++ log.withFate .discarded ++ log.pending) ∧
      ∀ call s', (logger memory hmemory).next s call = some s' → Extends s s' ∨
        ∃ buf memdup, call = .write buf memdup ∧ buf.length ≤ trvlBufferSize ∧
          trvlBufferSize < s.mgr.len + buf.length := by
  have htracks := tracks_of_reachable hreach
  refine ⟨?_, Log.withFate_sublist _ _, htracks.pending, Log.accepted_perm _, ?_⟩
  · rw [← htracks.delivered, List.append_nil]
  · intro call s' hnext
    cases call with
    | write buf memdup =>
        cases hnext
        exact (loggerLogWrite_cases s buf memdup).imp_right fun hoverflow =>
          ⟨buf, memdup, rfl, hoverflow⟩
    | read buf len ppos entries copyFails =>
        cases hnext
        exact .inl (extends_statsLogRead buf len ppos entries copyFails)

/-- Two messages are read; a failed copy keeps a third, which a fourth drives out. -/
theorem messages_delivered_once_overflow :
    ∃ s : State, s.returned = [1, 2, 3, 4] ∧ ∃ kept,
      (Log.of s.history).withFate .delivered = [[1, 2], [3, 4]] ∧
        (Log.of s.history).accepted.Perm ([[1, 2], [3, 4], [5, 6]] ++ kept) ∧
        s.mgr.content = kept.flatten := by
  let mgr := logger (List.replicate trvlBufferSize 0) List.length_replicate
  obtain ⟨s, hreach, hs⟩ := Machine.exists_reachable_of_run mgr (fun _ _ => True)
    [.write [1, 2] true, .write [3, 4] true, .read true 4 0 [] fun _ => false,
      .write [5, 6] true, .read true 4 2 [] fun _ => true,
      .write (List.replicate 3967 7) true]
    (fun s => (s.returned, (Log.of s.history).withFate .delivered,
      (Log.of s.history).withFate .discarded))
    ([1, 2, 3, 4], [[1, 2], [3, 4]], [[5, 6]]) (by decide +kernel)
  simp only [Prod.mk.injEq] at hs
  obtain ⟨hreturned, hdelivered, hdiscarded⟩ := hs
  obtain ⟨-, -, hcontent, hperm, -⟩ := messages_delivered_once _ _ s hreach
  rw [hdelivered, hdiscarded] at hperm
  exact ⟨s, hreturned, _, hdelivered, hperm, hcontent⟩

end KtcpSplit.Logger
