import KtcpSplit.Debug.Dump

/-!
# Where the dump puts its lines

The heading of the first listener stands right behind the banner.  From the first CPU on
the position is too large by a position that was added a second time, and it stays too
large until it is taken for an error.
-/

namespace KtcpSplit.Dump

open KtcpSplit.ConnKey
open KtcpSplit.Listner
open KtcpSplit.SearchTree

/-! ## What the dump is to write -/

/-- The heading of a listener and one line per pending QP of each CPU. -/
def Connections.listnerLines (conns : Connections) (listner : CbnListner) : List Line :=
  .heading listner :: conns.onlineCpus.flatMap fun cpu =>
    (inorder (conns.connectionsRoot listner cpu)).map (.qp cpu)

def Connections.lines (conns : Connections) : List Line :=
  .banner :: (inorder conns.listnerRoot).flatMap conns.listnerLines

/-- The copies that write the lines back to back from a position of the buffer on. -/
def written (buff : Addr) : ℕ → List Line → List Event
  | _, [] => []
  | pos, line :: lines =>
      .copyToUser (buff + BitVec.ofNat 64 pos) line.str ::
        written buff (pos + line.str.length) lines

def bytes (lines : List Line) : ℕ := (lines.map fun line => line.str.length).sum

/-- All lines are written from the start of the buffer on, and the return value is their
length. -/
structure Contiguous (conns : Connections) (buff : Addr) (result : List Event × BitVec 32) :
    Prop where
  events : result.1 = written buff 0 conns.lines
  length : result.2.toInt = bytes conns.lines

instance decidableContiguous (conns : Connections) (buff : Addr)
    (result : List Event × BitVec 32) : Decidable (Contiguous conns buff result) :=
  decidable_of_iff (result.1 = written buff 0 conns.lines ∧
    result.2.toInt = bytes conns.lines) ⟨fun h => ⟨h.1, h.2⟩, fun h => ⟨h.events, h.length⟩⟩

theorem bytes_cons (line : Line) (lines : List Line) :
    bytes (line :: lines) = line.str.length + bytes lines := rfl

theorem bytes_append (lines lines' : List Line) :
    bytes (lines ++ lines') = bytes lines + bytes lines' := by
  rw [bytes, List.map_append, List.sum_append, bytes, bytes]

theorem written_append (buff : Addr) (pos : ℕ) (lines lines' : List Line) :
    written buff pos (lines ++ lines') =
      written buff pos lines ++ written buff (pos + bytes lines) lines' := by
  induction lines generalizing pos with
  | nil => rfl
  | cons line lines ih =>
      rw [List.cons_append, written, written, ih, List.cons_append, bytes_cons, Nat.add_assoc]

theorem length_written (buff : Addr) (pos : ℕ) (lines : List Line) :
    (written buff pos lines).length = lines.length := by
  induction lines generalizing pos with
  | nil => rfl
  | cons line lines ih => rw [written, List.length_cons, List.length_cons, ih]

/-! ## Positions -/

/-- A position is that of the true sum only if it is the sum. -/
theorem toNat_of_at_eq {buff : Addr} {loc : BitVec 32} {pos : ℕ} (hpos : pos < 2 ^ 31)
    (heq : at_ buff loc = buff + BitVec.ofNat 64 pos) : loc.toNat = pos := by
  have hword : (loc.signExtend 64).toNat = pos := by
    rw [at_, add_right_inj] at heq
    rw [heq, BitVec.toNat_ofNat, Nat.mod_eq_of_lt (by omega)]
  have hlt := loc.isLt
  rw [BitVec.toNat_signExtend, BitVec.toNat_setWidth, Nat.mod_eq_of_lt (by omega)] at hword
  split at hword
  · omega
  · exact hword

theorem toNat_of_toInt_eq {rc : BitVec 32} {n : ℕ} (heq : rc.toInt = n) :
    rc.toNat = n ∧ n < 2 ^ 31 := by
  have hlt := rc.isLt
  rw [BitVec.toInt_eq_toNat_cond] at heq
  split at heq <;> omega

theorem not_neg_iff (loc : BitVec 32) : ¬loc.toInt < 0 ↔ loc.toNat < 2 ^ 31 := by
  have hlt := loc.isLt
  rw [BitVec.toInt_eq_toNat_cond]
  split <;> omega

/-- The first of these events is not the next line. -/
theorem printout_ne_written {user : UserMemory} {buff : Addr} {loc : BitVec 32} {pos : ℕ}
    {line : Line} {lines : List Line} {events : List Event} (hpos : pos < 2 ^ 31)
    (hne : loc.toNat ≠ pos) :
    (printout user (at_ buff loc) line).1 :: events ≠ written buff pos lines := by
  intro heq
  cases lines with
  | nil => cases heq
  | cons line' lines =>
      have hevent := (List.cons.inj heq).1
      rw [printout] at hevent
      split at hevent
      · exact hne (toNat_of_at_eq hpos (Event.copyToUser.inj hevent).1)
      · cases hevent

/-! ## Copies that succeed -/

theorem printout_writable (addr : Addr) (line : Line) :
    (printout .writable addr line).2 = 0 := by
  rw [printout]
  split <;> rfl

variable {buff : Addr} {cpu : Cpu}

variable (buff cpu) in
theorem dumpPendingConnections_writable (loc : BitVec 32) (qps : List CbnQp) :
    (dumpPendingConnections .writable buff cpu loc qps).2 =
        loc + BitVec.ofNat 32 (bytes (qps.map (.qp cpu))) ∧
      (dumpPendingConnections .writable buff cpu loc qps).1.length = qps.length := by
  induction qps generalizing loc with
  | nil => exact ⟨(BitVec.add_zero loc).symm, rfl⟩
  | cons this rest ih =>
      obtain ⟨hrc, hlength⟩ := ih (loc + BitVec.ofNat 32 (dumpQp2user cpu this).length)
      have hzero := printout_writable (at_ buff loc) (.qp cpu this)
      simp only [dumpPendingConnections, hzero, ne_eq, not_true_eq_false, if_false]
      refine ⟨?_, congrArg Nat.succ hlength⟩
      rw [hrc, List.map_cons, bytes_cons, BitVec.ofNat_add, BitVec.add_assoc]
      rfl

variable (buff cpu) in
theorem dumpPendingConnections_cons (loc : BitVec 32) (this : CbnQp) (rest : List CbnQp) :
    ∃ events, (dumpPendingConnections .writable buff cpu loc (this :: rest)).1 =
      (printout .writable (at_ buff loc) (.qp cpu this)).1 :: events := by
  have hzero := printout_writable (at_ buff loc) (.qp cpu this)
  simp only [dumpPendingConnections, hzero, ne_eq, not_true_eq_false, if_false]
  exact ⟨_, rfl⟩

variable {conns : Connections}

/-- `dump_connections` after the call of `dump_connections_per_tennat`. -/
def afterCpus (buff : Addr) (conns : Connections) (width : BitVec 32) (rest : List CbnListner)
    (result : List Event × BitVec 32) : List Event × BitVec 32 :=
  if result.2.toInt < 0 then result
  else
    let (events, rc) := dumpListners .writable buff conns (width + result.2) rest
    (result.1 ++ events, rc)

theorem afterCpus_of_neg {width rc : BitVec 32} (hneg : rc.toInt < 0)
    (rest : List CbnListner) (events : List Event) :
    afterCpus buff conns width rest (events, rc) = (events, rc) :=
  if_pos hneg

theorem afterCpus_of_nonneg {width rc : BitVec 32} (hneg : ¬rc.toInt < 0)
    (rest : List CbnListner) (events : List Event) :
    afterCpus buff conns width rest (events, rc) =
      (events ++ (dumpListners .writable buff conns (width + rc) rest).1,
        (dumpListners .writable buff conns (width + rc) rest).2) :=
  if_neg hneg

theorem dumpListners_writable (width : BitVec 32) (listner : CbnListner)
    (rest : List CbnListner) :
    let start := width + BitVec.ofNat 32 (heading listner).length
    let after := afterCpus buff conns start rest (dumpConnectionsPerTennat .writable buff
      (fun cpu => inorder (conns.connectionsRoot listner cpu)) start conns.onlineCpus)
    dumpListners .writable buff conns width (listner :: rest) =
      ((printout .writable (at_ buff width) (.heading listner)).1 :: after.1, after.2) := by
  have hzero := printout_writable (at_ buff width) (.heading listner)
  simp only [dumpListners, hzero, ne_eq, not_true_eq_false, if_false, afterCpus]
  split <;> rfl

theorem afterCpus_append (width : BitVec 32) (rest : List CbnListner) (events : List Event)
    (result : List Event × BitVec 32) :
    afterCpus buff conns width rest (events ++ result.1, result.2) =
      (events ++ (afterCpus buff conns width rest result).1,
        (afterCpus buff conns width rest result).2) := by
  obtain ⟨events', rc⟩ := result
  by_cases hneg : rc.toInt < 0
  · rw [afterCpus_of_neg hneg, afterCpus_of_neg hneg]
  · rw [afterCpus_of_nonneg hneg, afterCpus_of_nonneg hneg, List.append_assoc]

/-- The first pending QP of the first CPU comes first. -/
theorem afterCpus_first {pending : Cpu → List CbnQp} {this : CbnQp} {qps : List CbnQp}
    (width : BitVec 32) (rest : List CbnListner) (cpus : List Cpu) (loc : BitVec 32)
    (hqps : pending cpu = this :: qps) :
    ∃ events, (afterCpus buff conns width rest
      (dumpConnectionsPerTennat .writable buff pending loc (cpu :: cpus))).1 =
        (printout .writable (at_ buff loc) (.qp cpu this)).1 :: events := by
  obtain ⟨events, hevents⟩ := dumpPendingConnections_cons buff cpu loc this qps
  simp only [dumpConnectionsPerTennat, hqps]
  split
  · next hneg =>
      simp only [afterCpus, if_pos hneg]
      exact ⟨events, hevents⟩
  · rw [afterCpus_append]
    exact ⟨_, congrArg (· ++ _) hevents⟩

/-! ## A position that is too large -/

/-- What is dumped continues the lines before it. -/
def Continues (buff : Addr) (pos : ℕ) (lines : List Line) (result : List Event × BitVec 32) :
    Prop :=
  result.1 = written buff pos lines ∧ result.2.toInt = (pos + bytes lines : ℕ)

theorem Continues.of_append {pos : ℕ} {lines lines' : List Line}
    {result : List Event × BitVec 32} (events : List Event) (hlength : events.length = lines.length)
    (hcontinues : Continues buff pos (lines ++ lines') (events ++ result.1, result.2)) :
    Continues buff (pos + bytes lines) lines' result := by
  obtain ⟨hevents, hrc⟩ := hcontinues
  refine ⟨?_, ?_⟩
  · rw [written_append] at hevents
    exact (List.append_inj hevents (by rw [length_written, hlength])).2
  · rw [bytes_append, ← Nat.add_assoc] at hrc
    exact hrc

theorem not_continues_of_nil {pos : ℕ} {lines : List Line} {rc : BitVec 32}
    (hne : rc.toNat ≠ pos) : ¬Continues buff pos lines ([], rc) := by
  rintro ⟨hevents, hlength⟩
  cases lines with
  | nil => exact hne (toNat_of_toInt_eq hlength).1
  | cons line lines => cases hevents

theorem not_continues_of_neg {pos : ℕ} {lines : List Line} {events : List Event}
    {rc : BitVec 32} (hneg : rc.toInt < 0) : ¬Continues buff pos lines (events, rc) := by
  rintro ⟨-, hlength⟩
  dsimp only at hlength
  omega

theorem dumpListners_off {width : BitVec 32} {pos : ℕ} (hoff : pos < width.toNat)
    (hpos : pos < 2 ^ 31) (rest : List CbnListner) (lines : List Line) :
    ¬Continues buff pos lines (dumpListners .writable buff conns width rest) := by
  cases rest with
  | nil => exact not_continues_of_nil hoff.ne'
  | cons listner rest =>
      rw [dumpListners_writable]
      rintro ⟨hevents, -⟩
      exact printout_ne_written hpos hoff.ne' hevents

/-- A position that is too large stays so: every CPU without a pending QP doubles it. -/
theorem afterCpus_off {pending : Cpu → List CbnQp} {width : BitVec 32} {pos : ℕ}
    (hwidth : width.toNat < 2 ^ 31) (hpos : pos < 2 ^ 31) (rest : List CbnListner)
    (cpus : List Cpu) {loc : BitVec 32} (hoff : pos < loc.toNat) (lines : List Line) :
    ¬Continues buff pos lines (afterCpus buff conns width rest
      (dumpConnectionsPerTennat .writable buff pending loc cpus)) := by
  induction cpus generalizing loc with
  | nil =>
      by_cases hneg : loc.toInt < 0
      · rw [dumpConnectionsPerTennat, afterCpus_of_neg hneg]
        exact not_continues_of_neg hneg
      · have hsum : (width + loc).toNat = width.toNat + loc.toNat := by
          have hloc := (not_neg_iff loc).mp hneg
          rw [BitVec.toNat_add, Nat.mod_eq_of_lt (by omega)]
        rw [dumpConnectionsPerTennat, afterCpus_of_nonneg hneg, List.nil_append]
        exact dumpListners_off (by omega) hpos rest lines
  | cons cpu cpus ih =>
      cases hqps : pending cpu with
      | nil =>
          by_cases hneg : loc.toInt < 0
          · simp only [dumpConnectionsPerTennat, hqps, dumpPendingConnections, if_pos hneg,
              afterCpus]
            exact not_continues_of_neg hneg
          · have hsum : (loc + loc).toNat = loc.toNat + loc.toNat := by
              have hloc := (not_neg_iff loc).mp hneg
              rw [BitVec.toNat_add, Nat.mod_eq_of_lt (by omega)]
            simp only [dumpConnectionsPerTennat, hqps, dumpPendingConnections, if_neg hneg,
              List.nil_append]
            exact ih (by omega)
      | cons this qps =>
          obtain ⟨events, hevents⟩ := afterCpus_first width rest cpus loc hqps
          rintro ⟨hwritten, -⟩
          rw [hevents] at hwritten
          exact printout_ne_written hpos hoff.ne' hwritten

/-- The first CPU adds the position of the heading's end a second time. -/
theorem afterCpus_start {pending : Cpu → List CbnQp} {start : BitVec 32} {pos : ℕ}
    (hstart : start.toNat = pos) (hzero : 0 < pos) (hpos : pos < 2 ^ 31)
    (rest : List CbnListner) (cpus : List Cpu) (lines : List Line) :
    ¬Continues buff pos ((cpus.flatMap fun cpu => (pending cpu).map (.qp cpu)) ++ lines)
      (afterCpus buff conns start rest
        (dumpConnectionsPerTennat .writable buff pending start cpus)) := by
  cases cpus with
  | nil =>
      have hneg : ¬start.toInt < 0 := (not_neg_iff start).mpr (by omega)
      have hsum : (start + start).toNat = pos + pos := by
        rw [BitVec.toNat_add, hstart, Nat.mod_eq_of_lt (by omega)]
      rw [dumpConnectionsPerTennat, afterCpus_of_nonneg hneg, List.nil_append]
      exact dumpListners_off (by omega) hpos rest _
  | cons cpu cpus =>
      obtain ⟨hrc, hlength⟩ := dumpPendingConnections_writable buff cpu start (pending cpu)
      intro hcontinues
      rw [List.flatMap_cons, List.append_assoc] at hcontinues
      have htotal := (toNat_of_toInt_eq hcontinues.2).2
      rw [bytes_append] at htotal
      have hnat : (dumpPendingConnections .writable buff cpu start (pending cpu)).2.toNat =
          pos + bytes ((pending cpu).map (.qp cpu)) := by
        rw [hrc, BitVec.toNat_add, hstart, BitVec.toNat_ofNat]
        omega
      have hneg : ¬(dumpPendingConnections .writable buff cpu start (pending cpu)).2.toInt < 0 :=
        (not_neg_iff _).mpr (by omega)
      rw [dumpConnectionsPerTennat] at hcontinues
      dsimp only at hcontinues
      rw [if_neg hneg, afterCpus_append] at hcontinues
      refine afterCpus_off (by omega) (by omega) rest cpus ?_ _
        (hcontinues.of_append _ (by rw [hlength, List.length_map]))
      rw [BitVec.toNat_add, hnat, hstart, Nat.mod_eq_of_lt (by omega)]
      omega

theorem banner_length : banner.length = 57 := by decide

theorem dumpListners_not_contiguous {listner : CbnListner} {rest : List CbnListner}
    (hlistners : inorder conns.listnerRoot = listner :: rest) (event : Event) :
    ¬Continues buff 0 conns.lines
      (event :: (dumpListners .writable buff conns 57 (listner :: rest)).1,
        (dumpListners .writable buff conns 57 (listner :: rest)).2) := by
  have hlines : conns.lines = [Line.banner, Line.heading listner] ++
      ((conns.onlineCpus.flatMap fun cpu =>
        (inorder (conns.connectionsRoot listner cpu)).map (Line.qp cpu)) ++
          rest.flatMap conns.listnerLines) := by
    rw [Connections.lines, hlistners, List.flatMap_cons]
    rfl
  have hbytes : 0 + bytes [.banner, .heading listner] = 57 + (heading listner).length := by
    rw [Nat.zero_add, bytes_cons, bytes_cons, Line.str, Line.str, banner_length]
    rfl
  have hheading : (heading listner).length ≤ 255 := length_str_le (.heading listner)
  have hstart : (57#32 + BitVec.ofNat 32 (heading listner).length).toNat =
      57 + (heading listner).length := by
    rw [BitVec.toNat_add, BitVec.toNat_ofNat, BitVec.toNat_ofNat]
    omega
  intro hcontinues
  rw [dumpListners_writable, hlines] at hcontinues
  dsimp only at hcontinues
  have htail := hcontinues.of_append
    [event, (printout .writable (at_ buff 57) (.heading listner)).1] rfl
  rw [hbytes] at htail
  exact afterCpus_start hstart (by omega) (by omega) rest conns.onlineCpus _ htail

/-- With a listener the dump is never contiguous, whatever the CPUs have. -/
theorem dump_contiguous_iff (conns : Connections) (buff : Addr) (hbuff : buff ≠ 0) (len : ℕ) :
    Contiguous conns buff (dumpConnections .writable buff conns len) ↔
      inorder conns.listnerRoot = [] := by
  have hzero := printout_writable (at_ buff 0) .banner
  have hat : at_ buff 0 = buff := BitVec.add_zero buff
  have hcopy : (printout .writable (at_ buff 0) .banner).1 = .copyToUser buff banner := by
    rw [hat, printout, if_pos hbuff]
    rfl
  have hdump : dumpConnections .writable buff conns len =
      (.copyToUser buff banner :: (dumpListners .writable buff conns 57
        (inorder conns.listnerRoot)).1, (dumpListners .writable buff conns 57
          (inorder conns.listnerRoot)).2) := by
    simp only [dumpConnections, hzero, ne_eq, not_true_eq_false, if_false, hcopy,
      banner_length]
    rfl
  rw [hdump]
  cases hlistners : inorder conns.listnerRoot with
  | nil =>
      refine iff_of_true ⟨?_, ?_⟩ rfl
      · rw [Connections.lines, hlistners]
        simp [written, dumpListners, Line.str]
      · rw [Connections.lines, hlistners]
        simp [bytes, dumpListners, Line.str, banner_length]
  | cons listner rest =>
      refine iff_of_false ?_ (List.cons_ne_nil _ _)
      rintro ⟨hevents, hlength⟩
      refine dumpListners_not_contiguous hlistners (.copyToUser buff banner)
        ⟨hevents, ?_⟩
      rw [Nat.zero_add]
      exact hlength

/-- One CPU and no pending QP. -/
def idle (listnerRoot : BinaryTree CbnListner) : Connections where
  listnerRoot := listnerRoot
  onlineCpus := [0]
  connectionsRoot := fun _ _ => .nil

theorem dump_contiguous_iff_idle :
    Contiguous (idle .nil) 4096 (dumpConnections .writable 4096 (idle .nil) 4096) ↔ True :=
  (dump_contiguous_iff (idle .nil) 4096 (by decide) 4096).trans (iff_true_intro rfl)

/-- One listener: 106 bytes are written, and 318 is the return value. -/
theorem dump_returns_three_times_the_length :
    let conns := idle (.node ⟨1, 7⟩ .nil .nil)
    let result := dumpConnections .writable 4096 conns 4096
    result.1 = written 4096 0 conns.lines ∧ bytes conns.lines = 106 ∧
      result.2.toInt = 318 ∧ ¬Contiguous conns 4096 result := by
  decide

end KtcpSplit.Dump
