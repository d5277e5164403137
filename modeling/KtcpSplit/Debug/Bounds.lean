import KtcpSplit.Debug.Contiguous
import Mathlib.Data.Nat.Digits.Defs
import Mathlib.Tactic.Ring

/-!
# What the dump may write

A line is copied to `buff + loc` whatever `len` says, and `printout` takes a sum that is
not null for a buffer of the user.  So the copies stay in the buffer only if each position
leaves room for its line, and without a buffer only if no listener is there.  Every CPU
doubles the position, so the room that is needed grows with each of them.
-/

namespace KtcpSplit.Dump

open KtcpSplit.ConnKey
open KtcpSplit.Listner
open KtcpSplit.SearchTree

variable (user : UserMemory) (buff : Addr) (len : ℕ)

/-- The copy stays in the `len` bytes from `buff` on. -/
def Inside : Event → Prop
  | .copyToUser addr str => (addr - buff).toNat + str.length ≤ len
  | .trace _ => True

instance decidableInside : DecidablePred (Inside buff len)
  | .copyToUser _ _ => inferInstanceAs (Decidable (_ ≤ _))
  | .trace _ => inferInstanceAs (Decidable True)

def Traced : Event → Prop
  | .copyToUser _ _ => False
  | .trace _ => True

instance decidableTraced : DecidablePred Traced
  | .copyToUser _ _ => inferInstanceAs (Decidable False)
  | .trace _ => inferInstanceAs (Decidable True)

/-- Every copy stays in the buffer, and without a buffer the lines are only traced. -/
def Bounded (events : List Event) : Prop :=
  if buff = 0 then ∀ event ∈ events, Traced event else ∀ event ∈ events, Inside buff len event

instance decidableBounded (events : List Event) : Decidable (Bounded buff len events) :=
  inferInstanceAs (Decidable (if buff = 0 then ∀ event ∈ events, Traced event
    else ∀ event ∈ events, Inside buff len event))

theorem inside_iff {addr : Addr} {str : List Char} (hrange : buff.toNat + len ≤ 2 ^ 64)
    (hstr : str ≠ []) :
    Inside buff len (.copyToUser addr str) ↔
      buff.toNat ≤ addr.toNat ∧ addr.toNat + str.length ≤ buff.toNat + len := by
  have hpos := List.length_pos_iff.mpr hstr
  have haddr := addr.isLt
  rw [Inside, BitVec.toNat_sub]
  omega

/-! ## Room for the lines -/

/-- The line ends within `len`, or it is traced because the sum of `buff` and the position
is null. -/
def Room (loc : BitVec 32) (line : Line) : Prop :=
  at_ buff loc = 0 ∨ (loc.signExtend 64).toNat + line.str.length ≤ len

/-- The dump goes on after the line. -/
def Passed (loc : BitVec 32) (line : Line) : Prop :=
  at_ buff loc = 0 ∨ user.notCopied line = 0

instance decidablePassed (loc : BitVec 32) (line : Line) : Decidable (Passed user buff loc line) :=
  inferInstanceAs (Decidable (_ ∨ _))

/-- The position behind a line. -/
def behind (loc : BitVec 32) (line : Line) : BitVec 32 := loc + BitVec.ofNat 32 line.str.length

def LinesFit : BitVec 32 → List Line → Prop
  | _, [] => True
  | loc, line :: lines =>
      Room buff len loc line ∧ (Passed user buff loc line → LinesFit (behind loc line) lines)

/-- The position behind the lines, or the bytes of the first line that is not copied. -/
def linesEnd : BitVec 32 → List Line → BitVec 32
  | loc, [] => loc
  | loc, line :: lines =>
      if Passed user buff loc line then linesEnd (behind loc line) lines
      else BitVec.ofNat 32 (user.notCopied line)

/-- Each CPU starts at the position of the one before plus the end of that one's lines. -/
def CpusFit : BitVec 32 → List (List Line) → Prop
  | _, [] => True
  | loc, lines :: cpus =>
      LinesFit user buff len loc lines ∧
        (0 ≤ (linesEnd user buff loc lines).toInt →
          CpusFit (loc + linesEnd user buff loc lines) cpus)

def cpusEnd : BitVec 32 → List (List Line) → BitVec 32
  | loc, [] => loc
  | loc, lines :: cpus =>
      if 0 ≤ (linesEnd user buff loc lines).toInt then
        cpusEnd (loc + linesEnd user buff loc lines) cpus
      else linesEnd user buff loc lines

/-- The lines of a listener, CPU by CPU. -/
def Connections.cpuLines (conns : Connections) (listner : CbnListner) : List (List Line) :=
  conns.onlineCpus.map fun cpu => (inorder (conns.connectionsRoot listner cpu)).map (.qp cpu)

def ListnersFit (conns : Connections) : BitVec 32 → List CbnListner → Prop
  | _, [] => True
  | width, listner :: rest =>
      let start := behind width (.heading listner)
      let ending := cpusEnd user buff start (conns.cpuLines listner)
      Room buff len width (.heading listner) ∧
        (Passed user buff width (.heading listner) →
          CpusFit user buff len start (conns.cpuLines listner) ∧
            (0 ≤ ending.toInt → ListnersFit conns (start + ending) rest))

def DumpFits (conns : Connections) : Prop :=
  Room buff len 0 .banner ∧
    (Passed user buff 0 .banner →
      ListnersFit user buff len conns (behind 0 .banner) (inorder conns.listnerRoot))

/-! ## One line -/

variable {buff} in
theorem inside_printout_iff (loc : BitVec 32) (line : Line) :
    Inside buff len (printout user (at_ buff loc) line).1 ↔ Room buff len loc line := by
  rw [printout, Room]
  by_cases hnull : at_ buff loc = 0
  · rw [if_neg (not_not.mpr hnull)]
    exact iff_of_true trivial (Or.inl hnull)
  · have hoffset : at_ buff loc - buff = loc.signExtend 64 := add_sub_cancel_left _ _
    rw [if_pos hnull, or_iff_right hnull, Inside, hoffset]

variable {user buff len}

theorem printout_of_passed {loc : BitVec 32} {line : Line}
    (hpassed : Passed user buff loc line) : (printout user (at_ buff loc) line).2 = 0 := by
  rw [printout]
  split
  · next hnull =>
      rw [hpassed.resolve_left hnull]
      rfl
  · rfl

theorem printout_of_not_passed {loc : BitVec 32} {line : Line}
    (hpassed : ¬Passed user buff loc line) :
    (printout user (at_ buff loc) line).2 = BitVec.ofNat 32 (user.notCopied line) ∧
      (printout user (at_ buff loc) line).2 ≠ 0 := by
  have hle := (user.notCopied_le line).trans (length_str_le line)
  rw [printout]
  rw [if_pos fun hnull => hpassed (Or.inl hnull)]
  refine ⟨rfl, fun heq => hpassed (Or.inr ?_)⟩
  have hnat := congrArg BitVec.toNat heq
  rwa [BitVec.toNat_ofNat, Nat.mod_eq_of_lt (by omega)] at hnat

/-! ## Each level of the dump -/

variable (user buff len)

theorem dumpPendingConnections_spec (cpu : Cpu) (loc : BitVec 32) (qps : List CbnQp) :
    let result := dumpPendingConnections user buff cpu loc qps
    ((∀ event ∈ result.1, Inside buff len event) ↔
        LinesFit user buff len loc (qps.map (.qp cpu))) ∧
      result.2 = linesEnd user buff loc (qps.map (.qp cpu)) := by
  induction qps generalizing loc with
  | nil => exact ⟨iff_of_true (fun _ hmem => by cases hmem) trivial, rfl⟩
  | cons this rest ih =>
      by_cases hpassed : Passed user buff loc (.qp cpu this)
      · obtain ⟨hevents, hend⟩ := ih (behind loc (.qp cpu this))
        simp only [dumpPendingConnections, printout_of_passed hpassed, ne_eq,
          not_true_eq_false, if_false, List.map_cons, LinesFit, linesEnd,
          List.forall_mem_cons, inside_printout_iff, hpassed, true_imp_iff]
        exact ⟨and_congr_right fun _ => hevents, hend⟩
      · obtain ⟨hrc, hne⟩ := printout_of_not_passed hpassed
        simp only [dumpPendingConnections, if_pos hne, List.map_cons, LinesFit, linesEnd,
          List.forall_mem_singleton, inside_printout_iff, hpassed, false_imp_iff, and_true]
        exact ⟨trivial, hrc⟩

theorem dumpConnectionsPerTennat_spec (pending : Cpu → List CbnQp) (loc : BitVec 32)
    (cpus : List Cpu) :
    let result := dumpConnectionsPerTennat user buff pending loc cpus
    let lines := cpus.map fun cpu => (pending cpu).map (Line.qp cpu)
    ((∀ event ∈ result.1, Inside buff len event) ↔ CpusFit user buff len loc lines) ∧
      result.2 = cpusEnd user buff loc lines := by
  induction cpus generalizing loc with
  | nil => exact ⟨iff_of_true (fun _ hmem => by cases hmem) trivial, rfl⟩
  | cons cpu cpus ih =>
      obtain ⟨hlines, hrc⟩ := dumpPendingConnections_spec user buff len cpu loc (pending cpu)
      obtain ⟨hcpus, hend⟩ :=
        ih (loc + (dumpPendingConnections user buff cpu loc (pending cpu)).2)
      by_cases hneg : (dumpPendingConnections user buff cpu loc (pending cpu)).2.toInt < 0
      · simp only [dumpConnectionsPerTennat, if_pos hneg, List.map_cons, CpusFit, cpusEnd,
          ← hrc, not_le.mpr hneg, false_imp_iff, and_true, if_false]
        exact hlines
      · simp only [dumpConnectionsPerTennat, if_neg hneg, List.map_cons, CpusFit, cpusEnd,
          ← hrc, not_lt.mp hneg, true_imp_iff, if_true, List.forall_mem_append]
        exact ⟨and_congr hlines hcpus, hend⟩

theorem dumpListners_spec (conns : Connections) (width : BitVec 32)
    (listners : List CbnListner) :
    (∀ event ∈ (dumpListners user buff conns width listners).1, Inside buff len event) ↔
      ListnersFit user buff len conns width listners := by
  induction listners generalizing width with
  | nil => exact iff_of_true (fun _ hmem => by cases hmem) trivial
  | cons listner rest ih =>
      by_cases hpassed : Passed user buff width (.heading listner)
      · obtain ⟨hcpus, hrc⟩ := dumpConnectionsPerTennat_spec user buff len
          (fun cpu => inorder (conns.connectionsRoot listner cpu))
          (behind width (.heading listner)) conns.onlineCpus
        simp only [dumpListners, printout_of_passed hpassed, ne_eq, not_true_eq_false, if_false,
          ListnersFit, hpassed, true_imp_iff]
        rw [← inside_printout_iff user len width, Connections.cpuLines, ← hrc, ← hcpus]
        split
        · next hneg =>
            rw [List.forall_mem_cons]
            refine and_congr_right fun _ => (and_iff_left fun hpos => ?_).symm
            exact absurd hneg (not_lt.mpr hpos)
        · next hneg =>
            rw [List.cons_append, List.forall_mem_cons, List.forall_mem_append]
            refine and_congr_right fun _ => and_congr_right fun _ => ?_
            exact (ih _).trans ⟨fun hfit _ => hfit, fun hfit => hfit (not_lt.mp hneg)⟩
      · obtain ⟨hrc, hne⟩ := printout_of_not_passed hpassed
        simp only [dumpListners, if_pos hne, ListnersFit, List.forall_mem_singleton,
          inside_printout_iff, hpassed, false_imp_iff, and_true]

/-! ## The dump -/

theorem dumpConnections_spec (conns : Connections) :
    (∀ event ∈ (dumpConnections user buff conns len).1, Inside buff len event) ↔
      DumpFits user buff len conns := by
  by_cases hpassed : Passed user buff 0 .banner
  · simp only [dumpConnections, printout_of_passed hpassed, ne_eq, not_true_eq_false, if_false,
      DumpFits, List.forall_mem_cons, inside_printout_iff, hpassed, true_imp_iff]
    exact and_congr_right fun _ => dumpListners_spec user buff len conns _ _
  · obtain ⟨hrc, hne⟩ := printout_of_not_passed hpassed
    simp only [dumpConnections, if_pos hne, DumpFits, List.forall_mem_singleton,
      inside_printout_iff, hpassed, false_imp_iff, and_true]

theorem dumpListners_cons (conns : Connections) (width : BitVec 32) (listner : CbnListner)
    (rest : List CbnListner) :
    ∃ events, (dumpListners user buff conns width (listner :: rest)).1 =
      (printout user (at_ buff width) (.heading listner)).1 :: events := by
  simp only [dumpListners]
  split
  · exact ⟨_, rfl⟩
  · split <;> exact ⟨_, rfl⟩

/-- Without a buffer the heading of the first listener goes to address 57. -/
theorem dump_traced_iff (conns : Connections) :
    (∀ event ∈ (dumpConnections user 0 conns len).1, Traced event) ↔
      inorder conns.listnerRoot = [] := by
  have hbanner : Passed user 0 0 .banner := Or.inl rfl
  have hprintout : (printout user (at_ 0 0) .banner).1 = .trace banner := rfl
  simp only [dumpConnections, printout_of_passed hbanner, ne_eq, not_true_eq_false, if_false,
    List.forall_mem_cons, hprintout]
  cases hlistners : inorder conns.listnerRoot with
  | nil => exact iff_of_true ⟨trivial, fun _ hmem => by cases hmem⟩ rfl
  | cons listner rest =>
      refine iff_of_false ?_ (List.cons_ne_nil _ _)
      rintro ⟨-, htraced⟩
      have hcopied : (printout user (at_ 0 (BitVec.ofNat 32 banner.length))
          (.heading listner)).1 = .copyToUser 57 (heading listner) := by
        rw [printout]
        rw [if_pos (by decide)]
        exact congrArg (Event.copyToUser · _) (by decide)
      obtain ⟨events, hevents⟩ := dumpListners_cons user 0 conns
        (BitVec.ofNat 32 banner.length) listner rest
      rw [hevents, List.forall_mem_cons, hcopied] at htraced
      exact htraced.1

/-! ## The room that listeners and CPUs take -/

/-- The position behind CPUs whose lines have so many bytes: the start is doubled for each
of them, and the bytes of a CPU for each that follows. -/
def behindCpus (start : ℕ) (lengths : List ℕ) : ℕ :=
  2 ^ lengths.length * start + Nat.ofDigits 2 lengths.reverse

/-- The position behind listeners: each adds its heading, and the position behind its
CPUs. -/
def behindListners (conns : Connections) (width : ℕ) (listners : List CbnListner) : ℕ :=
  listners.foldl (fun width listner =>
    let start := width + (heading listner).length
    start + behindCpus start ((conns.cpuLines listner).map bytes)) width

/-- The lines of every CPU end within `room` bytes. -/
def CpusWithin (room start : ℕ) (cpus : List (List Line)) : Prop :=
  ∀ front lines back, cpus = front ++ lines :: back → lines ≠ [] →
    behindCpus start (front.map bytes) + bytes lines ≤ room

/-- The heading of every listener ends within `room` bytes, and so do its CPUs. -/
def ListnersWithin (conns : Connections) (room width : ℕ) (listners : List CbnListner) : Prop :=
  ∀ front listner back, listners = front ++ listner :: back →
    let start := behindListners conns width front + (heading listner).length
    start ≤ room ∧ CpusWithin room start (conns.cpuLines listner)

/-- All lines end within the buffer, and at positions that are not negative as an `int`. -/
def Fits (conns : Connections) (len : ℕ) : Prop :=
  banner.length ≤ len ∧
    ListnersWithin conns (min len (2 ^ 31 - 1)) banner.length (inorder conns.listnerRoot)

@[simp]
theorem behindCpus_nil (start : ℕ) : behindCpus start [] = start := by simp [behindCpus]

@[simp]
theorem behindCpus_cons (start length : ℕ) (lengths : List ℕ) :
    behindCpus start (length :: lengths) = behindCpus (2 * start + length) lengths := by
  rw [behindCpus, behindCpus, List.reverse_cons, Nat.ofDigits_append, Nat.ofDigits_singleton,
    List.length_reverse, List.length_cons, pow_succ]
  ring

theorem le_behindCpus (start : ℕ) (lengths : List ℕ) : start ≤ behindCpus start lengths := by
  induction lengths generalizing start with
  | nil => rw [behindCpus_nil]
  | cons length lengths ih =>
      have hrest := ih (2 * start + length)
      rw [behindCpus_cons]
      omega

theorem le_behindListners (conns : Connections) (width : ℕ) (listners : List CbnListner) :
    width ≤ behindListners conns width listners := by
  induction listners generalizing width with
  | nil => exact le_rfl
  | cons listner listners ih =>
      rw [behindListners, List.foldl_cons, ← behindListners]
      refine le_trans ?_ (ih _)
      dsimp only
      omega

theorem cpusWithin_nil {room start : ℕ} : CpusWithin room start [] := by
  intro front lines back heq
  cases front <;> cases heq

theorem cpusWithin_cons {room start : ℕ} {lines : List Line} {cpus : List (List Line)} :
    CpusWithin room start (lines :: cpus) ↔
      (lines ≠ [] → start + bytes lines ≤ room) ∧
        CpusWithin room (2 * start + bytes lines) cpus := by
  constructor
  · intro hwithin
    constructor
    · simpa using hwithin [] lines cpus rfl
    · intro front lines' back heq
      simpa using hwithin (lines :: front) lines' back (congrArg (lines :: ·) heq)
  · rintro ⟨hfirst, hrest⟩ front lines' back heq
    cases front with
    | nil =>
        cases heq
        simpa using hfirst
    | cons first front =>
        obtain ⟨rfl, heq'⟩ := List.cons.inj heq
        simpa using hrest front lines' back heq'

theorem listnersWithin_nil {conns : Connections} {room width : ℕ} :
    ListnersWithin conns room width [] := by
  intro front listner back heq
  cases front <;> cases heq

theorem listnersWithin_cons {conns : Connections} {room width : ℕ} {listner : CbnListner}
    {listners : List CbnListner} :
    ListnersWithin conns room width (listner :: listners) ↔
      (width + (heading listner).length ≤ room ∧
        CpusWithin room (width + (heading listner).length) (conns.cpuLines listner)) ∧
        ListnersWithin conns room (behindListners conns width [listner]) listners := by
  constructor
  · exact fun hwithin => ⟨hwithin [] listner listners rfl, fun front listner' back heq =>
      hwithin (listner :: front) listner' back (congrArg (listner :: ·) heq)⟩
  · rintro ⟨hfirst, hrest⟩ front listner' back heq
    cases front with
    | nil =>
        cases heq
        exact hfirst
    | cons first front =>
        obtain ⟨rfl, heq'⟩ := List.cons.inj heq
        exact hrest front listner' back heq'

/-! ### The room is enough -/

theorem toNat_add_le (loc rc : BitVec 32) : (loc + rc).toNat ≤ loc.toNat + rc.toNat := by
  rw [BitVec.toNat_add]
  exact Nat.mod_le _ _

theorem toNat_behind_le (loc : BitVec 32) (line : Line) :
    (behind loc line).toNat ≤ loc.toNat + line.str.length := by
  refine (toNat_add_le _ _).trans (Nat.add_le_add_left ?_ _)
  rw [BitVec.toNat_ofNat]
  exact Nat.mod_le _ _

theorem toNat_signExtend_of_lt {loc : BitVec 32} (hloc : loc.toNat < 2 ^ 31) :
    (loc.signExtend 64).toNat = loc.toNat := by
  rw [BitVec.signExtend_eq_setWidth_of_msb_false, BitVec.toNat_setWidth,
    Nat.mod_eq_of_lt (by omega)]
  rw [BitVec.msb_eq_decide]
  exact decide_eq_false (by omega)

theorem room_of_le {loc : BitVec 32} {line : Line} {start room : ℕ} (hloc : loc.toNat ≤ start)
    (hend : start + line.str.length ≤ min room (2 ^ 31 - 1)) : Room buff room loc line := by
  right
  rw [toNat_signExtend_of_lt (by omega)]
  omega

/-- A copy that fails leaves the position below the one behind the line. -/
theorem toNat_notCopied_le (line : Line) :
    (BitVec.ofNat 32 (user.notCopied line)).toNat ≤ line.str.length := by
  rw [BitVec.toNat_ofNat]
  exact (Nat.mod_le _ _).trans (user.notCopied_le line)

theorem linesFit_of_le {lines : List Line} {loc : BitVec 32} {start : ℕ}
    (hloc : loc.toNat ≤ start) (hend : start + bytes lines ≤ min len (2 ^ 31 - 1)) :
    LinesFit user buff len loc lines := by
  induction lines generalizing loc start with
  | nil => trivial
  | cons line lines ih =>
      rw [bytes_cons] at hend
      have hbehind : (behind loc line).toNat ≤ start + line.str.length :=
        (toNat_behind_le loc line).trans (Nat.add_le_add_right hloc _)
      exact ⟨room_of_le buff hloc (by omega), fun _ => ih hbehind (by omega)⟩

theorem linesEnd_le (lines : List Line) {loc : BitVec 32} {start : ℕ}
    (hloc : loc.toNat ≤ start) : (linesEnd user buff loc lines).toNat ≤ start + bytes lines := by
  induction lines generalizing loc start with
  | nil => exact hloc
  | cons line lines ih =>
      rw [linesEnd, bytes_cons]
      split
      · have hrest := ih ((toNat_behind_le loc line).trans (Nat.add_le_add_right hloc _))
        omega
      · have hleft := toNat_notCopied_le user line
        omega

theorem cpusFit_of_within {cpus : List (List Line)} {loc : BitVec 32} {start : ℕ}
    (hloc : loc.toNat ≤ start) (hwithin : CpusWithin (min len (2 ^ 31 - 1)) start cpus) :
    CpusFit user buff len loc cpus := by
  induction cpus generalizing loc start with
  | nil => trivial
  | cons lines cpus ih =>
      obtain ⟨hfirst, hrest⟩ := cpusWithin_cons.mp hwithin
      have hend := linesEnd_le user buff lines hloc
      have hadd := toNat_add_le loc (linesEnd user buff loc lines)
      refine ⟨?_, fun _ => ih (by omega) hrest⟩
      cases lines with
      | nil => trivial
      | cons line lines => exact linesFit_of_le user buff len hloc (hfirst (List.cons_ne_nil _ _))

theorem cpusEnd_le (cpus : List (List Line)) {loc : BitVec 32} {start : ℕ}
    (hloc : loc.toNat ≤ start) :
    (cpusEnd user buff loc cpus).toNat ≤ behindCpus start (cpus.map bytes) := by
  induction cpus generalizing loc start with
  | nil => simpa [cpusEnd] using hloc
  | cons lines cpus ih =>
      have hend := linesEnd_le user buff lines hloc
      have hadd := toNat_add_le loc (linesEnd user buff loc lines)
      rw [cpusEnd, List.map_cons, behindCpus_cons]
      split
      · exact ih (by omega)
      · have hle := le_behindCpus (2 * start + bytes lines) (cpus.map bytes)
        omega

theorem listnersFit_of_within {conns : Connections} {listners : List CbnListner}
    {width : BitVec 32} {start : ℕ} (hwidth : width.toNat ≤ start)
    (hwithin : ListnersWithin conns (min len (2 ^ 31 - 1)) start listners) :
    ListnersFit user buff len conns width listners := by
  induction listners generalizing width start with
  | nil => trivial
  | cons listner listners ih =>
      obtain ⟨⟨hheading, hcpus⟩, hrest⟩ := listnersWithin_cons.mp hwithin
      have hstart : (behind width (.heading listner)).toNat ≤
          start + (heading listner).length :=
        (toNat_behind_le width (.heading listner)).trans (Nat.add_le_add_right hwidth _)
      refine ⟨room_of_le buff hwidth hheading,
        fun _ => ⟨cpusFit_of_within user buff len hstart hcpus, fun _ => ih ?_ hrest⟩⟩
      have hend := cpusEnd_le user buff (conns.cpuLines listner) hstart
      refine (toNat_add_le _ _).trans ?_
      rw [behindListners, List.foldl_cons, List.foldl_nil]
      dsimp only
      omega

theorem dumpFits_of_fits {conns : Connections} (hfits : Fits conns len) :
    DumpFits user buff len conns := by
  have hstart : (behind 0 .banner).toNat ≤ banner.length := by
    simpa [Line.str] using toNat_behind_le 0 .banner
  refine ⟨.inr ?_, fun _ => listnersFit_of_within user buff len hstart hfits.2⟩
  have hzero : ((0 : BitVec 32).signExtend 64).toNat = 0 := by decide
  rw [hzero, Nat.zero_add]
  exact hfits.1

/-! ### The room is needed -/

/-- A buffer in the lower half of the addresses; no position that is not negative leads from
there to the null pointer. -/
theorem at_ne_zero {loc : BitVec 32} (hbuff : buff ≠ 0) (hlower : buff.toNat < 2 ^ 63)
    (hloc : loc.toNat < 2 ^ 31) : at_ buff loc ≠ 0 := by
  intro hnull
  have hpos := BitVec.toNat_pos_of_ne_zero hbuff
  have hnat := congrArg BitVec.toNat hnull
  rw [at_, BitVec.toNat_add, toNat_signExtend_of_lt hloc, Nat.mod_eq_of_lt (by omega)] at hnat
  have hzero : (0 : Addr).toNat = 0 := rfl
  omega

theorem passed_writable (loc : BitVec 32) (line : Line) : Passed .writable buff loc line :=
  .inr rfl

theorem toNat_behind {loc : BitVec 32} {line : Line}
    (hend : loc.toNat + line.str.length < 2 ^ 32) :
    (behind loc line).toNat = loc.toNat + line.str.length := by
  rw [behind, BitVec.toNat_add, BitVec.toNat_ofNat, Nat.add_mod_mod, Nat.mod_eq_of_lt hend]

section Writable

variable {user buff len} (hbuff : buff ≠ 0) (hlower : buff.toNat < 2 ^ 63)
include hbuff hlower

theorem le_of_room {loc : BitVec 32} {line : Line} (hloc : loc.toNat < 2 ^ 31)
    (hroom : Room buff len loc line) : loc.toNat + line.str.length ≤ len := by
  have hin := hroom.resolve_left (at_ne_zero buff hbuff hlower hloc)
  rwa [toNat_signExtend_of_lt hloc] at hin

theorem le_of_linesFit {lines : List Line} {loc : BitVec 32} (hne : lines ≠ [])
    (hend : loc.toNat + bytes lines < 2 ^ 31)
    (hfit : LinesFit .writable buff len loc lines) : loc.toNat + bytes lines ≤ len := by
  induction lines generalizing loc with
  | nil => exact absurd rfl hne
  | cons line lines ih =>
      rw [bytes_cons] at hend ⊢
      have hbehind : (behind loc line).toNat = loc.toNat + line.str.length :=
        toNat_behind (by omega)
      obtain ⟨hroom, hrest⟩ := hfit
      cases lines with
      | nil => exact le_of_room hbuff hlower (by omega) hroom
      | cons next lines =>
          have hle := ih (List.cons_ne_nil _ _) (by omega) (hrest (passed_writable buff _ _))
          omega

omit hbuff hlower in
theorem toNat_linesEnd {lines : List Line} {loc : BitVec 32}
    (hend : loc.toNat + bytes lines < 2 ^ 31) :
    (linesEnd .writable buff loc lines).toNat = loc.toNat + bytes lines := by
  induction lines generalizing loc with
  | nil => rfl
  | cons line lines ih =>
      rw [bytes_cons] at hend ⊢
      have hbehind : (behind loc line).toNat = loc.toNat + line.str.length :=
        toNat_behind (by omega)
      rw [linesEnd, if_pos (passed_writable buff _ _), ih (by omega), hbehind, Nat.add_assoc]

theorem cpusWithin_of_fit {cpus : List (List Line)} {loc : BitVec 32}
    (hend : behindCpus loc.toNat (cpus.map bytes) < 2 ^ 31)
    (hfit : CpusFit .writable buff len loc cpus) :
    CpusWithin (min len (2 ^ 31 - 1)) loc.toNat cpus ∧
      (cpusEnd .writable buff loc cpus).toNat = behindCpus loc.toNat (cpus.map bytes) := by
  induction cpus generalizing loc with
  | nil => exact ⟨cpusWithin_nil, by simp [cpusEnd]⟩
  | cons lines cpus ih =>
      rw [List.map_cons, behindCpus_cons] at hend ⊢
      have hle := le_behindCpus (2 * loc.toNat + bytes lines) (cpus.map bytes)
      have hlines : (linesEnd .writable buff loc lines).toNat = loc.toNat + bytes lines :=
        toNat_linesEnd (by omega)
      have hnonneg : 0 ≤ (linesEnd .writable buff loc lines).toInt :=
        not_lt.mp ((not_neg_iff _).mpr (by omega))
      have hnext : (loc + linesEnd .writable buff loc lines).toNat =
          2 * loc.toNat + bytes lines := by
        rw [BitVec.toNat_add, Nat.mod_eq_of_lt (by omega)]
        omega
      obtain ⟨hfirst, hrest⟩ := hfit
      obtain ⟨hwithin, hbehind⟩ := ih (hnext ▸ hend) (hrest hnonneg)
      rw [hnext] at hwithin hbehind
      refine ⟨cpusWithin_cons.mpr ⟨fun hne => le_min ?_ (by omega), hwithin⟩, ?_⟩
      · exact le_of_linesFit hbuff hlower hne (by omega) hfirst
      · rw [cpusEnd, if_pos hnonneg]
        exact hbehind

theorem listnersWithin_of_fit {conns : Connections} {listners : List CbnListner}
    {width : BitVec 32} (hend : behindListners conns width.toNat listners < 2 ^ 31)
    (hfit : ListnersFit .writable buff len conns width listners) :
    ListnersWithin conns (min len (2 ^ 31 - 1)) width.toNat listners := by
  induction listners generalizing width with
  | nil => exact listnersWithin_nil
  | cons listner listners ih =>
      have hnext : behindListners conns width.toNat [listner] =
          width.toNat + (heading listner).length + behindCpus
            (width.toNat + (heading listner).length) ((conns.cpuLines listner).map bytes) := rfl
      have hle := le_behindListners conns (behindListners conns width.toNat [listner]) listners
      have hcpus := le_behindCpus (width.toNat + (heading listner).length)
        ((conns.cpuLines listner).map bytes)
      change behindListners conns (behindListners conns width.toNat [listner]) listners < _ at hend
      have hbehind : (behind width (.heading listner)).toNat =
          width.toNat + (heading listner).length := toNat_behind (by
        change width.toNat + (heading listner).length < 2 ^ 32
        omega)
      obtain ⟨hroom, hpassed⟩ := hfit
      obtain ⟨hcpusFit, hrest⟩ := hpassed (passed_writable buff _ _)
      obtain ⟨hwithin, hcpusEnd⟩ :=
        cpusWithin_of_fit hbuff hlower (by rw [hbehind]; omega) hcpusFit
      rw [hbehind] at hwithin hcpusEnd
      have hnonneg := not_lt.mp ((not_neg_iff (cpusEnd .writable buff
        (behind width (.heading listner)) (conns.cpuLines listner))).mpr (by omega))
      have hwidth : (behind width (.heading listner) + cpusEnd .writable buff
          (behind width (.heading listner)) (conns.cpuLines listner)).toNat =
            behindListners conns width.toNat [listner] := by
        rw [BitVec.toNat_add, hbehind, hcpusEnd, hnext, Nat.mod_eq_of_lt (by omega)]
      refine listnersWithin_cons.mpr ⟨⟨le_min ?_ (by omega), hwithin⟩, ?_⟩
      · exact le_of_room hbuff hlower (by omega) hroom
      · rw [← hwidth] at hend ⊢
        exact ih hend (hrest hnonneg)

theorem fits_of_dumpFits {conns : Connections}
    (hend : behindListners conns banner.length (inorder conns.listnerRoot) < 2 ^ 31)
    (hfits : DumpFits .writable buff len conns) : Fits conns len := by
  have hbehind : (behind 0 .banner).toNat = banner.length := by decide
  have hbanner := le_of_room hbuff hlower (by decide) hfits.1
  refine ⟨by simpa [Line.str] using hbanner, ?_⟩
  rw [← hbehind] at hend ⊢
  exact listnersWithin_of_fit hbuff hlower hend (hfits.2 (passed_writable buff _ _))

end Writable

/-- There is neither a buffer nor a listener, or the buffer has room for all lines where they
stand. -/
def Roomy (conns : Connections) : Prop :=
  (buff = 0 ∧ inorder conns.listnerRoot = []) ∨ (buff ≠ 0 ∧ Fits conns len)

/-- The room is enough whatever the copies return, and as long as the positions do not
overflow an `int` it is needed. -/
theorem dump_bounded_when_roomy (conns : Connections) :
    (Roomy buff len conns → ∀ user, Bounded buff len (dumpConnections user buff conns len).1) ∧
      (buff.toNat < 2 ^ 63 →
        behindListners conns banner.length (inorder conns.listnerRoot) < 2 ^ 31 →
        Bounded buff len (dumpConnections .writable buff conns len).1 →
        Roomy buff len conns) := by
  simp only [Bounded]
  by_cases hnull : buff = 0
  · subst hnull
    simp only [if_true, dump_traced_iff, Roomy, ne_eq, not_true_eq_false, false_and, or_false,
      true_and]
    exact ⟨fun hnone _ => hnone, fun _ _ hnone => hnone⟩
  · simp only [dumpConnections_spec, Roomy, ne_eq, hnull, not_false_eq_true,
      false_and, false_or, true_and]
    exact ⟨fun hfits user => dumpFits_of_fits user buff len hfits,
      fun hlower hend hfits => fits_of_dumpFits hnull hlower hend hfits⟩

/-- One listener without a pending QP, and a buffer of 106 bytes. -/
theorem dump_bounded_when_roomy_listner :
    Bounded 4096 106 (dumpConnections .writable 4096
      ⟨.node ⟨1, 7⟩ .nil .nil, [0], fun _ _ => .nil⟩ 106).1 := by
  refine (dump_bounded_when_roomy 4096 106 _).1 (.inr ⟨by decide, by decide, ?_⟩) .writable
  refine listnersWithin_cons.mpr ⟨⟨by decide, ?_⟩, listnersWithin_nil⟩
  exact cpusWithin_cons.mpr ⟨fun hne => absurd rfl hne, cpusWithin_nil⟩

/-- One listener: `trace_connections` copies its heading to address 57, and a read of 64
bytes gets 106. -/
theorem dump_leaves_buffer :
    let conns : Connections := ⟨.node ⟨1, 7⟩ .nil .nil, [0], fun _ _ => .nil⟩
    (dumpConnections .writable 0 conns (2 ^ 32 - 1)).1 =
        [.trace banner, .copyToUser 57 (heading ⟨1, 7⟩)] ∧
      ¬Bounded 0 (2 ^ 32 - 1) (dumpConnections .writable 0 conns (2 ^ 32 - 1)).1 ∧
      ¬Bounded 4096 64 (dumpConnections .writable 4096 conns 64).1 := by
  decide

end KtcpSplit.Dump
