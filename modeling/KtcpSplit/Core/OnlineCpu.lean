import KtcpSplit.Core.QpCpu
import Mathlib.Data.Fintype.Card

/-!
# The CPU where two workers meet

`qp2cpu` reduces the hash of a key by the number of online CPUs, and its callers take
the remainder for the number of a CPU.
-/

namespace KtcpSplit.OnlineCpu

open KtcpSplit.ConnKey
open KtcpSplit.QpCpu

variable {nrCpuIds : BitVec 32}

/-- `cpu_online_mask`: CPUs have numbers below `nr_cpu_ids`. -/
abbrev CpuMask (nrCpuIds : BitVec 32) := Finset (Fin nrCpuIds.toNat)

def numOnlineCpus (online : CpuMask nrCpuIds) : BitVec 32 := BitVec.ofNat 32 online.card

/-- The number is that of an online CPU. -/
def Online (online : CpuMask nrCpuIds) (cpu : BitVec 32) : Prop :=
  ∃ number ∈ online, number.val = cpu.toNat

instance decidableOnline (online : CpuMask nrCpuIds) (cpu : BitVec 32) :
    Decidable (Online online cpu) :=
  inferInstanceAs (Decidable (∃ number ∈ online, _))

/-- What the kernel does with the mask of one CPU that is online: `sched_setaffinity`
moves the caller there, and a thread that is bound to it wakes up there. -/
structure Kernel (online : CpuMask nrCpuIds) where
  schedSetaffinity : BitVec 32 → Option (BitVec 32)
  wakeBound : BitVec 32 → BitVec 32
  schedSetaffinity_online : ∀ cpu, Online online cpu → schedSetaffinity cpu = some cpu
  wakeBound_online : ∀ cpu, Online online cpu → wakeBound cpu = cpu

/-- Where `start_new_connection` goes on, if `sched_setaffinity` succeeds. -/
def startNewConnectionCpu {online : CpuMask nrCpuIds} (kernel : Kernel online)
    (addr cliAddr : SockaddrIn) : Option (BitVec 32) :=
  kernel.schedSetaffinity (qp2cpu (numOnlineCpus online) (acceptedTuple addr cliAddr))

/-- Where the thread starts that `kthread_pool_run_cpu` binds to `addresses2cpu`. -/
def kthreadPoolRunCpu {online : CpuMask nrCpuIds} (kernel : Kernel online)
    (addresses : Addresses) : BitVec 32 :=
  kernel.wakeBound (addresses2cpu (numOnlineCpus online) addresses)

/-! ## The hash -/

def xorBytes (bytes : List Byte) : BitVec 8 :=
  bytes.foldl (fun acc byte => acc ^^^ BitVec.ofFin (w := 8) byte) 0

/-- Sign extension goes through the exclusive or. -/
theorem foldl_xorChar (bytes : List Byte) (acc : BitVec 8) :
    bytes.foldl xorChar (acc.signExtend 32) =
      (bytes.foldl (fun acc byte => acc ^^^ BitVec.ofFin (w := 8) byte) acc).signExtend 32 := by
  induction bytes generalizing acc with
  | nil => rfl
  | cons byte bytes ih =>
      rw [List.foldl_cons, List.foldl_cons, ← ih, xorChar, BitVec.signExtend_xor]

theorem foldl_xorChar_key (qp : Tuple) :
    qp.key.foldl xorChar 0 = (xorBytes qp.key).signExtend 32 :=
  foldl_xorChar qp.key 0

theorem exists_xorBytes (byte : BitVec 8) : ∃ qp : Tuple, xorBytes qp.key = byte := by
  refine ⟨⟨⟨byte.toFin, 0⟩, ⟨0, 0⟩, ⟨0, 0, 0, 0⟩, ⟨0, 0, 0, 0⟩⟩, ?_⟩
  simp [xorBytes, Tuple.key, Be16.bytes, Be32.bytes]

theorem toNat_qp2cpu (n : BitVec 32) (qp : Tuple) :
    (qp2cpu n qp).toNat = ((xorBytes qp.key).signExtend 32).toNat % n.toNat := by
  rw [qp2cpu, foldl_xorChar_key]
  generalize (xorBytes qp.key).signExtend 32 = core
  have hle : core.toNat / n.toNat * n.toNat ≤ core.toNat := Nat.div_mul_le_self ..
  have hproduct : (core / n * n).toNat = core.toNat / n.toNat * n.toNat := by
    rw [BitVec.toNat_mul, BitVec.toNat_udiv, Nat.mod_eq_of_lt (hle.trans_lt core.isLt)]
  rw [BitVec.toNat_sub_of_le (BitVec.le_def.mpr (hproduct ▸ hle)), hproduct,
    Nat.mod_eq_sub_div_mul]

theorem toNat_numOnlineCpus (online : CpuMask nrCpuIds) :
    (numOnlineCpus online).toNat = online.card := by
  have hle := online.card_le_univ
  rw [Fintype.card_fin] at hle
  rw [numOnlineCpus, BitVec.toNat_ofNat, Nat.mod_eq_of_lt (hle.trans_lt nrCpuIds.isLt)]

/-! ## Which sets of CPUs are safe -/

/-- The remainder of every hash, a sign-extended byte, is the number of an online CPU. -/
def RemaindersOnline (online : CpuMask nrCpuIds) : Prop :=
  ∀ byte : BitVec 8, ∃ number ∈ online,
    number.val = (byte.signExtend 32).toNat % online.card

theorem online_qp2cpu_iff (online : CpuMask nrCpuIds) (qp : Tuple) :
    Online online (qp2cpu (numOnlineCpus online) qp) ↔ ∃ number ∈ online,
      number.val = ((xorBytes qp.key).signExtend 32).toNat % online.card := by
  rw [Online, toNat_qp2cpu, toNat_numOnlineCpus]

theorem forall_qp2cpu_iff (online : CpuMask nrCpuIds) :
    (∀ qp, Online online (qp2cpu (numOnlineCpus online) qp)) ↔ RemaindersOnline online := by
  constructor
  · intro honline byte
    obtain ⟨qp, rfl⟩ := exists_xorBytes byte
    exact (online_qp2cpu_iff online qp).mp (honline qp)
  · intro hremainders qp
    exact (online_qp2cpu_iff online qp).mpr (hremainders _)

/-- Every key is that of some address record. -/
theorem exists_addresses (qp : Tuple) : ∃ addr : Addresses, addr.tuple = qp :=
  ⟨⟨⟨qp.portD, qp.addrD⟩, ⟨qp.portS, qp.addrS⟩, qp.addrD, 0⟩, rfl⟩

theorem forall_addresses2cpu_iff (online : CpuMask nrCpuIds) :
    (∀ addr, Online online (addresses2cpu (numOnlineCpus online) addr)) ↔
      RemaindersOnline online := by
  rw [← forall_qp2cpu_iff]
  constructor
  · intro honline qp
    obtain ⟨addr, rfl⟩ := exists_addresses qp
    exact honline addr
  · exact fun honline addr => honline addr.tuple

theorem toNat_signExtend_of_lt {k : ℕ} (hlt : k < 128) :
    ((BitVec.ofNat 8 k).signExtend 32).toNat = k := by
  have hbyte : (BitVec.ofNat 8 k).toNat = k := by
    rw [BitVec.toNat_ofNat, Nat.mod_eq_of_lt (by omega)]
  have hmsb : (BitVec.ofNat 8 k).msb = false := by
    rw [BitVec.msb_eq_false_iff_two_mul_lt, hbyte]
    omega
  rw [BitVec.signExtend_eq_setWidth_of_msb_false hmsb, BitVec.toNat_setWidth, hbyte,
    Nat.mod_eq_of_lt (by omega)]

/-- Up to 128 CPUs every number below their count is a remainder. -/
theorem remaindersOnline_iff (online : CpuMask nrCpuIds) (hne : online.Nonempty)
    (hcard : online.card ≤ 128) :
    RemaindersOnline online ↔ ∀ number, number ∈ online ↔ number.val < online.card := by
  have hpos := Finset.card_pos.mpr hne
  constructor
  · intro hremainders
    have hsubset : Finset.range online.card ⊆ online.image Fin.val := by
      intro k hk
      have hlt := Finset.mem_range.mp hk
      obtain ⟨number, hmem, hval⟩ := hremainders (BitVec.ofNat 8 k)
      rw [toNat_signExtend_of_lt (by omega), Nat.mod_eq_of_lt hlt] at hval
      exact Finset.mem_image.mpr ⟨number, hmem, hval⟩
    have himage : Finset.range online.card = online.image Fin.val :=
      Finset.eq_of_subset_of_card_le hsubset (by
        rw [Finset.card_range]
        exact Finset.card_image_le)
    intro number
    rw [← Finset.mem_range, himage, Finset.mem_image]
    constructor
    · exact fun hmem => ⟨number, hmem, rfl⟩
    · rintro ⟨number', hmem, hval⟩
      rw [← Fin.val_inj.mp hval]
      exact hmem
  · intro hcontiguous byte
    have hlt := Nat.mod_lt (byte.signExtend 32).toNat hpos
    have hle := online.card_le_univ
    rw [Fintype.card_fin] at hle
    exact ⟨⟨_, hlt.trans_le hle⟩, (hcontiguous _).mpr hlt, rfl⟩

/-- The CPU that is computed from a key is online for all keys exactly when the remainders of
the hashes are; with at most 128 online CPUs, when they are the first ones.  Then both workers
of a connection run on that CPU. -/
theorem rendezvous_cpu_online_iff (online : CpuMask nrCpuIds) (hne : online.Nonempty) :
    ((∀ qp, Online online (qp2cpu (numOnlineCpus online) qp)) ↔ RemaindersOnline online) ∧
      ((∀ addr, Online online (addresses2cpu (numOnlineCpus online) addr)) ↔
        RemaindersOnline online) ∧
      (online.card ≤ 128 → (RemaindersOnline online ↔
        ∀ number, number ∈ online ↔ number.val < online.card)) ∧
      (RemaindersOnline online → ∀ (kernel : Kernel online) (addresses : Addresses)
        (addr cliAddr : SockaddrIn), acceptedTuple addr cliAddr = addresses.tuple →
          Online online (kthreadPoolRunCpu kernel addresses) ∧
            startNewConnectionCpu kernel addr cliAddr =
              some (kthreadPoolRunCpu kernel addresses)) := by
  refine ⟨forall_qp2cpu_iff online, forall_addresses2cpu_iff online,
    remaindersOnline_iff online hne, ?_⟩
  intro hremainders kernel addresses addr cliAddr hsame
  have honline := (forall_addresses2cpu_iff online).mpr hremainders addresses
  have hbound := kernel.wakeBound_online _ honline
  rw [kthreadPoolRunCpu, hbound]
  refine ⟨honline, ?_⟩
  rw [startNewConnectionCpu, hsame]
  exact kernel.schedSetaffinity_online _ honline

/-- Two of four CPUs are online, with a kernel that refuses other masks and wakes threads on
the first CPU instead. -/
theorem rendezvous_cpu_online_iff_two :
    let online : CpuMask 4 := Finset.univ.filter fun number => number.val < 2
    ∃ kernel : Kernel online, ∀ (addresses : Addresses) (addr cliAddr : SockaddrIn),
      acceptedTuple addr cliAddr = addresses.tuple →
        startNewConnectionCpu kernel addr cliAddr =
          some (kthreadPoolRunCpu kernel addresses) := by
  intro online
  let kernel : Kernel online := {
    schedSetaffinity := fun cpu => if Online online cpu then some cpu else none
    wakeBound := fun cpu => if Online online cpu then cpu else 0
    schedSetaffinity_online := fun _ honline => if_pos honline
    wakeBound_online := fun _ honline => if_pos honline }
  obtain ⟨-, -, hcontiguous, hworkers⟩ := rendezvous_cpu_online_iff online (by decide)
  have hremainders : RemaindersOnline online := (hcontiguous (by decide)).mpr (by decide)
  exact ⟨kernel, fun addresses addr cliAddr hsame =>
    (hworkers hremainders kernel addresses addr cliAddr hsame).2⟩

/-- The CPUs 0 and 2 are online, and the hash of the key is 1. -/
theorem cpu_offline :
    ¬∀ (online : CpuMask 4), online.Nonempty →
      ∀ qp, Online online (qp2cpu (numOnlineCpus online) qp) := by
  intro honline
  have hone := honline (Finset.univ.filter fun number => number.val = 0 ∨ number.val = 2)
    (by decide) ⟨⟨1, 0⟩, ⟨0, 0⟩, ⟨0, 0, 0, 0⟩, ⟨0, 0, 0, 0⟩⟩
  exact absurd hone (by decide)

end KtcpSplit.OnlineCpu
