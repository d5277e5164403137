import KtcpSplit.Lib.Bag
import Mathlib.Data.BitVec

/-!
# The magazine allocator

A magazine is a stack of four pointers.  Every CPU has two pairs of magazines,
one for tasks and one for softirqs, and all CPUs share a depot with a list of
full and a list of empty magazines.  How many slots of a magazine count is
written in the pair or implied by the list, never in the magazine.
-/

namespace KtcpSplit.MagAlloc

open KtcpSplit.Transition

/-- Where a `struct magazine` lies. -/
abbrev Addr := BitVec 64

def magDepth : ℕ := 4

/-- The stack of a `struct magazine`; `none` is the null pointer. -/
structure Magazine (α : Type*) where
  stack : List (Option α)
  length_stack : stack.length = magDepth

/-- What `kzalloc` returns. -/
def Magazine.zeroed {α : Type*} : Magazine α where
  stack := List.replicate magDepth none
  length_stack := List.length_replicate

def Magazine.store {α : Type*} (mag : Magazine α) (slot : ℕ) (elem : Option α) :
    Magazine α where
  stack := mag.stack.set slot elem
  length_stack := by rw [List.length_set, mag.length_stack]

/-- `MAG_COUNT`. -/
instance neZeroMagCount : NeZero 2 := Nat.instNeZeroSucc

/-- `struct mag_pair`, with the union read as `mag_ptr`. -/
structure MagPair where
  magPtr : Fin 2 → Addr
  count : Fin 2 → BitVec 32

/-- `in_softirq() ? 1 : 0`. -/
inductive Context
  | task
  | softirq
  deriving DecidableEq

instance fintypeContext : Fintype Context :=
  ⟨{.task, .softirq}, fun context => by cases context <;> decide⟩

structure MagAllocator (Cpu α : Type*) where
  memory : Addr → Magazine α
  emptyList : List Addr
  fullList : List Addr
  emptyCount : BitVec 16
  fullCount : BitVec 16
  pcpPair : Cpu × Context → MagPair

variable {Cpu α : Type*}

def magPairCount (pair : MagPair) : BitVec 32 := pair.count 0 + pair.count 1

/-- `x[i] ^= x[j]`. -/
def xorAssign {w : ℕ} (x : Fin 2 → BitVec w) (i j : Fin 2) : Fin 2 → BitVec w :=
  Function.update x i (x i ^^^ x j)

def swapMags (pair : MagPair) : MagPair where
  magPtr := xorAssign (xorAssign (xorAssign pair.magPtr 0 1) 1 0) 0 1
  count := xorAssign (xorAssign (xorAssign pair.count 0 1) 1 0) 0 1

/-- The result is `none` where the code reads behind the stack. -/
def magPairAlloc (memory : Addr → Magazine α) (pair : MagPair) :
    Option (Option α × MagPair) :=
  if pair.count 0 = 0 then some (none, pair)
  else
    let count := Function.update pair.count 0 (pair.count 0 - 1)
    let pair := { pair with count := count }
    (memory (pair.magPtr 0)).stack[(count 0).toNat]?.map fun elem =>
      (elem, if count 0 = 0 then swapMags pair else pair)

namespace MagAllocator

variable [DecidableEq Cpu]

def setPair (s : MagAllocator Cpu α) (i : Cpu × Context) (pair : MagPair) :
    MagAllocator Cpu α :=
  { s with pcpPair := Function.update s.pcpPair i pair }

/-- The result is `none` where the assertion fails or the code writes behind the
stack. -/
def magPairFree (s : MagAllocator Cpu α) (i : Cpu × Context) (elem : Option α) :
    Option (MagAllocator Cpu α) :=
  let pair := s.pcpPair i
  if pair.count 0 < magDepth ∨ pair.count 1 < magDepth then
    let idx : Fin 2 := if pair.count 0 = magDepth then 1 else 0
    let slot := (pair.count idx).toNat
    if slot < magDepth then
      let mag := pair.magPtr idx
      some { s with
        memory := Function.update s.memory mag ((s.memory mag).store slot elem)
        pcpPair := Function.update s.pcpPair i
          { pair with
            count := Function.update pair.count idx (pair.count idx + 1) } }
    else none
  else none

/-- The result is `none` where the assertion fails or the code takes the head of
an empty list for a magazine; `kzalloc` is the address it returns. -/
def magAllocatorSwitchFull (s : MagAllocator Cpu α) (i : Cpu × Context)
    (kzalloc : Addr) : Option (MagAllocator Cpu α) :=
  let pair := s.pcpPair i
  let idx : Fin 2 := if pair.count 1 = magDepth then 1 else 0
  if pair.count idx = magDepth then
    let s := { s with
      fullList := pair.magPtr idx :: s.fullList
      fullCount := s.fullCount + 1 }
    let pairWith (mag : Addr) : MagPair :=
      ⟨Function.update pair.magPtr idx mag, Function.update pair.count idx 0⟩
    if s.emptyCount ≠ 0 then
      match s.emptyList with
      | [] => none
      | mag :: rest =>
          some { s.setPair i (pairWith mag) with
            emptyList := rest
            emptyCount := s.emptyCount - 1 }
    else
      some { s.setPair i (pairWith kzalloc) with
        memory := Function.update s.memory kzalloc .zeroed }
  else none

/-- The result is `none` where the code takes the head of an empty list for a
magazine. -/
def magAllocatorSwitchEmpty (s : MagAllocator Cpu α) (i : Cpu × Context) :
    Option (MagAllocator Cpu α) :=
  let pair := s.pcpPair i
  let idx : Fin 2 := if pair.count 0 ≠ 0 then 1 else 0
  if s.fullCount ≠ 0 then
    match s.fullList with
    | [] => none
    | mag :: rest =>
        let pair : MagPair :=
          ⟨Function.update pair.magPtr idx mag,
            Function.update pair.count idx magDepth⟩
        some { s.setPair i pair with
          emptyList := (s.pcpPair i).magPtr idx :: s.emptyList
          emptyCount := s.emptyCount + 1
          fullList := rest
          fullCount := s.fullCount - 1 }
  else some s

def magAllocElem (s : MagAllocator Cpu α) (i : Cpu × Context) :
    Option (Option α × MagAllocator Cpu α) :=
  let refilled :=
    if magPairCount (s.pcpPair i) = 0 then s.magAllocatorSwitchEmpty i else some s
  refilled.bind fun s =>
    (magPairAlloc s.memory (s.pcpPair i)).map fun (elem, pair) =>
      (elem, s.setPair i pair)

def magFreeElem (s : MagAllocator Cpu α) (i : Cpu × Context) (elem : Option α)
    (kzalloc : Addr) : Option (MagAllocator Cpu α) :=
  (s.magPairFree i elem).bind fun s =>
    if magPairCount (s.pcpPair i) = magDepth <<< 1 then
      s.magAllocatorSwitchFull i kzalloc
    else some s

end MagAllocator

/-! ## Initialisation -/

def sizeofMagazine : ℕ := 48

/-- `&mag[i]` of the array that `init_mag_pair` allocates. -/
def magArray (mag : Addr) (i : Fin 2) : Addr := mag + BitVec.ofNat 64 (i * sizeofMagazine)

/-- What `kzalloc` returned to `init_mag_pair`, for every pair: memory that does
not overlap. -/
structure InitMags (Cpu : Type*) where
  mag : Cpu × Context → Addr
  disjoint : Function.Injective fun place : (Cpu × Context) × Fin 2 =>
    magArray (mag place.1) place.2

def magAllocatorInit (mags : InitMags Cpu) : MagAllocator Cpu α where
  memory := fun _ => .zeroed
  emptyList := []
  fullList := []
  emptyCount := 0
  fullCount := 0
  pcpPair := fun i => ⟨magArray (mags.mag i), fun _ => 0⟩

end KtcpSplit.MagAlloc
