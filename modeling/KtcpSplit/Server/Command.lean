import KtcpSplit.Core.QpCpu
import KtcpSplit.Tree.Listner

/-!
# The command that starts a server

The operator types the mark of a tenant and a port.  Both are `int`s that are packed into
the argument of a thread, and the port becomes shorter on its way to the socket and to the
listener.  Nothing tests what it is.
-/

namespace KtcpSplit.AddServer

open KtcpSplit.ConnKey
open KtcpSplit.Listner
open KtcpSplit.SearchTree

/-- The argument of a thread, a `uint64_t` behind a pointer. -/
abbrev Arg := BitVec 64

def pageSize : ℕ := 4096

def einval : ℕ := 22

/-! ## The command -/

/-- `int values[PROC_CSV_NUM + 1]` after `get_options`. -/
structure Values where
  count : BitVec 32
  tid : BitVec 32
  port : BitVec 32

def uint2void (a b : BitVec 32) : Arg := a.setWidth 64 <<< 32 ||| b.setWidth 64

def void2uint (ptr : Arg) : BitVec 32 × BitVec 32 :=
  ((ptr >>> 32).setWidth 32, ((ptr <<< 32) >>> 32).setWidth 32)

/-- The result of `cbn_add_server`: an error number, or the size of the write and the
argument with which `split_server` is scheduled. -/
def cbnAddServer (size : ℕ) (kbuf : Except ℕ Values) : Except ℕ (ℕ × Arg) :=
  if size ≤ 1 ∨ pageSize ≤ size then .error einval
  else
    match kbuf with
    | .error errno => .error errno
    | .ok values =>
        if values.count = 2 then .ok (size, uint2void values.tid values.port)
        else .error einval

/-! ## The thread -/

/-- What the kernel does for `split_server`; `pick` is the port that a socket gets when it is
bound to port zero. -/
structure Kernel where
  /-- The pool has a thread. -/
  pool : Bool
  /-- The allocations of `register_server_sock`. -/
  memory : Bool
  sockCreateKern : ℤ
  soMark : ℤ
  kernelBind : ℤ
  pick : ℕ
  pick_pos : 0 < pick

/-- The port that a socket is bound to. -/
def Kernel.portOf (kernel : Kernel) (sinPort : Be16) : ℕ :=
  if ntohs sinPort = 0 then kernel.pick else ntohs sinPort

/-- The mark of a thread, the fields of the listener that it set, and the port that it
bound its socket to. -/
structure Server where
  mark : Mark
  key : Option Mark
  port : Option (BitVec 16)
  bound : Option ℕ

/-- `split_server` up to `kernel_bind`. -/
def splitServer (kernel : Kernel) (listnerRoot : BinaryTree CbnListner) (markPort : Arg) :
    Server :=
  let (mark, port) := void2uint markPort
  if (searchRbListner listnerRoot mark).isSome then ⟨mark, none, none, none⟩
  else if kernel.memory = false then ⟨mark, none, none, none⟩
  else if kernel.sockCreateKern ≠ 0 then ⟨mark, some mark, none, none⟩
  else if kernel.soMark < 0 then ⟨mark, some mark, some (port.setWidth 16), none⟩
  else
    let sinPort := htons (port.setWidth 16).toNat
    if kernel.kernelBind ≠ 0 then ⟨mark, some mark, some (port.setWidth 16), none⟩
    else ⟨mark, some mark, some (port.setWidth 16), some (kernel.portOf sinPort)⟩

/-- The thread that a write starts. -/
def started (kernel : Kernel) (listnerRoot : BinaryTree CbnListner) :
    Except ℕ (ℕ × Arg) → Option Server
  | .error _ => none
  | .ok (_, arg) => if kernel.pool then some (splitServer kernel listnerRoot arg) else none

/-- The thread serves the tenant on the port. -/
structure Serves (server : Server) (tid port : BitVec 32) : Prop where
  mark : server.mark = tid
  bound : ∃ bound ∈ server.bound, (bound : ℤ) = port.toInt
  port : ∃ stored ∈ server.port, (stored.toNat : ℤ) = port.toInt

/-- A write is rejected, or does what it says. -/
def TakesEffect (kernel : Kernel) (listnerRoot : BinaryTree CbnListner) (size : ℕ)
    (kbuf : Except ℕ Values) (tid port : BitVec 32) : Prop :=
  (∃ errno, cbnAddServer size kbuf = .error errno) ∨
    ∃ server ∈ started kernel listnerRoot (cbnAddServer size kbuf), Serves server tid port

/-- Nothing stops the thread before its socket is bound. -/
structure Reaches (kernel : Kernel) (listnerRoot : BinaryTree CbnListner) (tid : Mark) :
    Prop where
  pool : kernel.pool = true
  unused : searchRbListner listnerRoot tid = none
  memory : kernel.memory = true
  sockCreateKern : kernel.sockCreateKern = 0
  soMark : 0 ≤ kernel.soMark
  kernelBind : kernel.kernelBind = 0

/-! ## The numbers on their way -/

/-- The packing loses nothing. -/
theorem void2uint_uint2void (a b : BitVec 32) : void2uint (uint2void a b) = (a, b) := by
  rw [void2uint, Prod.mk.injEq]
  constructor
  · apply BitVec.eq_of_getLsbD_eq
    intro i hi
    have hfit : 32 + i < 64 := by omega
    have hnot : ¬32 + i < 32 := by omega
    have hlt : i < 64 := by omega
    simp [uint2void, hi, hfit, hnot, hlt]
  · apply BitVec.eq_of_getLsbD_eq
    intro i hi
    have hfit : 32 + i < 64 := by omega
    have hnot : ¬32 + i < 32 := by omega
    have hlt : i < 64 := by omega
    simp [uint2void, hi, hfit, hnot, hlt]

theorem ntohs_htons {port : ℕ} (hport : port < 65536) : ntohs (htons port) = port := by
  simp only [ntohs, htons, Fin.val_ofNat]
  omega

theorem Kernel.portOf_htons (kernel : Kernel) (port : BitVec 16) :
    kernel.portOf (htons port.toNat) = if port.toNat = 0 then kernel.pick else port.toNat := by
  rw [Kernel.portOf, ntohs_htons port.isLt]

/-- The field of the listener keeps the numbers of sixteen bits and no others. -/
theorem toNat_setWidth_eq_toInt_iff (port : BitVec 32) :
    ((port.setWidth 16).toNat : ℤ) = port.toInt ↔ 0 ≤ port.toInt ∧ port.toInt ≤ 65535 := by
  have hlt := port.isLt
  rw [BitVec.toNat_setWidth, BitVec.toInt_eq_toNat_cond]
  split <;> omega

/-! ## Exactly when a command takes effect -/

theorem cbnAddServer_pair (size : ℕ) (tid port : BitVec 32) :
    cbnAddServer size (.ok ⟨2, tid, port⟩) =
      if size ≤ 1 ∨ pageSize ≤ size then .error einval else .ok (size, uint2void tid port) := rfl

/-- What a thread does that reaches its `kernel_bind`. -/
theorem Reaches.splitServer {kernel : Kernel} {listnerRoot : BinaryTree CbnListner} {tid : Mark}
    (reaches : Reaches kernel listnerRoot tid) (port : BitVec 32) :
    splitServer kernel listnerRoot (uint2void tid port) =
      ⟨tid, some tid, some (port.setWidth 16),
        some (kernel.portOf (htons (port.setWidth 16).toNat))⟩ := by
  have hmark : ¬kernel.soMark < 0 := not_lt.mpr reaches.soMark
  rw [AddServer.splitServer, void2uint_uint2void]
  simp [reaches.unused, reaches.memory, reaches.sockCreateKern, hmark, reaches.kernelBind]

/-- A thread that binds its socket was not stopped before. -/
theorem reaches_of_bound {kernel : Kernel} {listnerRoot : BinaryTree CbnListner}
    {tid port : BitVec 32} (hpool : kernel.pool = true)
    (hbound : (splitServer kernel listnerRoot (uint2void tid port)).bound ≠ none) :
    Reaches kernel listnerRoot tid := by
  rw [splitServer, void2uint_uint2void] at hbound
  dsimp only at hbound
  split at hbound
  · exact absurd rfl hbound
  rename_i hunused
  split at hbound
  · exact absurd rfl hbound
  rename_i hmemory
  split at hbound
  · exact absurd rfl hbound
  rename_i hsock
  split at hbound
  · exact absurd rfl hbound
  rename_i hmark
  split at hbound
  · exact absurd rfl hbound
  rename_i hbind
  exact
    { pool := hpool
      unused := by simpa using hunused
      memory := by simpa using hmemory
      sockCreateKern := not_not.mp hsock
      soMark := not_lt.mp hmark
      kernelBind := not_not.mp hbind }

/-- A thread that was not stopped serves the tenant exactly when the port is one. -/
theorem Reaches.serves_iff {kernel : Kernel} {listnerRoot : BinaryTree CbnListner} {tid : Mark}
    (reaches : Reaches kernel listnerRoot tid) (port : BitVec 32) :
    Serves (AddServer.splitServer kernel listnerRoot (uint2void tid port)) tid port ↔
      1 ≤ port.toInt ∧ port.toInt ≤ 65535 := by
  rw [reaches.splitServer port, kernel.portOf_htons]
  have hwidth := toNat_setWidth_eq_toInt_iff port
  constructor
  · rintro ⟨-, ⟨bound, hbound, hport⟩, ⟨stored, hstored, hfield⟩⟩
    obtain rfl : port.setWidth 16 = stored := by simpa using hstored
    obtain ⟨hnonneg, hle⟩ := hwidth.mp hfield
    refine ⟨?_, hle⟩
    by_contra hzero
    have hnone : (port.setWidth 16).toNat = 0 := by omega
    have hpick : kernel.pick = bound := by simpa [hnone] using hbound
    have := kernel.pick_pos
    omega
  · rintro ⟨hpos, hle⟩
    have hfield := hwidth.mpr ⟨by omega, hle⟩
    have hsome : (port.setWidth 16).toNat ≠ 0 := by omega
    refine ⟨rfl, ⟨_, rfl, ?_⟩, ⟨_, rfl, hfield⟩⟩
    rw [if_neg hsome]
    exact hfield

/-- A command takes effect as written exactly when it is rejected for its size, or its port
is one and nothing stops the thread. -/
theorem takes_effect_iff (kernel : Kernel) (listnerRoot : BinaryTree CbnListner) (size : ℕ)
    (tid port : BitVec 32) :
    TakesEffect kernel listnerRoot size (.ok ⟨2, tid, port⟩) tid port ↔
      (size ≤ 1 ∨ pageSize ≤ size) ∨
        Reaches kernel listnerRoot tid ∧ 1 ≤ port.toInt ∧ port.toInt ≤ 65535 := by
  rw [TakesEffect, cbnAddServer_pair]
  by_cases hsize : size ≤ 1 ∨ pageSize ≤ size
  · simp [hsize]
  rw [if_neg hsize]
  simp only [hsize, reduceCtorEq, exists_false, false_or, started]
  constructor
  · rintro ⟨server, hserver, hserves⟩
    by_cases hpool : kernel.pool = true
    · rw [if_pos hpool] at hserver
      obtain rfl : splitServer kernel listnerRoot (uint2void tid port) = server := by
        simpa using hserver
      obtain ⟨bound, hbound, -⟩ := hserves.bound
      have hreaches := reaches_of_bound hpool
        (Option.ne_none_iff_exists'.mpr ⟨bound, hbound⟩)
      exact ⟨hreaches, (hreaches.serves_iff port).mp hserves⟩
    · rw [if_neg hpool] at hserver
      exact absurd hserver (by simp)
  · rintro ⟨hreaches, hport⟩
    refine ⟨_, ?_, (hreaches.serves_iff port).mpr hport⟩
    rw [if_pos hreaches.pool]
    rfl

/-- A kernel in which everything succeeds. -/
def willing : Kernel where
  pool := true
  memory := true
  sockCreateKern := 0
  soMark := 0
  kernelBind := 0
  pick := 32768
  pick_pos := by decide

theorem willing_reaches (tid : Mark) : Reaches willing .nil tid :=
  ⟨rfl, rfl, rfl, rfl, le_rfl, rfl⟩

/-- The write `7,65616` is accepted, and tenant 7 is served on port 80. -/
theorem big_port_served_elsewhere :
    ¬TakesEffect willing .nil 8 (.ok ⟨2, 7, 65616⟩) 7 65616 ∧
      started willing .nil (cbnAddServer 8 (.ok ⟨2, 7, 65616⟩)) =
        some ⟨7, some 7, some 80, some 80⟩ := by
  have haccepted : cbnAddServer 8 (.ok ⟨2, 7, 65616⟩) = .ok (8, uint2void 7 65616) := rfl
  have hstarted : started willing .nil (.ok (8, uint2void 7 65616)) =
      some (splitServer willing .nil (uint2void 7 65616)) := rfl
  rw [TakesEffect, haccepted, hstarted]
  constructor
  · rintro (⟨errno, herror⟩ | ⟨server, hserver, hserves⟩)
    · exact absurd herror (by simp)
    · obtain rfl : splitServer willing .nil (uint2void 7 65616) = server := by
        simpa using hserver
      have hport := ((willing_reaches 7).serves_iff 65616).mp hserves
      exact absurd hport (by decide)
  · rw [(willing_reaches 7).splitServer 65616, Kernel.portOf_htons]
    rfl

end KtcpSplit.AddServer
