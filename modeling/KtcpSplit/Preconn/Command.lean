import KtcpSplit.Core.Endian
import KtcpSplit.Core.QpCpu
import KtcpSplit.Preconn.Model
import Mathlib.Algebra.Ring.Divisibility.Basic

/-!
# The next hop of a command

The operator types a next hop as four numbers.  They become an `int`, a `long`, a pointer
and at last the key of a pool, and the key has to be the one that a packet to that next
hop is looked up by.
-/

namespace KtcpSplit.Command

open KtcpSplit.ConnKey
open KtcpSplit.Endian
open KtcpSplit.Preconn
open KtcpSplit.PreconnPool (perCorePoolMax perCorePoolMin)
open KtcpSplit.QpCpu
open KtcpSplit.SearchTree

/-- The argument of a thread, a `long` behind a pointer. -/
abbrev Arg := BitVec 64

/-- The four elements of `int *array`. -/
structure IpArray where
  i0 : BitVec 32
  i1 : BitVec 32
  i2 : BitVec 32
  i3 : BitVec 32
  deriving DecidableEq

def IpArray.elems (array : IpArray) : List (BitVec 32) :=
  [array.i0, array.i1, array.i2, array.i3]

def preconnServerPort : ℕ := 5565

/-! ## The command -/

/-- `(ip << 8)|array[i]`. -/
def shiftIn (ip elem : BitVec 32) : BitVec 32 := ip <<< 8 ||| elem

/-- The loop of `build_ip`. -/
def buildIpFrom (ip : BitVec 32) : List (BitVec 32) → BitVec 32
  | [] => ip
  | elem :: rest => if 255 < elem.toInt then 0 else buildIpFrom (shiftIn ip elem) rest

def buildIp (array : IpArray) : BitVec 32 := buildIpFrom 0 array.elems

variable {Cpu : Type*}

/-- The calls of `kthread_pool_run_cpu` for `prealloc_connection`. -/
def preconnWriteCb (order : ByteOrder) (possible : List Cpu) (array : IpArray) :
    List (Cpu × Arg) :=
  let ip := (buildIp array).signExtend 64
  if ip = 0 then []
  else
    let ip := (htonl order (ip.setWidth 32)).setWidth 64
    possible.flatMap fun cpu => List.replicate perCorePoolMin (cpu, ip)

/-! ## The connection -/

/-- The results of the calls that `prealloc_connection` tests. -/
structure Results where
  sockCreateKern : ℤ
  soMark : ℤ
  soKeepalive : ℤ
  tcpNodelay : ℤ
  kernelConnect : ℤ

/-- The address that `kernel_connect` gets, and the key under which `add_preconn_qp`
stores the connection. -/
structure Preconnection where
  connect : Option SockaddrIn
  add : Option NextHop
  deriving DecidableEq

/-- `addresses->dest`, with the address as the number that the code stores there. -/
def fillPreconnAddress (ip : BitVec 32) : BitVec 32 × Be16 := (ip, htons preconnServerPort)

/-- `int32_t key` of `get_rb_preconn` is `qp->addr_d.s_addr`. -/
def preallocConnection (order : ByteOrder) (rc : Results) (arg : Arg) : Preconnection :=
  let (sAddr, sinPort) := fillPreconnAddress (arg.setWidth 32)
  if rc.sockCreateKern ≠ 0 ∨ rc.soMark < 0 ∨ rc.soKeepalive < 0 ∨ rc.tcpNodelay < 0 then
    ⟨none, none⟩
  else
    let dest : SockaddrIn := ⟨sinPort, store order sAddr⟩
    if rc.kernelConnect ≠ 0 then ⟨some dest, none⟩ else ⟨some dest, some sAddr⟩

/-! ## The data path -/

/-- The pool that `alloc_prexeisting_conn` finds, and the argument it hands to
`prealloc_connection_pool`. -/
def allocPrexeistingConn (root : BinaryTree CbnPreconnection) (ip : BitVec 32) :
    Option CbnPreconnection × Arg :=
  let nextHopIp := ip.setWidth 64
  (searchRbPreconn root ip, nextHopIp)

/-- The pool that `prealloc_connection_pool` finds, and its calls of
`kthread_pool_run_cpu`. -/
def preallocConnectionPool (root : BinaryTree CbnPreconnection)
    (len : CbnPreconnection → Cpu → BitVec 32) (possible : List Cpu) (arg : Arg) :
    Option CbnPreconnection × List (Cpu × Arg) :=
  let preconn := searchRbPreconn root (arg.setWidth 32)
  (preconn, possible.flatMap fun cpu =>
    let len : BitVec 32 := match preconn with
      | some preconn => len preconn cpu
      | none => 0
    if len.toInt < perCorePoolMax then List.replicate perCorePoolMin (cpu, arg) else [])

/-! ## What the command is for -/

/-- Four octets, not all of them zero. -/
def Valid (array : IpArray) : Prop :=
  (∀ elem ∈ array.elems, 0 ≤ elem.toInt ∧ elem.toInt ≤ 255) ∧ ∃ elem ∈ array.elems, elem ≠ 0

def nextHop (array : IpArray) : Be32 :=
  ⟨octet array.i0 0, octet array.i1 0, octet array.i2 0, octet array.i3 0⟩

/-- A packet to `addr` is served from the pool with the key, and has it refilled. -/
structure LookedUp (order : ByteOrder) (addr : Be32) (key : NextHop) : Prop where
  alloc : ∀ root, (allocPrexeistingConn root (load order addr)).1 = searchRbPreconn root key
  pool : ∀ root (len : CbnPreconnection → ℕ → BitVec 32) possible,
    (preallocConnectionPool root len possible
      (allocPrexeistingConn root (load order addr)).2).1 = searchRbPreconn root key

/-- The connection goes to the address, and to the pool for packets to it. -/
structure Reaches (order : ByteOrder) (addr : Be32) (arg : Arg) : Prop where
  connect : ∀ rc dest, (preallocConnection order rc arg).connect = some dest →
    dest = ⟨htons preconnServerPort, addr⟩
  add : ∀ rc key, (preallocConnection order rc arg).add = some key → LookedUp order addr key

structure Fulfilled (order : ByteOrder) (possible : List Cpu) (array : IpArray) : Prop where
  started : Valid array → ∃ arg, Reaches order (nextHop array) arg ∧
    preconnWriteCb order possible array =
      possible.flatMap fun cpu => List.replicate perCorePoolMin (cpu, arg)
  rejected : ¬Valid array → preconnWriteCb order possible array = []

/-! ## The number that is built -/

variable {array : IpArray}

theorem buildIpFrom_of_exists {elems : List (BitVec 32)}
    (hlarge : ∃ elem ∈ elems, 255 < elem.toInt) (ip : BitVec 32) : buildIpFrom ip elems = 0 := by
  induction elems generalizing ip with
  | nil => simp at hlarge
  | cons elem rest ih =>
      rw [buildIpFrom]
      split
      · rfl
      · next hsmall =>
          refine ih ?_ _
          obtain ⟨other, hmem, hother⟩ := hlarge
          rcases List.mem_cons.mp hmem with rfl | hrest
          · exact absurd hother hsmall
          · exact ⟨other, hrest, hother⟩

theorem buildIpFrom_of_le {elems : List (BitVec 32)}
    (hsmall : ∀ elem ∈ elems, elem.toInt ≤ 255) (ip : BitVec 32) :
    buildIpFrom ip elems = elems.foldl shiftIn ip := by
  induction elems generalizing ip with
  | nil => rfl
  | cons elem rest ih =>
      obtain ⟨helem, hrest⟩ := List.forall_mem_cons.mp hsmall
      rw [buildIpFrom, if_neg (not_lt.mpr helem), ih hrest, List.foldl_cons]

theorem buildIp_of_le (hsmall : ∀ elem ∈ array.elems, elem.toInt ≤ 255) :
    buildIp array = shiftIn (shiftIn (shiftIn array.i0 array.i1) array.i2) array.i3 := by
  have hzero : shiftIn 0 array.i0 = array.i0 := by simp [shiftIn]
  rw [buildIp, buildIpFrom_of_le hsmall]
  conv_rhs => rw [← hzero]
  rfl

theorem toNat_shiftIn (ip : BitVec 32) {elem : BitVec 32} (hip : ip.toNat < 2 ^ 24)
    (helem : elem.toNat < 256) : (shiftIn ip elem).toNat = ip.toNat * 256 + elem.toNat := by
  rw [shiftIn, BitVec.toNat_or, BitVec.toNat_shiftLeft, Nat.shiftLeft_eq,
    Nat.mod_eq_of_lt (by omega), ← Nat.shiftLeft_eq, ← Nat.shiftLeft_add_eq_or_of_lt helem,
    Nat.shiftLeft_eq]

theorem octets_of_valid (hvalid : Valid array) : array.i0.toNat < 256 ∧ array.i1.toNat < 256 ∧
    array.i2.toNat < 256 ∧ array.i3.toNat < 256 := by
  have hoctet : ∀ elem ∈ array.elems, elem.toNat < 256 := by
    intro elem hmem
    obtain ⟨hnonneg, hle⟩ := hvalid.1 elem hmem
    have hlt := elem.isLt
    rw [BitVec.toInt_eq_toNat_cond] at hnonneg hle
    split at hle <;> omega
  simpa [IpArray.elems] using hoctet

theorem toNat_buildIp (hvalid : Valid array) :
    (buildIp array).toNat = ((array.i0.toNat * 256 + array.i1.toNat) * 256 +
      array.i2.toNat) * 256 + array.i3.toNat := by
  obtain ⟨h0, h1, h2, h3⟩ := octets_of_valid hvalid
  have hip1 := toNat_shiftIn array.i0 (by omega) h1
  have hip2 := toNat_shiftIn (shiftIn array.i0 array.i1) (by omega) h2
  rw [buildIp_of_le fun elem hmem => (hvalid.1 elem hmem).2, toNat_shiftIn _ (by omega) h3,
    hip2, hip1]

/-- The bytes of the number in network order are the octets. -/
theorem store_buildIp (hvalid : Valid array) : store .big (buildIp array) = nextHop array := by
  obtain ⟨h0, h1, h2, h3⟩ := octets_of_valid hvalid
  simp only [store, nextHop, octet, toNat_buildIp hvalid, Be32.mk.injEq, Fin.ext_iff,
    Fin.val_ofNat]
  omega

theorem buildIp_ne_zero (hvalid : Valid array) : buildIp array ≠ 0 := by
  intro hzero
  have hnat : 0 = _ := (congrArg BitVec.toNat hzero).symm.trans (toNat_buildIp hvalid)
  obtain ⟨-, elem, hmem, hne⟩ := hvalid
  have helem : elem.toNat = 0 := by
    simp only [IpArray.elems, List.mem_cons, List.not_mem_nil, or_false] at hmem
    rcases hmem with rfl | rfl | rfl | rfl <;> omega
  exact hne (BitVec.eq_of_toNat_eq helem)

/-! ## When the number is zero -/

theorem pow_dvd_toInt_iff (value : BitVec 32) {k : ℕ} (hk : k ≤ 32) :
    (2 ^ k : ℤ) ∣ value.toInt ↔ 2 ^ k ∣ value.toNat := by
  have hword : (2 ^ k : ℤ) ∣ 2 ^ 32 := pow_dvd_pow 2 hk
  rw [← Int.natCast_dvd_natCast, BitVec.toInt_eq_toNat_cond]
  push_cast
  split
  · rfl
  · exact dvd_sub_left hword

theorem shiftLeft_eq_zero_iff (value : BitVec 32) {n : ℕ} (hn : n ≤ 32) :
    value <<< n = 0 ↔ (2 ^ (32 - n) : ℤ) ∣ value.toInt := by
  have hsplit : 2 ^ 32 = 2 ^ (32 - n) * 2 ^ n := by
    rw [← pow_add, Nat.sub_add_cancel hn]
  have hmod : value.toNat * 2 ^ n % 2 ^ 32 = value.toNat % 2 ^ (32 - n) * 2 ^ n := by
    rw [hsplit, Nat.mul_mod_mul_right]
  rw [pow_dvd_toInt_iff value (Nat.sub_le 32 n), ← BitVec.toNat_inj, BitVec.toNat_shiftLeft,
    Nat.shiftLeft_eq, hmod, Nat.dvd_iff_mod_eq_zero]
  exact (Nat.mul_eq_zero).trans (or_iff_left (Nat.two_pow_pos n).ne')

theorem shiftIn_shiftLeft_eq_zero_iff (ip elem : BitVec 32) (n : ℕ) :
    shiftIn ip elem <<< n = 0 ↔ ip <<< (n + 8) = 0 ∧ elem <<< n = 0 := by
  rw [shiftIn, BitVec.shiftLeft_or_distrib, ← BitVec.shiftLeft_add, Nat.add_comm]
  exact BitVec.or_eq_zero_iff

/-- Every bit is shifted out, and the last octet has none. -/
def Cancels (array : IpArray) : Prop :=
  2 ^ 8 ∣ array.i0.toInt ∧ 2 ^ 16 ∣ array.i1.toInt ∧ 2 ^ 24 ∣ array.i2.toInt ∧ array.i3 = 0

theorem buildIp_eq_zero_iff (hsmall : ∀ elem ∈ array.elems, elem.toInt ≤ 255) :
    buildIp array = 0 ↔ Cancels array := by
  rw [buildIp_of_le hsmall, ← BitVec.shiftLeft_zero (shiftIn _ array.i3),
    shiftIn_shiftLeft_eq_zero_iff, shiftIn_shiftLeft_eq_zero_iff, shiftIn_shiftLeft_eq_zero_iff,
    shiftLeft_eq_zero_iff _ (by decide), shiftLeft_eq_zero_iff _ (by decide),
    shiftLeft_eq_zero_iff _ (by decide), BitVec.shiftLeft_zero, and_assoc, and_assoc]
  rfl

/-! ## The connections that are started -/

theorem setWidth_signExtend (value : BitVec 32) : (value.signExtend 64).setWidth 32 = value := by
  ext i hi
  rw [BitVec.getElem_setWidth, BitVec.getLsbD_signExtend]
  simp [hi, show i < 64 by omega]

theorem signExtend_eq_zero_iff (value : BitVec 32) : value.signExtend 64 = 0 ↔ value = 0 := by
  constructor
  · intro hzero
    rw [← setWidth_signExtend value, hzero]
    rfl
  · rintro rfl
    rfl

theorem preconnWriteCb_of_zero {order : ByteOrder} {possible : List Cpu}
    (hzero : buildIp array = 0) : preconnWriteCb order possible array = [] :=
  if_pos ((signExtend_eq_zero_iff _).mpr hzero)

theorem preconnWriteCb_of_ne_zero {order : ByteOrder} {possible : List Cpu}
    (hne : buildIp array ≠ 0) :
    preconnWriteCb order possible array = possible.flatMap fun cpu =>
      List.replicate perCorePoolMin (cpu, (htonl order (buildIp array)).setWidth 64) := by
  rw [preconnWriteCb]
  dsimp only
  rw [if_neg (mt (signExtend_eq_zero_iff (buildIp array)).mp hne), setWidth_signExtend]

variable {order : ByteOrder} {addr : Be32} {key : NextHop}

theorem setWidth_setWidth (value : BitVec 32) : (value.setWidth 64).setWidth 32 = value := by
  rw [BitVec.setWidth_setWidth_of_le _ (by decide), BitVec.setWidth_eq]

theorem searchRbPreconn_singleton (key ip : NextHop) :
    searchRbPreconn (.node ⟨0, key⟩ .nil .nil) ip = some ⟨0, key⟩ ↔ key = ip := by
  constructor
  · intro hsearch
    exact (keyDiff_eq_zero_iff ip ⟨0, key⟩).mp (search_sound hsearch).2
  · rintro rfl
    have hzero := (keyDiff_eq_zero_iff key ⟨0, key⟩).mpr rfl
    rw [searchRbPreconn, search, hzero]
    rfl

/-- The number of the address is the only such key. -/
theorem lookedUp_iff : LookedUp order addr key ↔ key = load order addr := by
  constructor
  · intro hlooked
    have hsearch := hlooked.alloc (.node ⟨0, key⟩ .nil .nil)
    rw [(searchRbPreconn_singleton key key).mpr rfl] at hsearch
    exact (searchRbPreconn_singleton key _).mp hsearch
  · rintro rfl
    refine ⟨fun _ => rfl, fun root len possible => ?_⟩
    rw [preallocConnectionPool, allocPrexeistingConn, setWidth_setWidth]

theorem reaches_load (order : ByteOrder) (addr : Be32) :
    Reaches order addr ((load order addr).setWidth 64) := by
  constructor
  · intro rc dest hconnect
    simp only [preallocConnection, fillPreconnAddress, setWidth_setWidth, store_load]
      at hconnect
    split at hconnect
    · cases hconnect
    · split at hconnect <;> exact (Option.some.inj hconnect).symm
  · intro rc key hadd
    simp only [preallocConnection, fillPreconnAddress, setWidth_setWidth] at hadd
    rw [lookedUp_iff]
    split at hadd
    · cases hadd
    · split at hadd
      · cases hadd
      · exact (Option.some.inj hadd).symm

/-! ## The command -/

theorem preconnWriteCb_of_valid (order : ByteOrder) (possible : List Cpu)
    (hvalid : Valid array) :
    ∃ arg, Reaches order (nextHop array) arg ∧ preconnWriteCb order possible array =
      possible.flatMap fun cpu => List.replicate perCorePoolMin (cpu, arg) := by
  refine ⟨_, ?_, preconnWriteCb_of_ne_zero (buildIp_ne_zero hvalid)⟩
  rw [htonl, store_buildIp hvalid]
  exact reaches_load order (nextHop array)

theorem preconnWriteCb_eq_nil_iff (order : ByteOrder) {possible : List Cpu}
    (hpossible : possible ≠ []) :
    preconnWriteCb order possible array = [] ↔ buildIp array = 0 := by
  refine ⟨fun hnone => ?_, preconnWriteCb_of_zero⟩
  by_contra hne
  rw [preconnWriteCb_of_ne_zero hne, List.flatMap_eq_nil_iff] at hnone
  obtain ⟨cpu, hcpu⟩ := List.exists_mem_of_ne_nil possible hpossible
  cases hnone cpu hcpu

theorem buildIp_of_exists (hlarge : ∃ elem ∈ array.elems, 255 < elem.toInt) :
    buildIp array = 0 :=
  buildIpFrom_of_exists hlarge 0

/-- Without a negative number only an invalid address gives zero. -/
theorem buildIp_of_nonneg (hnonneg : ∀ elem ∈ array.elems, 0 ≤ elem.toInt)
    (hinvalid : ¬Valid array) : buildIp array = 0 := by
  by_cases hlarge : ∃ elem ∈ array.elems, 255 < elem.toInt
  · exact buildIp_of_exists hlarge
  · have hsmall : ∀ elem ∈ array.elems, elem.toInt ≤ 255 :=
      fun elem hmem => not_lt.mp fun helem => hlarge ⟨elem, hmem, helem⟩
    have hzero : ∀ elem ∈ array.elems, elem = 0 := by
      intro elem hmem
      by_contra hne
      exact hinvalid ⟨fun elem hmem => ⟨hnonneg elem hmem, hsmall elem hmem⟩, elem, hmem, hne⟩
    simp only [IpArray.elems, List.forall_mem_cons] at hzero
    obtain ⟨h0, h1, h2, h3, -⟩ := hzero
    rw [buildIp_eq_zero_iff hsmall, Cancels, h0, h1, h2, h3]
    decide

/-- A command does what it is for unless it has a negative number, none that is too large,
and a bit that is left. -/
theorem preconn_write_iff (order : ByteOrder) (possible : List Cpu) (hpossible : possible ≠ [])
    (array : IpArray) :
    Fulfilled order possible array ↔ (∀ elem ∈ array.elems, 0 ≤ elem.toInt) ∨
      (∃ elem ∈ array.elems, 255 < elem.toInt) ∨ Cancels array := by
  have hzero : ∀ hlarge : ¬∃ elem ∈ array.elems, 255 < elem.toInt,
      buildIp array = 0 ↔ Cancels array := fun hlarge =>
    buildIp_eq_zero_iff fun elem hmem => not_lt.mp fun helem => hlarge ⟨elem, hmem, helem⟩
  constructor
  · intro hfulfilled
    by_cases hvalid : Valid array
    · exact Or.inl fun elem hmem => (hvalid.1 elem hmem).1
    · refine Or.inr (or_iff_not_imp_left.mpr fun hlarge => ?_)
      have hnone := hfulfilled.rejected hvalid
      exact (hzero hlarge).mp ((preconnWriteCb_eq_nil_iff order hpossible).mp hnone)
  · intro hcases
    refine ⟨preconnWriteCb_of_valid order possible, fun hinvalid => preconnWriteCb_of_zero ?_⟩
    rcases hcases with hnonneg | hlarge | hcancels
    · exact buildIp_of_nonneg hnonneg hinvalid
    · exact buildIp_of_exists hlarge
    · by_cases hlarge : ∃ elem ∈ array.elems, 255 < elem.toInt
      · exact buildIp_of_exists hlarge
      · exact (hzero hlarge).mpr hcancels

/-- The command `10,0,0,1`. -/
theorem preconn_write_iff_ten : Fulfilled .little [0, 1] ⟨10, 0, 0, 1⟩ := by
  refine (preconn_write_iff .little [0, 1] (List.cons_ne_nil 0 [1]) _).mpr (Or.inl ?_)
  exact List.forall_iff_forall_mem.mp (by decide)

/-- The command `10,0,0,-1` starts connections to 255.255.255.255. -/
theorem negative_octet_accepted :
    ¬Valid ⟨10, 0, 0, -1⟩ ∧
      preconnWriteCb .little [0] ⟨10, 0, 0, -1⟩ = List.replicate 4 (0, 0xffffffff) ∧
      ¬Fulfilled .little [0] ⟨10, 0, 0, -1⟩ := by
  have hinvalid : ¬Valid ⟨10, 0, 0, -1⟩ :=
    fun hvalid => absurd (hvalid.1 (-1) (by decide)).1 (by decide)
  have hstarted : preconnWriteCb .little [0] ⟨10, 0, 0, -1⟩ =
      List.replicate 4 (0, 0xffffffff) := by decide
  refine ⟨hinvalid, hstarted, fun hfulfilled => ?_⟩
  cases hstarted.symm.trans (hfulfilled.rejected hinvalid)

end KtcpSplit.Command
