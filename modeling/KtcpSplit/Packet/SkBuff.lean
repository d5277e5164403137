import KtcpSplit.Core.QpCpu

/-!
# Packets as the hooks see them

A socket buffer is its linear bytes with the offsets that the kernel keeps for
the headers.  Reads are by offset, the way the code casts a header pointer, so
a read past the tail is possible and returns whatever stands there.
-/

namespace KtcpSplit.Packet

open KtcpSplit.ConnKey
open KtcpSplit.Listner

/-- A pointer as its eight bytes in memory. -/
structure Ptr where
  bytes : List Byte
  length_bytes : bytes.length = 8
  deriving DecidableEq

/-- The fields of `struct sk_buff` that the hooks read; `beyond` is the memory
after the tail, by its offset from the start of the data. -/
structure SkBuff where
  data : List Byte
  beyond : ℕ → Byte
  networkHeader : ℕ
  transportHeader : ℕ
  innerNetworkHeader : ℕ
  innerTransportHeader : ℕ
  innerProtocol : ℕ
  mark : Mark
  devName : String

def sizeofIphdr : ℕ := 20

def sizeofTcphdr : ℕ := 20

def ipprotoIpip : ℕ := 4

def ipprotoTcp : ℕ := 6

def ipprotoUdp : ℕ := 17

namespace SkBuff

variable (skb : SkBuff)

def byte (offset : ℕ) : Byte := skb.data.getD offset (skb.beyond offset)

def be16 (offset : ℕ) : Be16 := ⟨skb.byte offset, skb.byte (offset + 1)⟩

def be32 (offset : ℕ) : Be32 :=
  ⟨skb.byte offset, skb.byte (offset + 1), skb.byte (offset + 2),
    skb.byte (offset + 3)⟩

def ptr (offset : ℕ) : Ptr where
  bytes := (List.range 8).map fun i => skb.byte (offset + i)
  length_bytes := by simp

/-! ## `struct iphdr` and `struct tcphdr` by their field offsets -/

def iphdrIhl (iphdr : ℕ) : ℕ := (skb.byte iphdr).val % 16

def iphdrProtocol (iphdr : ℕ) : ℕ := skb.byte (iphdr + 9)

def iphdrSaddr (iphdr : ℕ) : Be32 := skb.be32 (iphdr + 12)

def iphdrDaddr (iphdr : ℕ) : Be32 := skb.be32 (iphdr + 16)

def tcphdrSource (tcphdr : ℕ) : Be16 := skb.be16 tcphdr

def tcphdrDest (tcphdr : ℕ) : Be16 := skb.be16 (tcphdr + 2)

def tcphdrSeq (tcphdr : ℕ) : Be32 := skb.be32 (tcphdr + 4)

def tcphdrSyn (tcphdr : ℕ) : Bool := (skb.byte (tcphdr + 13)).val.testBit 1

def tcphdrAck (tcphdr : ℕ) : Bool := (skb.byte (tcphdr + 13)).val.testBit 4

def tcphdrWindow (tcphdr : ℕ) : Be16 := skb.be16 (tcphdr + 14)

def tcphdrUrgPtr (tcphdr : ℕ) : Be16 := skb.be16 (tcphdr + 18)

/-- `skb_put` followed by a store of the new tail bytes. -/
def put (bytes : List Byte) : SkBuff := { skb with data := skb.data ++ bytes }

/-- `memcpy` of `count` bytes out of the buffer. -/
def copy (offset count : ℕ) : List Byte :=
  (List.range count).map fun i => skb.byte (offset + i)

@[simp]
theorem length_copy (offset count : ℕ) : (skb.copy offset count).length = count := by
  simp [copy]

theorem getD_copy {offset count i : ℕ} (hi : i < count) (default : Byte) :
    (skb.copy offset count).getD i default = skb.byte (offset + i) := by
  simp [copy, List.getD, hi]

theorem ptr_bytes (offset : ℕ) : (skb.ptr offset).bytes = skb.copy offset 8 := rfl

/-- Inside the data a read does not depend on what stands behind it. -/
theorem byte_eq_getElem {offset : ℕ} (h : offset < skb.data.length) :
    skb.byte offset = skb.data[offset] := by
  simp [byte, List.getD, h]

theorem copy_eq_take_drop {offset count : ℕ}
    (h : offset + count ≤ skb.data.length) :
    skb.copy offset count = (skb.data.drop offset).take count := by
  apply List.ext_getElem
  · simp
    omega
  · intro i hleft _
    have hi : i < count := by simpa using hleft
    simp [copy, byte_eq_getElem skb (show offset + i < skb.data.length by omega)]

end SkBuff

end KtcpSplit.Packet
