import KtcpSplit.Core.ConnKey
import Mathlib.Data.BitVec

/-!
# Addresses as numbers

The code keeps a `__be32` in an integer and compares, converts and passes it on as a
number.  Which number four bytes in memory are depends on the byte order of the host.
-/

namespace KtcpSplit.Endian

open KtcpSplit.ConnKey

inductive ByteOrder
  | little
  | big
  deriving DecidableEq

/-- Byte `i` of a number, the least significant one first. -/
def octet (value : BitVec 32) (i : ℕ) : Byte := Fin.ofNat 256 (value.toNat / 256 ^ i)

/-- The number whose bytes stand in memory. -/
def load : ByteOrder → Be32 → BitVec 32
  | .little, ⟨b0, b1, b2, b3⟩ =>
      BitVec.ofNat 32 (b0 + b1 * 256 + b2 * 256 ^ 2 + b3 * 256 ^ 3)
  | .big, ⟨b0, b1, b2, b3⟩ =>
      BitVec.ofNat 32 (b0 * 256 ^ 3 + b1 * 256 ^ 2 + b2 * 256 + b3)

def store : ByteOrder → BitVec 32 → Be32
  | .little, value => ⟨octet value 0, octet value 1, octet value 2, octet value 3⟩
  | .big, value => ⟨octet value 3, octet value 2, octet value 1, octet value 0⟩

/-- The number that has its bytes in network order in memory. -/
def htonl (order : ByteOrder) (value : BitVec 32) : BitVec 32 := load order (store .big value)

example : htonl .little 0x0a000001 = 0x0100000a := by decide

theorem store_load (order : ByteOrder) (value : Be32) : store order (load order value) = value := by
  obtain ⟨⟨b0, h0⟩, ⟨b1, h1⟩, ⟨b2, h2⟩, ⟨b3, h3⟩⟩ := value
  cases order <;>
    simp only [store, load, octet, BitVec.toNat_ofNat, Be32.mk.injEq, Fin.ext_iff,
      Fin.val_ofNat] <;>
    omega

end KtcpSplit.Endian
