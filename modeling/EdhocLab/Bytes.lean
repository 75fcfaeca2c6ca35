/-! # Byte strings

Byte strings are lists, so that every message, key and digest of the protocol is reasoned about
with the list library.  Numbers are written with a fixed width, in either byte order.
-/
namespace EdhocLab

-- A power of a number is the core library's, also in the files that see the powers of monoids.
attribute [instance(high), default_instance 20000] instPowNat

abbrev Bytes := List UInt8

namespace Bytes

/-- The number with the given little-endian digits. -/
def natOfLE : Bytes → Nat
  | [] => 0
  | b :: bs => b.toNat + 256 * natOfLE bs

/-- The `width` lowest digits of a number, least significant first. -/
def ofNatLE : (width : Nat) → Nat → Bytes
  | 0, _ => []
  | width + 1, n => UInt8.ofNat (n % 256) :: ofNatLE width (n / 256)

def natOfBE (bs : Bytes) : Nat := natOfLE bs.reverse

def ofNatBE (width n : Nat) : Bytes := (ofNatLE width n).reverse

/-- The bytewise exclusive or, as long as the shorter operand. -/
def xor (a b : Bytes) : Bytes := List.zipWith (· ^^^ ·) a b

def zeros (n : Nat) : Bytes := List.replicate n 0

/-- Zeros in front of `bs` up to `width` bytes. -/
def padLeft (width : Nat) (bs : Bytes) : Bytes := zeros (width - bs.length) ++ bs

/-- The last `n` bytes, or all of them if there are fewer. -/
def takeLast (n : Nat) (bs : Bytes) : Bytes := bs.drop (bs.length - n)

/-- The UTF-8 bytes of a text. -/
def ofText (s : String) : Bytes := s.toUTF8.toList

@[simp] theorem length_ofNatLE (width n : Nat) : (ofNatLE width n).length = width := by
  induction width generalizing n with
  | zero => rfl
  | succ width ih => simp [ofNatLE, ih]

@[simp] theorem length_ofNatBE (width n : Nat) : (ofNatBE width n).length = width := by
  simp [ofNatBE]

theorem natOfLE_ofNatLE (width n : Nat) : natOfLE (ofNatLE width n) = n % 256 ^ width := by
  induction width generalizing n with
  | zero => simp [ofNatLE, natOfLE, Nat.mod_one]
  | succ width ih =>
    have hb : (UInt8.ofNat (n % 256)).toNat = n % 256 := by simp
    rw [ofNatLE, natOfLE, ih, hb, Nat.pow_succ, Nat.mul_comm (256 ^ width), Nat.mod_mul]

theorem natOfBE_ofNatBE (width n : Nat) : natOfBE (ofNatBE width n) = n % 256 ^ width := by
  simp [natOfBE, ofNatBE, natOfLE_ofNatLE]

end Bytes

end EdhocLab
