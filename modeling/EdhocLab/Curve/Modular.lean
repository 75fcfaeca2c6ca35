import EdhocLab.Bytes

/-! # Arithmetic modulo a number

Powers, inverses and bits of natural numbers, for prime fields of a few hundred bits.
-/
namespace EdhocLab.Curve

/-- `b ^ e % m` for an exponent below `2 ^ bits`, by repeated squaring. -/
def powMod (m : Nat) : (bits : Nat) → (b e : Nat) → Nat
  | 0, _, _ => 1 % m
  | bits + 1, b, e =>
    let rest := powMod m bits (b * b % m) (e / 2)
    if e % 2 = 1 then b * rest % m else rest

/-- The inverse modulo a prime of at most 256 bits, zero for zero. -/
def invMod (p a : Nat) : Nat := powMod p 256 a (p - 2)

/-- `a - b` modulo `m`, for `b` below `m`. -/
def subMod (m a b : Nat) : Nat := (a + (m - b)) % m

/-- The `count` lowest bits of a number, most significant first. -/
def bitsDown (count n : Nat) : List Bool :=
  (List.range count).map fun i => n.testBit (count - 1 - i)

end EdhocLab.Curve
