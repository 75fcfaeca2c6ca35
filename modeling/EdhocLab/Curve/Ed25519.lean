import EdhocLab.Curve.Modular
import EdhocLab.Digest.Sha512

/-! # Ed25519

The signatures of RFC 8032 on the twisted Edwards curve `-x² + y² = 1 + d x² y²`.  Points are kept
in extended coordinates, whose addition law is complete and serves doubling as well.
Verification compares encodings and does not clear the cofactor.
-/
namespace EdhocLab.Curve.Ed25519

def p : Nat := 2 ^ 255 - 19

/-- The order of the base point. -/
def order : Nat := 2 ^ 252 + 27742317777372353535851937790883648493

def d : Nat := 37095705934669439343138083508754565189542113879843219016388785533085940283555

/-- A square root of minus one. -/
def sqrtMinusOne : Nat :=
  19681161376707505956807079304988542015446066515923890162744021073123829784752

def mul (a b : Nat) : Nat := a * b % p
def add (a b : Nat) : Nat := (a + b) % p
def sub (a b : Nat) : Nat := subMod p a b

/-- The point `(x / z, y / z)`, with `t = x y / z`. -/
structure Point where
  x : Nat
  y : Nat
  z : Nat
  t : Nat

def zero : Point := { x := 0, y := 1, z := 1, t := 0 }

def ofAffine (x y : Nat) : Point := { x, y, z := 1, t := mul x y }

def base : Point :=
  ofAffine 15112221349535400772501151409588531511454012693041857206046113283949847762202
    46316835694926478169428394003475163141307993866256225615783033603165251855960

namespace Point

def add (a b : Point) : Point :=
  let m := mul (sub a.y a.x) (sub b.y b.x)
  let n := mul (Ed25519.add a.y a.x) (Ed25519.add b.y b.x)
  let c := mul (mul a.t (2 * d % p)) b.t
  let z := mul (2 * a.z) b.z
  let e := sub n m
  let f := sub z c
  let g := Ed25519.add z c
  let h := Ed25519.add n m
  { x := mul e f, y := mul g h, z := mul f g, t := mul e h }

def neg (a : Point) : Point := { a with x := sub 0 a.x, t := sub 0 a.t }

/-- The multiple by a scalar below `2 ^ 256`. -/
def scale (scalar : Nat) (a : Point) : Point :=
  (bitsDown 256 scalar).foldl
    (fun sum bit => if bit then (sum.add sum).add a else sum.add sum) zero

/-- The `y` coordinate, with the lowest bit of `x` as the topmost bit. -/
def encode (a : Point) : Bytes :=
  let inv := invMod p a.z
  Bytes.ofNatLE 32 (mul a.y inv + mul a.x inv % 2 * 2 ^ 255)

end Point

/-- The even square root of `u / v` that a candidate leads to. -/
def rootOf (u v candidate : Nat) : Option Nat :=
  let check := mul v (mul candidate candidate)
  let root :=
    if check = u then some candidate
    else if check = sub 0 u then some (mul candidate sqrtMinusOne)
    else none
  root.map fun r => if r % 2 = 0 then r else sub 0 r

/-- The even square root of `u / v`, if there is one. -/
def sqrtRatio (u v : Nat) : Option Nat :=
  let v3 := mul (mul v v) v
  let v7 := mul (mul v3 v3) v
  rootOf u v (mul (mul u v3) (powMod p 256 (mul u v7) ((p - 5) / 8)))

/-- The point of an encoding; its `y` coordinate is taken modulo `p`. -/
def decode (encoded : Bytes) : Option Point :=
  let n := Bytes.natOfLE encoded
  let y := n % 2 ^ 255 % p
  let yy := mul y y
  (sqrtRatio (sub yy 1) (add (mul d yy) 1)).map fun x =>
    ofAffine (if n.testBit 255 then sub 0 x else x) y

/-- The scalar of a digest. -/
def digestScalar (input : Bytes) : Nat := Bytes.natOfLE (Digest.Sha512.digest input) % order

/-- The secret scalar of a seed, and the key of its nonces. -/
def expandSeed (seed : Bytes) : Nat × Bytes :=
  let h := Digest.Sha512.digest seed
  (Bytes.natOfLE (h.take 32) % 2 ^ 254 / 8 * 8 + 2 ^ 254, h.drop 32)

def publicKey (seed : Bytes) : Bytes := (base.scale (expandSeed seed).1).encode

/-- The signature of a message under the seed, whose public key is `encoded`. -/
def sign (seed encoded message : Bytes) : Bytes :=
  let (a, nonceKey) := expandSeed seed
  let r := digestScalar (nonceKey ++ message)
  let commitment := (base.scale r).encode
  let k := digestScalar (commitment ++ encoded ++ message)
  commitment ++ Bytes.ofNatLE 32 ((r + k * a) % order)

/-- Whether the signature is one of the message under the public key. -/
def verify (encoded message signature : Bytes) : Bool :=
  let commitment := signature.take 32
  let s := Bytes.natOfLE (signature.drop 32)
  let k := digestScalar (commitment ++ encoded ++ message)
  (decode encoded).any fun a =>
    signature.length == 64 && decide (s < order) &&
      ((base.scale s).add (a.neg.scale k)).encode == commitment

@[simp] theorem Point.length_encode (a : Point) : a.encode.length = 32 := by
  simp [Point.encode]

@[simp] theorem length_publicKey (seed : Bytes) : (publicKey seed).length = 32 := by
  simp [publicKey]

@[simp] theorem length_sign (seed encoded message : Bytes) :
    (sign seed encoded message).length = 64 := by
  simp [sign]

end EdhocLab.Curve.Ed25519
