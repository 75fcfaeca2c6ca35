import EdhocLab.Curve.Modular
import EdhocLab.Digest.Hmac

/-! # P-256

The curve `y² = x³ - 3x + b` of FIPS 186 with its Diffie-Hellman function and deterministic
signatures over SHA-256.  Nonces are those of RFC 6979, except that the digest seeds their generator
unreduced.  Scalar multiples are computed in Jacobian coordinates.
-/
namespace EdhocLab.Curve.P256

def p : Nat := 2 ^ 256 - 2 ^ 224 + 2 ^ 192 + 2 ^ 96 - 1

/-- The order of the base point. -/
def order : Nat := 0xffffffff00000000ffffffffffffffffbce6faada7179e84f3b9cac2fc632551

def b : Nat := 0x5ac635d8aa3a93e7b3ebbd55769886bc651d06b0cc53b0f63bce3c3e27d2604b

def mul (a b : Nat) : Nat := a * b % p
def add (a b : Nat) : Nat := (a + b) % p
def sub (a b : Nat) : Nat := subMod p a b

/-- `x³ - 3x + b`. -/
def cubic (x : Nat) : Nat := add (sub (mul (mul x x) x) (mul 3 x)) b

/-- A point other than the neutral one. -/
structure Point where
  x : Nat
  y : Nat
  x_lt : x < p
  y_lt : y < p
  on_curve : mul y y = cubic x
  deriving DecidableEq

/-- The point `(x / z², y / z³)`, or the neutral one if `z` is zero. -/
structure Jacobian where
  x : Nat
  y : Nat
  z : Nat

namespace Jacobian

def zero : Jacobian := { x := 1, y := 1, z := 0 }

def ofPoint (a : Point) : Jacobian := { x := a.x, y := a.y, z := 1 }

def double (a : Jacobian) : Jacobian :=
  let yy := mul a.y a.y
  let zz := mul a.z a.z
  let s := mul 4 (mul a.x yy)
  let m := mul 3 (mul (sub a.x zz) (P256.add a.x zz))
  let x := sub (mul m m) (P256.add s s)
  { x, y := sub (mul m (sub s x)) (mul 8 (mul yy yy)), z := mul 2 (mul a.y a.z) }

def add (a b : Jacobian) : Jacobian :=
  if a.z = 0 then b
  else if b.z = 0 then a
  else
    let aa := mul a.z a.z
    let bb := mul b.z b.z
    let u := mul a.x bb
    let h := sub (mul b.x aa) u
    let s := mul a.y (mul b.z bb)
    let r := sub (mul b.y (mul a.z aa)) s
    if h = 0 then if r = 0 then double a else zero
    else
      let hh := mul h h
      let hhh := mul h hh
      let v := mul u hh
      let x := sub (sub (mul r r) hhh) (P256.add v v)
      { x, y := sub (mul r (sub v x)) (mul s hhh), z := mul h (mul a.z b.z) }

/-- The multiple by a scalar below `2 ^ 256`. -/
def scale (scalar : Nat) (a : Jacobian) : Jacobian :=
  (bitsDown 256 scalar).foldl
    (fun sum bit => if bit then sum.double.add a else sum.double) zero

/-- The affine coordinates, zero for the neutral point. -/
def affine (a : Jacobian) : Nat × Nat :=
  let inv := invMod p a.z
  let inv2 := mul inv inv
  (mul a.x inv2, mul a.y (mul inv inv2))

end Jacobian

def base : Jacobian :=
  { x := 0x6b17d1f2e12c4247f8bce6e563a440f277037d812deb33a0f4a13945d898c296
    y := 0x4fe342e2fe1a7f9b8ee7eb4a7c0f9e162bce33576b315ececbb6406837bf51f5
    z := 1 }

/-- The point with the given coordinates, if there is one. -/
def point? (x y : Nat) : Option Point :=
  if h : x < p ∧ y < p ∧ mul y y = cubic x then
    some { x, y, x_lt := h.1, y_lt := h.2.1, on_curve := h.2.2 }
  else none

/-- The points with the given `x` coordinate whose `y` coordinates are the root and its negative, that
with the even one first. -/
def ofRoot (x root : Nat) : Option (Point × Point) :=
  let other := sub 0 root
  let (even, odd) := if root % 2 = 0 then (root, other) else (other, root)
  match point? x even, point? x odd with
  | some even, some odd => some (even, odd)
  | _, _ => none

/-- The points with the given `x` coordinate, that with the even `y` coordinate first. -/
def lift (x : Nat) : Option (Point × Point) :=
  ofRoot x (powMod p 256 (cubic x) ((p + 1) / 4))

/-- The point of a SEC1 encoding: compressed (tags 2 and 3), uncompressed (tag 4) or compact
(tag 5), which stands for the point with the smaller `y` coordinate. -/
def decode (encoded : Bytes) : Option Point :=
  match encoded with
  | [] => none
  | tag :: rest =>
    let x := Bytes.natOfBE (rest.take 32)
    if rest.length = 32 ∧ tag = 2 then (lift x).map (·.1)
    else if rest.length = 32 ∧ tag = 3 then (lift x).map (·.2)
    else if rest.length = 32 ∧ tag = 5 then
      (lift x).map fun (even, odd) => if even.y < odd.y then even else odd
    else if rest.length = 64 ∧ tag = 4 then point? x (Bytes.natOfBE (rest.drop 32))
    else none

/-- A secret scalar. -/
structure Scalar where
  val : Nat
  pos : 0 < val
  lt : val < order
  deriving DecidableEq

/-- The secret scalar that the bytes hold, if it is one. -/
def scalar? (secret : Bytes) : Option Scalar :=
  let n := Bytes.natOfBE secret
  if h : secret.length = 32 ∧ 0 < n ∧ n < order then some { val := n, pos := h.2.1, lt := h.2.2 }
  else none

def publicPoint (secret : Scalar) : Option Point :=
  let (x, y) := (base.scale secret.val).affine
  point? x y

/-- The shared secret: the `x` coordinate of the multiple of the peer's point. -/
def exchange (secret : Scalar) (peer : Point) : Bytes :=
  Bytes.ofNatBE 32 ((Jacobian.ofPoint peer).scale secret.val).affine.1

/-- The scalar that stands for a message of the given digest. -/
def digestScalar (digest : Bytes) : Nat := Bytes.natOfBE digest % order

/-- The generator of signature nonces: a key and a value that are hashed onwards. -/
structure NonceState where
  key : Bytes
  value : Bytes

def NonceState.update (s : NonceState) (data : Bytes) : NonceState :=
  let key := Digest.hmac s.key (s.value ++ data)
  { key, value := Digest.hmac key s.value }

/-- The first `tries` candidates that the generator yields. -/
def NonceState.candidates (s : NonceState) : (tries : Nat) → List Nat
  | 0 => []
  | tries + 1 =>
    let value := Digest.hmac s.key s.value
    Bytes.natOfBE value :: ({ s with value }.update [0]).candidates tries

/-- The generator for the signature of a message of the given digest.  It is seeded with the digest
itself, which is not reduced modulo the order. -/
def nonceState (secret : Nat) (digest : Bytes) : NonceState :=
  let seed := Bytes.ofNatBE 32 secret ++ digest
  let start : NonceState := { key := Bytes.zeros 32, value := List.replicate 32 1 }
  (start.update (0 :: seed)).update (1 :: seed)

/-- The pair `(r, s)` for one nonce, unless one of them is zero. -/
def signWith (secret z nonce : Nat) : Option (Nat × Nat) :=
  let r := (base.scale nonce).affine.1 % order
  let s := invMod order nonce * (z + r * secret) % order
  if 0 < nonce ∧ nonce < order ∧ r ≠ 0 ∧ s ≠ 0 then some (r, s) else none

/-- How many nonce candidates are tried; all but one in `2 ^ 32` candidates serve. -/
def maxTries : Nat := 64

/-- The nonces that are tried last; one of them serves for every message. -/
def lastNonces : List Nat := [1, 2]

/-- A signature as it is sent, `r` followed by `s`. -/
def encodeSignature (signature : Nat × Nat) : Bytes :=
  Bytes.ofNatBE 32 signature.1 ++ Bytes.ofNatBE 32 signature.2

@[simp] theorem length_encodeSignature (signature : Nat × Nat) :
    (encodeSignature signature).length = 64 := by
  simp [encodeSignature]

/-- The first pair that a nonce yields. -/
def signature? (secret : Scalar) (digest : Bytes) : Option (Nat × Nat) :=
  ((nonceState secret.val digest).candidates maxTries ++ lastNonces).findSome?
    (signWith secret.val (digestScalar digest))

/-- The signature of a message. -/
def sign (secret : Scalar) (message : Bytes) : Bytes :=
  encodeSignature ((signature? secret (Digest.Sha256.digest message)).getD (0, 0))

theorem length_sign (secret : Scalar) (message : Bytes) : (sign secret message).length = 64 :=
  length_encodeSignature _

/-- Whether the signature is one of the message under the public point. -/
def verify (key : Point) (message signature : Bytes) : Bool :=
  let r := Bytes.natOfBE (signature.take 32)
  let s := Bytes.natOfBE (signature.drop 32)
  let inv := invMod order s
  let u := digestScalar (Digest.Sha256.digest message) * inv % order
  let v := r * inv % order
  let sum := (base.scale u).add ((Jacobian.ofPoint key).scale v)
  signature.length == 64 && decide (0 < r ∧ r < order ∧ 0 < s ∧ s < order) &&
    sum.z != 0 && sum.affine.1 % order == r

end EdhocLab.Curve.P256
