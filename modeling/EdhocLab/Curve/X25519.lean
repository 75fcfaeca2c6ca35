import EdhocLab.Bytes
import EdhocLab.Curve.Modular

/-! # X25519

The Diffie-Hellman function of RFC 7748 on the `u` coordinates of Curve25519.  A Montgomery
ladder keeps the projective `u` coordinates of two multiples that differ by the base point.
-/
namespace EdhocLab.Curve.X25519

def p : Nat := 2 ^ 255 - 19

/-- A projective `u` coordinate; `z = 0` stands for the point at infinity. -/
structure Coordinate where
  x : Nat
  z : Nat

def mul (a b : Nat) : Nat := a * b % p
def add (a b : Nat) : Nat := (a + b) % p
def sub (a b : Nat) : Nat := subMod p a b

def double (a : Coordinate) : Coordinate :=
  let s := add a.x a.z
  let d := sub a.x a.z
  let ss := mul s s
  let dd := mul d d
  let e := sub ss dd
  { x := mul ss dd, z := mul e (add ss (mul 121665 e)) }

/-- The sum of two points whose difference has the affine coordinate `u`. -/
def addDifference (u : Nat) (a b : Coordinate) : Coordinate :=
  let da := mul (sub b.x b.z) (add a.x a.z)
  let cb := mul (add b.x b.z) (sub a.x a.z)
  let s := add da cb
  let d := sub da cb
  { x := mul s s, z := mul u (mul d d) }

/-- One bit of the ladder: `(n, n + 1)` becomes `(2n, 2n + 1)` or `(2n + 1, 2n + 2)`. -/
def step (u : Nat) (low : Coordinate × Coordinate) (bit : Bool) : Coordinate × Coordinate :=
  let sum := addDifference u low.1 low.2
  if bit then (sum, double low.2) else (double low.1, sum)

/-- The affine coordinate of the multiple of the point with coordinate `u`, zero at infinity. -/
def ladder (scalar u : Nat) : Nat :=
  let start : Coordinate × Coordinate := ({ x := 1, z := 0 }, { x := u, z := 1 })
  let result := ((bitsDown 255 scalar).foldl (step u) start).1
  mul result.x (invMod p result.z)

/-- The scalar of a private key: a multiple of eight between `2 ^ 254` and `2 ^ 255`. -/
def clamp (secret : Bytes) : Nat :=
  let n := Bytes.natOfLE secret
  (n % 2 ^ 254) / 8 * 8 + 2 ^ 254

/-- The coordinate sent as a public key; the topmost bit is ignored. -/
def coordinate (u : Bytes) : Nat := Bytes.natOfLE u % 2 ^ 255 % p

/-- The shared secret of a private key and the public key of the peer. -/
def exchange (secret u : Bytes) : Bytes :=
  Bytes.ofNatLE 32 (ladder (clamp secret) (coordinate u))

def publicKey (secret : Bytes) : Bytes := Bytes.ofNatLE 32 (ladder (clamp secret) 9)

@[simp] theorem length_exchange (secret u : Bytes) : (exchange secret u).length = 32 := by
  simp [exchange]

@[simp] theorem length_publicKey (secret : Bytes) : (publicKey secret).length = 32 := by
  simp [publicKey]

end EdhocLab.Curve.X25519
