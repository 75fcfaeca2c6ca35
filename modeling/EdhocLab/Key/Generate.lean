import EdhocLab.Key.Basic

/-! # Generated keys

Fresh keys are taken from a deterministic stream of blocks, so that every run can be repeated.
-/
namespace EdhocLab

/-- A stream of blocks of 32 bytes: given ones first, then hashes of a seed and a counter. -/
structure Entropy where
  blocks : List Bytes
  seed : Nat
  counter : Nat
  deriving DecidableEq

namespace Entropy

def next (source : Entropy) : Bytes × Entropy :=
  match source.blocks with
  | block :: blocks => (block, { source with blocks })
  | [] =>
    (Digest.Sha256.digest (Bytes.ofNatBE 8 source.seed ++ Bytes.ofNatBE 8 source.counter),
      { source with counter := source.counter + 1 })

end Entropy

namespace KeyPair

/-- The key pair of the first block that holds a private key, among the next `tries` blocks. -/
def firstValid (curve : Curve) : (tries : Nat) → Entropy → Option (KeyPair × Entropy)
  | 0, _ => none
  | tries + 1, source =>
    let (block, source) := source.next
    match ofPrivate? curve block with
    | some pair => some (pair, source)
    | none => firstValid curve tries source

theorem publicKey?_one :
    (SecretKey.p256 { val := 1, pos := by decide, lt := by decide }).publicKey? =
      some (.p256 { x := Curve.P256.base.x, y := Curve.P256.base.y
                    x_lt := by decide, y_lt := by decide, on_curve := by decide }) := by
  decide +kernel

/-- The key pair with the smallest private key, for a stream without any usable block. -/
def last (curve : Curve) : KeyPair :=
  match curve with
  | .x25519 => { secret := .x25519 (Bytes.ofNatLE 32 1), publicKey := _, derived := rfl }
  | .ed25519 => { secret := .ed25519 (Bytes.ofNatLE 32 1), publicKey := _, derived := rfl }
  | .p256 =>
    { secret := .p256 { val := 1, pos := by decide, lt := by decide }
      publicKey := .p256
        { x := Curve.P256.base.x, y := Curve.P256.base.y
          x_lt := by decide, y_lt := by decide, on_curve := by decide }
      derived := publicKey?_one }

/-- How many hashed blocks are tried; all but one in `2 ^ 32` of them hold a private key. -/
def maxTries : Nat := 64

/-- A fresh key pair and the rest of the stream. -/
def generate (curve : Curve) (source : Entropy) : KeyPair × Entropy :=
  (firstValid curve (source.blocks.length + maxTries) source).getD (last curve, source)

end KeyPair

end EdhocLab
