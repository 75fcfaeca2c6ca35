import EdhocLab.Bytes

/-! # The replay window

A sliding window over received sequence numbers: the highest one and a bit for each of the
numbers below it.  Numbers that fell out of the window are refused like repeated ones.
-/
namespace EdhocLab.Oscore

structure ReplayWindow where
  /-- How far behind the highest number another one may be. -/
  size : Nat
  highest : Option Nat
  /-- Bit `i` stands for the number `i` below the highest one. -/
  seen : BitVec 64
  deriving DecidableEq

namespace ReplayWindow

/-- The number of bits, the largest possible size. -/
def maxSize : Nat := 64

/-- A window that has seen nothing. -/
def ofSize (size : Nat) : ReplayWindow :=
  { size := min size maxSize, highest := none, seen := 0 }

/-- The bits after the highest number grew, all gone once it grew by their number. -/
def slide (window : ReplayWindow) (distance : Nat) : BitVec 64 :=
  if maxSize ≤ distance then 0 else window.seen <<< distance

/-- The window after a new sequence number, `none` for a repeated or old one. -/
def accept? (window : ReplayWindow) (n : Nat) : Option ReplayWindow :=
  match window.highest with
  | none => some { window with highest := some n, seen := 1 }
  | some highest =>
    if highest < n then
      some { window with highest := some n, seen := window.slide (n - highest) ||| 1 }
    else
      let age := highest - n
      if window.size ≤ age ∨ window.seen.getLsbD age then none
      else some { window with seen := window.seen ||| (1 <<< age) }

end ReplayWindow

end EdhocLab.Oscore
