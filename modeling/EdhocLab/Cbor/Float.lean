import EdhocLab.Bytes

/-! # Binary floating point formats

Half, single and double precision as bit patterns.  Widening to double precision is exact;
narrowing succeeds only for values that the smaller format holds exactly.
-/
namespace EdhocLab.Cbor

/-- A binary interchange format by the widths of its two fields. -/
structure FloatFormat where
  exponentBits : Nat
  fractionBits : Nat
  deriving DecidableEq, Repr

namespace FloatFormat

def half : FloatFormat := ⟨5, 10⟩
def single : FloatFormat := ⟨8, 23⟩
def double : FloatFormat := ⟨11, 52⟩

/-- The largest exponent field, that of infinities and NaNs. -/
def special (f : FloatFormat) : Nat := 2 ^ f.exponentBits - 1

def bias (f : FloatFormat) : Nat := 2 ^ (f.exponentBits - 1) - 1

def sign (f : FloatFormat) (bits : Nat) : Nat := bits / 2 ^ (f.exponentBits + f.fractionBits) % 2

def exponent (f : FloatFormat) (bits : Nat) : Nat :=
  bits / 2 ^ f.fractionBits % 2 ^ f.exponentBits

def fraction (f : FloatFormat) (bits : Nat) : Nat := bits % 2 ^ f.fractionBits

/-- The pattern with the given fields. -/
def pack (f : FloatFormat) (sign exponent fraction : Nat) : Nat :=
  (sign * 2 ^ f.exponentBits + exponent) * 2 ^ f.fractionBits + fraction

/-- The one pattern that stands for every NaN. -/
def nan : Nat := double.pack 0 double.special (2 ^ 51)

/-- The double precision pattern of the same value. -/
def widen (f : FloatFormat) (bits : Nat) : Nat :=
  let s := f.sign bits
  let e := f.exponent bits
  let m := f.fraction bits
  if e = f.special then if m = 0 then double.pack s double.special 0 else nan
  else if e = 0 then
    if m = 0 then double.pack s 0 0
    else if f = double then bits
    else
      -- The leading bit of a subnormal fraction becomes the implicit one.
      let k := m.log2
      double.pack s (k + 1 + double.bias - f.bias - f.fractionBits) ((m - 2 ^ k) * 2 ^ (52 - k))
  else double.pack s (e + double.bias - f.bias) (m * 2 ^ (52 - f.fractionBits))

/-- The nearest pattern towards zero of a double precision pattern within range. -/
def truncate (f : FloatFormat) (bits : Nat) : Nat :=
  let s := double.sign bits
  let e := double.exponent bits
  let m := double.fraction bits
  if e = double.special then f.pack s f.special 0
  else if double.bias < e + f.bias then
    f.pack s (e + f.bias - double.bias) (m / 2 ^ (52 - f.fractionBits))
  else
    f.pack s 0 ((2 ^ 52 + m) / 2 ^ (52 - f.fractionBits + 1 + (double.bias - e - f.bias)))

/-- The pattern in the smaller format, if it holds the value exactly. -/
def narrow? (f : FloatFormat) (bits : Nat) : Option Nat :=
  let small := f.truncate bits
  if f.widen small = bits then some small else none

theorem widen_of_narrow? {f : FloatFormat} {bits small : Nat} (h : f.narrow? bits = some small) :
    f.widen small = bits := by
  by_cases hw : f.widen (f.truncate bits) = bits
  · have hs : f.truncate bits = small := by simpa [narrow?, hw] using h
    rw [← hs, hw]
  · simp [narrow?, hw] at h

end FloatFormat

end EdhocLab.Cbor
