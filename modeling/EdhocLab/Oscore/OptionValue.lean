import EdhocLab.Bytes

/-! # The value of the OSCORE option

A flag byte announces a partial IV, a key identifier context and a key identifier, which follow
in this order.  A value too short for its flags is read as one without any part.
-/
namespace EdhocLab.Oscore

structure OptionValue where
  piv : Option Bytes
  kidContext : Option Bytes
  kid : Option Bytes
  deriving DecidableEq, Repr

namespace OptionValue

/-- The value without any part. -/
def empty : OptionValue := { piv := none, kidContext := none, kid := none }

/-- The flag byte: length of the partial IV, then the flags of the two other parts. -/
def flags (value : OptionValue) : Nat :=
  (value.piv.elim 0 fun piv => piv.length % 8) + (if value.kidContext.isSome then 16 else 0) +
    (if value.kid.isSome then 8 else 0)

/-- The encoded value, nothing at all if no flag is set and no part follows. -/
def encode (value : OptionValue) : Bytes :=
  let parts := value.piv.getD [] ++
    (value.kidContext.elim [] fun context => UInt8.ofNat context.length :: context) ++
    value.kid.getD []
  if value.flags = 0 ∧ parts = [] then [] else UInt8.ofNat value.flags :: parts

/-- The key identifier context and what follows it, `none` if the value is too short. -/
def readContext (present : Bool) (bs : Bytes) : Option (Option Bytes × Bytes) :=
  if present then
    match bs with
    | [] => none
    | length :: rest =>
      if length.toNat ≤ rest.length then
        some (some (rest.take length.toNat), rest.drop length.toNat)
      else none
  else some (none, bs)

/-- The parts behind a flag byte, `none` if the value is too short. -/
def readParts (flags : Nat) (bs : Bytes) : Option OptionValue :=
  let length := flags % 8
  if bs.length < length then none
  else
    (readContext (flags / 16 % 2 == 1) (bs.drop length)).map fun (kidContext, rest) =>
      { piv := if length = 0 then none else some (bs.take length)
        kidContext
        kid := if flags / 8 % 2 = 1 then some rest else none }

def decode : Bytes → OptionValue
  | [] => empty
  | flags :: bs => (readParts flags.toNat bs).getD empty

end OptionValue

end EdhocLab.Oscore
