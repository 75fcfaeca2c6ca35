import EdhocLab.Cbor.Value

/-! # Connection identifiers as data items

An identifier of one byte that is itself the encoding of a small integer travels as that integer,
every other one as a byte string.  The empty identifier has no form.
-/
namespace EdhocLab.Cbor.Identifier

/-- Whether a byte is the encoding of an integer between `-24` and `23`. -/
def isIntegerByte (b : UInt8) : Bool := b ≤ 23 || (32 ≤ b && b ≤ 55)

/-- How an identifier is sent. -/
def toValue? : Bytes → Option Value
  | [] => none
  | [b] =>
    if b ≤ 23 then some (.integer b.toNat)
    else if isIntegerByte b then some (.integer (31 - b.toNat))
    else some (.bytes [b])
  | id => some (.bytes id)

/-- The identifier that was sent; a byte string in place of an integer is refused. -/
def ofValue? : Value → Option Bytes
  | .bytes [b] => if isIntegerByte b then none else some [b]
  | .bytes id => some id
  | .integer n =>
    if 0 ≤ n ∧ n ≤ 23 then some [UInt8.ofNat n.toNat]
    else if -24 ≤ n ∧ n ≤ -1 then some [UInt8.ofNat (31 - n).toNat]
    else none
  | _ => none

end EdhocLab.Cbor.Identifier
