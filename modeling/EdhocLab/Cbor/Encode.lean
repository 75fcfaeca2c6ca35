import EdhocLab.Cbor.Value

/-! # Encoding of data items

The preferred encoding: heads of the shortest length, definite lengths, floats in the smallest
format that holds their value.  Of a tagged value only the content is written.  `encode` is total:
numbers beyond 64 bits, for which the format has no head, get one that no decoder reads, so that
different numbers never share a head.
-/
namespace EdhocLab.Cbor

/-- Whether the format has a head for a number. -/
def fitsHead (n : Nat) : Bool := decide (n < 2 ^ 64)

/-- The shortest head of an item of the given major type.  What does not fit is written in unary
behind the reserved information 28. -/
def head (major argument : Nat) : Bytes :=
  let first := fun info => UInt8.ofNat (32 * major + info)
  if argument < 24 then [first argument]
  else if argument < 2 ^ 8 then first 24 :: Bytes.ofNatBE 1 argument
  else if argument < 2 ^ 16 then first 25 :: Bytes.ofNatBE 2 argument
  else if argument < 2 ^ 32 then first 26 :: Bytes.ofNatBE 4 argument
  else if fitsHead argument then first 27 :: Bytes.ofNatBE 8 argument
  else first 28 :: (Bytes.zeros argument ++ [1])

def encodeFloat (bits : Nat) : Bytes :=
  if bits = FloatFormat.nan then 0xf9 :: Bytes.ofNatBE 2 0x7e00
  else match FloatFormat.half.narrow? bits with
    | some small => 0xf9 :: Bytes.ofNatBE 2 small
    | none => match FloatFormat.single.narrow? bits with
      | some small => 0xfa :: Bytes.ofNatBE 4 small
      | none => 0xfb :: Bytes.ofNatBE 8 bits

namespace Value

mutual

def encode : Value → Bytes
  | .integer (.ofNat n) => head 0 n
  | .integer (.negSucc n) => head 1 n
  | .bytes b => head 2 b.length ++ b
  | .text s => head 3 (Bytes.ofText s).length ++ Bytes.ofText s
  | .array items => head 4 items.length ++ encodeItems items
  | .map entries => head 5 entries.length ++ encodeEntries entries
  | .bool false => [0xf4]
  | .bool true => [0xf5]
  | .null => [0xf6]
  | .float bits => encodeFloat bits
  | .tag _ content => content.encode

/-- The items one after the other, without an enclosing array. -/
def encodeItems : List Value → Bytes
  | [] => []
  | v :: vs => v.encode ++ encodeItems vs

def encodeEntries : List (Value × Value) → Bytes
  | [] => []
  | (k, v) :: es => k.encode ++ v.encode ++ encodeEntries es

end

end Value

/-- The encoding of a byte string. -/
def encodeBytes (b : Bytes) : Bytes := (Value.bytes b).encode

theorem Value.encodeItems_append (xs ys : List Value) :
    encodeItems (xs ++ ys) = encodeItems xs ++ encodeItems ys := by
  induction xs with
  | nil => rfl
  | cons x xs ih => simp [encodeItems, ih]

/-- Turns the head of an array of at most 23 items into that of the map of its consecutive pairs.
Absent bytes are left alone. -/
def arrayToMap : Bytes → Except Error Bytes
  | [] => .ok []
  | first :: rest =>
    let count := first.toNat % 32
    if count > 23 then .error .tooManyItems
    else .ok (UInt8.ofNat (0xa0 + count / 2) :: rest)

end EdhocLab.Cbor
