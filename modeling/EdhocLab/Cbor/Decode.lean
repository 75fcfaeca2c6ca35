import EdhocLab.Cbor.Order

/-! # Decoding of data items

Any well-formed encoding is read: heads need not be the shortest, lengths may be indefinite, tags
are dropped.  Containers and tags nest at most 127 deep, which is also what the decoder recurses
on.  No string or container is longer than a head can tell, whether its length is announced or
not.
-/
namespace EdhocLab.Cbor

/-- What follows the major type in a head. -/
inductive Argument
  | definite (n : Nat)
  | indefinite
  deriving DecidableEq, Repr

/-- The first `n` bytes and the rest, if there are that many. -/
def splitExact (n : Nat) (bs : Bytes) : Option (Bytes × Bytes) :=
  if n ≤ bs.length then some (bs.take n, bs.drop n) else none

/-- Additional information, argument and rest of the bytes after the first one of a head. -/
def readArgument (info : Nat) (bs : Bytes) : Option (Argument × Bytes) :=
  if info < 24 then some (.definite info, bs)
  else if info < 28 then
    (splitExact (2 ^ (info - 24)) bs).map fun (digits, rest) =>
      (.definite (Bytes.natOfBE digits), rest)
  else if info = 31 then some (.indefinite, bs)
  else none

/-- Exactly `count` results of a reader. -/
def readMany {α : Type} (read : Bytes → Option (α × Bytes)) :
    (count : Nat) → Bytes → Option (List α × Bytes)
  | 0, bs => some ([], bs)
  | count + 1, bs => do
    let (x, rest) ← read bs
    let (xs, rest) ← readMany read count rest
    return (x :: xs, rest)

/-- Results of a reader up to a break, at most `limit` of them. -/
def readUntilBreak {α : Type} (read : Bytes → Option (α × Bytes)) :
    (limit : Nat) → Bytes → Option (List α × Bytes)
  | 0, _ => none
  | limit + 1, bs =>
    match bs with
    | 0xff :: rest => some ([], rest)
    | _ => do
      let (x, rest) ← read bs
      let (xs, rest) ← readUntilBreak read limit rest
      return (x :: xs, rest)

/-- As many results of a reader as the argument of a container announces. -/
def readItems {α : Type} (read : Bytes → Option (α × Bytes)) (argument : Argument) (bs : Bytes) :
    Option (List α × Bytes) :=
  match argument with
  | .definite n => readMany read n bs
  | .indefinite => (readUntilBreak read bs.length bs).filter fun (items, _) => fitsHead items.length

/-- A definite string of the given major type, a chunk of an indefinite one. -/
def readChunk (major : Nat) : Bytes → Option (Bytes × Bytes)
  | [] => none
  | first :: bs => do
    if first.toNat / 32 ≠ major then none
    match ← readArgument (first.toNat % 32) bs with
    | (.definite n, rest) => splitExact n rest
    | (.indefinite, _) => none

/-- The content of a string of the given major type, after its head. -/
def readString (major : Nat) (argument : Argument) (bs : Bytes) : Option (Bytes × Bytes) :=
  match argument with
  | .definite n => splitExact n bs
  | .indefinite =>
    ((readUntilBreak (readChunk major) bs.length bs).map fun (chunks, rest) =>
      (chunks.flatten, rest)).filter fun (content, _) => fitsHead content.length

/-- The text with the given UTF-8 bytes. -/
def text? (b : Bytes) : Option String := String.fromUTF8? b.toByteArray

def readPair (read : Bytes → Option (Value × Bytes)) (bs : Bytes) :
    Option ((Value × Value) × Bytes) := do
  let (k, rest) ← read bs
  let (v, rest) ← read rest
  return ((k, v), rest)

/-- An item whose head has major type seven. -/
def simple (info : Nat) (argument : Argument) : Option Value :=
  match info, argument with
  | 20, _ => some (.bool false)
  | 21, _ => some (.bool true)
  | 22, _ => some .null
  | 23, _ => some .null
  | 25, .definite bits => some (.float (FloatFormat.half.widen bits))
  | 26, .definite bits => some (.float (FloatFormat.single.widen bits))
  | 27, .definite bits => some (.float (FloatFormat.double.widen bits))
  | _, _ => none

/-- What stands behind a head of the given major type and information.  The content of containers
and tags is read by `nested`, which is absent where no further one may be entered. -/
def readBody (nested : Option (Bytes → Option (Value × Bytes))) (major info : Nat)
    (argument : Argument) (rest : Bytes) : Option (Value × Bytes) :=
  match major, argument, nested with
  | 0, .definite n, _ => some (.integer n, rest)
  | 1, .definite n, _ => some (.integer (Int.negSucc n), rest)
  | 2, _, _ => (readString 2 argument rest).map fun (b, rest) => (.bytes b, rest)
  | 3, _, _ => do
    let (b, rest) ← readString 3 argument rest
    let s ← text? b
    return (.text s, rest)
  | 4, _, some read => (readItems read argument rest).map fun (items, rest) => (.array items, rest)
  | 5, _, some read =>
    (readItems (readPair read) argument rest).map fun (entries, rest) =>
      (.map (Value.ofEntries entries), rest)
  | 6, .definite _, some read => read rest
  | 7, _, _ => (simple info argument).map fun v => (v, rest)
  | _, _, _ => none

/-- The first item in front of the bytes, given the reader of nested items. -/
def readWith (nested : Option (Bytes → Option (Value × Bytes))) : Bytes → Option (Value × Bytes)
  | [] => none
  | first :: bs => do
    let (argument, rest) ← readArgument (first.toNat % 32) bs
    readBody nested (first.toNat / 32) (first.toNat % 32) argument rest

/-- The first item in front of the bytes, with at most `depth` containers and tags around any part
of it, and the bytes after it. -/
def readItem : (depth : Nat) → Bytes → Option (Value × Bytes)
  | 0 => readWith none
  | depth + 1 => readWith (some (readItem depth))

/-- How many containers and tags may surround an item. -/
def maxDepth : Nat := 127

/-- Items up to the end of the bytes, at most `limit` of them. -/
def readSequence : (limit : Nat) → Bytes → Option (List Value)
  | _, [] => some []
  | 0, _ :: _ => none
  | limit + 1, bs => do
    let (v, rest) ← readItem maxDepth bs
    let vs ← readSequence limit rest
    return v :: vs

/-- The items that the bytes are the encodings of. -/
def decodeSequence (bs : Bytes) : Except Error (List Value) :=
  match readSequence bs.length bs with
  | some items => .ok items
  | none => .error .invalid

/-- The first item in front of the bytes and what follows it, or nothing in front of no bytes. -/
def decodeFirst (bs : Bytes) : Except Error (Option (Value × Bytes)) :=
  if bs.isEmpty then .ok none
  else match readItem maxDepth bs with
    | some found => .ok (some found)
    | none => .error .invalid

end EdhocLab.Cbor
