import EdhocLab.Cbor.Encode

/-! # Order of data items

The order in which a map keeps its keys: by major type, then by magnitude or length, then by the
bytes of the item.  Tags have a major type of their own, but since they are not written, values that
only differ in their numbers or inside of other values count as one.
-/
namespace EdhocLab.Cbor

/-- Lexicographic order of byte strings. -/
def compareBytes : Bytes → Bytes → Ordering
  | [], [] => .eq
  | [], _ :: _ => .lt
  | _ :: _, [] => .gt
  | a :: as, b :: bs => (compare a.toNat b.toNat).then (compareBytes as bs)

/-- What decides the order of a value. -/
structure SortKey where
  major : Nat
  size : Nat
  bytes : Bytes
  deriving DecidableEq

def SortKey.compare (a b : SortKey) : Ordering :=
  (Ord.compare a.major b.major).then
    ((Ord.compare a.size b.size).then (compareBytes a.bytes b.bytes))

namespace Value

def sortKey : Value → SortKey
  | .integer (.ofNat n) => ⟨0, n, []⟩
  | .integer (.negSucc n) => ⟨1, n, []⟩
  | .bytes b => ⟨2, b.length, b⟩
  | .text s => ⟨3, (Bytes.ofText s).length, Bytes.ofText s⟩
  | .array items => ⟨4, items.length, encodeItems items⟩
  | .map entries => ⟨5, entries.length, encodeEntries entries⟩
  | .bool b => ⟨7, 0, (Value.bool b).encode⟩
  | .null => ⟨7, 0, Value.null.encode⟩
  | .float bits => ⟨7, 0, encodeFloat bits⟩
  | .tag _ content => ⟨6, 0, content.encode⟩

def compare (a b : Value) : Ordering := a.sortKey.compare b.sortKey

/-- Whether two values are one key. -/
def isSame (a b : Value) : Bool := (a.compare b).isEq

/-- Adds an entry to a map in key order, in place of an entry with the same key. -/
def insertEntry (key value : Value) : List (Value × Value) → List (Value × Value)
  | [] => [(key, value)]
  | (k, v) :: rest =>
    match key.compare k with
    | .lt => (key, value) :: (k, v) :: rest
    | .eq => (k, value) :: rest
    | .gt => (k, v) :: insertEntry key value rest

/-- The entries in key order; of entries with one key the last counts. -/
def ofEntries (entries : List (Value × Value)) : List (Value × Value) :=
  entries.foldl (fun sorted (k, v) => insertEntry k v sorted) []

end Value

end EdhocLab.Cbor
