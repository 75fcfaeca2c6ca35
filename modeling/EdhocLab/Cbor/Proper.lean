import EdhocLab.Cbor.Order

/-! # Proper values

A value is proper if it stands for a data item: its integers and lengths fit into a head, its
floats are double precision patterns with a single NaN, and its maps list their keys in order.
Only proper values are encoded, so that two of them share an encoding only if they differ in tags.
-/
namespace EdhocLab.Cbor

/-- Whether a number is a double precision pattern, and not one of the further NaNs. -/
def FloatFormat.isCanonical (bits : Nat) : Bool :=
  decide (bits < 2 ^ 64) &&
    (double.exponent bits != double.special || double.fraction bits == 0 || bits == nan)

namespace Value

/-- Whether the keys of a map ascend strictly. -/
def keysAscend : List (Value × Value) → Bool
  | [] | [_] => true
  | (k, _) :: (l, v) :: rest => (k.compare l).isLT && keysAscend ((l, v) :: rest)

mutual

def isProper : Value → Bool
  | .integer (.ofNat n) => fitsHead n
  | .integer (.negSucc n) => fitsHead n
  | .bytes b => fitsHead b.length
  | .text s => fitsHead (Bytes.ofText s).length
  | .array items => fitsHead items.length && allProper items
  | .map entries => fitsHead entries.length && keysAscend entries && allEntriesProper entries
  | .bool _ => true
  | .null => true
  | .float bits => FloatFormat.isCanonical bits
  | .tag _ content => content.isProper

def allProper : List Value → Bool
  | [] => true
  | v :: vs => v.isProper && allProper vs

def allEntriesProper : List (Value × Value) → Bool
  | [] => true
  | (k, v) :: es => k.isProper && v.isProper && allEntriesProper es

end

/-- The encoding of a proper value. -/
def encode? (v : Value) : Except Error Bytes :=
  if v.isProper then .ok v.encode else .error .invalid

theorem encode?_eq_ok {v : Value} {bs : Bytes} :
    v.encode? = .ok bs ↔ v.isProper ∧ v.encode = bs := by
  unfold encode?
  split <;> simp_all

theorem exists_encode?_iff {v : Value} : (∃ bs, v.encode? = .ok bs) ↔ v.isProper := by
  simp only [encode?_eq_ok, exists_and_left, exists_eq', and_true]

end Value

/-- The encodings of proper values one after the other. -/
def encodeSequence (items : List Value) : Except Error Bytes :=
  if Value.allProper items then .ok (Value.encodeItems items) else .error .invalid

theorem encodeSequence_eq_ok {vs : List Value} {bs : Bytes} :
    encodeSequence vs = .ok bs ↔ Value.allProper vs ∧ Value.encodeItems vs = bs := by
  unfold encodeSequence
  split <;> simp_all

theorem Value.allProper_append (xs ys : List Value) :
    allProper (xs ++ ys) = (allProper xs && allProper ys) := by
  induction xs with
  | nil => rfl
  | cons x xs ih => simp [allProper, ih, Bool.and_assoc]

end EdhocLab.Cbor
