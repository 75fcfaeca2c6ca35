import EdhocLab.Cbor.Float

/-! # CBOR data items

One value type for every item that a message may hold.  Maps list their entries in key order, and
floats are double precision bit patterns with a single NaN.  An application may tag a value, but tags
are neither written nor read.
-/
namespace EdhocLab.Cbor

inductive Value
  | integer (n : Int)
  | bytes (b : Bytes)
  | text (s : String)
  | array (items : List Value)
  | map (entries : List (Value × Value))
  | bool (b : Bool)
  | null
  | float (bits : Nat)
  | tag (number : UInt64) (content : Value)
  deriving Inhabited

namespace Value

mutual

def decEq : (a b : Value) → Decidable (a = b)
  | .integer m, .integer n => decidable_of_iff (m = n) (by simp)
  | .bytes m, .bytes n => decidable_of_iff (m = n) (by simp)
  | .text m, .text n => decidable_of_iff (m = n) (by simp)
  | .array xs, .array ys =>
    match decEqList xs ys with
    | isTrue h => isTrue (by rw [h])
    | isFalse h => isFalse fun e => h (by cases e; rfl)
  | .map xs, .map ys =>
    match decEqEntries xs ys with
    | isTrue h => isTrue (by rw [h])
    | isFalse h => isFalse fun e => h (by cases e; rfl)
  | .bool m, .bool n => decidable_of_iff (m = n) (by simp)
  | .null, .null => isTrue rfl
  | .float m, .float n => decidable_of_iff (m = n) (by simp)
  | .tag m v, .tag n w =>
    match decEq v w with
    | isTrue h => decidable_of_iff (m = n) (by simp [h])
    | isFalse h => isFalse fun e => h (by cases e; rfl)
  | .integer _, .bytes _ | .integer _, .text _ | .integer _, .array _ | .integer _, .map _
  | .integer _, .bool _ | .integer _, .null | .integer _, .float _ | .integer _, .tag _ _
  | .bytes _, .integer _ | .bytes _, .text _ | .bytes _, .array _ | .bytes _, .map _
  | .bytes _, .bool _ | .bytes _, .null | .bytes _, .float _ | .bytes _, .tag _ _
  | .text _, .integer _ | .text _, .bytes _ | .text _, .array _ | .text _, .map _ | .text _, .bool _
  | .text _, .null | .text _, .float _ | .text _, .tag _ _
  | .array _, .integer _ | .array _, .bytes _ | .array _, .text _ | .array _, .map _
  | .array _, .bool _ | .array _, .null | .array _, .float _ | .array _, .tag _ _
  | .map _, .integer _ | .map _, .bytes _ | .map _, .text _ | .map _, .array _ | .map _, .bool _
  | .map _, .null | .map _, .float _ | .map _, .tag _ _
  | .bool _, .integer _ | .bool _, .bytes _ | .bool _, .text _ | .bool _, .array _ | .bool _, .map _
  | .bool _, .null | .bool _, .float _ | .bool _, .tag _ _
  | .null, .integer _ | .null, .bytes _ | .null, .text _ | .null, .array _ | .null, .map _
  | .null, .bool _ | .null, .float _ | .null, .tag _ _
  | .float _, .integer _ | .float _, .bytes _ | .float _, .text _ | .float _, .array _
  | .float _, .map _ | .float _, .bool _ | .float _, .null | .float _, .tag _ _
  | .tag _ _, .integer _ | .tag _ _, .bytes _ | .tag _ _, .text _ | .tag _ _, .array _
  | .tag _ _, .map _ | .tag _ _, .bool _ | .tag _ _, .null | .tag _ _, .float _ => isFalse nofun

def decEqList : (xs ys : List Value) → Decidable (xs = ys)
  | [], [] => isTrue rfl
  | [], _ :: _ => isFalse nofun
  | _ :: _, [] => isFalse nofun
  | x :: xs, y :: ys =>
    match decEq x y, decEqList xs ys with
    | isTrue h, isTrue h' => isTrue (by rw [h, h'])
    | isFalse h, _ => isFalse fun e => h (by cases e; rfl)
    | _, isFalse h => isFalse fun e => h (by cases e; rfl)

def decEqEntries : (xs ys : List (Value × Value)) → Decidable (xs = ys)
  | [], [] => isTrue rfl
  | [], _ :: _ => isFalse nofun
  | _ :: _, [] => isFalse nofun
  | (k, v) :: xs, (l, w) :: ys =>
    match decEq k l, decEq v w, decEqEntries xs ys with
    | isTrue h, isTrue h', isTrue h'' => isTrue (by rw [h, h', h''])
    | isFalse h, _, _ => isFalse fun e => h (by cases e; rfl)
    | _, isFalse h, _ => isFalse fun e => h (by cases e; rfl)
    | _, _, isFalse h => isFalse fun e => h (by cases e; rfl)

end

instance : DecidableEq Value := decEq

/-- The integer, if the value is one that fits into 64 bits with sign. -/
def int64? : Value → Option Int
  | .integer n => if -(2 ^ 63) ≤ n ∧ n < 2 ^ 63 then some n else none
  | _ => none

/-- The content of a byte string. -/
def bytes? : Value → Option Bytes
  | .bytes b => some b
  | _ => none

end Value

/-- Why an item or a sequence has no encoding, or bytes are not one. -/
inductive Error
  /-- Bytes that are not well-formed, or an integer beyond 64 bits. -/
  | invalid
  /-- A short header would have to count more than 23 items. -/
  | tooManyItems
  deriving DecidableEq, Repr

def Error.message : Error → String
  | invalid => "CBOR error"
  | tooManyItems => "CBOR error: more than 23 items in a short header"

end EdhocLab.Cbor
