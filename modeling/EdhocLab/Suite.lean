import EdhocLab.Aead.Algorithm
import EdhocLab.Key.Basic

/-! # Cipher suites

The four suites that combine an authenticated encryption algorithm with a curve for key agreement
and one for signatures.  All of them hash with SHA-256.
-/
namespace EdhocLab

inductive Suite
  | suite0
  | suite1
  | suite2
  | suite3
  deriving DecidableEq, Repr

namespace Suite

/-- The number in the registry of suites. -/
def id : Suite → Int
  | suite0 => 0
  | suite1 => 1
  | suite2 => 2
  | suite3 => 3

def ofId? : Int → Option Suite
  | 0 => some suite0
  | 1 => some suite1
  | 2 => some suite2
  | 3 => some suite3
  | _ => none

/-- The algorithm that protects messages 3 and 4. -/
def aead : Suite → Aead.Algorithm
  | suite0 | suite2 => .shortTag
  | suite1 | suite3 => .longTag

/-- The algorithm that protects application data. -/
def appAead (_ : Suite) : Aead.Algorithm := .shortTag

/-- Length of the MAC of a party that authenticates with a static key. -/
def macLength (suite : Suite) : Nat := suite.aead.tagLength

/-- The curve of ephemeral and static keys. -/
def dhCurve : Suite → Curve
  | suite0 | suite1 => .x25519
  | suite2 | suite3 => .p256

def signatureCurve : Suite → Curve
  | suite0 | suite1 => .ed25519
  | suite2 | suite3 => .p256

theorem ofId?_id (suite : Suite) : ofId? suite.id = some suite := by cases suite <;> rfl

end Suite

end EdhocLab
