import EdhocLab.Aead.Aes
import EdhocLab.Aead.Ccm

/-! # Authenticated encryption algorithms

The two AES-CCM algorithms of the cipher suites, which differ in the length of their tag.
-/
namespace EdhocLab.Aead

inductive Algorithm
  /-- AES-CCM-16-64-128, with a tag of eight bytes. -/
  | shortTag
  /-- AES-CCM-16-128-128, with a tag of sixteen bytes. -/
  | longTag
  deriving DecidableEq, Repr

/-- A key, nonce, plaintext or ciphertext of a wrong length, or a tag that does not match. -/
inductive Failure
  | rejected
  deriving DecidableEq, Repr

def Failure.message (_ : Failure) : String := "Error using AEAD"

namespace Algorithm

def keyLength (_ : Algorithm) : Nat := 16
def nonceLength (_ : Algorithm) : Nat := 13

def tagLength : Algorithm → Nat
  | shortTag => 8
  | longTag => 16

/-- The identifier in the COSE registry. -/
def coseId : Algorithm → Int
  | shortTag => 10
  | longTag => 30

def ofCoseId? : Int → Option Algorithm
  | 10 => some shortTag
  | 30 => some longTag
  | _ => none

/-- The longest text that the two byte length field can announce. -/
def maxTextLength : Nat := 65535

/-- Whether key, nonce and text have the lengths the algorithm works on. -/
def accepts (alg : Algorithm) (key nonce : Bytes) (textLength : Nat) : Bool :=
  key.length == alg.keyLength && nonce.length == alg.nonceLength && textLength ≤ maxTextLength

/-- The ciphertext followed by the tag. -/
def encrypt (alg : Algorithm) (key nonce data plaintext : Bytes) : Except Failure Bytes :=
  if alg.accepts key nonce plaintext.length then
    .ok (Ccm.encrypt (Aes.encrypt (Aes.expandKey key)) alg.tagLength nonce data plaintext)
  else .error .rejected

/-- The plaintext of a ciphertext followed by its tag. -/
def decrypt (alg : Algorithm) (key nonce data sealed : Bytes) : Except Failure Bytes :=
  if alg.tagLength ≤ sealed.length ∧ alg.accepts key nonce (sealed.length - alg.tagLength) then
    match Ccm.decrypt (Aes.encrypt (Aes.expandKey key)) alg.tagLength nonce data sealed with
    | some plaintext => .ok plaintext
    | none => .error .rejected
  else .error .rejected

end Algorithm

end EdhocLab.Aead
