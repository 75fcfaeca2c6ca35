import EdhocLab.Bytes

/-! # Partial IVs and nonces

A sequence number is sent as its shortest big-endian form.  A nonce combines the length and value
of an identifier with a partial IV, masked by the common IV of the context.
-/
namespace EdhocLab.Oscore

/-- Length of a nonce. -/
def nonceLength : Nat := 13

/-- A sequence number below `2 ^ 64` without leading zero bytes, but never empty. -/
def formatPiv (n : Nat) : Bytes :=
  match (Bytes.ofNatBE 8 n).dropWhile (· == 0) with
  | [] => [0]
  | digits => digits

/-- The number of the last eight bytes of a partial IV. -/
def pivNumber (piv : Bytes) : Nat := Bytes.natOfBE (Bytes.takeLast 8 piv)

/-- The identifier and partial IV before masking; their last seven and five bytes count. -/
def nonceInput (piv id : Bytes) : Bytes :=
  let id := Bytes.takeLast 7 id
  UInt8.ofNat id.length :: Bytes.padLeft 7 id ++ Bytes.padLeft 5 (Bytes.takeLast 5 piv)

/-- The nonce under a common IV, which is filled up with zeros. -/
def nonce (piv id commonIv : Bytes) : Bytes :=
  Bytes.xor (nonceInput piv id) (commonIv ++ Bytes.zeros nonceLength)

theorem length_padLeft {width : Nat} {bs : Bytes} (h : bs.length ≤ width) :
    (Bytes.padLeft width bs).length = width := by
  simp only [Bytes.padLeft, Bytes.zeros, List.length_append, List.length_replicate]
  omega

theorem length_takeLast (n : Nat) (bs : Bytes) : (Bytes.takeLast n bs).length = min n bs.length := by
  simp only [Bytes.takeLast, List.length_drop]
  omega

theorem length_nonceInput (piv id : Bytes) : (nonceInput piv id).length = nonceLength := by
  have h7 : (Bytes.takeLast 7 id).length ≤ 7 := by rw [length_takeLast]; omega
  have h5 : (Bytes.takeLast 5 piv).length ≤ 5 := by rw [length_takeLast]; omega
  simp only [nonceInput, List.length_cons, List.length_append, length_padLeft h7,
    length_padLeft h5, nonceLength]

end EdhocLab.Oscore
