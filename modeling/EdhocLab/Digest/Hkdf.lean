import EdhocLab.Digest.Hmac

/-! # HKDF with SHA-256

Extract-and-expand of RFC 5869.  `T prk info i` is the `i`-th output block of the specification;
`expand` returns a prefix of their concatenation and refuses more than 255 blocks.
-/
namespace EdhocLab.Digest.Hkdf

/-- Output length of the hash, in bytes. -/
def hashLength : Nat := 32

/-- The longest output of one expansion, 255 blocks. -/
def maxLength : Nat := 255 * hashLength

def extract (salt ikm : Bytes) : Bytes := hmac salt ikm

/-- The blocks of the specification: `T(0)` is empty and `T(i)` authenticates `T(i-1)`, the info
and the number `i` as one byte. -/
def T (prk info : Bytes) : Nat → Bytes
  | 0 => []
  | i + 1 => hmac prk (T prk info i ++ info ++ [UInt8.ofNat (i + 1)])

/-- `count` blocks in a row, the first numbered `i + 1`, after the block `previous`. -/
def blocks (prk info previous : Bytes) (i : Nat) : (count : Nat) → Bytes
  | 0 => []
  | count + 1 =>
    let block := hmac prk (previous ++ info ++ [UInt8.ofNat (i + 1)])
    block ++ blocks prk info block (i + 1) count

/-- `length` bytes of output, or `none` beyond 255 blocks. -/
def expand (prk info : Bytes) (length : Nat) : Option Bytes :=
  if length > maxLength then none
  else some ((blocks prk info [] 0 ((length + 31) / 32)).take length)

@[simp] theorem length_extract (salt ikm : Bytes) : (extract salt ikm).length = 32 := by
  simp [extract]

theorem length_blocks (prk info previous : Bytes) (i count : Nat) :
    (blocks prk info previous i count).length = 32 * count := by
  induction count generalizing previous i with
  | zero => rfl
  | succ count ih => simp [blocks, ih]; omega

theorem blocks_T (prk info : Bytes) (i count : Nat) :
    blocks prk info (T prk info i) i count =
      (List.range count).flatMap fun k => T prk info (i + k + 1) := by
  induction count generalizing i with
  | zero => rfl
  | succ count ih =>
    have hT : hmac prk (T prk info i ++ info ++ [UInt8.ofNat (i + 1)]) = T prk info (i + 1) := rfl
    rw [blocks, hT, ih, List.range_succ_eq_map]
    simp [List.flatMap_map, Nat.add_assoc, Nat.add_comm 1]

theorem length_expand {prk info out : Bytes} {length : Nat}
    (h : expand prk info length = some out) : out.length = length := by
  unfold expand at h
  split at h
  · cases h
  · cases h
    rw [List.length_take, length_blocks]
    omega

end EdhocLab.Digest.Hkdf
