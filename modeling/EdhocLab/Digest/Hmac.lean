import EdhocLab.Digest.Sha256

/-! # HMAC with SHA-256

The keyed hash of RFC 2104.  A key longer than one block is replaced by its digest.
-/
namespace EdhocLab.Digest

/-- Block length of SHA-256, in bytes. -/
def blockLength : Nat := 64

/-- The key, brought to exactly one block. -/
def blockKey (key : Bytes) : Bytes :=
  let short := if key.length > blockLength then Sha256.digest key else key
  short ++ Bytes.zeros (blockLength - short.length)

def hmac (key message : Bytes) : Bytes :=
  let block := blockKey key
  let inner := Sha256.digest (block.map (· ^^^ 0x36) ++ message)
  Sha256.digest (block.map (· ^^^ 0x5c) ++ inner)

@[simp] theorem length_hmac (key message : Bytes) : (hmac key message).length = 32 := by
  simp [hmac]

end EdhocLab.Digest
