import EdhocLab.Bytes

/-! # CCM mode

Counter mode with CBC-MAC of RFC 3610 over any sixteen byte block cipher, with a length field of
two bytes and therefore nonces of thirteen.  Opening recomputes the tag of what it decrypts.
-/
namespace EdhocLab.Aead.Ccm

/-- A block cipher under a fixed key. -/
abbrev BlockCipher := Bytes → Bytes

/-- `count` blocks of sixteen bytes, the last ones filled up with zeros. -/
def blocks : (count : Nat) → Bytes → List Bytes
  | 0, _ => []
  | count + 1, bs =>
    let block := bs.take 16
    (block ++ Bytes.zeros (16 - block.length)) :: blocks count (bs.drop 16)

def paddedBlocks (bs : Bytes) : List Bytes := blocks ((bs.length + 15) / 16) bs

/-- The first block of the authentication: flags, nonce and length of the plaintext. -/
def firstBlock (tagLength : Nat) (nonce : Bytes) (hasData : Bool) (length : Nat) : Bytes :=
  let flags := (if hasData then 64 else 0) + 8 * ((tagLength - 2) / 2) + 1
  UInt8.ofNat flags :: nonce ++ Bytes.ofNatBE 2 length

/-- The associated data behind its length. -/
def frameData (data : Bytes) : Bytes :=
  if data.isEmpty then []
  else if data.length < 0xff00 then Bytes.ofNatBE 2 data.length ++ data
  else if data.length < 2 ^ 32 then 0xff :: 0xfe :: Bytes.ofNatBE 4 data.length ++ data
  else 0xff :: 0xff :: Bytes.ofNatBE 8 data.length ++ data

/-- The CBC-MAC of nonce, associated data and plaintext. -/
def authenticate (E : BlockCipher) (tagLength : Nat) (nonce data plaintext : Bytes) : Bytes :=
  let head := firstBlock tagLength nonce (!data.isEmpty) plaintext.length
  let all := head :: paddedBlocks (frameData data) ++ paddedBlocks plaintext
  (all.foldl (fun mac block => E (Bytes.xor mac block)) (Bytes.zeros 16)).take tagLength

def counterBlock (nonce : Bytes) (counter : Nat) : Bytes :=
  1 :: nonce ++ Bytes.ofNatBE 2 counter

/-- The key stream for a text of the given length, from counter one on. -/
def keystream (E : BlockCipher) (nonce : Bytes) (length : Nat) : Bytes :=
  ((List.range ((length + 15) / 16)).flatMap fun i => E (counterBlock nonce (i + 1))).take length

/-- Encryption and decryption of a text, which are the same operation. -/
def mask (E : BlockCipher) (nonce text : Bytes) : Bytes :=
  Bytes.xor text (keystream E nonce text.length)

/-- The tag as sent, hidden under the block of counter zero. -/
def sealedTag (E : BlockCipher) (tagLength : Nat) (nonce data plaintext : Bytes) : Bytes :=
  Bytes.xor (authenticate E tagLength nonce data plaintext) (E (counterBlock nonce 0))

/-- Ciphertext and tag. -/
def encrypt (E : BlockCipher) (tagLength : Nat) (nonce data plaintext : Bytes) : Bytes :=
  mask E nonce plaintext ++ sealedTag E tagLength nonce data plaintext

/-- The plaintext, if the tag at the end of the sealed text is that of the plaintext. -/
def decrypt (E : BlockCipher) (tagLength : Nat) (nonce data sealed : Bytes) : Option Bytes :=
  let ciphertext := sealed.take (sealed.length - tagLength)
  let tag := sealed.drop (sealed.length - tagLength)
  let plaintext := mask E nonce ciphertext
  if sealedTag E tagLength nonce data plaintext = tag then some plaintext else none

end EdhocLab.Aead.Ccm
