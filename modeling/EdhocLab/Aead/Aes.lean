import EdhocLab.Bytes

/-! # AES-128

The forward cipher of FIPS 197, all that counter modes need.  A block is an array of sixteen
bytes, column by column; the substitution table is computed from its algebraic definition.
-/
namespace EdhocLab.Aead.Aes

/-- Multiplication by `x` in `GF(2^8)` modulo `x^8 + x^4 + x^3 + x + 1`. -/
def xtime (b : UInt8) : UInt8 :=
  (b <<< 1) ^^^ (if b &&& 0x80 = 0 then 0 else 0x1b)

/-- Multiplication in `GF(2^8)`, `n` bits of the second factor at a time. -/
def mulBits : (n : Nat) → UInt8 → UInt8 → UInt8
  | 0, _, _ => 0
  | n + 1, a, b => (if b &&& 1 = 0 then 0 else a) ^^^ mulBits n (xtime a) (b >>> 1)

def mul (a b : UInt8) : UInt8 := mulBits 8 a b

/-- The inverse in `GF(2^8)`, the 254th power, which maps zero to zero. -/
def inverse (b : UInt8) : UInt8 :=
  let b2 := mul b b
  let b4 := mul b2 b2
  let b8 := mul b4 b4
  let b16 := mul b8 b8
  let b32 := mul b16 b16
  let b64 := mul b32 b32
  let b128 := mul b64 b64
  mul b128 (mul b64 (mul b32 (mul b16 (mul b8 (mul b4 b2)))))

def rotl (b n : UInt8) : UInt8 := (b <<< n) ||| (b >>> (8 - n))

def substitute (b : UInt8) : UInt8 :=
  let i := inverse b
  i ^^^ rotl i 1 ^^^ rotl i 2 ^^^ rotl i 3 ^^^ rotl i 4 ^^^ 0x63

/-- The substitution of every byte. -/
def sbox : Array UInt8 := (Array.range 256).map fun n => substitute (UInt8.ofNat n)

def sub (b : UInt8) : UInt8 := sbox.getD b.toNat 0

/-- The word after `w`, where `word` counts words of the schedule. -/
def nextWord (w : Array UInt8) (rcon : UInt8) (word : Nat) : Array UInt8 :=
  let old := fun j => w.getD (4 * word - 16 + j) 0
  let last := fun j => w.getD (4 * word - 4 + j) 0
  if word % 4 = 0 then
    w ++ #[old 0 ^^^ sub (last 1) ^^^ rcon, old 1 ^^^ sub (last 2), old 2 ^^^ sub (last 3),
      old 3 ^^^ sub (last 0)]
  else
    w ++ #[old 0 ^^^ last 0, old 1 ^^^ last 1, old 2 ^^^ last 2, old 3 ^^^ last 3]

/-- The eleven round keys, one after the other. -/
def expandKey (key : Bytes) : Array UInt8 :=
  ((List.range 40).foldl (fun (w, rcon) i =>
    (nextWord w rcon (i + 4), if i % 4 = 0 then xtime rcon else rcon))
    (key.toArray, (1 : UInt8))).1

def addRoundKey (keys : Array UInt8) (round : Nat) (s : Array UInt8) : Array UInt8 :=
  Array.ofFn (n := 16) fun i => s.getD i 0 ^^^ keys.getD (16 * round + i) 0

/-- Substitutes every byte and rotates row `r` of the block by `r` columns. -/
def subShift (s : Array UInt8) : Array UInt8 :=
  Array.ofFn (n := 16) fun i => sub (s.getD (5 * i.val % 16) 0)

/-- Multiplies every column by the circulant matrix of `2, 3, 1, 1`. -/
def mixColumns (s : Array UInt8) : Array UInt8 :=
  Array.ofFn (n := 16) fun i =>
    let column := i.val / 4 * 4
    let a := fun k => s.getD (column + (i.val + k) % 4) 0
    xtime (a 0) ^^^ xtime (a 1) ^^^ a 1 ^^^ a 2 ^^^ a 3

/-- The encryption of one block under expanded round keys. -/
def encrypt (keys : Array UInt8) (block : Bytes) : Bytes :=
  let start := addRoundKey keys 0 block.toArray
  let inner := (List.range 9).foldl
    (fun s i => addRoundKey keys (i + 1) (mixColumns (subShift s))) start
  (addRoundKey keys 10 (subShift inner)).toList

@[simp] theorem length_encrypt (keys : Array UInt8) (block : Bytes) :
    (encrypt keys block).length = 16 := by
  simp [encrypt, addRoundKey]

end EdhocLab.Aead.Aes
