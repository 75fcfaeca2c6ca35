import EdhocLab.Bytes

/-! # Hexadecimal text

Bytes as two lower case digits each.  Digits of either case are read, and a text is refused as a
whole when it has another character or an odd length.
-/
namespace EdhocLab.Hex

def digit (n : Nat) : Char := if n < 10 then Char.ofNat (48 + n) else Char.ofNat (87 + n)

def digitValue? (c : Char) : Option Nat :=
  if '0' ≤ c ∧ c ≤ '9' then some (c.toNat - 48)
  else if 'a' ≤ c ∧ c ≤ 'f' then some (c.toNat - 87)
  else if 'A' ≤ c ∧ c ≤ 'F' then some (c.toNat - 55)
  else none

def encodeChars (bs : Bytes) : List Char :=
  bs.flatMap fun b => [digit (b.toNat / 16), digit (b.toNat % 16)]

def decodeChars? : List Char → Option Bytes
  | [] => some []
  | [_] => none
  | high :: low :: rest => do
    let b := 16 * (← digitValue? high) + (← digitValue? low)
    return UInt8.ofNat b :: (← decodeChars? rest)

def encode (bs : Bytes) : String := .ofList (encodeChars bs)

def decode? (s : String) : Option Bytes := decodeChars? s.toList

theorem digitValue?_digit : ∀ n < 16, digitValue? (digit n) = some n := by decide

theorem decodeChars?_encodeChars (bs : Bytes) : decodeChars? (encodeChars bs) = some bs := by
  induction bs with
  | nil => rfl
  | cons b bs ih =>
    have hb : b.toNat < 256 := b.toNat_lt_size
    have hsum : 16 * (b.toNat / 16) + b.toNat % 16 = b.toNat := Nat.div_add_mod _ _
    simp only [encodeChars, List.flatMap_cons, List.cons_append, List.nil_append] at ih ⊢
    simp only [decodeChars?, digitValue?_digit (b.toNat / 16) (by omega),
      digitValue?_digit (b.toNat % 16) (by omega), ih, hsum, UInt8.ofNat_toNat,
      Option.bind_eq_bind, Option.bind_some, Option.pure_def]

theorem decode?_encode (bs : Bytes) : decode? (encode bs) = some bs := by
  simp [decode?, encode, decodeChars?_encodeChars]

end EdhocLab.Hex
