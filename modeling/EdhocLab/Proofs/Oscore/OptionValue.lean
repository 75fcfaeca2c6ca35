import EdhocLab.Oscore.OptionValue
import EdhocLab.Proofs.Oscore.Nonce

/-! # Reading an option value

A value is read as the parts that its first byte announces, which stand in a row behind it, or as none
at all.  So the parts that are read lie within the value, and a value is read back from its encoding
as long as the flag byte and the length byte can announce its parts.
-/
namespace EdhocLab.Oscore.OptionValue

/-- Parts that the flag byte and the length byte can announce. -/
structure Announced (value : OptionValue) : Prop where
  piv_pos : ∀ piv, value.piv = some piv → 1 ≤ piv.length
  piv_le : ∀ piv, value.piv = some piv → piv.length ≤ 7
  kidContext_le : ∀ context, value.kidContext = some context → context.length ≤ 255

/-- The key identifier context behind its length. -/
def contextField (kidContext : Option Bytes) : Bytes :=
  kidContext.elim [] fun context => UInt8.ofNat context.length :: context

/-- The bytes are the flag byte, the partial IV and the key identifier context that it announces, and
the rest.  The rest is the key identifier, unless none is announced. -/
structure LaidOut (value : OptionValue) (flags : UInt8) (rest bs : Bytes) : Prop where
  bytes_eq : bs = flags :: (value.piv.getD [] ++ contextField value.kidContext ++ rest)
  length_piv : (value.piv.getD []).length = flags.toNat % 8
  piv_isSome : value.piv.isSome ↔ flags.toNat % 8 ≠ 0
  context_isSome : value.kidContext.isSome ↔ flags.toNat / 16 % 2 = 1
  context_le : ∀ context, value.kidContext = some context → context.length ≤ 255
  kid_eq : value.kid = if flags.toNat / 8 % 2 = 1 then some rest else none

section Read

variable {present : Bool} {flags : UInt8} {bs rest : Bytes} {kidContext : Option Bytes}
  {value : OptionValue}

/-- A key identifier context is read exactly where it stands behind its length. -/
theorem readContext_eq_some_iff : readContext present bs = some (kidContext, rest) ↔
    bs = contextField kidContext ++ rest ∧ (kidContext.isSome ↔ present) ∧
      ∀ context, kidContext = some context → context.length ≤ 255 := by
  cases present with
  | false => cases kidContext <;> simp [readContext, contextField]
  | true =>
    cases kidContext with
    | none => cases bs <;> simp [readContext]
    | some context =>
      constructor
      · intro h
        cases bs with
        | nil => cases h
        | cons length bs =>
          simp only [readContext, if_true] at h
          split at h
          · rename_i hle
            cases h
            have hlength : (bs.take length.toNat).length = length.toNat := by
              rw [List.length_take, Nat.min_eq_left hle]
            refine ⟨by simp [contextField, hlength], by simp, ?_⟩
            rintro _ ⟨⟩
            rw [hlength]
            exact Nat.le_of_lt_succ length.toNat_lt
          · cases h
      · rintro ⟨rfl, -, hle⟩
        have hlength : (UInt8.ofNat context.length).toNat = context.length := by
          rw [UInt8.toNat_ofNat']
          have := hle context rfl
          omega
        simp [readContext, contextField, hlength]

/-- The parts behind a flag byte are read exactly where they stand as it announces them. -/
theorem readParts_eq_some_iff :
    readParts flags.toNat bs = some value ↔ ∃ rest, value.LaidOut flags rest (flags :: bs) := by
  constructor
  · intro h
    simp only [readParts] at h
    split at h
    · cases h
    · rename_i hlong
      obtain ⟨⟨kidContext, rest⟩, hcontext, rfl⟩ := Option.map_eq_some_iff.mp h
      obtain ⟨hbehind, hpresent, hle⟩ := readContext_eq_some_iff.mp hcontext
      have hpiv : (if flags.toNat % 8 = 0 then none else some (bs.take (flags.toNat % 8))).getD [] =
          bs.take (flags.toNat % 8) := by
        split
        · rename_i hzero
          rw [hzero]
          rfl
        · rfl
      refine ⟨rest, ?_, ?_, ?_, ?_, hle, rfl⟩
      · simp only [hpiv, List.append_assoc, ← hbehind, List.take_append_drop]
      · simp only [hpiv, List.length_take]
        omega
      · split <;> simp_all
      · simpa using hpresent
  · rintro ⟨rest, h⟩
    obtain ⟨piv, kidContext, kid⟩ := value
    obtain ⟨hbytes, hlength, hpiv, hcontext, hle, hkid⟩ := h
    obtain rfl := (List.cons.inj hbytes).2
    have hread : readContext (flags.toNat / 16 % 2 == 1) (contextField kidContext ++ rest) =
        some (kidContext, rest) := readContext_eq_some_iff.mpr ⟨rfl, by simpa using hcontext, hle⟩
    have hshort : ¬(piv.getD [] ++ (contextField kidContext ++ rest)).length < flags.toNat % 8 := by
      rw [List.length_append]
      dsimp only at hlength
      omega
    have hpart : (if flags.toNat % 8 = 0 then none else some (piv.getD [])) = piv := by
      cases piv <;> simp_all
    simp only [readParts, List.append_assoc, hshort, if_false, List.drop_left' hlength,
      List.take_left' hlength, hread, Option.map_some, hpart, ← hkid]

end Read

section Layout

variable {value : OptionValue} {flags : UInt8} {rest bs : Bytes}

/-- Parts that stand as the first byte announces them are read. -/
theorem decode_of_laidOut (h : value.LaidOut flags rest bs) : decode bs = value := by
  obtain rfl := h.bytes_eq
  rw [decode, readParts_eq_some_iff.mpr ⟨rest, h⟩, Option.getD_some]

/-- What is read is no part at all, or stands as the first byte announces it. -/
theorem laidOut_of_decode (bs : Bytes) :
    decode bs = empty ∨ ∃ flags rest, (decode bs).LaidOut flags rest bs := by
  cases bs with
  | nil => exact .inl rfl
  | cons flags bs =>
    rw [decode]
    cases hread : readParts flags.toNat bs with
    | none => exact .inl rfl
    | some value => exact .inr ⟨flags, readParts_eq_some_iff.mp hread⟩

end Layout

section Encode

variable {value : OptionValue}

theorem encode_eq (h : value.Announced) : value.encode = if value = empty then []
    else UInt8.ofNat value.flags ::
      (value.piv.getD [] ++ contextField value.kidContext ++ value.kid.getD []) := by
  obtain ⟨piv, kidContext, kid⟩ := value
  have hflags (hzero : flags ⟨piv, kidContext, kid⟩ = 0) :
      piv = none ∧ kidContext = none ∧ kid = none := by
    cases piv with
    | none => cases kidContext <;> cases kid <;> simp [flags] at hzero ⊢
    | some piv =>
      have hpos := h.piv_pos piv rfl
      have hle := h.piv_le piv rfl
      simp only [flags, Option.elim_some] at hzero
      omega
  by_cases hempty : (⟨piv, kidContext, kid⟩ : OptionValue) = empty
  · rw [if_pos hempty, hempty]
    rfl
  · have hne : ¬flags ⟨piv, kidContext, kid⟩ = 0 := by
      intro hzero
      obtain ⟨rfl, rfl, rfl⟩ := hflags hzero
      exact hempty rfl
    rw [if_neg hempty, encode, if_neg fun hboth => hne hboth.1, contextField]

/-- Each part of the flag byte announces one part of the value. -/
theorem flags_split (h : value.Announced) :
    value.flags < 256 ∧ value.flags % 8 = (value.piv.getD []).length ∧
      (value.flags / 16 % 2 = 1 ↔ value.kidContext.isSome) ∧
      (value.flags / 8 % 2 = 1 ↔ value.kid.isSome) := by
  obtain ⟨piv, kidContext, kid⟩ := value
  have hlength : (piv.elim 0 fun piv => piv.length % 8) = (piv.getD []).length ∧
      (piv.getD []).length ≤ 7 := by
    cases piv with
    | none => exact ⟨rfl, Nat.zero_le 7⟩
    | some piv =>
      have hle : piv.length ≤ 7 := h.piv_le piv rfl
      exact ⟨Nat.mod_eq_of_lt (by omega), hle⟩
  obtain ⟨hlength, hle⟩ := hlength
  simp only [flags, hlength]
  cases kidContext <;> cases kid <;> simp only [Option.isSome_none, Option.isSome_some, if_true,
    Bool.false_eq_true, if_false, iff_true, iff_false] <;> omega

/-- The parts of an encoding stand as its first byte announces them. -/
theorem laidOut_encode (h : value.Announced) (hparts : value ≠ empty) :
    value.LaidOut (UInt8.ofNat value.flags) (value.kid.getD []) value.encode := by
  obtain ⟨hlt, hpiv, hcontext, hkid⟩ := flags_split h
  have hflags : (UInt8.ofNat value.flags).toNat = value.flags := by
    rw [UInt8.toNat_ofNat']
    exact Nat.mod_eq_of_lt hlt
  refine ⟨by rw [encode_eq h, if_neg hparts], ?_, ?_, ?_, h.kidContext_le, ?_⟩
  · rw [hflags, hpiv]
  · rw [hflags, hpiv]
    cases hvalue : value.piv with
    | none => simp
    | some piv => simpa using List.length_pos_iff.mp (h.piv_pos piv hvalue)
  · rw [hflags, hcontext]
  · rw [hflags]
    cases hvalue : value.kid <;> simp [hkid, hvalue]

/-- A value is read back from its encoding. -/
theorem decode_encode (h : value.Announced) : decode value.encode = value := by
  by_cases hparts : value = empty
  · rw [encode_eq h, if_pos hparts, hparts]
    rfl
  · exact decode_of_laidOut (laidOut_encode h hparts)

/-- The partial IV of a number of seven bytes is short enough to be announced. -/
theorem announced_formatPiv {n : Nat} {kidContext : Option Bytes} (hn : n < 2 ^ 56)
    (hcontext : ∀ context, kidContext = some context → context.length ≤ 255) (kid : Option Bytes) :
    Announced { piv := some (formatPiv n), kidContext, kid } := by
  refine ⟨?_, ?_, hcontext⟩
  · rintro _ ⟨⟩
    exact List.length_pos_iff.mpr (formatPiv_ne_nil n)
  · rintro _ ⟨⟩
    exact length_formatPiv_le (by decide) hn

end Encode

/-- Parts that can be announced are read back from their encoding, those of each sequence number of
seven bytes among them.  Whatever the bytes are, no part at all is read or the parts that stand in them
as the first byte announces them, the partial IV with just the length there. -/
theorem option_roundTrip :
    (∀ piv kidContext kid, (∀ bytes, piv = some bytes → 1 ≤ bytes.length ∧ bytes.length ≤ 7) →
      (∀ context, kidContext = some context → context.length ≤ 255) →
      decode (encode { piv, kidContext, kid }) = { piv, kidContext, kid }) ∧
    (∀ n kidContext kid, n < 2 ^ 56 →
      (∀ context, kidContext = some context → context.length ≤ 255) →
      decode (encode { piv := some (formatPiv n), kidContext, kid }) =
        { piv := some (formatPiv n), kidContext, kid }) ∧
    (∀ bs, decode bs = empty ∨ ∃ flags rest, (decode bs).LaidOut flags rest bs) ∧
    ∀ bs value flags rest, LaidOut value flags rest bs → decode bs = value := by
  refine ⟨?_, ?_, laidOut_of_decode, ?_⟩
  · intro piv kidContext kid hpiv hcontext
    exact decode_encode ⟨fun bytes h => (hpiv bytes h).1, fun bytes h => (hpiv bytes h).2, hcontext⟩
  · intro n kidContext kid hn hcontext
    exact decode_encode (announced_formatPiv hn hcontext kid)
  · intro bs value flags rest h
    exact decode_of_laidOut h

/-- The longest partial IV and key identifier context, with an empty key identifier. -/
def widest : OptionValue :=
  { piv := some (formatPiv (2 ^ 56 - 1)), kidContext := some (Bytes.zeros 255), kid := some [] }

/-- A partial IV, a key identifier context of one byte, and a byte that nothing announces. -/
def dangling : Bytes := [0x11, 0x05, 0x01, 0xaa, 0xff]

theorem option_roundTrip_widest :
    decode widest.encode = widest ∧ widest.encode.length = 264 ∧
      decode (encode { piv := some [0], kidContext := some [], kid := none }) =
        { piv := some [0], kidContext := some [], kid := none } ∧
      decode dangling = { piv := some [0x05], kidContext := some [0xaa], kid := none } ∧
      decode (dangling.take 3) = empty := by
  obtain ⟨hparts, hnumber, -, hlaid⟩ := option_roundTrip
  refine ⟨?_, by decide +kernel, ?_, ?_, by decide⟩
  · refine hnumber (2 ^ 56 - 1) (some (Bytes.zeros 255)) (some []) (by decide) ?_
    rintro _ ⟨⟩
    exact Nat.le_of_eq List.length_replicate
  · apply hparts
    · rintro _ ⟨⟩
      decide
    · rintro _ ⟨⟩
      decide
  · apply hlaid dangling _ 0x11 [0xff]
    constructor <;> decide

end EdhocLab.Oscore.OptionValue
