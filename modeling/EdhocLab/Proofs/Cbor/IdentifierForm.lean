import EdhocLab.Proofs.Cbor.Distinction
import EdhocLab.Proofs.Cbor.Identifier

/-! # One form for each identifier

An identifier is received from the one value that it is sent as and from no other, and different
identifiers are sent as different bytes.  Those sent as integers are just the one byte that the integer
is encoded as.
-/
namespace EdhocLab.Cbor.Identifier

variable {id id' : Bytes} {v w : Value}

theorem isIntegerByte_iff {b : UInt8} :
    isIntegerByte b ↔ b.toNat ≤ 23 ∨ 32 ≤ b.toNat ∧ b.toNat ≤ 55 := by
  simp only [isIntegerByte, Bool.or_eq_true, Bool.and_eq_true, decide_eq_true_eq, UInt8.le_iff_toNat_le]
  rfl

section Sent

variable {b : UInt8}

theorem toValue?_low (h : b.toNat ≤ 23) : toValue? [b] = some (.integer b.toNat) := by
  rw [toValue?, if_pos (UInt8.le_iff_toNat_le.mpr h)]

theorem toValue?_high (h : 32 ≤ b.toNat) (h' : b.toNat ≤ 55) :
    toValue? [b] = some (.integer (31 - b.toNat)) := by
  have hlow : ¬b ≤ 23 := by
    rw [UInt8.le_iff_toNat_le]
    exact Nat.not_le.mpr (Nat.lt_of_lt_of_le (by decide) h)
  rw [toValue?, if_neg hlow, if_pos (isIntegerByte_iff.mpr (.inr ⟨h, h'⟩))]

theorem toValue?_other (h : ¬isIntegerByte b) : toValue? [b] = some (.bytes [b]) := by
  have hlow : ¬b ≤ 23 := by
    rw [UInt8.le_iff_toNat_le]
    exact fun hlow => h (isIntegerByte_iff.mpr (.inl hlow))
  rw [toValue?, if_neg hlow, if_neg h]

theorem exists_integer_iff : (∃ n, toValue? [b] = some (.integer n)) ↔ isIntegerByte b := by
  constructor
  · rintro ⟨n, h⟩
    by_cases hbyte : isIntegerByte b
    · exact hbyte
    · rw [toValue?_other hbyte] at h
      cases h
  · intro h
    rcases isIntegerByte_iff.mp h with hlow | ⟨hhigh, hhigh'⟩
    · exact ⟨_, toValue?_low hlow⟩
    · exact ⟨_, toValue?_high hhigh hhigh'⟩

/-- An identifier that is sent as an integer is the one byte that the integer is encoded as. -/
theorem encode_of_integer {n : Int} (h : toValue? id = some (.integer n)) :
    id.length = 1 ∧ (Value.integer n).encode? = .ok id := by
  rcases toValue?_cases h with ⟨b, rfl, hb, hn⟩ | ⟨b, rfl, hb, hb', hn⟩ | ⟨hn, -⟩
  · cases hn
    refine ⟨rfl, Value.encode?_eq_ok.mpr ⟨isProper_toValue? rfl h, ?_⟩⟩
    show head 0 b.toNat = [b]
    rw [head_short (by omega), Nat.mul_zero, Nat.zero_add, UInt8.ofNat_toNat]
  · cases hn
    refine ⟨rfl, Value.encode?_eq_ok.mpr ⟨isProper_toValue? rfl h, ?_⟩⟩
    have hnegative : (31 : Int) - b.toNat = .negSucc (b.toNat - 32) := by omega
    have hfirst : 32 * 1 + (b.toNat - 32) = b.toNat := by omega
    rw [hnegative, Value.encode, head_short (by omega), hfirst, UInt8.ofNat_toNat]
  · cases hn

theorem isPlain_toValue? (h : toValue? id = some v) : v.isPlain := by
  rcases toValue?_cases h with ⟨b, -, -, rfl⟩ | ⟨b, -, -, -, rfl⟩ | ⟨rfl, -⟩ <;> rfl

/-- Different identifiers are sent as different bytes, however long they are. -/
theorem eq_of_encode_eq (h : toValue? id = some v) (h' : toValue? id' = some w)
    (hencode : v.encode = w.encode) : id = id' := by
  rw [encode_eq_iff (isPlain_toValue? h) (isPlain_toValue? h')] at hencode
  have hid := ofValue?_toValue? h
  rw [hencode, ofValue?_toValue? h'] at hid
  exact (Option.some.inj hid).symm

/-- The value of an identifier is read in front of whatever follows its encoding. -/
theorem decodeFirst_toValue? (hlength : id.length < 2 ^ 64) (h : toValue? id = some v) :
    ∃ bytes, v.encode? = .ok bytes ∧
      ∀ rest, decodeFirst (bytes ++ rest) = .ok (some (v, rest)) := by
  have hproper : v.isProper := isProper_toValue? (by simpa [fitsHead] using hlength) h
  refine ⟨v.encode, Value.encode?_eq_ok.mpr ⟨hproper, rfl⟩, ?_⟩
  intro rest
  have hdepth : v.depth ≤ maxDepth := by
    rw [depth_toValue? h]
    exact Nat.zero_le maxDepth
  have hread := readItem_encode v hproper hdepth rest
  rw [received_toValue? h] at hread
  exact decodeFirst_eq_some.mpr hread

end Sent

section Received

/-- The integers that stand for an identifier stand for the one that is sent as that integer. -/
theorem toValue?_of_integer {n : Int} (h : ofValue? (.integer n) = some id) :
    toValue? id = some (.integer n) := by
  rw [ofValue?] at h
  split at h
  · rename_i hn
    cases h
    have hbyte : (UInt8.ofNat n.toNat).toNat = n.toNat := by
      rw [UInt8.toNat_ofNat']
      omega
    rw [toValue?_low (by omega), hbyte, Int.toNat_of_nonneg hn.1]
  · split at h
    · rename_i hn
      cases h
      have hbyte : (UInt8.ofNat (31 - n).toNat).toNat = (31 - n).toNat := by
        rw [UInt8.toNat_ofNat']
        omega
      rw [toValue?_high (by omega) (by omega), hbyte, Int.toNat_of_nonneg (by omega),
        Int.sub_sub_self]
    · cases h

/-- An identifier that was received is sent as the value that it was received as. -/
theorem toValue?_of_ofValue? (hid : id ≠ []) (h : ofValue? v = some id) : toValue? id = some v := by
  cases v with
  | integer n => exact toValue?_of_integer h
  | bytes b =>
    match b with
    | [] =>
      cases h
      exact absurd rfl hid
    | [b] =>
      rw [ofValue?] at h
      split at h
      · cases h
      · rename_i hother
        cases h
        exact toValue?_other hother
    | b :: c :: rest =>
      rw [ofValue?_of_two_le (by simp)] at h
      cases h
      exact toValue?_of_two_le (by simp)
  | text | array | map | bool | null | float | tag => cases h

/-- The empty identifier is received from the empty byte string only. -/
theorem eq_bytes_nil (h : ofValue? v = some []) : v = .bytes [] := by
  cases v with
  | integer n => cases toValue?_of_integer h
  | bytes b =>
    match b with
    | [] => rfl
    | [b] =>
      rw [ofValue?] at h
      split at h <;> cases h
    | b :: c :: rest =>
      rw [ofValue?_of_two_le (by simp)] at h
      cases h
  | text | array | map | bool | null | float | tag => cases h

/-- No two values stand for one identifier. -/
theorem eq_of_ofValue? (hv : ofValue? v = some id) (hw : ofValue? w = some id) : v = w := by
  by_cases hid : id = []
  · subst hid
    rw [eq_bytes_nil hv, eq_bytes_nil hw]
  · have hsent := toValue?_of_ofValue? hid hv
    rw [toValue?_of_ofValue? hid hw] at hsent
    exact (Option.some.inj hsent).symm

end Received

/-- Every identifier but the empty one is sent as one value, from which it is received again, also
through bytes with anything behind them, as long as its length is a number of 64 bits.  No other value
is received as that identifier, and no other identifier is sent as the same bytes.  The bytes that
encode integers between `-24` and `23` are sent as those integers, and no other identifiers are. -/
theorem form_unique :
    (∀ id, id ≠ [] → ∃ v, toValue? id = some v ∧ ofValue? v = some id ∧
      (id.length < 2 ^ 64 → ∃ bytes, v.encode? = .ok bytes ∧
        ∀ rest, decodeFirst (bytes ++ rest) = .ok (some (v, rest)))) ∧
    (∀ v id, ofValue? v = some id → id ≠ [] → toValue? id = some v) ∧
    (∀ v w id, ofValue? v = some id → ofValue? w = some id → v = w) ∧
    (∀ b : UInt8, (∃ n, toValue? [b] = some (.integer n)) ↔
      b.toNat ≤ 23 ∨ 32 ≤ b.toNat ∧ b.toNat ≤ 55) ∧
    (∀ id n, toValue? id = some (.integer n) →
      id.length = 1 ∧ (Value.integer n).encode? = .ok id) ∧
    ∀ id id' v w, toValue? id = some v → toValue? id' = some w → v.encode = w.encode → id = id' := by
  refine ⟨?_, ?_, ?_, ?_, ?_, ?_⟩
  · intro id hid
    obtain ⟨v, hv⟩ := Option.ne_none_iff_exists'.mp (mt toValue?_eq_none_iff.mp hid)
    exact ⟨v, hv, ofValue?_toValue? hv, fun hlength => decodeFirst_toValue? hlength hv⟩
  · intro v id hv hid
    exact toValue?_of_ofValue? hid hv
  · intro v w id hv hw
    exact eq_of_ofValue? hv hw
  · intro b
    rw [exists_integer_iff, isIntegerByte_iff]
  · intro id n h
    exact encode_of_integer h
  · intro id id' v w hv hw hencode
    exact eq_of_encode_eq hv hw hencode

/-- The last of the identifiers that are sent as integers, the byte behind it and a longer one. -/
theorem form_unique_edge :
    toValue? [0x37] = some (.integer (-24)) ∧ (Value.integer (-24)).encode? = .ok [0x37] ∧
      ofValue? (.bytes [0x37]) ≠ some [0x37] ∧
      toValue? [0x38] = some (.bytes [0x38]) ∧ (Value.bytes [0x38]).encode ≠ [0x37] ∧
      ∃ v, toValue? [0x37, 0x37] = some v ∧ ofValue? v = some [0x37, 0x37] ∧
        ∃ bytes, v.encode? = .ok bytes ∧
          decodeFirst (bytes ++ [0x37]) = .ok (some (v, [0x37])) := by
  obtain ⟨hround, hsent, hone, -, hbyte, hdistinct⟩ := form_unique
  have hinteger : toValue? [0x37] = some (.integer (-24)) := by rfl
  have hstring : toValue? [0x38] = some (.bytes [0x38]) := hsent _ _ rfl (by decide)
  have hencode : (Value.integer (-24)).encode? = .ok [0x37] := (hbyte _ _ hinteger).2
  refine ⟨hinteger, hencode, ?_, hstring, ?_, ?_⟩
  · intro h
    cases hone _ (.integer (-24)) _ h rfl
  · intro h
    have hsame := hdistinct _ _ _ _ hstring hinteger
      (h.trans (Value.encode?_eq_ok.mp hencode).2.symm)
    exact absurd hsame (by decide)
  · obtain ⟨v, hv, hreceived, hbytes⟩ := hround [0x37, 0x37] (by decide)
    obtain ⟨bytes, hencoded, hfirst⟩ := hbytes (by decide)
    exact ⟨v, hv, hreceived, bytes, hencoded, hfirst [0x37]⟩

end EdhocLab.Cbor.Identifier
