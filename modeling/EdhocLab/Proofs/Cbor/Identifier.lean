import EdhocLab.Cbor.Identifier
import EdhocLab.Proofs.Cbor.RoundTrip

/-! # Identifiers as they are sent

Every identifier but the empty one has a form, from which it is received again.
-/
namespace EdhocLab.Cbor.Identifier

variable {id : Bytes} {v : Value}

theorem toValue?_eq_none_iff : toValue? id = none ↔ id = [] := by
  unfold toValue?
  split
  · simp
  · split
    · simp
    · split <;> simp
  · simp_all

theorem toValue?_of_two_le (h : 2 ≤ id.length) : toValue? id = some (.bytes id) := by
  match id, h with
  | _ :: _ :: _, _ => rfl

theorem ofValue?_of_two_le (h : 2 ≤ id.length) : ofValue? (.bytes id) = some id := by
  match id, h with
  | _ :: _ :: _, _ => rfl

/-- The three forms of an identifier. -/
theorem toValue?_cases (h : toValue? id = some v) :
    (∃ b : UInt8, id = [b] ∧ b.toNat ≤ 23 ∧ v = .integer b.toNat) ∨
    (∃ b : UInt8, id = [b] ∧ 32 ≤ b.toNat ∧ b.toNat ≤ 55 ∧ v = .integer (31 - b.toNat)) ∨
    (v = .bytes id ∧ ofValue? (.bytes id) = some id) := by
  match id with
  | [] => cases h
  | [b] =>
    rw [toValue?] at h
    by_cases hlow : b ≤ 23
    · rw [if_pos hlow] at h
      cases h
      exact .inl ⟨b, rfl, UInt8.le_iff_toNat_le.mp hlow, rfl⟩
    rw [if_neg hlow] at h
    by_cases hint : isIntegerByte b
    · rw [if_pos hint] at h
      cases h
      simp only [isIntegerByte, hlow, decide_false, Bool.false_or, Bool.and_eq_true,
        decide_eq_true_eq] at hint
      exact .inr (.inl ⟨b, rfl, UInt8.le_iff_toNat_le.mp hint.1, UInt8.le_iff_toNat_le.mp hint.2, rfl⟩)
    · rw [if_neg hint] at h
      cases h
      exact .inr (.inr ⟨rfl, by rw [ofValue?, if_neg hint]⟩)
  | b :: c :: rest =>
    rw [toValue?_of_two_le (by simp)] at h
    cases h
    exact .inr (.inr ⟨rfl, ofValue?_of_two_le (by simp)⟩)

/-- The form of an identifier stands for that identifier. -/
theorem ofValue?_toValue? (h : toValue? id = some v) : ofValue? v = some id := by
  rcases toValue?_cases h with ⟨b, rfl, hb, rfl⟩ | ⟨b, rfl, hb, hb', rfl⟩ | ⟨rfl, hid⟩
  · rw [ofValue?, if_pos (by omega)]
    simp
  · rw [ofValue?, if_neg (by omega), if_pos (by omega)]
    have hn : ((31 : Int) - (31 - (b.toNat : Int))).toNat = b.toNat := by omega
    rw [hn, UInt8.ofNat_toNat]
  · exact hid

theorem isProper_toValue? (hid : fitsHead id.length) (h : toValue? id = some v) : v.isProper := by
  rcases toValue?_cases h with ⟨b, rfl, hb, rfl⟩ | ⟨b, rfl, hb, hb', rfl⟩ | ⟨rfl, -⟩
  · simp only [Value.isProper, fitsHead, decide_eq_true_eq]
    omega
  · obtain ⟨n, hn⟩ : ∃ n : Nat, (31 : Int) - (b.toNat : Int) = Int.negSucc n :=
      ⟨b.toNat - 32, by omega⟩
    rw [hn]
    simp only [Value.isProper, fitsHead, decide_eq_true_eq]
    omega
  · exact hid

theorem encode_bytes_length_le {b : Bytes} (hb : fitsHead b.length) :
    (Value.bytes b).encode.length ≤ 9 + b.length := by
  have hle : (head 2 b.length).length ≤ 9 := length_head_le hb
  rw [Value.encode, List.length_append]
  omega

theorem length_encode_toValue?_le (hid : fitsHead id.length) (h : toValue? id = some v) :
    v.encode.length ≤ 9 + id.length := by
  have hproper := isProper_toValue? hid h
  rcases toValue?_cases h with ⟨b, rfl, hb, rfl⟩ | ⟨b, rfl, hb, hb', rfl⟩ | ⟨rfl, -⟩
  · have hle : (head 0 b.toNat).length ≤ 9 := length_head_le hproper
    exact Nat.le_trans hle (Nat.le_add_right ..)
  · obtain ⟨n, hn⟩ : ∃ n : Nat, (31 : Int) - (b.toNat : Int) = Int.negSucc n :=
      ⟨b.toNat - 32, by omega⟩
    rw [hn] at hproper ⊢
    have hle : (head 1 n).length ≤ 9 := length_head_le hproper
    exact Nat.le_trans hle (Nat.le_add_right ..)
  · exact encode_bytes_length_le hid

theorem depth_toValue? (h : toValue? id = some v) : v.depth = 0 := by
  rcases toValue?_cases h with ⟨b, rfl, hb, rfl⟩ | ⟨b, rfl, hb, hb', rfl⟩ | ⟨rfl, -⟩ <;> rfl

theorem received_toValue? (h : toValue? id = some v) : v.received = v := by
  rcases toValue?_cases h with ⟨b, -, -, rfl⟩ | ⟨b, -, -, -, rfl⟩ | ⟨rfl, -⟩ <;> rfl

/-- Received identifiers are short enough to be sent. -/
theorem fitsHead_of_ofValue? (hv : v.isProper) (h : ofValue? v = some id) : fitsHead id.length := by
  unfold ofValue? at h
  split at h
  · split at h <;> cases h
    rfl
  · cases h
    exact hv
  · split at h
    · cases h; rfl
    · split at h <;> cases h
      rfl
  · cases h

end EdhocLab.Cbor.Identifier
