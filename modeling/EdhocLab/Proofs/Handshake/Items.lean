import EdhocLab.Handshake.Items
import EdhocLab.Proofs.Cbor.Identifier
import EdhocLab.Proofs.Handshake.Totality

/-! # Reading elements

When the readers of single elements succeed, and that a sequence of items is decoded from its
encoding.
-/
namespace EdhocLab.Handshake

open Cbor (Value)

variable {field : Field} {items rest : List Value} {v : Value} {b id bytes : Bytes}

theorem decodeItems_eq_ok : decodeItems bytes = .ok items ↔ Cbor.decodeSequence bytes = .ok items :=
  mapError_eq_ok

theorem allProper_of_decodeItems (h : decodeItems bytes = .ok items) : Value.allProper items :=
  Cbor.allProper_of_decodeSequence (decodeItems_eq_ok.mp h)

/-- What was encoded is decoded again, but for tags. -/
theorem decodeItems_of_encodeItems (h : KeySchedule.encodeItems items = .ok bytes)
    (hdepth : Value.depthOfItems items ≤ Cbor.maxDepth) :
    decodeItems bytes = .ok (items.map Value.received) := by
  obtain ⟨hproper, rfl⟩ := KeySchedule.encodeItems_eq_ok.mp h
  exact decodeItems_eq_ok.mpr (Cbor.decodeSequence_encodeItems hproper hdepth)

theorem next_eq_ok {found : Value × List Value} :
    next field items = .ok found ↔ items = found.1 :: found.2 := by
  obtain ⟨v, rest⟩ := found
  cases items with
  | nil => simp [next]
  | cons w ws => simp [next]

@[simp] theorem next_cons : next field (v :: rest) = .ok (v, rest) := rfl

@[simp] theorem nextBytes_cons : nextBytes field (.bytes b :: rest) = .ok (b, rest) := rfl

theorem bytesOf_eq_ok : bytesOf field v = .ok b ↔ v = .bytes b := by
  unfold bytesOf
  cases v <;> simp [Value.bytes?]

theorem nextBytes_eq_ok {found : Bytes × List Value} :
    nextBytes field items = .ok found ↔ items = .bytes found.1 :: found.2 := by
  constructor
  · intro h
    obtain ⟨⟨v, rest⟩, hv, h⟩ := bind_eq_ok.mp h
    obtain ⟨b, hb, h⟩ := bind_eq_ok.mp h
    cases h
    rw [next_eq_ok.mp hv, bytesOf_eq_ok.mp hb]
  · rintro rfl
    rfl

theorem identifierOf_eq_ok :
    identifierOf field v = .ok id ↔ Cbor.Identifier.ofValue? v = some id := by
  unfold identifierOf
  cases Cbor.Identifier.ofValue? v <;> simp

theorem identifierValue_eq_ok :
    identifierValue field id = .ok v ↔ Cbor.Identifier.toValue? id = some v := by
  unfold identifierValue
  cases Cbor.Identifier.toValue? id <;> simp

theorem identifierValue_isOk : (identifierValue field id).isOk ↔ id ≠ [] := by
  unfold identifierValue
  cases h : Cbor.Identifier.toValue? id with
  | none => simp [Cbor.Identifier.toValue?_eq_none_iff.mp h]
  | some v =>
    have hne : id ≠ [] := fun hnil => by simp [Cbor.Identifier.toValue?_eq_none_iff.mpr hnil] at h
    simp [hne]

/-- A received identifier can be sent back. -/
theorem fitsHead_of_identifierOf (hv : v.isProper) (h : identifierOf field v = .ok id) :
    Cbor.fitsHead id.length :=
  Cbor.Identifier.fitsHead_of_ofValue? hv (identifierOf_eq_ok.mp h)

theorem expectEnd_eq_ok {defect : Defect} : expectEnd defect items = .ok () ↔ items = [] := by
  cases items <;> simp [expectEnd]

end EdhocLab.Handshake
