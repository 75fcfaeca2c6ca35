import EdhocLab.Cose.Structure
import EdhocLab.Proofs.Cbor.Distinction
import EdhocLab.Proofs.Cbor.Identifier
import EdhocLab.Proofs.Cbor.Nesting

/-! # Header maps as elements

A header map is received as it was sent but for tags, also if only its key identifier was sent and
whatever stands around it.
-/
namespace EdhocLab.Cose

open Cbor (Value fitsHead)

variable {idCred element : Value} {kid : Bytes}

theorem isProper_kidMap_iff : (kidMap kid).isProper ↔ fitsHead kid.length := by
  simp only [kidMap, kidLabel, Value.isProper, Value.allEntriesProper, fitsHead, Value.keysAscend]
  simp

theorem isProper_kidMap (h : kid.length ≤ 1000) : (kidMap kid).isProper := by
  rw [isProper_kidMap_iff, fitsHead, decide_eq_true_eq]
  omega

theorem depth_kidMap (kid : Bytes) : (kidMap kid).depth = 1 := rfl

theorem isSame_kidMap (kid kid' : Bytes) :
    (kidMap kid).isSame (kidMap kid') = decide (kid = kid') := by
  rw [Bool.eq_iff_iff, Cbor.isSame_iff_eq rfl rfl, decide_eq_true_eq]
  simp [kidMap]

theorem toElement?_kidMap : toElement? (kidMap kid) = Cbor.Identifier.toValue? kid := by
  simp [kidMap, toElement?, kidOf?, Value.bytes?]

theorem eq_kidMap_of_kidOf? {entry : Value × Value} (h : kidOf? (.map [entry]) = some kid) :
    Value.map [entry] = kidMap kid := by
  obtain ⟨k, v⟩ := entry
  obtain ⟨w, hw, hbytes⟩ := Option.bind_eq_some_iff.mp h
  by_cases hk : kidLabel = k
  · subst hk
    simp only [List.lookup_cons, beq_self_eq_true, Option.some.injEq] at hw
    subst hw
    cases v <;> simp_all [Value.bytes?, kidMap]
  · have hbeq : (kidLabel == k) = false := by simpa using hk
    simp [List.lookup_cons, hbeq] at hw

/-- What is sent is a key identifier or the whole map. -/
theorem toElement?_cases (h : toElement? idCred = some element) :
    (∃ kid, idCred = kidMap kid ∧ Cbor.Identifier.toValue? kid = some element) ∨
      (element = idCred ∧ ∃ entries, idCred = .map entries) := by
  unfold toElement? at h
  split at h
  · split at h
    · rename_i hkid
      exact .inl ⟨_, eq_kidMap_of_kidOf? hkid, h⟩
    · cases h
      exact .inr ⟨rfl, _, rfl⟩
  · cases h
    exact .inr ⟨rfl, _, rfl⟩
  · cases h

/-- Of the maps, only that of the empty key identifier cannot be sent. -/
theorem toElement?_eq_none_iff :
    toElement? idCred = none ↔ (∀ entries, idCred ≠ .map entries) ∨ idCred = kidMap [] := by
  constructor
  · intro h
    unfold toElement? at h
    split at h
    · split at h
      · rename_i kid hkid
        have hnil : kid = [] := Cbor.Identifier.toValue?_eq_none_iff.mp h
        exact .inr (hnil ▸ eq_kidMap_of_kidOf? hkid)
      · cases h
    · cases h
    · rename_i hother
      exact .inl hother
  · rintro (hother | rfl)
    · unfold toElement?
      split
      · exact absurd rfl (hother _)
      · exact absurd rfl (hother _)
      · rfl
    · rw [toElement?_kidMap]
      rfl

/-- The header map is received from how it was sent. -/
theorem ofElement?_toElement? (h : toElement? idCred = some element) :
    ofElement? element = some idCred := by
  rcases toElement?_cases h with ⟨kid, rfl, hkid⟩ | ⟨rfl, entries, rfl⟩
  · have hid := Cbor.Identifier.ofValue?_toValue? hkid
    cases element with
    | bytes | integer => simp [ofElement?, hid]
    | text | array | map | bool | null | float | tag => simp [Cbor.Identifier.ofValue?] at hid
  · rfl

/-- Tags are lost on the way, and with them what they told apart. -/
theorem ofElement?_received (h : toElement? idCred = some element) :
    ofElement? element.received = some idCred.received := by
  rcases toElement?_cases h with ⟨kid, rfl, hkid⟩ | ⟨rfl, entries, rfl⟩
  · rw [Cbor.Identifier.received_toValue? hkid]
    exact ofElement?_toElement? h
  · rfl

theorem received_ne_bool (h : toElement? idCred = some element) (b : Bool) :
    element.received ≠ .bool b := by
  intro hbool
  exact nomatch hbool ▸ ofElement?_received h

theorem depth_toElement?_le (h : toElement? idCred = some element) : element.depth ≤ idCred.depth := by
  rcases toElement?_cases h with ⟨kid, rfl, hkid⟩ | ⟨rfl, -⟩
  · rw [Cbor.Identifier.depth_toValue? hkid]
    exact Nat.zero_le _
  · exact Nat.le_refl _

theorem isProper_toElement? (hproper : idCred.isProper) (h : toElement? idCred = some element) :
    element.isProper := by
  rcases toElement?_cases h with ⟨kid, rfl, hkid⟩ | ⟨rfl, -⟩
  · exact Cbor.Identifier.isProper_toValue? (isProper_kidMap_iff.mp hproper) hkid
  · exact hproper

theorem not_isTag_of_toElement? (h : toElement? idCred = some element) : ¬idCred.isTag := by
  cases idCred with
  | tag => cases h
  | integer | bytes | text | array | map | bool | null | float => exact nofun

section Sequences

variable {before after : List Value}

/-- In place of a header map, its element can be sent among the same items. -/
theorem decodeSequence_element (h : toElement? idCred = some element)
    (hitems : ∀ v ∈ before ++ idCred :: after, v.isProper ∧ v.depth < 128) :
    ∃ bytes, Cbor.encodeSequence (before ++ element :: after) = .ok bytes ∧
      Cbor.decodeSequence bytes =
        .ok (before.map Value.received ++ element.received :: after.map Value.received) := by
  have hsent : ∀ v ∈ before ++ element :: after, v.isProper ∧ v.depth < 128 := by
    simp only [List.forall_mem_append, List.forall_mem_cons] at hitems ⊢
    obtain ⟨hbefore, ⟨hproper, hdepth⟩, hafter⟩ := hitems
    exact ⟨hbefore, ⟨isProper_toElement? hproper h,
      Nat.lt_of_le_of_lt (depth_toElement?_le h) hdepth⟩, hafter⟩
  have hproper := Value.allProper_iff.mpr fun v hv => (hsent v hv).1
  have hread := Cbor.decodeSequence_encodeItems hproper
    (Value.depthOfItems_le.mpr fun v hv => Nat.le_of_lt_succ (hsent v hv).2)
  rw [List.map_append, List.map_cons] at hread
  exact ⟨_, Cbor.encodeSequence_eq_ok.mpr ⟨hproper, rfl⟩, hread⟩

end Sequences

/-- A header map that can be sent is received again, at once and through the encoding of a sequence in
which any items stand around it, where it loses its tags if it has any.  It is still the same then as long
as its labels are different and in order without tags.  Nothing can be sent for what is no map and for the
map that holds the empty key identifier only. -/
theorem element_received :
    (∀ idCred element, toElement? idCred = some element → ofElement? element = some idCred ∧
      ∀ before after : List Value,
        (∀ v ∈ before ++ idCred :: after, (∃ bytes, v.encode? = .ok bytes) ∧ v.depth < 128) →
        ∃ bytes received, Cbor.encodeSequence (before ++ element :: after) = .ok bytes ∧
          Cbor.decodeSequence bytes =
            .ok (before.map Value.received ++ received :: after.map Value.received) ∧
          ofElement? received = some idCred.received ∧
          (idCred.received.isSame idCred ↔ idCred.untagged.isProper) ∧
          (idCred.IsUntagged → ofElement? received = some idCred)) ∧
    ∀ idCred, toElement? idCred = none ↔
      (∀ entries, idCred ≠ .map entries) ∨ idCred = kidMap [] := by
  refine ⟨fun idCred element h => ⟨ofElement?_toElement? h, ?_⟩, fun _ => toElement?_eq_none_iff⟩
  intro before after hitems
  simp only [Value.exists_encode?_iff] at hitems
  obtain ⟨bytes, hbytes, hread⟩ := decodeSequence_element h hitems
  have hreceived := ofElement?_received h
  have hproper := (hitems idCred (by simp)).1
  refine ⟨bytes, element.received, hbytes, hread, hreceived, ?_, fun huntagged => ?_⟩
  · rw [Cbor.isSame_received_iff hproper]
    exact and_iff_right (not_isTag_of_toElement? h)
  · rw [hreceived, idCred.received_of_isUntagged hproper huntagged]

/-- The items in front of a header map and behind it. -/
def itemsBefore : List Value := [.bool true, .array [.integer (-12), .bytes [0x2b]]]

def itemsAfter : List Value := [.map [(.integer 4, .bytes [0x2b])], .null]

/-- The key identifier `2b` stands as an integer between items that hold the same integer, the same
bytes and the whole map. -/
theorem element_received_among :
    toElement? (kidMap [0x2b]) = some (.integer (-12)) ∧
      ofElement? (.integer (-12)) = some (kidMap [0x2b]) ∧
      (∃ bytes received,
        Cbor.encodeSequence (itemsBefore ++ .integer (-12) :: itemsAfter) = .ok bytes ∧
          Cbor.decodeSequence bytes = .ok (itemsBefore ++ received :: itemsAfter) ∧
          ofElement? received = some (kidMap [0x2b])) ∧
      toElement? (kidMap []) = none ∧ toElement? (.bytes [0x2b]) = none := by
  obtain ⟨hsent, hnone⟩ := element_received
  have helement : toElement? (kidMap [0x2b]) = some (.integer (-12)) := by rfl
  have hitems : ∀ v ∈ itemsBefore ++ kidMap [0x2b] :: itemsAfter,
      (∃ bytes, v.encode? = .ok bytes) ∧ v.depth < 128 := by
    simp only [Value.exists_encode?_iff]
    decide
  obtain ⟨hreceived, hamong⟩ := hsent _ _ helement
  obtain ⟨bytes, received, hbytes, hread, -, -, hsame⟩ := hamong itemsBefore itemsAfter hitems
  exact ⟨helement, hreceived, ⟨bytes, received, hbytes, hread, hsame (by decide)⟩,
    (hnone _).mpr (.inr rfl), (hnone _).mpr (.inl nofun)⟩

/-- A header map with two labels that only a tag tells apart. -/
def alikeIdCred : Value := .map [(kidLabel, .bool false), (.tag 1 kidLabel, .bool true)]

/-- A header map with a tag is sent as it is, and received as another one. -/
theorem alikeIdCred_not_received :
    toElement? alikeIdCred = some alikeIdCred ∧ ofElement? alikeIdCred = some alikeIdCred ∧
      alikeIdCred.depth < 128 ∧
      Cbor.encodeSequence [alikeIdCred] = .ok [0xa2, 0x04, 0xf4, 0x04, 0xf5] ∧
      Cbor.decodeSequence [0xa2, 0x04, 0xf4, 0x04, 0xf5] = .ok [.map [(kidLabel, .bool true)]] ∧
      ofElement? (.map [(kidLabel, .bool true)]) = some (.map [(kidLabel, .bool true)]) ∧
      ¬alikeIdCred.isSame (.map [(kidLabel, .bool true)]) := by
  exact ⟨by rfl, by rfl, by decide, by rfl, by rfl, by rfl, by decide⟩

end EdhocLab.Cose
