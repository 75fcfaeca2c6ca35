import EdhocLab.Proofs.Cbor.Concatenation
import EdhocLab.Transport.Combined

/-! # Combined payloads are split again

A third ciphertext and a protected payload are told apart in what they are put together to, in both
layouts.  Whatever was split can be put together again, from its parts alone.
-/
namespace EdhocLab.Transport.Combined

open Cbor (Value)

/-- What two parts are put together to. -/
def joined : CombinedLayout → Parts → Bytes
  | .v06, parts => Cbor.encodeBytes parts.ciphertext3 ++ Cbor.encodeBytes parts.oscorePayload
  | .v07, parts => Cbor.encodeBytes parts.ciphertext3 ++ parts.oscorePayload

/-- Parts that can be told apart again: both have a length that CBOR can express, and in the newer
layout there is something behind the ciphertext. -/
structure Parts.Separable (layout : CombinedLayout) (parts : Parts) : Prop where
  ciphertext3_fits : Cbor.fitsHead parts.ciphertext3.length
  oscorePayload_fits : layout = .v06 → Cbor.fitsHead parts.oscorePayload.length
  oscorePayload_ne_nil : layout = .v07 → parts.oscorePayload ≠ []

variable {layout : CombinedLayout} {parts : Parts} {message3 : Bytes} {skip : Bool}

theorem joined_v06 : joined .v06 parts =
    Value.encodeItems [.bytes parts.ciphertext3, .bytes parts.oscorePayload] := by
  simp only [joined, Value.encodeItems, List.append_nil]
  rfl

theorem allProper_parts (h : parts.Separable .v06) :
    Value.allProper [.bytes parts.ciphertext3, .bytes parts.oscorePayload] := by
  simp only [Value.allProper, Value.isProper, Bool.and_true, Bool.and_eq_true]
  exact ⟨h.ciphertext3_fits, h.oscorePayload_fits rfl⟩

/-- What is put together is split into the same parts. -/
theorem split_joined (h : parts.Separable layout) : split layout (joined layout parts) = .ok parts := by
  cases layout with
  | v06 =>
    have hdecode := Cbor.decodeSequence_encodeItems (allProper_parts h)
      (by simp [Value.depthOfItems, Value.depth])
    rw [split, splitSequence, joined_v06, hdecode]
    rfl
  | v07 =>
    have hne := h.oscorePayload_ne_nil rfl
    have hread := Cbor.readItem_encode (.bytes parts.ciphertext3) h.ciphertext3_fits
      (Nat.zero_le Cbor.maxDepth) parts.oscorePayload
    have hempty : (joined .v07 parts).isEmpty = false := by
      simp [joined, hne]
    have hrest : parts.oscorePayload.isEmpty = false := List.isEmpty_eq_false_iff.mpr hne
    rw [split, splitLeading, Cbor.decodeFirst, hempty]
    simp only [Bool.false_eq_true, if_false, joined, Cbor.encodeBytes, hread, Value.received, mapError_ok,
      ok_bind, hrest, pure_eq_ok]

/-- Parts can be told apart if what they are put together to is not too long. -/
theorem separable_of_joined (hciphertext3 : Cbor.fitsHead parts.ciphertext3.length)
    (hlength : (joined layout parts).length < 2 ^ 64)
    (hpayload : layout = .v07 → parts.oscorePayload ≠ []) : parts.Separable layout where
  ciphertext3_fits := hciphertext3
  oscorePayload_fits hlayout := by
    subst hlayout
    simp only [joined, Cbor.encodeBytes, Value.encode, List.length_append] at hlength
    simp only [Cbor.fitsHead, decide_eq_true_eq]
    omega
  oscorePayload_ne_nil := hpayload

/-- The ciphertext of a message that was decoded has a length that CBOR can express. -/
theorem fitsHead_of_ciphertext3 {ciphertext : Bytes}
    (h : ciphertext3 message3 skip = .ok ciphertext) : Cbor.fitsHead ciphertext.length := by
  obtain ⟨items, hitems, h⟩ := bind_eq_ok.mp h
  have hproper := Cbor.allProper_of_decodeSequence (mapError_eq_ok.mp hitems)
  cases hfound : items[if skip then 1 else 0]?.bind Value.bytes? with
  | none => simp [hfound] at h
  | some found =>
    simp only [hfound, pure_eq_ok, Except.ok.injEq] at h
    subst h
    obtain ⟨v, hv, hbytes⟩ := Option.bind_eq_some_iff.mp hfound
    have hv := Value.allProper_iff.mp hproper v (List.mem_of_getElem? hv)
    cases v <;> cases hbytes
    exact hv

/-- The ciphertext is found behind the identifier that may stand in front of it. -/
theorem ciphertext3_of_decodeSequence {front : List Value} {ciphertext : Bytes}
    (h : Cbor.decodeSequence message3 = .ok (front ++ [.bytes ciphertext]))
    (hfront : front.length = if skip then 1 else 0) :
    ciphertext3 message3 skip = .ok ciphertext := by
  simp only [ciphertext3, h, mapError_ok, ok_bind, ← hfront, List.getElem?_concat_length]
  rfl

/-- Two parts are put together unless that is too long to be sent in one piece. -/
theorem join_eq (h : ciphertext3 message3 skip = .ok parts.ciphertext3)
    (hseparable : parts.Separable layout) (maxSize : Nat) :
    join layout message3 skip parts.oscorePayload maxSize =
      if maxSize < (joined layout parts).length then
        .error (.oversize (joined layout parts).length maxSize)
      else .ok (joined layout parts) := by
  unfold join
  rw [h, ok_bind]
  cases layout with
  | v06 =>
    have hencoded : encoded [.bytes parts.ciphertext3, .bytes parts.oscorePayload] =
        .ok (joined .v06 parts) := by
      rw [encoded, Cbor.encodeSequence, if_pos (allProper_parts hseparable), joined_v06]
      rfl
    simp only [hencoded, ok_bind]
    rfl
  | v07 =>
    have hencoded : encoded [.bytes parts.ciphertext3] = .ok (Cbor.encodeBytes parts.ciphertext3) := by
      have hproper : Value.allProper [.bytes parts.ciphertext3] := by
        simpa [Value.allProper, Value.isProper] using hseparable.ciphertext3_fits
      rw [encoded, Cbor.encodeSequence, if_pos hproper, Value.encodeItems, Value.encodeItems,
        List.append_nil]
      rfl
    have hempty : parts.oscorePayload.isEmpty = false :=
      List.isEmpty_eq_false_iff.mpr (hseparable.oscorePayload_ne_nil rfl)
    simp only [hencoded, hempty, ok_bind, Bool.false_eq_true, if_false, pure_eq_ok]
    rfl

theorem ciphertext3_eq_ok {ciphertext : Bytes} : ciphertext3 message3 skip = .ok ciphertext ↔
    ∃ items, Cbor.decodeSequence message3 = .ok items ∧
      items[if skip then 1 else 0]? = some (.bytes ciphertext) := by
  constructor
  · intro h
    obtain ⟨items, hitems, h⟩ := bind_eq_ok.mp h
    refine ⟨items, mapError_eq_ok.mp hitems, ?_⟩
    cases hfound : items[if skip then 1 else 0]? with
    | none => simp [hfound] at h
    | some v => cases v <;> simp_all [Value.bytes?]
  · rintro ⟨items, hitems, hfound⟩
    simp only [ciphertext3, hitems, mapError_ok, ok_bind, hfound, Option.bind_some, Value.bytes?]
    rfl

/-- Only parts that can be told apart again are put together. -/
theorem separable_of_join {payload : Bytes} {maxSize : Nat}
    (hciphertext : ciphertext3 message3 skip = .ok parts.ciphertext3)
    (h : join layout message3 skip parts.oscorePayload maxSize = .ok payload) :
    parts.Separable layout := by
  have hfits := fitsHead_of_ciphertext3 hciphertext
  unfold join at h
  rw [hciphertext, ok_bind] at h
  cases layout with
  | v06 =>
    obtain ⟨bytes, hencoded, -⟩ := bind_eq_ok.mp h
    obtain ⟨hproper, -⟩ := Cbor.encodeSequence_eq_ok.mp (mapError_eq_ok.mp hencoded)
    simp only [Value.allProper, Value.isProper, Bool.and_true, Bool.and_eq_true] at hproper
    exact ⟨hfits, fun _ => hproper.2, nofun⟩
  | v07 =>
    refine ⟨hfits, nofun, fun _ hempty => ?_⟩
    simp [hempty] at h

/-- Two parts are put together exactly if they can be told apart again and fit into one piece. -/
theorem join_eq_ok {payload oscorePayload : Bytes} {maxSize : Nat} :
    join layout message3 skip oscorePayload maxSize = .ok payload ↔
      ∃ ciphertext, ciphertext3 message3 skip = .ok ciphertext ∧
        Parts.Separable layout ⟨ciphertext, oscorePayload⟩ ∧
        payload = joined layout ⟨ciphertext, oscorePayload⟩ ∧ payload.length ≤ maxSize := by
  constructor
  · intro h
    obtain ⟨ciphertext, hciphertext, -⟩ := bind_eq_ok.mp h
    have hseparable : Parts.Separable layout ⟨ciphertext, oscorePayload⟩ :=
      separable_of_join hciphertext h
    rw [join_eq (by exact hciphertext) hseparable] at h
    by_cases hsize : maxSize < (joined layout ⟨ciphertext, oscorePayload⟩).length
    · simp [hsize] at h
    · rw [if_neg hsize] at h
      cases h
      exact ⟨ciphertext, hciphertext, hseparable, rfl, Nat.le_of_not_lt hsize⟩
  · rintro ⟨ciphertext, hciphertext, hseparable, rfl, hsize⟩
    rw [join_eq (by exact hciphertext) hseparable, if_neg (Nat.not_lt.mpr hsize)]

/-- What was split can be told apart again, in whatever form its byte strings were encoded. -/
theorem separable_of_split {payload : Bytes} (h : split layout payload = .ok parts) :
    parts.Separable layout := by
  cases layout with
  | v06 =>
    obtain ⟨items, hitems, h⟩ := bind_eq_ok.mp h
    have hproper := Cbor.allProper_of_decodeSequence (mapError_eq_ok.mp hitems)
    split at h
    · cases h
      simp only [Value.allProper, Value.isProper, Bool.and_true, Bool.and_eq_true] at hproper
      exact ⟨hproper.1, fun _ => hproper.2, nofun⟩
    · simp at h
    · simp at h
  | v07 =>
    obtain ⟨found, hfound, h⟩ := bind_eq_ok.mp h
    split at h
    · rename_i ciphertext rest
      have hitem := Cbor.decodeFirst_eq_some.mp (mapError_eq_ok.mp hfound)
      have hproper : (Value.bytes ciphertext).isProper := Cbor.isProper_readItem hitem
      by_cases hrest : rest = []
      · simp [hrest] at h
      · have hempty : rest.isEmpty = false := List.isEmpty_eq_false_iff.mpr hrest
        simp only [hempty, Bool.false_eq_true, if_false, pure_eq_ok] at h
        cases h
        exact ⟨hproper, nofun, fun _ => hrest⟩
    · simp at h

/-- Splitting undoes joining, and what was split is joined again from its parts alone, out of any
encoding of the ciphertext and into a payload that has the same parts. -/
theorem split_join_inverse :
    (∀ layout message3 skip oscorePayload maxSize payload,
      join layout message3 skip oscorePayload maxSize = .ok payload →
      payload.length ≤ maxSize ∧ ∃ items ciphertext, Cbor.decodeSequence message3 = .ok items ∧
        items[if skip then 1 else 0]? = some (.bytes ciphertext) ∧
        split layout payload = .ok ⟨ciphertext, oscorePayload⟩) ∧
    ∀ layout received parts, split layout received = .ok parts →
      ∃ payload, split layout payload = .ok parts ∧
        (∃ message3, Cbor.encodeSequence [.bytes parts.ciphertext3] = .ok message3 ∧
          Cbor.decodeSequence message3 = .ok [.bytes parts.ciphertext3]) ∧
        ∀ message3 maxSize, Cbor.decodeSequence message3 = .ok [.bytes parts.ciphertext3] →
          payload.length ≤ maxSize →
          join layout message3 false parts.oscorePayload maxSize = .ok payload := by
  constructor
  · intro layout message3 skip oscorePayload maxSize payload h
    obtain ⟨ciphertext, hciphertext, hseparable, rfl, hsize⟩ := join_eq_ok.mp h
    obtain ⟨items, hitems, hfound⟩ := ciphertext3_eq_ok.mp hciphertext
    exact ⟨hsize, items, ciphertext, hitems, hfound, split_joined hseparable⟩
  · intro layout received parts h
    have hseparable := separable_of_split h
    have hproper : Value.allProper [.bytes parts.ciphertext3] := by
      simpa [Value.allProper, Value.isProper] using hseparable.ciphertext3_fits
    refine ⟨joined layout parts, split_joined hseparable, ⟨_, Cbor.encodeSequence_eq_ok.mpr
      ⟨hproper, rfl⟩, Cbor.decodeSequence_encodeItems hproper (Nat.zero_le Cbor.maxDepth)⟩, ?_⟩
    intro message3 maxSize hmessage3 hsize
    have hciphertext : ciphertext3 message3 false = .ok parts.ciphertext3 :=
      ciphertext3_eq_ok.mpr ⟨_, hmessage3, rfl⟩
    exact join_eq_ok.mpr ⟨parts.ciphertext3, hciphertext, hseparable, rfl, hsize⟩

/-- An identifier and a ciphertext that stands in two pieces. -/
def chunkedMessage3 : Bytes := [0x17, 0x5f, 0x42, 0x0a, 0x0b, 0x41, 0x0c, 0xff]

/-- Two byte strings with heads that are longer than they need to be, the second one empty. -/
def longHeads : Bytes := [0x58, 0x01, 0x0a, 0x59, 0x00, 0x00]

theorem split_join_inverse_chunked :
    join .v07 chunkedMessage3 true [0xaa, 0xbb] 6 = .ok [0x43, 0x0a, 0x0b, 0x0c, 0xaa, 0xbb] ∧
      (∃ ciphertext, split .v07 [0x43, 0x0a, 0x0b, 0x0c, 0xaa, 0xbb] =
        .ok ⟨ciphertext, [0xaa, 0xbb]⟩) ∧
      split .v06 longHeads = .ok ⟨[0x0a], []⟩ ∧
      ∃ payload, join .v06 [0x5f, 0x41, 0x0a, 0xff] false [] payload.length = .ok payload ∧
        split .v06 payload = .ok ⟨[0x0a], []⟩ := by
  obtain ⟨hjoin, hsplit⟩ := split_join_inverse
  have hjoined : join .v07 chunkedMessage3 true [0xaa, 0xbb] 6 =
      .ok [0x43, 0x0a, 0x0b, 0x0c, 0xaa, 0xbb] := by rfl
  have hreceived : split .v06 longHeads = .ok ⟨[0x0a], []⟩ := by rfl
  obtain ⟨-, items, ciphertext, -, -, hparts⟩ := hjoin _ _ _ _ _ _ hjoined
  obtain ⟨payload, hpayload, -, hagain⟩ := hsplit _ _ _ hreceived
  exact ⟨hjoined, ⟨ciphertext, hparts⟩, hreceived, payload,
    hagain _ _ (by rfl) (Nat.le_refl _), hpayload⟩

end EdhocLab.Transport.Combined
