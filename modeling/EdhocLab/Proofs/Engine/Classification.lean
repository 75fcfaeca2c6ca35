import EdhocLab.Engine.Classify
import EdhocLab.Proofs.Engine.Completion

/-! # Classification of accepted messages

A reader takes apart more of a message than the classification looks at.  Still both agree on what
they have: an accepted message is told for what it was accepted as, whichever revision is spoken and
whether or not an identifier stands in front.
-/
namespace EdhocLab.Engine

open Cbor (Value)
open Handshake

variable {e : Engine} {sequence : Bytes} {items front body : List Value}

/-- How many elements stand in front of a received message. -/
def leading (e : Engine) : Nat := if e.settings.prependsOnReceive then 1 else 0

theorem messageType_value (e : Engine) (sequence : Bytes) : (e.messageType sequence).value =
    match Cbor.decodeSequence sequence with
    | .error _ => .unknown
    | .ok items =>
      if e.isErrorShaped items then .errorMessage
      else typeOfLength e.settings.version.outerResponderId (items.length - e.leading) := by
  unfold messageType
  cases Cbor.decodeSequence sequence with
  | error _ => rfl
  | ok items =>
    dsimp only
    split <;> rfl

section Shape

/-- The elements of a message for a session follow its identifier in requests, which is no `true`. -/
theorem addressed_front {field : Field} {handle : e.sessions.Handle}
    (h : e.addressed field items = .ok (handle, body)) :
    ∃ front, items = front ++ body ∧ front.length = e.leading ∧ Value.bool true ∉ front := by
  obtain ⟨id, -, hsplit⟩ := addressed_eq_ok h
  unfold leading
  cases hprepends : e.settings.prependsOnReceive with
  | false =>
    rw [hprepends] at hsplit
    exact ⟨[], hsplit.2, rfl, List.not_mem_nil⟩
  | true =>
    rw [hprepends] at hsplit
    obtain ⟨v, rfl, hid⟩ := hsplit
    refine ⟨[v], rfl, rfl, fun hmem => ?_⟩
    rw [← List.mem_singleton.mp hmem] at hid
    cases hid

variable (hlength : front.length = e.leading)

include hlength

/-- A message that starts with a byte string does not look like an error message. -/
theorem isErrorShaped_bytes (b : Bytes) (rest : List Value) :
    e.isErrorShaped (front ++ .bytes b :: rest) = false := by
  unfold leading at hlength
  cases hprepends : e.settings.prependsOnReceive with
  | false =>
    rw [hprepends] at hlength
    obtain rfl := List.length_eq_zero_iff.mp hlength
    match rest with
    | [] | [_] | [_, _] | _ :: _ :: _ :: _ => simp [isErrorShaped, isInteger, hprepends]
  | true =>
    rw [hprepends] at hlength
    obtain ⟨v, rfl⟩ := List.length_eq_one_iff.mp hlength
    match rest with
    | [] | [_] | _ :: _ :: _ => simp [isErrorShaped, isInteger, hprepends]

/-- An integer and one more element look like an error message. -/
theorem isErrorShaped_integer (htrue : Value.bool true ∉ front) (n : Int) (info : Value) :
    e.isErrorShaped (front ++ [.integer n, info]) = true := by
  unfold leading at hlength
  cases hprepends : e.settings.prependsOnReceive with
  | false =>
    rw [hprepends] at hlength
    obtain rfl := List.length_eq_zero_iff.mp hlength
    simp [isErrorShaped, isInteger, hprepends]
  | true =>
    rw [hprepends] at hlength
    obtain ⟨v, rfl⟩ := List.length_eq_one_iff.mp hlength
    have hne : v ≠ .bool true := fun h => htrue (h ▸ List.mem_singleton_self v)
    simp [isErrorShaped, isInteger, hprepends, hne]

end Shape

section Readers

variable {field : Field} {handle : e.sessions.Handle}

/-- A message for a session that starts with a byte string is told by the number of its elements. -/
theorem messageType_bytes {b : Bytes} {rest : List Value} (hitems : decodeItems sequence = .ok items)
    (h : e.addressed field items = .ok (handle, .bytes b :: rest)) :
    (e.messageType sequence).value =
      typeOfLength e.settings.version.outerResponderId (rest.length + 1) := by
  obtain ⟨front, rfl, hlength, -⟩ := addressed_front h
  rw [messageType_value, decodeItems_eq_ok.mp hitems]
  dsimp only
  rw [if_neg (by simp [isErrorShaped_bytes hlength]), ← hlength, List.length_append,
    Nat.add_sub_cancel_left, List.length_cons]

/-- A message for a session that consists of an integer and one more element is an error message. -/
theorem messageType_integer {n : Int} {info : Value} (hitems : decodeItems sequence = .ok items)
    (h : e.addressed field items = .ok (handle, [.integer n, info])) :
    (e.messageType sequence).value = .errorMessage := by
  obtain ⟨front, rfl, hlength, htrue⟩ := addressed_front h
  rw [messageType_value, decodeItems_eq_ok.mp hitems]
  exact if_pos (isErrorShaped_integer hlength htrue n info)

/-- An accepted second message has the identifier of the Responder behind it where that is sent
outside of the ciphertext. -/
theorem messageType_of_read2 (h : (e.readMessage2 sequence).value.1 = true) :
    (e.messageType sequence).value =
      if e.settings.version.number ≤ 19 then .message2 else .message2Or3Or4 := by
  rw [readMessage2_value] at h
  cases hcheck : (e.check2 sequence).result with
  | error _ => simp [hcheck] at h
  | ok found =>
    obtain ⟨masked, _, _, hparse, -⟩ := check2_eq_ok hcheck
    obtain ⟨items, hitems, haddressed, -, -, houter⟩ := parse2_eq_ok hparse
    have hversion : e.settings.version.number ≤ 19 ↔ masked.outerCR.isSome := by
      rw [houter, Version.outerResponderId, decide_eq_true_eq]
    rw [messageType_bytes hitems haddressed, ← houter]
    cases hcR : masked.outerCR with
    | none =>
      rw [if_neg (by simp [hversion, hcR])]
      rfl
    | some v =>
      rw [if_pos (by simp [hversion, hcR])]
      rfl

/-- One ciphertext is a third or fourth message, and a second one where that has no identifier behind
it. -/
theorem messageType_ciphertext {b : Bytes} (hitems : decodeItems sequence = .ok items)
    (h : e.addressed field items = .ok (handle, [.bytes b])) : (e.messageType sequence).value =
      if e.settings.version.number ≤ 19 then .message3Or4 else .message2Or3Or4 := by
  rw [messageType_bytes hitems h]
  simp [typeOfLength, Version.outerResponderId]

theorem messageType_of_read3 (h : (e.readMessage3 sequence).value.1 = true) :
    (e.messageType sequence).value =
      if e.settings.version.number ≤ 19 then .message3Or4 else .message2Or3Or4 := by
  rw [readMessage3_value] at h
  cases hcheck : (e.check3 sequence).result with
  | error _ => simp [hcheck] at h
  | ok found =>
    obtain ⟨_, _, _, _, hparse, -⟩ := check3_eq_ok hcheck
    obtain ⟨items, hitems, haddressed⟩ := parse3_eq_ok hparse
    exact messageType_ciphertext hitems haddressed

theorem messageType_of_read4 (h : (e.readMessage4 sequence).value.1 = true) :
    (e.messageType sequence).value =
      if e.settings.version.number ≤ 19 then .message3Or4 else .message2Or3Or4 := by
  rw [readMessage4_value] at h
  obtain ⟨⟨⟩, hcheck⟩ := isOk_iff.mp (toOption_isSome.symm.trans h)
  obtain ⟨ead, hopen, -⟩ := Check.result_bind_eq_ok.mp hcheck
  obtain ⟨items, handle, _, _, _, _, _, hitems, haddressed, -⟩ := open4_eq_ok hopen
  exact messageType_ciphertext hitems haddressed

theorem messageType_of_readError (h : (e.readError sequence).value.1 = true) :
    (e.messageType sequence).value = .errorMessage := by
  rw [readError_value] at h
  cases hcheck : (e.checkError sequence).result with
  | error _ => simp [hcheck] at h
  | ok found =>
    obtain ⟨code, info, hparse, -⟩ := checkError_eq_ok hcheck
    obtain ⟨items, v, hitems, -, haddressed, hcode⟩ := parseError_eq_ok hparse
    cases v with
    | integer n => exact messageType_integer hitems haddressed
    | bytes | text | array | map | bool | null | float | tag => cases hcode

end Readers

/-- Accepted messages are told for what they were accepted as.  An accepted error message is none of
the second to fourth messages. -/
theorem messageType_of_accepted (e : Engine) (sequence : Bytes) :
    ((e.readMessage2 sequence).value.1 = true → (e.messageType sequence).value =
      if e.settings.version.number ≤ 19 then .message2 else .message2Or3Or4) ∧
    ((e.readMessage3 sequence).value.1 = true ∨ (e.readMessage4 sequence).value.1 = true →
      (e.messageType sequence).value =
        if e.settings.version.number ≤ 19 then .message3Or4 else .message2Or3Or4) ∧
    ((e.readError sequence).value.1 = true → (e.messageType sequence).value = .errorMessage ∧
      (e.readMessage2 sequence).value.1 = false ∧ (e.readMessage3 sequence).value.1 = false ∧
      (e.readMessage4 sequence).value.1 = false) := by
  refine ⟨messageType_of_read2, fun h => h.elim messageType_of_read3 messageType_of_read4,
    fun herror => ?_⟩
  have htype := messageType_of_readError herror
  refine ⟨htype, Bool.eq_false_iff.mpr fun h => ?_, Bool.eq_false_iff.mpr fun h => ?_,
    Bool.eq_false_iff.mpr fun h => ?_⟩
  · have htype₂ := htype.symm.trans (messageType_of_read2 h)
    split at htype₂ <;> cases htype₂
  · have htype₃ := htype.symm.trans (messageType_of_read3 h)
    split at htype₃ <;> cases htype₃
  · have htype₄ := htype.symm.trans (messageType_of_read4 h)
    split at htype₄ <;> cases htype₄

/-- An Initiator tells an error message from the second message that it accepts. -/
theorem caller_tells : ∃ (e : Engine) (m₂ : Bytes), (e.readMessage2 m₂).value.1 = true ∧
    (e.messageType m₂).value = .message2Or3Or4 ∧ (e.readError m₂).value.1 = false ∧
    (caller.readError [0x01, 0x60]).value.1 = true ∧
    (caller.messageType [0x01, 0x60]).value = .errorMessage ∧
    (caller.readMessage2 [0x01, 0x60]).value.1 = false := by
  obtain ⟨m₁, m₂, e, e', r, r', h⟩ := exists_exchanged
  have haccepted : (e.readMessage2 m₂).value.1 = true := by rw [h.read2]
  obtain ⟨htype, -, hexclusive⟩ := messageType_of_accepted e m₂
  have hrefused : (e.readError m₂).value.1 = false := Bool.eq_false_iff.mpr fun h =>
    Bool.eq_false_iff.mp (hexclusive h).2.1 haccepted
  have htype := htype haccepted
  rw [h.offering.coherent.1, if_neg (by decide)] at htype
  have herror : (caller.readError [0x01, 0x60]).value.1 = true := rfl
  obtain ⟨herrorType, hrefused₂, -⟩ := (messageType_of_accepted caller [0x01, 0x60]).2.2 herror
  exact ⟨e, m₂, haccepted, htype, hrefused, herror, herrorType, hrefused₂⟩

end EdhocLab.Engine
