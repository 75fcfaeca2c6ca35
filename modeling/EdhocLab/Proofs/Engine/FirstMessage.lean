import EdhocLab.Proofs.Cbor.Tagged
import EdhocLab.Proofs.Digest.Evaluation
import EdhocLab.Proofs.Engine.Classification

/-! # The first message among its bytes

What an accepted first message is told for, and which of its bytes are hashed.  Both look at less than
the reader does: the classification counts elements, of which authorization data brings any number,
and the hash starts at the second byte of a request, which is behind `true` unless that is tagged.
-/
namespace EdhocLab.Engine

open Cbor (Value)
open Handshake

variable {e e' : Engine} {sequence message : Bytes} {items : List Value}

/-- What has to stand in front of a received first message. -/
def expectedTrue (e : Engine) : List Value := if e.settings.prependsOnReceive then [.bool true] else []

theorem length_expectedTrue (e : Engine) : e.expectedTrue.length = e.leading := by
  unfold expectedTrue leading
  split <;> rfl

section Elements

/-- Whatever the role, an accepted first message has been taken apart. -/
theorem parse1_of_read1 (h : (e.readMessage1 sequence).value.1 = true) :
    ∃ received ead, e.parse1 sequence = .ok (received, ead) := by
  rw [readMessage1_value] at h
  cases hcheck : (e.check1 sequence).result with
  | error _ => simp [hcheck] at h
  | ok accepted =>
    obtain ⟨⟨received, ead⟩, hparse, -⟩ := Check.result_bind_eq_ok.mp hcheck
    exact ⟨received, ead, hparse⟩

/-- The elements of an accepted first message. -/
theorem elements_of_read1 (h : (e.readMessage1 sequence).value.1 = true) :
    ∃ method suitesI gX cI ead, Cbor.decodeSequence sequence =
      .ok (e.expectedTrue ++ method :: suitesI :: .bytes gX :: cI :: ead) := by
  obtain ⟨received, _, hparse⟩ := parse1_of_read1 h
  obtain ⟨items, method, suitesI, cI, rest, hitems, hleading, -⟩ := parse1_eq_ok hparse
  refine ⟨method, suitesI, received.gX, cI, rest, ?_⟩
  rw [decodeItems_eq_ok.mp hitems, leading1_eq_ok.mp hleading, expectedTrue]
  split <;> rfl

theorem isErrorShaped_of_length (h : 3 < items.length) : e.isErrorShaped items = false := by
  match items with
  | [] | [_] | [_, _] | [_, _, _] => simp at h
  | _ :: _ :: _ :: _ :: _ => rfl

theorem typeOfLength_four_add (outerResponderId : Bool) (n : Nat) :
    typeOfLength outerResponderId (4 + n) = if n ≤ 1 then .message1 else .unknown := by
  match n with
  | 0 | 1 => rfl
  | n + 2 =>
    rw [if_neg (by omega), show 4 + (n + 2) = n + 6 by omega]
    rfl

/-- An accepted first message is told for what it is if its authorization data is one element at most,
and for nothing known otherwise. -/
theorem messageType_of_read1 (h : (e.readMessage1 sequence).value.1 = true) :
    ∃ method suitesI gX cI ead, Cbor.decodeSequence sequence =
      .ok (e.expectedTrue ++ method :: suitesI :: .bytes gX :: cI :: ead) ∧
      (e.messageType sequence).value = if ead.length ≤ 1 then .message1 else .unknown := by
  obtain ⟨method, suitesI, gX, cI, ead, hitems⟩ := elements_of_read1 h
  refine ⟨method, suitesI, gX, cI, ead, hitems, ?_⟩
  have hlength : (method :: suitesI :: Value.bytes gX :: cI :: ead).length = 4 + ead.length := by
    simp only [List.length_cons]
    omega
  have hshape : e.isErrorShaped
      (e.expectedTrue ++ method :: suitesI :: .bytes gX :: cI :: ead) = false :=
    isErrorShaped_of_length (by rw [List.length_append, hlength]; omega)
  rw [messageType_value, hitems]
  dsimp only
  rw [hshape, if_neg Bool.false_ne_true, List.length_append, length_expectedTrue,
    Nat.add_sub_cancel_left, hlength, typeOfLength_four_add]

/-- A request that asks for method 0 and the first suite, with some authorization data. -/
def requestWith (ead : Bytes) : Bytes :=
  [0xf5, 0x00, 0x00, 0x58, 0x20] ++ List.replicate 32 9 ++ [0x36] ++ ead

theorem callee_tells : (callee.readMessage1 (requestWith [])).value.1 = true ∧
    (callee.messageType (requestWith [])).value = .message1 := by
  have hread : (callee.readMessage1 (requestWith [])).value.1 = true := by rfl
  obtain ⟨method, suitesI, gX, cI, ead, hitems, htype⟩ := messageType_of_read1 hread
  have hlength : (Cbor.decodeSequence (requestWith [])).toOption.map List.length = some 5 := by
    rfl
  rw [hitems] at hlength
  have hnone : ead.length = 0 := by
    have hlength := Option.some.inj hlength
    rw [List.length_append, length_expectedTrue, show callee.leading = 1 from rfl] at hlength
    simp only [List.length_cons] at hlength
    omega
  rw [htype, hnone]
  exact ⟨hread, rfl⟩

/-- One item of authorization data with a value is enough for an accepted message to be taken for
nothing known. -/
theorem callee_does_not_tell :
    Reachable { isInitiator := false, isCoapClient := false } (acquainted [2] [1]) callee ∧
      (callee.readMessage1 (requestWith [0x01, 0x40])).value.1 = true ∧
      (callee.messageType (requestWith [0x01, 0x40])).value = .unknown := by
  exact ⟨callee_reachable, rfl, rfl⟩

end Elements

section Hash

/-- A Responder hashes what it is sent, less one byte in requests. -/
theorem hash_of_read1 (hrole : e.current.role = .responder)
    (h : (e.readMessage1 sequence).value = (true, e')) :
    e'.current.material.hashMessage1 =
      KeySchedule.hash (if e.settings.prependsOnReceive then sequence.drop 1 else sequence) := by
  obtain ⟨a, hcheck, hread⟩ := readMessage1_of_responder hrole (congrArg Prod.fst h)
  obtain ⟨-, _, hparse, -⟩ := check1_eq_ok hcheck
  obtain ⟨_, _, _, _, _, -, -, -, -, -, -, hhashed⟩ := parse1_eq_ok hparse
  have he' : (e.accept1 a).value = e' := congrArg Prod.snd (hread.symm.trans h)
  rw [← he', (e.accept1_current a).2.2.1, hhashed]

/-- An Initiator hashes what it sends, less `true` in requests. -/
theorem hash_of_write1 (hrole : e.current.role = .initiator)
    (h : e.writeMessage1.value = (some message, e')) :
    if e.settings.prependsOnSend then
      ∃ body, message = 0xf5 :: body ∧ e'.current.material.hashMessage1 = KeySchedule.hash body
    else e'.current.material.hashMessage1 = KeySchedule.hash message := by
  obtain ⟨_, _, -, -, hmessage, hmaterial⟩ := writeMessage1_eq_some h hrole
  obtain ⟨-, hencoding⟩ := KeySchedule.encodeItems_eq_ok.mp hmessage
  rw [hmaterial]
  unfold leadingTrue at hencoding ⊢
  split
  · rename_i hprepends
    rw [if_pos hprepends] at hencoding
    exact ⟨_, hencoding.symm, by rw [← hencoding]; rfl⟩
  · rfl

/-- What stands in front of an accepted request is `true` behind tags. -/
theorem tags_of_read1 (hprepends : e.settings.prependsOnReceive = true)
    (h : (e.readMessage1 sequence).value.1 = true) :
    ∃ tags body, Cbor.Tags Cbor.maxDepth tags ∧ sequence = tags ++ 0xf5 :: body ∧
      Cbor.decodeFirst sequence = .ok (some (.bool true, body)) := by
  obtain ⟨_, _, _, _, _, hitems⟩ := elements_of_read1 h
  rw [expectedTrue, if_pos hprepends] at hitems
  obtain ⟨body, hfirst, hitem⟩ := Cbor.decodeFirst_of_decodeSequence hitems
  obtain ⟨tags, htags, hsequence⟩ := Cbor.exists_tags_of_readItem hitem
  exact ⟨tags, body, htags, hsequence, hfirst⟩

/-- The first byte is all of `true` if there are no tags, and otherwise a part of them. -/
theorem drop_tags (tags body : Bytes) : (tags ++ 0xf5 :: body).drop 1 =
    if tags = [] then body else tags.tail ++ 0xf5 :: body := by
  cases tags <;> rfl

/-- The hash of the first message.  The Initiator leaves out what it puts in front of a request, the
Responder the first byte of it: where no tags stand before `true` that is the same, and the rest of
them is hashed otherwise. -/
theorem first_message_hashed (i r : Engine) (hinitiator : i.current.role = .initiator)
    (hresponder : r.current.role = .responder) :
    (∀ message i', i.writeMessage1.value = (some message, i') →
      if i.settings.prependsOnSend then
        ∃ body, message = 0xf5 :: body ∧ i'.current.material.hashMessage1 = KeySchedule.hash body
      else i'.current.material.hashMessage1 = KeySchedule.hash message) ∧
    (∀ sequence r', (r.readMessage1 sequence).value = (true, r') →
      if r.settings.prependsOnReceive then
        ∃ tags body, Cbor.Tags Cbor.maxDepth tags ∧ sequence = tags ++ 0xf5 :: body ∧
          Cbor.decodeFirst sequence = .ok (some (.bool true, body)) ∧
          r'.current.material.hashMessage1 =
            KeySchedule.hash (if tags = [] then body else tags.tail ++ 0xf5 :: body)
      else r'.current.material.hashMessage1 = KeySchedule.hash sequence) ∧
    (∀ message i' r', r.settings.prependsOnReceive = i.settings.prependsOnSend →
      i.writeMessage1.value = (some message, i') → (r.readMessage1 message).value = (true, r') →
      r'.current.material.hashMessage1 = i'.current.material.hashMessage1) := by
  refine ⟨fun message i' h => hash_of_write1 hinitiator h, fun sequence r' h => ?_,
    fun message i' r' hsame hwrite hread => ?_⟩
  · have hhash := hash_of_read1 hresponder h
    split
    · rename_i hprepends
      obtain ⟨tags, body, htags, rfl, hfirst⟩ := tags_of_read1 hprepends (congrArg Prod.fst h)
      rw [if_pos hprepends, drop_tags] at hhash
      exact ⟨tags, body, htags, rfl, hfirst, hhash⟩
    · rename_i hprepends
      rwa [if_neg hprepends] at hhash
  · have hwritten := hash_of_write1 hinitiator hwrite
    rw [hash_of_read1 hresponder hread, hsame]
    split
    · rename_i hprepends
      rw [if_pos hprepends] at hwritten
      obtain ⟨body, rfl, hhash⟩ := hwritten
      exact hhash.symm
    · rename_i hprepends
      rw [if_neg hprepends] at hwritten
      exact hwritten.symm

/-- Two acquainted endpoints hash the same first message. -/
theorem acquainted_hash : ∃ m₁ i₁ r₁, caller.writeMessage1.value = (some m₁, i₁) ∧
    (callee.readMessage1 m₁).value = (true, r₁) ∧
    r₁.current.material.hashMessage1 = i₁.current.material.hashMessage1 := by
  obtain ⟨m₁, m₂, i₁, i₂, r₁, r₂, h⟩ := exists_exchanged
  obtain ⟨-, -, hagree⟩ := first_message_hashed caller callee caller_current.1 callee_reachable.role
  exact ⟨m₁, i₁, r₁, h.write1, h.read1, hagree m₁ i₁ r₁ rfl h.write1 h.read1⟩

/-- Behind a tag the byte of `true` is hashed with the message. -/
theorem callee_hashes_true :
    Reachable { isInitiator := false, isCoapClient := false } (acquainted [2] [1]) callee ∧
    ∃ r', (callee.readMessage1 (0xc0 :: requestWith [])).value = (true, r') ∧
      Cbor.decodeFirst (0xc0 :: requestWith []) = .ok (some (.bool true, (requestWith []).tail)) ∧
      r'.current.material.hashMessage1 ≠ KeySchedule.hash (requestWith []).tail := by
  have hread : (callee.readMessage1 (0xc0 :: requestWith [])).value =
      (true, (callee.readMessage1 (0xc0 :: requestWith [])).value.2) :=
    Prod.ext (by rfl) rfl
  have hne : Digest.Sha256.digestList (requestWith []) ≠
      Digest.Sha256.digestList (requestWith []).tail := by
    decide +kernel
  refine ⟨callee_reachable, _, hread, rfl, ?_⟩
  rw [hash_of_read1 callee_reachable.role hread, show callee.settings.prependsOnReceive = true from rfl,
    if_pos rfl]
  simp only [KeySchedule.hash, Digest.Sha256.digest_eq]
  exact hne

end Hash

end EdhocLab.Engine
