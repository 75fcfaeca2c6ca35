import EdhocLab.Proofs.Oscore.Replay

/-! # Options outside

Of the options outside a protected message, its recipient looks at those of class U and at the OSCORE
option.  Whatever else stands there, as long as it is supported, changes neither what the message is
opened to nor the context after it.
-/
namespace EdhocLab.Oscore

open Coap (Packet)

/-- Protected packets that differ at most in options which are neither of class U nor the OSCORE
option. -/
structure SameOutside (packet packet' : Packet) : Prop where
  first_eq : packet.first = packet'.first
  code_eq : packet.code = packet'.code
  messageId_eq : packet.messageId = packet'.messageId
  token_eq : packet.token = packet'.token
  payload_eq : packet.payload = packet'.payload
  oscore_eq : (packet.options.filter fun f => f.number == optionNumber) =
    packet'.options.filter fun f => f.number == optionNumber
  classU_eq : (packet.options.filter fun f => isClassU f.number) =
    packet'.options.filter fun f => isClassU f.number

section Congruence

variable {packet packet' : Packet}

theorem SameOutside.optionOf_eq (h : SameOutside packet packet') :
    optionOf packet = optionOf packet' := by
  unfold optionOf Packet.option?
  rw [← List.head?_filter, ← List.head?_filter, h.oscore_eq]

theorem SameOutside.requestParts_eq (h : SameOutside packet packet') :
    Context.requestParts packet = Context.requestParts packet' := by
  unfold Context.requestParts
  rw [h.optionOf_eq]

/-- What is kept of the outer options are some of class U. -/
theorem SameOutside.restore_eq (h : SameOutside packet packet') (plaintext : Bytes) :
    restore packet plaintext = restore packet' plaintext := by
  have hkept : ∀ inner : Packet,
      (packet.options.filter fun f => isClassU f.number && (inner.option? f.number).isNone) =
        packet'.options.filter fun f => isClassU f.number && (inner.option? f.number).isNone := by
    intro inner
    have hclass := congrArg (List.filter fun f => (inner.option? f.number).isNone) h.classU_eq
    rw [List.filter_filter, List.filter_filter] at hclass
    simpa only [Bool.and_comm] using hclass
  cases plaintext with
  | nil => rfl
  | cons code rest =>
    unfold restore
    simp only [hkept, h.first_eq, h.messageId_eq, h.token_eq]

theorem SameOutside.unprotect_eq (h : SameOutside packet packet')
    (hsupported : ∀ f ∈ packet.options, isUnsupported f.number = false)
    (hsupported' : ∀ f ∈ packet'.options, isUnsupported f.number = false) (context : Context)
    (aad nonce : Bytes) : context.unprotect packet aad nonce = context.unprotect packet' aad nonce := by
  unfold Context.unprotect
  rw [checkOptions_eq_ok.mpr hsupported, checkOptions_eq_ok.mpr hsupported', h.payload_eq]
  simp only [h.restore_eq]

end Congruence

namespace Context

/-- Packets that differ in no more than such options are opened to the same message, if to any, and
leave the same context behind. -/
theorem outer_options_ignored (context : Context) {bytes bytes' : Bytes} {packet packet' : Packet}
    (hread : Packet.ofBytes bytes = .ok packet) (hread' : Packet.ofBytes bytes' = .ok packet')
    (hsame : SameOutside packet packet')
    (hsupported : ∀ f ∈ packet.options, isUnsupported f.number = false)
    (hsupported' : ∀ f ∈ packet'.options, isUnsupported f.number = false) :
    context.unprotectRequest bytes = context.unprotectRequest bytes' ∧
      context.unprotectResponse bytes = context.unprotectResponse bytes' := by
  have hopens := hsame.unprotect_eq hsupported hsupported' context
  constructor
  · unfold unprotectRequest
    rw [hread, hread']
    simp only [mapError_ok, ok_bind, hsame.requestParts_eq, hopens]
  · unfold unprotectResponse
    rw [hread, hread']
    simp only [mapError_ok, ok_bind, hsame.optionOf_eq, hopens]

/-- The packet with a Max-Age option slipped in. -/
def slipped (packet : Packet) : Packet :=
  { packet with options := Packet.insertField { number := 14, value := [0x3c] } packet.options }

theorem slipped_sameOutside (packet : Packet) : SameOutside (slipped packet) packet :=
  ⟨rfl, rfl, rfl, rfl, rfl, Packet.filter_insertField rfl, Packet.filter_insertField rfl⟩

/-- With room for one more option, somebody on the way can slip one in. -/
theorem read_slipped {packet : Packet} (hreadable : packet.Readable) (hcode : packet.code ≠ 0)
    (hnumber : ∀ f ∈ packet.options, f.number < Coap.extensionLimit)
    (hroom : 4 + packet.token.length + (Coap.writeFields 0 (slipped packet).options).length +
      (packet.payload.length + 1) ≤ Packet.maxLength) :
    ∃ bytes, Packet.ofBytes bytes = .ok (slipped packet) := by
  have hkeeps : (slipped packet).KeepsPayload := .inl hcode
  have hslipped : (slipped packet).Readable :=
    ⟨hreadable.token_length, hreadable.token_le, Packet.ascending_insertField hreadable.ascending⟩
  have hnumber' : ∀ f ∈ (slipped packet).options, f.number < Coap.extensionLimit := by
    intro f hf
    rcases Packet.mem_insertField.mp hf with rfl | hf
    · exact show 14 < Coap.extensionLimit by decide
    · exact hnumber f hf
  refine ⟨_, Packet.ofBytes_of_toBytes hslipped hkeeps hnumber'
    ((Packet.toBytes_eq_ok hkeeps).mpr ⟨Nat.le_trans ?_ hroom, rfl⟩)⟩
  exact Nat.add_le_add_left (Coap.length_marked_le packet.payload) _

/-- A server opens the first request of a client to what it was, with a Max-Age option slipped in. -/
theorem outer_options_ignored_slipped : ∃ client server request packet tampered out,
    derive .shortTag [0x01] [] [] [0x01] = .ok client ∧
    derive .shortTag [0x01] [] [0x01] [] = .ok server ∧
    (client.protectRequest Channel.getRequest).1 = .ok request ∧
    Packet.ofBytes request = .ok packet ∧ Packet.ofBytes tampered = .ok (slipped packet) ∧
    SameOutside (slipped packet) packet ∧
    (server.unprotectRequest tampered).1 = .ok out ∧
    Packet.ofBytes out = .ok Channel.getPacket := by
  obtain ⟨client, hclient, hderived⟩ := derive_eq_ok [0x01] [] .shortTag [] [0x01]
  obtain ⟨server, hserver, -⟩ := derive_eq_ok [0x01] [] .shortTag [0x01] []
  obtain ⟨request, hrequest⟩ := protectRequest_isOk hclient
  obtain ⟨packet, out, hread, hout, hopened⟩ :=
    unprotectRequest_of_derive hclient hserver Channel.getRequest_admissible hrequest
  cases Channel.read_getRequest.symm.trans hread
  -- There is room for another option in it.
  obtain ⟨packet, plaintext, payload, hread, hoptions, hinner, hseal, -, houter⟩ :=
    protect_eq_ok hrequest
  cases Channel.read_getRequest.symm.trans hread
  cases Channel.innerBytes_getPacket.symm.trans hinner
  have hlength : payload.length = 13 := by
    rw [Aead.Algorithm.length_of_encrypt hseal, hderived.algorithm_eq]
    rfl
  have hvalue : OptionValue.encode
      { piv := some client.nextPiv, kidContext := none, kid := some client.senderId } =
        [0x09, 0x00] := by
    rw [nextPiv, (of_derive hclient).2, hderived.senderId_eq]
    rfl
  rw [hvalue] at houter
  have hroom : 4 + 0 + (Coap.writeFields 0
      (slipped (outerPacket Channel.getPacket [0x09, 0x00] [])).options).length + (13 + 1) ≤
        Packet.maxLength := by decide
  rw [← hlength] at hroom
  obtain ⟨tampered, htampered⟩ := read_slipped (Packet.ofBytes_readable houter)
    (outerCode_ne_zero Channel.getPacket.code)
    (show ∀ f ∈ (outerPacket Channel.getPacket [0x09, 0x00] []).options,
      f.number < Coap.extensionLimit by decide) hroom
  have hsame := slipped_sameOutside (outerPacket Channel.getPacket [0x09, 0x00] payload)
  have hignored := outer_options_ignored server htampered houter hsame
    (show ∀ f ∈ (slipped (outerPacket Channel.getPacket [0x09, 0x00] [])).options,
      isUnsupported f.number = false by decide)
    (show ∀ f ∈ (outerPacket Channel.getPacket [0x09, 0x00] []).options,
      isUnsupported f.number = false by decide)
  exact ⟨client, server, request, _, tampered, out, hclient, hserver, hrequest, houter, htampered,
    hsame, by rw [hignored.1, hopened], hout⟩

end Context

end EdhocLab.Oscore
