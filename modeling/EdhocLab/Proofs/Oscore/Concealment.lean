import EdhocLab.Proofs.Oscore.NonceUse

/-! # What a protected message tells

Of a message, its protected form shows the version, type, token and message ID, the options of class
U, whether it is a response, and the length of everything else.  Messages that agree in these are
protected to packets that differ in their payloads at most.
-/
namespace EdhocLab.Oscore

open Coap (Packet)

/-- Packets that agree in what their protected forms show. -/
structure Alike (packet packet' : Packet) : Prop where
  /-- The version and type, as the low nibble is the length of the token. -/
  kind_eq : packet.first.toNat / 16 = packet'.first.toNat / 16
  token_eq : packet.token = packet'.token
  messageId_eq : packet.messageId = packet'.messageId
  classU_eq : (packet.options.filter fun f => isClassU f.number) =
    packet'.options.filter fun f => isClassU f.number
  isResponse_eq : Coap.responseCodes.contains packet.code = Coap.responseCodes.contains packet'.code
  length_eq : ∀ plaintext plaintext', innerBytes packet = .ok plaintext →
    innerBytes packet' = .ok plaintext' → plaintext.length = plaintext'.length

/-- The message that is protected. -/
def Use.message : Use → Bytes
  | .request message => message
  | .response message _ _ => message

/-- The same use for another message. -/
def Use.carrying (message : Bytes) : Use → Use
  | .request _ => .request message
  | .response _ answered reusePiv => .response message answered reusePiv

@[simp] theorem Use.carrying_message (use : Use) : use.carrying use.message = use := by
  cases use <;> rfl

section Outer

variable {packet packet' : Packet}

theorem Alike.first_eq (h : Alike packet packet') (hreadable : packet.Readable)
    (hreadable' : packet'.Readable) : packet.first = packet'.first := by
  have hkind := h.kind_eq
  have hlength := hreadable.token_length
  have hlength' := hreadable'.token_length
  rw [h.token_eq] at hlength
  apply UInt8.toNat_inj.mp
  omega

/-- Only the payloads of protected packets differ. -/
theorem Alike.outerPacket_eq (h : Alike packet packet') (hreadable : packet.Readable)
    (hreadable' : packet'.Readable) (value payload payload' : Bytes) :
    outerPacket packet' value payload' = { outerPacket packet value payload with payload := payload' } := by
  have hcode : outerCode packet.code = outerCode packet'.code := by
    unfold outerCode
    rw [h.isResponse_eq]
  simp only [outerPacket, h.first_eq hreadable hreadable', hcode, h.messageId_eq, h.token_eq,
    h.classU_eq]

theorem classU_outerPacket (packet : Packet) (value payload : Bytes) :
    ((outerPacket packet value payload).options.filter fun f => isClassU f.number) =
      packet.options.filter fun f => isClassU f.number := by
  rw [outerPacket, Packet.filter_insertField rfl, List.filter_filter]
  simp only [Bool.and_self]

/-- Besides those of class U, there is the OSCORE option alone. -/
theorem others_outerPacket (packet : Packet) (value payload : Bytes) :
    ((outerPacket packet value payload).options.filter fun f => !isClassU f.number) =
      [{ number := optionNumber, value }] := by
  apply Packet.filter_insertField_self rfl
  intro f hf
  rw [(List.mem_filter.mp hf).2]
  rfl

end Outer

namespace Context

/-- Whether a message gets to be protected, with which parameters, and the context after it, are
settled without looking at it. -/
theorem perform_carrying (context : Context) (use : Use) :
    (∃ e, ∀ message, context.perform (use.carrying message) = (.error e, context)) ∨
    ∃ aad nonce option next, ∀ message,
      context.perform (use.carrying message) = (context.protect message aad nonce option, next) := by
  cases use with
  | request _ =>
    exact .inr ⟨aad context.algorithm.coseId context.senderId context.nextPiv,
      nonce context.nextPiv context.senderId context.commonIv,
      { piv := some context.nextPiv, kidContext := none, kid := some context.senderId },
      context.advance, fun _ => rfl⟩
  | response _ request reusePiv =>
    simp only [Use.carrying, perform, protectResponse]
    cases (Packet.ofBytes request).mapError Error.coap >>= requestParts with
    | error e => exact .inl ⟨e, fun _ => rfl⟩
    | ok parts =>
      cases reusePiv with
      | true => exact .inr ⟨_, _, _, _, fun _ => rfl⟩
      | false => exact .inr ⟨_, _, _, _, fun _ => rfl⟩

/-- A protected message has the options of class U and one OSCORE option outside.  If another
message that agrees in what is shown is protected in its place, then the packet differs in its
payload at most, which has the same length, and the context after it does not differ. -/
theorem protection_conceals {context : Context} {use : Use} {bytes : Bytes}
    (h : (context.perform use).1 = .ok bytes) :
    ∃ packet outer, Packet.ofBytes use.message = .ok packet ∧ Packet.ofBytes bytes = .ok outer ∧
      (outer.options.filter fun f => isClassU f.number) =
        (packet.options.filter fun f => isClassU f.number) ∧
      (∃ value, (outer.options.filter fun f => !isClassU f.number) =
        [{ number := optionNumber, value }]) ∧
      ∀ message packet' bytes', Packet.ofBytes message = .ok packet' → Alike packet packet' →
        (context.perform (use.carrying message)).1 = .ok bytes' →
        (context.perform (use.carrying message)).2 = (context.perform use).2 ∧
        ∃ payload, payload.length = outer.payload.length ∧
          Packet.ofBytes bytes' = .ok { outer with payload } := by
  rcases context.perform_carrying use with ⟨e, herror⟩ | ⟨aad, nonce, option, next, hperform⟩
  · rw [← use.carrying_message, herror] at h
    cases h
  have huse := hperform use.message
  rw [Use.carrying_message] at huse
  rw [huse] at h ⊢
  obtain ⟨packet, plaintext, payload, hread, -, hinner, hseal, -, houter⟩ := protect_eq_ok h
  refine ⟨packet, _, hread, houter, classU_outerPacket .., ⟨_, others_outerPacket ..⟩, ?_⟩
  intro message packet' bytes' hread' halike h'
  rw [hperform] at h' ⊢
  obtain ⟨packet', plaintext', payload', hagain, -, hinner', hseal', -, houter'⟩ := protect_eq_ok h'
  cases hread'.symm.trans hagain
  refine ⟨rfl, payload', ?_, ?_⟩
  · have hlength := halike.length_eq plaintext plaintext' hinner hinner'
    show payload'.length = payload.length
    rw [Aead.Algorithm.length_of_encrypt hseal, Aead.Algorithm.length_of_encrypt hseal', hlength]
  · rw [houter', halike.outerPacket_eq (Packet.ofBytes_readable hread)
      (Packet.ofBytes_readable hread')]

/-- A request that sends three bytes to `localhost`, in place of one that asks for `tv1`. -/
def putRequest : Bytes :=
  [0x40, 0x03, 0x5d, 0x1f, 0x39, 0x6c, 0x6f, 0x63, 0x61, 0x6c, 0x68, 0x6f, 0x73, 0x74, 0xff, 0x01,
    0x02, 0x03]

def putPacket : Packet where
  first := 0x40
  code := 0x03
  messageId := 0x5d1f
  token := []
  options := [{ number := 3, value := [0x6c, 0x6f, 0x63, 0x61, 0x6c, 0x68, 0x6f, 0x73, 0x74] }]
  payload := [0x01, 0x02, 0x03]

theorem read_putRequest : Packet.ofBytes putRequest = .ok putPacket := rfl

theorem innerBytes_putPacket : innerBytes putPacket = .ok [0x03, 0xff, 0x01, 0x02, 0x03] := rfl

theorem alike_putPacket : Alike Channel.getPacket putPacket where
  kind_eq := rfl
  token_eq := rfl
  messageId_eq := rfl
  classU_eq := rfl
  isResponse_eq := by decide
  length_eq := by
    intro plaintext plaintext' h h'
    cases Channel.innerBytes_getPacket.symm.trans h
    cases innerBytes_putPacket.symm.trans h'
    rfl

/-- Nobody else can tell whether a client asks or sends. -/
theorem protection_conceals_put : ∃ bytes bytes' outer payload,
    (lateContext.perform (.request Channel.getRequest)).1 = .ok bytes ∧
    (lateContext.perform (.request putRequest)).1 = .ok bytes' ∧
    Packet.ofBytes bytes = .ok outer ∧ Packet.ofBytes bytes' = .ok { outer with payload } ∧
    payload.length = outer.payload.length := by
  obtain ⟨bytes, hget⟩ : ∃ bytes,
      (lateContext.perform (.request Channel.getRequest)).1 = .ok bytes :=
    protect_isOk Channel.read_getRequest rfl Channel.innerBytes_getPacket (by decide) (by decide)
  obtain ⟨bytes', hput⟩ : ∃ bytes', (lateContext.perform (.request putRequest)).1 = .ok bytes' :=
    protect_isOk read_putRequest rfl innerBytes_putPacket (by decide) (by decide)
  obtain ⟨packet, outer, hread, houter, -, -, hconceals⟩ := protection_conceals hget
  cases Channel.read_getRequest.symm.trans hread
  obtain ⟨-, payload, hlength, hread'⟩ :=
    hconceals putRequest putPacket bytes' read_putRequest alike_putPacket hput
  exact ⟨bytes, bytes', outer, payload, hget, hput, houter, hread', hlength⟩

end Context

end EdhocLab.Oscore
