import EdhocLab.Oscore.Context
import EdhocLab.Proofs.Aead.Ccm
import EdhocLab.Proofs.Coap.Options
import EdhocLab.Proofs.Oscore.Nonce
import EdhocLab.Proofs.Oscore.OptionValue

/-! # Opening what was protected

A protected message keeps its options of class U outside, behind them the OSCORE option, and
everything else inside.  Whoever holds the keys merges both parts into the packet that was
protected, which never needs more room than its protected form.
-/
namespace EdhocLab.Oscore

open Coap

/-- Packets that lose nothing when they are sent. -/
structure Sendable (packet : Packet) : Prop where
  keepsPayload : packet.KeepsPayload
  number_lt : ∀ f ∈ packet.options, f.number < 256

/-- What is encrypted, as a packet of its own. -/
def innerPacket (packet : Packet) : Packet :=
  { Packet.empty with
    code := packet.code
    options := packet.options.filter fun f => !isClassU f.number
    payload := packet.payload }

/-- What is sent: the packet with other contents and the OSCORE option. -/
def outerPacket (packet : Packet) (value payload : Bytes) : Packet :=
  { packet with
    code := outerCode packet.code
    options := Packet.insertField { number := optionNumber, value }
      (packet.options.filter fun f => isClassU f.number)
    payload }

section Parts

variable {packet : Packet} {value payload plaintext bytes : Bytes}

theorem ascending_filter (keep : Field → Bool) {fields : List Field} (h : Ascending fields) :
    Ascending (fields.filter keep) := h.sublist List.filter_sublist

theorem number_lt_extensionLimit (h : Sendable packet) {f : Field} (hf : f ∈ packet.options) :
    f.number < extensionLimit := Nat.lt_trans (h.number_lt f hf) (by decide)

theorem innerPacket_readable (h : packet.Readable) : (innerPacket packet).Readable :=
  ⟨show 0 = (0x40 : UInt8).toNat % 16 by decide, Nat.zero_le 8, ascending_filter _ h.ascending⟩

theorem outerPacket_readable (h : packet.Readable) : (outerPacket packet value payload).Readable :=
  ⟨h.token_length, h.token_le, Packet.ascending_insertField (ascending_filter _ h.ascending)⟩

theorem outerCode_ne_zero (code : UInt8) : outerCode code ≠ 0 := by
  unfold outerCode
  split <;> decide

theorem outerPacket_keepsPayload : (outerPacket packet value payload).KeepsPayload :=
  .inl (outerCode_ne_zero packet.code)

/-- A plaintext is the code of a packet, its inner options and its payload. -/
theorem of_innerBytes (hsendable : Sendable packet) (h : innerBytes packet = .ok plaintext) :
    plaintext = packet.code :: (writeFields 0 (innerPacket packet).options ++ marked packet.payload) ∧
      (innerPacket packet).toBytes = .ok (0x40 :: packet.code :: 0 :: 0 :: plaintext.tail) := by
  have hkeeps : (innerPacket packet).KeepsPayload := hsendable.keepsPayload
  dsimp only [innerBytes] at h
  split at h
  · rename_i bytes hbytes
    have hbytes : (innerPacket packet).toBytes = .ok bytes := hbytes
    cases h
    obtain ⟨-, rfl⟩ := (Packet.toBytes_eq_ok hkeeps).mp hbytes
    have hid : Bytes.ofNatBE 2 (innerPacket packet).messageId.toNat = [0, 0] :=
      show Bytes.ofNatBE 2 (0 : UInt16).toNat = [0, 0] by decide
    rw [hid] at hbytes ⊢
    exact ⟨rfl, hbytes⟩
  · cases h

/-- Inside there is no option of class U that would take the place of an outer one. -/
theorem filter_outerPacket : ((outerPacket packet value payload).options.filter fun f =>
      isClassU f.number && ((innerPacket packet).option? f.number).isNone) =
    packet.options.filter fun f => isClassU f.number := by
  have hnone (f : Field) (hf : isClassU f.number = true) :
      ((innerPacket packet).option? f.number).isNone := by
    rw [Packet.isNone_option?]
    intro g hg heq
    have hclass := (List.mem_filter.mp hg).2
    simp [heq, hf] at hclass
  rw [outerPacket, Packet.filter_insertField rfl, List.filter_filter]
  refine List.filter_congr fun f _ => ?_
  cases hf : isClassU f.number with
  | true => simp [hnone f hf]
  | false => rfl

/-- A packet is shorter than a protected one whose payload is longer than the plaintext. -/
theorem toBytes_of_outerPacket (hreadable : packet.Readable) (hsendable : Sendable packet)
    (hinner : innerBytes packet = .ok plaintext) (hpayload : plaintext.length < payload.length)
    (houter : (outerPacket packet value payload).toBytes = .ok bytes) :
    ∃ out, packet.toBytes = .ok out := by
  obtain ⟨hplaintext, -⟩ := of_innerBytes hsendable hinner
  obtain ⟨hshort, -⟩ := (Packet.toBytes_eq_ok outerPacket_keepsPayload).mp houter
  have hfirst : ∀ f ∈ packet.options, 0 ≤ f.number := fun f _ => Nat.zero_le f.number
  have hoptions := length_writeFields_filter (fun f => isClassU f.number) hreadable.ascending
    hfirst (Nat.le_refl 0) (Nat.le_refl 0)
  have hinsert := length_writeFields_insertField 0 { number := optionNumber, value }
    (packet.options.filter fun f => isClassU f.number)
  have hmarked : payload.length ≤ (marked payload).length := length_le_marked payload
  rw [hplaintext, List.length_cons, List.length_append] at hpayload
  refine ⟨_, (Packet.toBytes_eq_ok hsendable.keepsPayload).mpr ⟨?_, rfl⟩⟩
  simp only [outerPacket] at hshort
  simp only [innerPacket] at hpayload
  omega

/-- The packet is merged from its parts, and short enough to be sent. -/
theorem restore_outerPacket (hreadable : packet.Readable) (hsendable : Sendable packet)
    (hinner : innerBytes packet = .ok plaintext) (hpayload : plaintext.length < payload.length)
    (houter : (outerPacket packet value payload).toBytes = .ok bytes) :
    ∃ out, restore (outerPacket packet value payload) plaintext = .ok out ∧
      Packet.ofBytes out = .ok packet := by
  obtain ⟨hplaintext, hbytes⟩ := of_innerBytes hsendable hinner
  have hread : Packet.ofBytes (0x40 :: packet.code :: 0 :: 0 :: plaintext.tail) =
      .ok (innerPacket packet) :=
    Packet.ofBytes_of_toBytes (innerPacket_readable hreadable) hsendable.keepsPayload
      (fun f hf => number_lt_extensionLimit hsendable (List.mem_filter.mp hf).1) hbytes
  have hrestored : ({ outerPacket packet value payload with
      code := (innerPacket packet).code
      options := Packet.insertFields (packet.options.filter fun f => isClassU f.number)
        (innerPacket packet).options
      payload := (innerPacket packet).payload } : Packet) = packet := by
    simp only [outerPacket, innerPacket, Packet.insertFields_filter isClassU hreadable.ascending]
  obtain ⟨out, hout⟩ := toBytes_of_outerPacket hreadable hsendable hinner hpayload houter
  refine ⟨out, ?_, Packet.ofBytes_of_toBytes hreadable hsendable.keepsPayload
    (fun f hf => number_lt_extensionLimit hsendable hf) hout⟩
  rw [hplaintext, List.tail_cons] at hread
  rw [hplaintext, restore]
  simp only [hread, filter_outerPacket, hrestored, hout]

theorem checkOptions_eq_ok :
    checkOptions packet = .ok () ↔ ∀ f ∈ packet.options, isUnsupported f.number = false := by
  unfold checkOptions
  split
  · rename_i f hf
    simp only [reduceCtorEq, false_iff]
    intro hall
    have hsupported := hall f (List.mem_of_find?_eq_some hf)
    have hunsupported := List.find?_some hf
    rw [hsupported] at hunsupported
    cases hunsupported
  · rename_i hnone
    simpa using hnone

theorem checkOptions_outerPacket (h : checkOptions packet = .ok ()) :
    checkOptions (outerPacket packet value payload) = .ok () := by
  rw [checkOptions_eq_ok] at h ⊢
  intro f hf
  rcases Packet.mem_insertField.mp hf with rfl | hf
  · rfl
  · exact h f (List.mem_filter.mp hf).1

theorem optionOf_outerPacket : optionOf (outerPacket packet value payload) = .ok value := by
  have hfind : (outerPacket packet value payload).options.find? (·.number == optionNumber) =
      some { number := optionNumber, value } := by
    apply Packet.find?_insertField (by simp)
    intro f hf
    have hclass := (List.mem_filter.mp hf).2
    rw [beq_eq_false_iff_ne]
    intro heq
    rw [heq] at hclass
    exact absurd hclass (by decide)
  simp only [optionOf, Packet.option?, hfind, Option.map_some]

end Parts

namespace Context

/-- Two contexts of which the second opens what the first protects. -/
structure Paired (sender recipient : Context) : Prop where
  algorithm_eq : sender.algorithm = recipient.algorithm
  commonIv_eq : sender.commonIv = recipient.commonIv
  id_eq : sender.senderId = recipient.recipientId
  key_eq : sender.senderKey = recipient.recipientKey

/-- Numbers and windows do not matter. -/
theorem Paired.renew {sender recipient : Context} (h : sender.Paired recipient)
    (window window' : ReplayWindow) (n n' : Nat) :
    Paired { sender with window, senderSequence := n }
      { recipient with window := window', senderSequence := n' } :=
  ⟨h.algorithm_eq, h.commonIv_eq, h.id_eq, h.key_eq⟩

/-- Whoever is paired with the sender opens `bytes` to `out`, as the request with number `n`. -/
def SealsRequest (sender : Context) (n : Nat) (bytes out : Bytes) : Prop :=
  ∀ recipient, sender.Paired recipient → recipient.unprotectRequest bytes =
    match recipient.window.accept? n with
    | some window => (.ok out, { recipient with window })
    | none => (.error .replayDetected, recipient)

variable {sender recipient : Context} {message bytes : Bytes}

/-- A message is protected if its protected form is short enough. -/
theorem protect_isOk {packet : Packet} {plaintext aad nonce : Bytes} {option : OptionValue}
    (hread : Packet.ofBytes message = .ok packet) (hoptions : checkOptions packet = .ok ())
    (hinner : innerBytes packet = .ok plaintext)
    (haccepts : sender.algorithm.accepts sender.senderKey nonce plaintext.length)
    (hroom : 4 + packet.token.length +
      (writeFields 0 (outerPacket packet option.encode []).options).length +
        (1 + plaintext.length + sender.algorithm.tagLength) ≤ Packet.maxLength) :
    ∃ bytes, sender.protect message aad nonce option = .ok bytes := by
  obtain ⟨payload, hseal⟩ : ∃ payload,
      sender.algorithm.encrypt sender.senderKey nonce aad plaintext = .ok payload := by
    rw [Aead.Algorithm.encrypt, if_pos haccepts]
    exact ⟨_, rfl⟩
  have hpayload := Aead.Algorithm.length_of_encrypt hseal
  have hmarked := length_marked_le payload
  simp only [protect, hread, hoptions, hinner, hseal, mapError_ok, ok_bind]
  refine ⟨_, mapError_eq_ok.mpr ((Packet.toBytes_eq_ok outerPacket_keepsPayload).mpr ⟨?_, rfl⟩)⟩
  have houter : (outerPacket packet option.encode payload).options =
      (outerPacket packet option.encode []).options := rfl
  have htoken : (outerPacket packet option.encode payload).token = packet.token := rfl
  rw [houter, htoken]
  show 4 + packet.token.length + _ + (marked payload).length ≤ _
  omega

theorem number_lt_of_isClassU {number : Nat} (h : isClassU number = true) :
    number < extensionLimit := by
  have hnumber : number = 3 ∨ number = 7 ∨ number = 35 ∨ number = 39 := by
    simpa [isClassU] using h
  have hlimit : 39 < extensionLimit := by decide
  omega

/-- A protected message is read as the packet that was put together for it. -/
theorem protect_eq_ok {aad nonce : Bytes} {option : OptionValue}
    (h : sender.protect message aad nonce option = .ok bytes) :
    ∃ packet plaintext payload, Packet.ofBytes message = .ok packet ∧
      checkOptions packet = .ok () ∧ innerBytes packet = .ok plaintext ∧
      sender.algorithm.encrypt sender.senderKey nonce aad plaintext = .ok payload ∧
      (outerPacket packet option.encode payload).toBytes = .ok bytes ∧
      Packet.ofBytes bytes = .ok (outerPacket packet option.encode payload) := by
  obtain ⟨packet, hread, h⟩ := bind_eq_ok.mp h
  obtain ⟨_, hoptions, h⟩ := bind_eq_ok.mp h
  obtain ⟨plaintext, hinner, h⟩ := bind_eq_ok.mp h
  obtain ⟨payload, hseal, h⟩ := bind_eq_ok.mp h
  rw [mapError_eq_ok] at hread hseal h
  refine ⟨packet, plaintext, payload, hread, hoptions, hinner, hseal, h, ?_⟩
  have hreadable := Packet.ofBytes_readable hread
  apply Packet.ofBytes_of_toBytes (outerPacket_readable hreadable) outerPacket_keepsPayload _ h
  intro f hf
  rcases Packet.mem_insertField.mp hf with rfl | hf
  · exact show optionNumber < extensionLimit by decide
  · exact number_lt_of_isClassU (List.mem_filter.mp hf).2

/-- A protected packet is opened to the packet that was protected. -/
theorem unprotect_of_protect {aad nonce : Bytes} {option : OptionValue}
    (hsendable : ∀ packet, Packet.ofBytes message = .ok packet → Sendable packet)
    (h : sender.protect message aad nonce option = .ok bytes) :
    ∃ packet outer out, Packet.ofBytes message = .ok packet ∧ Packet.ofBytes bytes = .ok outer ∧
      optionOf outer = .ok option.encode ∧ Packet.ofBytes out = .ok packet ∧
      ∀ recipient, sender.Paired recipient → recipient.unprotect outer aad nonce = .ok out := by
  obtain ⟨packet, plaintext, payload, hread, hoptions, hinner, hseal, hbytes, houter⟩ :=
    protect_eq_ok h
  have hlonger : plaintext.length < payload.length := by
    rw [Aead.Algorithm.length_of_encrypt hseal]
    exact Nat.lt_add_of_pos_right sender.algorithm.tagLength_pos
  obtain ⟨out, hrestore, hout⟩ := restore_outerPacket (Packet.ofBytes_readable hread)
    (hsendable packet hread) hinner hlonger hbytes
  refine ⟨packet, _, out, hread, houter, optionOf_outerPacket, hout, fun recipient hpaired => ?_⟩
  have hopen := Aead.Algorithm.decrypt_of_encrypt hseal
  rw [hpaired.algorithm_eq, hpaired.key_eq] at hopen
  have hpayload : (outerPacket packet option.encode payload).payload = payload := rfl
  simp only [unprotect, checkOptions_outerPacket hoptions, hpayload, hopen, mapError_ok, ok_bind,
    hrestore]

/-- A request tells who protected it, and under which number. -/
theorem requestParts_of_option {packet : Packet} (hsequence : sender.senderSequence < 2 ^ 40)
    (hoption : optionOf packet = .ok (OptionValue.encode
      { piv := some sender.nextPiv, kidContext := none, kid := some sender.senderId })) :
    requestParts packet = .ok (sender.senderId, sender.nextPiv) := by
  have hannounced : OptionValue.Announced
      { piv := some sender.nextPiv, kidContext := none, kid := some sender.senderId } :=
    OptionValue.announced_formatPiv (Nat.lt_trans hsequence (by decide)) (by simp) _
  simp only [requestParts, hoption, ok_bind, OptionValue.decode_encode hannounced]

/-- A protected request is opened to its packet, unless its sequence number is refused. -/
theorem sealsRequest_of_protectRequest (hsequence : sender.senderSequence < 2 ^ 40)
    (hsendable : ∀ packet, Packet.ofBytes message = .ok packet → Sendable packet)
    (h : (sender.protectRequest message).1 = .ok bytes) :
    ∃ packet out, Packet.ofBytes message = .ok packet ∧ Packet.ofBytes out = .ok packet ∧
      sender.SealsRequest sender.senderSequence bytes out := by
  obtain ⟨packet, outer, out, hread, houter, hoption, hout, hopens⟩ :=
    unprotect_of_protect hsendable h
  refine ⟨packet, out, hread, hout, fun recipient hpaired => ?_⟩
  have hparts := requestParts_of_option hsequence hoption
  have hnumber : pivNumber sender.nextPiv = sender.senderSequence :=
    pivNumber_formatPiv (Nat.lt_trans hsequence (by decide))
  have hopen := hopens recipient hpaired
  rw [hpaired.algorithm_eq, hpaired.id_eq, hpaired.commonIv_eq] at hopen
  rw [hpaired.id_eq] at hparts
  cases hwindow : recipient.window.accept? sender.senderSequence <;>
    simp only [unprotectRequest, houter, mapError_ok, ok_bind, hparts, hopen, pure_eq_ok,
      hnumber, hwindow]

end Context

end EdhocLab.Oscore
