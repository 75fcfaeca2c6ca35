import EdhocLab.Engine.Requests
import EdhocLab.Proofs.Engine.Completion
import EdhocLab.Proofs.Engine.Identifiers
import EdhocLab.Proofs.Transport.Combined

/-! # Combined requests

A client that is the Initiator sends its third message with a protected request, without the
identifier that the request carries anyway.  The server puts the identifier back, and reads the same
bytes that the client wrote.
-/
namespace EdhocLab.Engine

open Cbor (Value)
open Coap (Packet)
open Handshake
open Transport (Combined.ciphertext3 Combined.join Combined.joined Combined.Parts)

section Sender

variable {settings : Settings} {endpoint : Endpoint} {i : Engine}

/-- An Initiator starts no session besides its first. -/
theorem Reachable.initiator_ids (h : Reachable settings endpoint i)
    (hinitiator : settings.isInitiator = true) : i.sessions.ids = [settings.connectionId] := by
  induction h with
  | created hcreate =>
    obtain ⟨profile, -, rfl⟩ := create_eq_ok.mp hcreate
    exact initial_ids ..
  | @acted e h action ih =>
    rcases (e.act_change action).keepsIds with hkeeps | ⟨sequence, a, ha, -⟩
    · rw [hkeeps.ids_eq, ih]
    · have hresponder := (check1_eq_ok ha).1
      rw [h.role, ownRole, if_pos hinitiator] at hresponder
      cases hresponder

/-- The message that an Initiator sends with its requests is that of its only session. -/
theorem Reachable.pendingMessage3_eq (h : Reachable settings endpoint i)
    (hinitiator : settings.isInitiator = true) (hforced : settings.forcedRecipientId = none) :
    ∃ context, i.pendingMessage3 endpoint.oscoreUri = .ok (i.current.material.message3, context) ∧
      context.maxUnfragmentedSize = settings.maxUnfragmentedSize := by
  obtain ⟨hsettings, hendpoint, -⟩ := h.coherent
  have hids := h.initiator_ids hinitiator
  obtain ⟨id, hid, context, hget, hserves⟩ := h.registered.installed
  rw [hids, List.mem_singleton] at hid
  subst hid
  have hcurrent : i.current.material.connectionId = settings.connectionId := by
    have hmem := i.mem_ids_get i.sessions.currentHandle
    rw [hids, List.mem_singleton] at hmem
    exact hmem
  have hrecipient : context.recipientId = settings.connectionId := by
    rw [hserves.recipientId_eq, hsettings, hforced, Option.getD_none]
  have hfind := h.indexed.find?_current
  rw [hcurrent, ← hrecipient] at hfind
  have hconsistent : Session.recipientId i.settings
      (i.sessions.get i.sessions.currentHandle).material = context.recipientId := by
    rw [Session.recipientId, hsettings, hforced, Option.getD_none, hrecipient]
    exact hcurrent
  rw [hendpoint] at hget
  refine ⟨context, ?_, hsettings ▸ hserves.maxSize_eq⟩
  simp only [pendingMessage3, hget, hfind, hconsistent, ne_eq, not_true, if_false, pure_eq_ok]
  rfl

/-- A request with both options gets the combined payload. -/
theorem Reachable.sendRequest_value (h : Reachable settings endpoint i)
    (hinitiator : settings.isInitiator = true) (hforced : settings.forcedRecipientId = none)
    {packet : Packet} (hedhoc : hasEdhoc packet) (hoscore : hasOscore packet) :
    (i.sendRequest endpoint.oscoreUri packet).value =
      (Combined.join settings.combinedLayout i.current.material.message3 settings.prependsOnSend
        packet.payload settings.maxUnfragmentedSize).map fun payload => (true, { packet with payload }) := by
  obtain ⟨context, hpending, hmax⟩ := h.pendingMessage3_eq hinitiator hforced
  unfold sendRequest
  simp only [hedhoc, hoscore, Bool.and_true, Bool.not_true, Bool.false_eq_true, if_false, hpending,
    hmax, h.coherent.1]
  cases Combined.join settings.combinedLayout i.current.material.message3 settings.prependsOnSend
    packet.payload settings.maxUnfragmentedSize with
  | error error => rfl
  | ok payload => rfl

end Sender

section Written

variable {i i' : Engine} {message3 : Bytes}

/-- What stands in front of a message in a request. -/
def frontOf (prepends : Bool) (id : Bytes) : List Value :=
  if prepends then (Cbor.Identifier.toValue? id).toList else []

theorem front_eq {field : Field} {id : Bytes} {front : List Value}
    (h : i.prepended field id = .ok front) :
    front = frontOf i.settings.prependsOnSend id ∧
      front.length = if i.settings.prependsOnSend then 1 else 0 := by
  unfold frontOf
  obtain ⟨hsends, v, hv, rfl⟩ | ⟨hsends, rfl⟩ := prepended_eq_ok h
  · simp [hsends, hv]
  · simp [hsends]

/-- A third message as it is kept: a ciphertext behind the identifier of the peer. -/
structure Holds (i : Engine) (message3 ciphertext3 : Bytes) : Prop where
  message3_eq : i.current.material.message3 = message3
  items_eq : Cbor.encodeSequence (frontOf i.settings.prependsOnSend
    i.current.material.peerConnectionId ++ [.bytes ciphertext3]) = .ok message3
  ciphertext3_eq : Combined.ciphertext3 message3 i.settings.prependsOnSend = .ok ciphertext3

/-- A third message that is written is kept. -/
theorem holds_of_finish3 (hwrite : i.writeMessage3.value = (some message3, i'))
    (hrole : i.current.role = .initiator) {front : List Value} {ciphertext3 : Bytes}
    (hprepended : i.prepended .cR i.current.material.peerConnectionId = .ok front)
    (hmessage : KeySchedule.encodeItems (front ++ [.bytes ciphertext3]) = .ok message3) :
    i'.Holds message3 ciphertext3 := by
  have hsettings : i'.settings = i.settings := by
    have hframe := i.writeMessage3_change.frame.1
    rw [hwrite] at hframe
    exact hframe
  obtain ⟨phase3, -, hmaterial⟩ := writeMessage3_eq_some hwrite hrole
  obtain ⟨hfront, hlength⟩ := front_eq hprepended
  have hitems := decodeItems_eq_ok.mp (decodeItems_ciphertext hprepended hmessage)
  constructor
  · rw [hmaterial]
  · rw [hmaterial, hsettings, ← hfront]
    exact mapError_eq_ok.mp hmessage
  · rw [hsettings]
    exact Transport.Combined.ciphertext3_of_decodeSequence hitems hlength

/-- An Initiator keeps the third message that it wrote. -/
theorem holds_of_writeMessage3 (hwrite : i.writeMessage3.value = (some message3, i'))
    (hrole : i.current.role = .initiator) : ∃ ciphertext3, i'.Holds message3 ciphertext3 := by
  obtain ⟨phase3, hbuilt, -⟩ := writeMessage3_eq_some hwrite hrole
  obtain ⟨d, ead, hd, -, hfinish⟩ := build3_eq_ok hbuilt
  obtain ⟨hprepended, -⟩ := draft3_eq_ok.mp hd
  obtain ⟨_, _, _, _, _, ciphertext3, -, -, -, -, -, hmessage, -⟩ := finish3_eq_ok hfinish
  exact ⟨ciphertext3, holds_of_finish3 hwrite hrole hprepended hmessage⟩

/-- The third ciphertext of an endpoint with short key identifiers that sends no authorization data
is short. -/
theorem holds_short_of_writeMessage3 (hequipped : i.endpoint.Equipped)
    (hcoherent : i.current.Coherent i.settings i.endpoint)
    (hwrite : i.writeMessage3.value = (some message3, i'))
    (hrole : i.current.role = .initiator) :
    ∃ ciphertext3, i'.Holds message3 ciphertext3 ∧ ciphertext3.length ≤ 1116 := by
  obtain ⟨phase3, hbuilt, -⟩ := writeMessage3_eq_some hwrite hrole
  obtain ⟨d, ead, hd, head, hfinish⟩ := build3_eq_ok hbuilt
  obtain ⟨hprepended, -, -, hcredential⟩ := draft3_eq_ok.mp hd
  obtain ⟨proof, idCredI, plaintext3, key, iv, ciphertext3, hproof, hid, hplaintext, -, hencrypt,
    hmessage, -⟩ := finish3_eq_ok hfinish
  refine ⟨ciphertext3, holds_of_finish3 hwrite hrole hprepended hmessage, ?_⟩
  obtain ⟨credential, kid, hauth, -, hkid, hpos, hmax⟩ := hequipped.authCredential i.current.role
    i.current.material.method hcoherent.keys.suite_mem
  have hown : d.credential = credential := by
    rw [Material.ownCredential, hcoherent.keys.credential_eq.trans hauth] at hcredential
    exact (Except.ok.inj hcredential).symm
  obtain ⟨element, helement, -, hshort⟩ := identified_proof .idCredI (hown ▸ hkid) hpos hmax hproof
  have hsilent : ead = [] := Except.ok.inj (head.symm.trans (hequipped.silent _))
  have hsame : idCredI = element := Except.ok.inj (hid.symm.trans helement)
  rw [hsilent, hsame, List.append_nil, KeySchedule.encodeItems_eq_ok] at hplaintext
  rw [hplaintext.2] at hshort
  have htag := i.current.material.suite.aead.tagLength_le
  rw [KeySchedule.length_of_encrypt hencrypt]
  omega

theorem material_setCurrent (e : Engine) (s : Session) :
    (e.setCurrent s).current.material = s.material :=
  congrArg Session.material (e.sessions.currentSession_set_current s)

theorem material_reset (e : Engine) (hkept : e.settings.sessionReset = false) :
    (e.act .reset).current.material = e.current.material := by
  change e.resetSession.value.current.material = _
  rw [resetSession, hkept]
  exact e.material_setCurrent { e.current with oscoreReady := false }

theorem message3_reset (e : Engine) (hrenewed : e.settings.sessionReset = true) :
    (e.act .reset).current.material.message3 = placeholder := by
  change e.resetSession.value.current.material.message3 = _
  rw [resetSession, if_pos hrenewed]
  let material := (Material.fresh e.endpoint e.current.role e.current.material.method
    e.current.material.connectionId e.current.material.peerSuites e.entropy).1
  have hmaterial := Session.setupPlaceholder_material e.settings { e.current with
    material := { material with suitesInError := e.current.material.suitesInError } }
    e.endpoint.oscoreUri e.contexts
  exact congrArg Material.message3 ((e.material_setCurrent _).trans hmaterial)

theorem Holds.reset {ciphertext3 : Bytes} (h : i.Holds message3 ciphertext3)
    (hkept : i.settings.sessionReset = false) : (i.act .reset).Holds message3 ciphertext3 where
  message3_eq := by rw [material_reset i hkept, h.message3_eq]
  items_eq := by rw [material_reset i hkept, settings_act, h.items_eq]
  ciphertext3_eq := by rw [settings_act, h.ciphertext3_eq]

/-- A session that is not renewed keeps its third message, however often it is reset. -/
theorem Holds.resets {ciphertext3 : Bytes} (h : i.Holds message3 ciphertext3) {n : Nat}
    (hkept : n = 0 ∨ i.settings.sessionReset = false) :
    (i.run (List.replicate n .reset)).Holds message3 ciphertext3 := by
  induction n generalizing i with
  | zero => exact h
  | succ n ih =>
    have hkept : i.settings.sessionReset = false := hkept.resolve_left (Nat.succ_ne_zero n)
    exact ih (h.reset hkept) (.inr (by rw [settings_act, hkept]))

/-- A session that is renewed loses its third message. -/
theorem ciphertext3_renewed (e : Engine) (hrenewed : e.settings.sessionReset = true) (n : Nat)
    (skip : Bool) : Combined.ciphertext3
      (e.run (List.replicate (n + 1) .reset)).current.material.message3 skip =
        .error .invalidMessage3 := by
  have hlast : e.run (List.replicate (n + 1) .reset) = (e.run (List.replicate n .reset)).act .reset := by
    rw [List.replicate_succ', run, List.foldl_append]
    rfl
  rw [hlast, message3_reset _ (by rw [settings_run, hrenewed])]
  cases skip <;> rfl

/-- If there is a ciphertext after resets, then it is the one that was written. -/
theorem Holds.of_ciphertext3 {written ciphertext3 : Bytes} (h : i.Holds message3 written) {n : Nat}
    (hfound : Combined.ciphertext3 (i.run (List.replicate n .reset)).current.material.message3
      i.settings.prependsOnSend = .ok ciphertext3) :
    (i.run (List.replicate n .reset)).Holds message3 ciphertext3 := by
  have hkept : n = 0 ∨ i.settings.sessionReset = false := by
    cases n with
    | zero => exact .inl rfl
    | succ n =>
      right
      rw [← Bool.not_eq_true]
      intro hrenewed
      rw [i.ciphertext3_renewed hrenewed] at hfound
      cases hfound
  have hholds := h.resets hkept
  have hwritten := hholds.ciphertext3_eq
  rw [settings_run, ← hholds.message3_eq, hfound] at hwritten
  rw [Except.ok.inj hwritten]
  exact hholds

end Written

section Receiver

variable {r : Engine} {packet : Packet} {option kid message3 : Bytes} {parts : Combined.Parts}

/-- The server finds the third message and the protected payload again. -/
theorem splitRequest_ok (hoption : packet.option? Oscore.optionNumber = some option)
    (hkid : (Oscore.OptionValue.decode option).kid = some kid)
    (hseparable : parts.Separable r.settings.combinedLayout)
    (hmessage : Cbor.encodeSequence (frontOf r.settings.prependsOnReceive kid ++
      [.bytes parts.ciphertext3]) = .ok message3)
    (hknown : (r.sessions.find? kid).isSome) :
    r.splitRequest { packet with payload := Combined.joined r.settings.combinedLayout parts } =
      .ok (message3, parts.oscorePayload) := by
  have hoption' : Packet.option? { packet with
      payload := Combined.joined r.settings.combinedLayout parts } Oscore.optionNumber =
      some option := hoption
  have hknown' : (r.sessions.find? kid).isNone = false := by
    rw [← Option.not_isSome, hknown]
    rfl
  unfold frontOf at hmessage
  simp only [splitRequest, hoption', Transport.Combined.split_joined hseparable, hkid, hmessage,
    hknown', mapError_ok, ok_bind, Bool.false_eq_true, if_false, pure_eq_ok]

/-- A combined request that is split is read as its third message, and goes on as it was protected. -/
theorem receiveRequest_eq (hedhoc : hasEdhoc packet) {oscorePayload payload : Bytes}
    (hsplit : r.splitRequest { packet with payload } = .ok (message3, oscorePayload)) :
    r.receiveRequest { packet with payload } = do
      let (accepted, r') ← r.readMessage3 message3
      let received := { packet with payload := oscorePayload }
      if accepted then return (true, received, ← r'.recordRequest received)
      return (false, received, ← r'.recordReceived (.failed packet.messageId)) := by
  have hedhoc' : hasEdhoc { packet with payload } = true := hedhoc
  simp only [receiveRequest, hedhoc', hsplit, Bool.not_true, Bool.false_eq_true, if_false]

end Receiver

section Acquainted

/-- The Responder accepts the third message of the Initiator that it answered. -/
theorem Exchanged.accepts_message3 {m₁ m₂ m₃ : Bytes} {i₁ i₂ i₃ r₁ r₂ : Engine}
    (h : Exchanged m₁ m₂ i₁ i₂ r₁ r₂) (hwrite : i₂.writeMessage3.value = (some m₃, i₃)) :
    ∃ r₃, (r₂.readMessage3 m₃).value = (true, r₃) := by
  obtain ⟨hsi, hei⟩ := caller_reachable.same h.initiator
  obtain ⟨hsr, her⟩ := callee_reachable.same h.responder
  have hheard : r₂.Hears i₂ := acquainted_counterparts.responder_hears.of_eq hsr her hsi hei
  have hknown : ∀ credential, i₂.current.material.credential = some credential →
      r₂.endpoint.Knows credential := by
    intro credential hcredential
    rw [h.initiator.credential, h.method_eq, h.suite_eq] at hcredential
    rw [her]
    exact acquainted_counterparts.initiatorKnown credential hcredential
  obtain ⟨r₃, hread, -⟩ := message3_delivered hheard h.responder.indexed h.initiator.role
    h.responder.role h.after hknown hwrite
  exact ⟨r₃, hread⟩

/-- The Initiator of a handshake writes its third message to the Responder. -/
theorem acquainted_message3 : ∃ i i' r r' m₃, Reachable {} (acquainted [1] [2]) i ∧
    Reachable { isInitiator := false, isCoapClient := false } (acquainted [2] [1]) r ∧
    i.writeMessage3.value = (some m₃, i') ∧ (r.readMessage3 m₃).value = (true, r') ∧
    i'.current.material.peerConnectionId = r.current.material.connectionId := by
  obtain ⟨m₁, m₂, i₁, i₂, r₁, r₂, h⟩ := exists_exchanged
  obtain ⟨m₃, i₃, hwrite₃⟩ := h.writes_message3
  obtain ⟨r₃, hread₃⟩ := h.accepts_message3 hwrite₃
  obtain ⟨phase3, -, hmaterial⟩ := writeMessage3_eq_some hwrite₃ h.initiator.role
  refine ⟨i₂, i₃, r₂, r₃, m₃, h.initiator, h.responder, hwrite₃, hread₃, ?_⟩
  rw [hmaterial]
  exact h.after.responderId_eq

/-- A request of a client, protected for the peer with a key identifier. -/
def protectedRequest (kid : Bytes) : Packet where
  first := 0x41
  code := 2
  messageId := 7
  token := [1]
  options := [{ number := Oscore.optionNumber, value := 0x09 :: 0x01 :: kid },
    { number := edhocOption, value := [] }]
  payload := [0x5a, 0xa5]

end Acquainted

section Request

variable {settings : Settings} {endpoint : Endpoint} {i i' r : Engine} {message3 : Bytes}
  {packet : Packet} {option : Bytes}

/-- A request for the peer that an Initiator sends with its third message, once it wrote that, reaches
a server with the session of the identifier that the request carries: the server reads the bytes that
were written, and the payload goes on as it was.  Sizes are machine words.  Resets of the Initiator in
between only matter if they renew its session, which leaves no ciphertext to send. -/
theorem combined_request_received (hi : Reachable settings endpoint i)
    (hwrite : i.writeMessage3.value = (some message3, i')) (resets : Nat)
    (hinitiator : settings.isInitiator = true) (hclient : settings.isCoapClient = true)
    (hforced : settings.forcedRecipientId = none) (hsize : settings.maxUnfragmentedSize < 2 ^ 64)
    (hserver : r.settings.isCoapClient = false)
    (hlayout : r.settings.combinedLayout = settings.combinedLayout)
    (hcorrelation : r.settings.cxCorrelation = settings.cxCorrelation) (hedhoc : hasEdhoc packet)
    (hoption : packet.option? Oscore.optionNumber = some option) :
    let sender := i'.run (List.replicate resets .reset)
    let stored := sender.current.material
    (Oscore.OptionValue.decode option).kid = some stored.peerConnectionId →
    (r.sessions.find? stored.peerConnectionId).isSome →
    (settings.combinedLayout = .v07 → packet.payload ≠ []) →
    (resets = 0 ∨ settings.sessionReset = false → stored.message3 = message3 ∧
      ∃ ciphertext3, Combined.ciphertext3 message3 settings.prependsOnSend = .ok ciphertext3) ∧
    ∀ ciphertext3, Combined.ciphertext3 stored.message3 settings.prependsOnSend = .ok ciphertext3 →
    let payload := Combined.joined settings.combinedLayout
      { ciphertext3, oscorePayload := packet.payload }
    payload.length ≤ settings.maxUnfragmentedSize →
    (sender.sendRequest endpoint.oscoreUri packet).value = .ok (true, { packet with payload }) ∧
    r.receiveRequest { packet with payload } = do
      let (accepted, r') ← r.readMessage3 stored.message3
      if accepted then return (true, packet, ← r'.recordRequest packet)
      return (false, packet, ← r'.recordReceived (.failed packet.messageId)) := by
  intro sender stored hkid hknown hpayload
  have hi' : Reachable settings endpoint i' :=
    hi.called .writeMessage3 (congrArg (Prod.map Answer.written id) hwrite)
  have hsender : Reachable settings endpoint sender := hi'.run _
  have hrole : i.current.role = .initiator := by
    rw [hi.role, ownRole, if_pos hinitiator]
  obtain ⟨written, hholds⟩ := holds_of_writeMessage3 hwrite hrole
  constructor
  · intro hkept
    rw [← hi'.coherent.1] at hkept
    have hkept := hholds.resets hkept
    refine ⟨hkept.message3_eq, written, ?_⟩
    rw [← hsender.coherent.1]
    exact hkept.ciphertext3_eq
  · intro ciphertext3 hciphertext3 payload hfits
    -- A renewed session holds a placeholder without a ciphertext in it, so that any ciphertext
    -- is that of the message that was written.
    have hholds : sender.Holds message3 ciphertext3 := by
      apply hholds.of_ciphertext3
      rw [hi'.coherent.1]
      exact hciphertext3
    have hmessage3 : stored.message3 = message3 := hholds.message3_eq
    have hseparable : Combined.Parts.Separable settings.combinedLayout
        { ciphertext3, oscorePayload := packet.payload } :=
      Transport.Combined.separable_of_joined
        (Transport.Combined.fitsHead_of_ciphertext3 hciphertext3)
        (Nat.lt_of_le_of_lt hfits hsize) hpayload
    constructor
    · have hoscore : hasOscore packet := by
        rw [hasOscore, hoption]
        rfl
      have hjoin := Transport.Combined.join_eq hciphertext3 hseparable settings.maxUnfragmentedSize
      rw [if_neg (Nat.not_lt.mpr hfits)] at hjoin
      rw [hsender.sendRequest_value hinitiator hforced hedhoc hoscore, hjoin]
      rfl
    · have hprepends : r.settings.prependsOnReceive = sender.settings.prependsOnSend := by
        rw [hsender.coherent.1, Settings.prependsOnReceive, Settings.prependsOnSend, hserver,
          hcorrelation, hclient]
        rfl
      have hitems := hholds.items_eq
      rw [← hprepends, ← hmessage3] at hitems
      have hsplit := splitRequest_ok hoption hkid (hlayout ▸ hseparable) hitems hknown
      rw [hlayout] at hsplit
      exact receiveRequest_eq hedhoc hsplit

/-- The Responder accepts the third message that comes with a request of the Initiator. -/
theorem acquainted_request_received : ∃ i i' r r' m₃ payload,
    Reachable {} (acquainted [1] [2]) i ∧
    Reachable { isInitiator := false, isCoapClient := false } (acquainted [2] [1]) r ∧
    i.writeMessage3.value = (some m₃, i') ∧
    let packet := protectedRequest i'.current.material.peerConnectionId
    (i'.sendRequest "" packet).value = .ok (true, { packet with payload }) ∧
    (r.receiveRequest { packet with payload }).value = (true, packet, r') := by
  obtain ⟨i, i', r, r', m₃, hi, hr, hwrite, hread, hid⟩ := acquainted_message3
  have hrole : i.current.role = .initiator := hi.role
  obtain ⟨-, hendpoint, hcoherent⟩ := hi.coherent
  have hi' : Reachable {} (acquainted [1] [2]) i' :=
    hi.called .writeMessage3 (congrArg (Prod.map Answer.written id) hwrite)
  obtain ⟨ciphertext3, hholds, hshort⟩ := holds_short_of_writeMessage3
    (hendpoint ▸ acquainted_equipped (by decide) (by decide)) hcoherent.current hwrite hrole
  have hedhoc : hasEdhoc (protectedRequest i'.current.material.peerConnectionId) := rfl
  have hknown : (r.sessions.find? i'.current.material.peerConnectionId).isSome := by
    rw [hid, hr.indexed.find?_current]
    rfl
  have hlayout : r.settings.combinedLayout = .v07 := by rw [hr.coherent.1]
  have hcorrelation : r.settings.cxCorrelation = true := by rw [hr.coherent.1]
  have hserver : r.settings.isCoapClient = false := by rw [hr.coherent.1]
  obtain ⟨-, hreceived⟩ := combined_request_received hi hwrite 0 rfl rfl rfl (by decide)
    hserver hlayout hcorrelation hedhoc rfl rfl hknown nofun
  have hciphertext3 : Combined.ciphertext3 i'.current.material.message3 true = .ok ciphertext3 := by
    have hheld := hholds.ciphertext3_eq
    rw [hi'.coherent.1] at hheld
    rw [hholds.message3_eq]
    exact hheld
  have hfits : (Combined.joined .v07 { ciphertext3, oscorePayload := [0x5a, 0xa5] }).length ≤ 4096 := by
    have hle := Cbor.Identifier.encode_bytes_length_le
      (Transport.Combined.fitsHead_of_ciphertext3 hciphertext3)
    rw [Combined.joined, Cbor.encodeBytes, List.length_append]
    simp only [List.length_cons, List.length_nil]
    omega
  obtain ⟨hsent, hreceived⟩ := hreceived ciphertext3 hciphertext3 hfits
  have haccepted : (r.readMessage3 (i'.run []).current.material.message3).value = (true, r') := by
    rw [show (i'.run []).current.material.message3 = m₃ from hholds.message3_eq]
    exact hread
  refine ⟨i, i', r, (r'.recordRequest (protectedRequest i'.current.material.peerConnectionId)).value,
    m₃, _, hi, hr, hwrite, hsent, ?_⟩
  refine (congrArg Traced.value hreceived).trans ?_
  rw [Traced.value_bind, List.replicate_zero, haccepted]
  rfl

end Request

end EdhocLab.Engine
