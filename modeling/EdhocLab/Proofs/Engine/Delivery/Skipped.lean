import EdhocLab.Proofs.Digest.Evaluation
import EdhocLab.Proofs.Engine.Handshake

/-! # Items that a receiver skips

Padding and items that a receiver need not support may stand anywhere among the authorization data.
The hooks of the receiver get the supported items and nothing else.  Whether the message is accepted
depends on the proof, which its sender makes over all of the items.
-/
namespace EdhocLab

open Cbor (Value)
open Handshake

namespace Engine

variable {i r i' r' : Engine} {method : UInt8} {suite : Suite}

/-- An Initiator and a Responder that can take apart what they send each other and know the credentials
of each other for a method and a suite. -/
structure Partners (i r : Engine) (method : UInt8) (suite : Suite) : Prop where
  initiator : i.settings.isInitiator = true
  responder : r.settings.isInitiator = false
  hears : i.Attuned r
  heard : r.Attuned i
  initiatorKnown : ∀ credential, i.endpoint.authCredential .initiator method suite = some credential →
    r.endpoint.Knows credential
  responderKnown : ∀ credential, r.endpoint.authCredential .responder method suite = some credential →
    i.endpoint.Knows credential

namespace Partners

variable {si sr : Settings} {ei er : Endpoint}

/-- Partners stay partners, whatever happens to either. -/
theorem of_reachable (h : Partners i r method suite) (hi : Reachable si ei i)
    (hi' : Reachable si ei i') (hr : Reachable sr er r) (hr' : Reachable sr er r') :
    Partners i' r' method suite := by
  obtain ⟨hsi, hei⟩ := hi.same hi'
  obtain ⟨hsr, her⟩ := hr.same hr'
  exact {
    initiator := hsi ▸ h.initiator
    responder := hsr ▸ h.responder
    hears := h.hears.of_eq hsi hei hsr
    heard := h.heard.of_eq hsr her hsi
    initiatorKnown := by
      rw [hei, her]
      exact h.initiatorKnown
    responderKnown := by
      rw [hei, her]
      exact h.responderKnown }

theorem initiator_role (h : Partners i r method suite) (hi : Reachable si ei i) :
    i.current.role = .initiator := by
  rw [hi.role, ownRole, ← hi.coherent.1, h.initiator]
  rfl

theorem responder_role (h : Partners i r method suite) (hr : Reachable sr er r) :
    r.current.role = .responder := by
  rw [hr.role, ownRole, ← hr.coherent.1, h.responder]
  rfl

/-- The credential of a session is known to the partner if both mean the same method and suite. -/
theorem initiator_known (h : Partners i r method suite) (hi : Reachable si ei i)
    (hmethod : i.current.material.method = method) (hsuite : i.current.material.suite = suite)
    (credential : OwnCredential) (hcredential : i.current.material.credential = some credential) :
    r.endpoint.Knows credential := by
  apply h.initiatorKnown
  rw [← hcredential, hi.credential, ← hi.role, h.initiator_role hi, hmethod, hsuite, hi.coherent.2.1]

theorem responder_known (h : Partners i r method suite) (hr : Reachable sr er r)
    (hmethod : r.current.material.method = method) (hsuite : r.current.material.suite = suite)
    (credential : OwnCredential) (hcredential : r.current.material.credential = some credential) :
    i.endpoint.Knows credential := by
  apply h.responderKnown
  rw [← hcredential, hr.credential, ← hr.role, h.responder_role hr, hmethod, hsuite, hr.coherent.2.1]

end Partners

/-- In a handshake that is run in order, every message with a proof is opened.  The hooks get exactly
the supported items of it, and it is accepted if and only if the proof, which is made over all the items
that are sent, covers the supported items alone. -/
theorem skipped_items_received {si sr : Settings} {ei er : Endpoint} {i r i₁ : Engine} {m₁ : Bytes}
    {items₁ items₂ items₃ : List Ead.Item} (hi : Reachable si ei i) (hr : Reachable sr er r)
    (hwrite : i.writeMessage1.value = (some m₁, i₁))
    (hpartners : Partners i r i₁.current.material.method i₁.current.material.suite)
    (hallowed : r.profile.allows i.current.material.method.toNat)
    (hsuite : i₁.current.material.suite ∈ r.endpoint.suites)
    (hfree : (r.freeId? i.current.material.connectionId).isSome)
    (hsends₁ : i.Sends r .message1 items₁) (hsends₂ : r.Sends i .message2 items₂)
    (hsends₃ : i.Sends r .message3 items₃) :
    ∃ r₁, (r.readMessage1 m₁).value = (true, r₁) ∧
    ∀ m₂ r₂, r₁.writeMessage2.value = (some m₂, r₂) →
    ∃ d₂, r₁.draft2 = .ok d₂ ∧
      Receives .message2 d₂.credential.idCred.received (Ead.handed ei.eadLabels items₂)
        ((d₂.authentication r₁.current.material).Covers (items₂.flatMap Ead.Item.toValues)
          (Ead.handed ei.eadLabels items₂)) (i₁.readMessage2 m₂) ∧
    ∀ i₂, (i₁.readMessage2 m₂).value = (true, i₂) →
    ∀ m₃ i₃, i₂.writeMessage3.value = (some m₃, i₃) →
    ∃ d₃, i₂.draft3 = .ok d₃ ∧
      Receives .message3 d₃.credential.idCred.received (Ead.handed er.eadLabels items₃)
        ((d₃.authentication i₂.current.material).Covers (items₃.flatMap Ead.Item.toValues)
          (Ead.handed er.eadLabels items₃)) (r₂.readMessage3 m₃) := by
  have hi₁ : Reachable si ei i₁ :=
    hi.called .writeMessage1 (congrArg (Prod.map Answer.written id) hwrite)
  obtain ⟨r₁, hread₁, hafter₁⟩ := message1_received hpartners.heard hsends₁ hi₁.coherent.2.2
    (hpartners.initiator_role hi) (hpartners.responder_role hr) hallowed hwrite hsuite hfree
  have hr₁ : Reachable sr er r₁ :=
    hr.called (.readMessage1 m₁) (congrArg (Prod.map Answer.read id) hread₁)
  refine ⟨r₁, hread₁, fun m₂ r₂ hwrite₂ => ?_⟩
  -- The second message
  have hr₂ : Reachable sr er r₂ :=
    hr₁.called .writeMessage2 (congrArg (Prod.map Answer.written id) hwrite₂)
  have hpartners₁ := hpartners.of_reachable hi hi₁ hr hr₁
  have hsends₂ : r₁.Sends i₁ .message2 items₂ :=
    hsends₂.of_eq (hi.same hi₁).1 (hi.same hi₁).2 (hr.same hr₁).2
  obtain ⟨d₂, hd₂, hreceives₂, hafter₂⟩ := message2_received hpartners₁.hears hsends₂ hi₁.indexed
    hr₁.coherent.2.2 (hpartners₁.initiator_role hi₁) (hpartners₁.responder_role hr₁) hafter₁
    (hpartners₁.responder_known hr₁ hafter₁.method_eq.symm hafter₁.suite_eq.symm) hwrite₂
  rw [hi₁.coherent.2.1] at hreceives₂
  refine ⟨d₂, hd₂, hreceives₂, fun i₂ hread₂ m₃ i₃ hwrite₃ => ?_⟩
  -- The third message
  have hi₂ : Reachable si ei i₂ :=
    hi₁.called (.readMessage2 m₂) (congrArg (Prod.map Answer.read id) hread₂)
  have hafter₂ := hafter₂ i₂ hread₂
  have hpartners₂ := hpartners.of_reachable hi hi₂ hr hr₂
  have hsends₃ : i₂.Sends r₂ .message3 items₃ :=
    hsends₃.of_eq (hr.same hr₂).1 (hr.same hr₂).2 (hi.same hi₂).2
  obtain ⟨phase2, -, hmaterial⟩ := writeMessage2_eq_some hwrite₂ (hpartners₁.responder_role hr₁)
  have hmethod : i₂.current.material.method = i₁.current.material.method := by
    rw [hafter₂.method_eq, hmaterial, hafter₁.method_eq]
  have hsuite₂ : i₂.current.material.suite = i₁.current.material.suite := by
    rw [hafter₂.suite_eq, hmaterial, hafter₁.suite_eq]
  obtain ⟨d₃, hd₃, hreceives₃, -⟩ := message3_received hpartners₂.heard hsends₃ hr₂.indexed
    (hpartners₂.initiator_role hi₂) (hpartners₂.responder_role hr₂) hafter₂
    (hpartners₂.initiator_known hi₂ hmethod hsuite₂) hwrite₃
  rw [hr₂.coherent.2.1] at hreceives₃
  exact ⟨d₃, hd₃, hreceives₃⟩

section Padded

/-- An item that means nothing. -/
def padding : Ead.Item := { label := 0, value := none }

/-- An endpoint with its keys under a key identifier, that sends the given items with every message
and knows the static key of one peer under another identifier. -/
def staticallyAcquainted (kid peerKid : Bytes) (items : List Ead.Item) : Endpoint :=
  { acquainted kid peerKid with
    peers := [(OwnCredential.ofKid (KeyPair.last .x25519) peerKid).toPeer]
    hooks := .sending fun _ => items.flatMap Ead.Item.toValues }

/-- A fresh Initiator that authenticates with its static key, and so has the Responder do. -/
def staticCaller : Engine :=
  initial { method := 3 } (staticallyAcquainted [1] [2] []) {}
    { blocks := [], seed := 0, counter := 0 }

/-- A fresh Responder that pads its messages. -/
def paddingCallee : Engine :=
  initial { method := 3, isInitiator := false, isCoapClient := false }
    (staticallyAcquainted [2] [1] [padding]) {} { blocks := [], seed := 0, counter := 0 }

theorem staticCaller_reachable :
    Reachable { method := 3 } (staticallyAcquainted [1] [2] []) staticCaller :=
  .created (by rw [create_result]; rfl)

theorem paddingCallee_reachable : Reachable { method := 3, isInitiator := false, isCoapClient := false }
    (staticallyAcquainted [2] [1] [padding]) paddingCallee :=
  .created (by rw [create_result]; rfl)

theorem staticallyAcquainted_knows (kid peerKid : Bytes) (items : List Ead.Item)
    (hne : kid ≠ peerKid) : (staticallyAcquainted kid peerKid items).Knows
      (.ofKid (KeyPair.last .x25519) peerKid) := by
  apply Endpoint.knows_ofKid
  · simp [Endpoint.peer?, staticallyAcquainted, OwnCredential.toPeer, OwnCredential.ofKid]
  · simp [Endpoint.isOwnIdCred, staticallyAcquainted, acquainted, OwnCredential.ofKid,
      Cose.isSame_kidMap, hne]

theorem staticCaller_partners : Partners staticCaller paddingCallee 3 .suite0 where
  initiator := rfl
  responder := rfl
  hears := ⟨rfl, rfl, ⟨fun _ _ => rfl, fun _ _ _ => rfl⟩⟩
  heard := ⟨rfl, rfl, ⟨fun _ _ => rfl, fun _ _ _ => rfl⟩⟩
  initiatorKnown credential h := by
    obtain rfl : OwnCredential.ofKid (KeyPair.last .x25519) [1] = credential := Option.some.inj h
    exact staticallyAcquainted_knows [2] [1] [padding] (by decide)
  responderKnown credential h := by
    obtain rfl : OwnCredential.ofKid (KeyPair.last .x25519) [2] = credential := Option.some.inj h
    exact staticallyAcquainted_knows [1] [2] [] (by decide)

theorem staticCaller_sends (slot : Ead.Slot) : staticCaller.Sends paddingCallee slot [] :=
  ⟨rfl, by simp⟩

theorem paddingCallee_sends (slot : Ead.Slot) : paddingCallee.Sends staticCaller slot [padding] where
  produce_eq := rfl
  tolerated item hitem := by
    cases List.mem_singleton.mp hitem
    exact ⟨⟨by decide, by decide, nofun⟩, .inl (by decide)⟩

/-- The first message of the Initiator. -/
def firstMessage : Bytes :=
  [0xf5, 0x03, 0x00, 0x58, 0x20] ++
    Bytes.ofNatBE 32 0x6f2ed2cf03f146838e21d3c688878afea91d939402eb8bc6b97d57206cd14042 ++ [0x36]

theorem staticCaller_current : staticCaller.current.role = .initiator ∧
    staticCaller.current.material = (Material.fresh (staticallyAcquainted [1] [2] []) .initiator 3
      [0x36] [] { blocks := [], seed := 0, counter := 0 }).1 := by
  rw [staticCaller, initial_current, startSession_role, startSession_material]
  exact ⟨rfl, rfl⟩

theorem staticCaller_writeMessage1 : ∃ i₁,
    staticCaller.writeMessage1.value = (some firstMessage, i₁) ∧
      i₁.current.material.method = 3 ∧ i₁.current.material.suite = .suite0 ∧
      i₁.current.material.hashMessage1 = KeySchedule.hash (firstMessage.drop 1) := by
  have hmessage : staticCaller.writeMessage1.value.1 = some firstMessage := by decide +kernel
  obtain ⟨hrole, hmaterial⟩ := staticCaller_current
  have hwrite : staticCaller.writeMessage1.value =
      (some firstMessage, staticCaller.writeMessage1.value.2) := Prod.ext hmessage rfl
  obtain ⟨offer, m, hoffer, hm, -, hi₁⟩ := writeMessage1_eq_some hwrite hrole
  have hleading : staticCaller.leadingTrue.length = 1 := rfl
  refine ⟨_, hwrite, ?_⟩
  rw [hi₁, hm, hleading]
  exact ⟨(Material.selectSuite_method ..).trans (by rw [hmaterial]; rfl),
    (Material.selectSuite_suite ..).trans (List.mem_singleton.mp (suite_mem_of_offer1 hoffer)), rfl⟩

theorem paddingCallee_freeId : (paddingCallee.freeId? [0x36]).isSome := by rfl

/-- The Responder accepts the first message and answers it. -/
theorem paddingCallee_answers {i₁ : Engine}
    (hwrite : staticCaller.writeMessage1.value = (some firstMessage, i₁))
    (hsuite : i₁.current.material.suite = .suite0) : ∃ r₁ m₂ r₂,
      (paddingCallee.readMessage1 firstMessage).value = (true, r₁) ∧
      r₁.writeMessage2.value = (some m₂, r₂) ∧
      i₁.current.material.AfterMessage1 r₁.current.material := by
  have hi₁ : Reachable { method := 3 } (staticallyAcquainted [1] [2] []) i₁ :=
    staticCaller_reachable.called .writeMessage1 (congrArg (Prod.map Answer.written id) hwrite)
  obtain ⟨hrole, hmaterial⟩ := staticCaller_current
  obtain ⟨r₁, hread, hafter⟩ := message1_received staticCaller_partners.heard
    (staticCaller_sends .message1) hi₁.coherent.2.2 hrole paddingCallee_reachable.role
    (by rw [hmaterial]; rfl) hwrite (by rw [hsuite]; exact List.mem_singleton_self _)
    (by rw [hmaterial]; exact paddingCallee_freeId)
  have hsome : (paddingCallee.readMessage1 firstMessage).value.2.writeMessage2.value.1.isSome := by
    rfl
  rw [hread] at hsome
  obtain ⟨m₂, hm₂⟩ := Option.isSome_iff_exists.mp hsome
  exact ⟨r₁, m₂, _, hread, Prod.ext hm₂ rfl, hafter⟩

/-- The padded message is opened, its padding dropped, and its proof left to decide. -/
theorem padded_handshake : ∃ i₁ r₁ m₂ r₂ d₂,
    staticCaller.writeMessage1.value = (some firstMessage, i₁) ∧
      (paddingCallee.readMessage1 firstMessage).value = (true, r₁) ∧
      r₁.writeMessage2.value = (some m₂, r₂) ∧ r₁.draft2 = .ok d₂ ∧
      Receives .message2 d₂.credential.idCred.received []
        ((d₂.authentication r₁.current.material).Covers [.integer 0] []) (i₁.readMessage2 m₂) := by
  obtain ⟨-, hmaterial⟩ := staticCaller_current
  obtain ⟨i₁, hwrite, hmethod, hsuite, -⟩ := staticCaller_writeMessage1
  obtain ⟨r₁, hread, hrest⟩ := skipped_items_received staticCaller_reachable paddingCallee_reachable
    hwrite (by rw [hmethod, hsuite]; exact staticCaller_partners) (by rw [hmaterial]; rfl)
    (by rw [hsuite]; exact List.mem_singleton_self _) (by rw [hmaterial]; exact paddingCallee_freeId)
    (staticCaller_sends .message1) (paddingCallee_sends .message2) (staticCaller_sends .message3)
  obtain ⟨r₁', m₂, r₂, hread', hwrite₂, -⟩ := paddingCallee_answers hwrite hsuite
  obtain rfl : r₁ = r₁' := congrArg Prod.snd (hread.symm.trans hread')
  obtain ⟨d₂, hd₂, hreceives, -⟩ := hrest m₂ r₂ hwrite₂
  exact ⟨i₁, r₁, m₂, r₂, d₂, hwrite, hread, hwrite₂, hd₂, hreceives⟩

/-- The Responder after the first message. -/
def answering : Engine := (paddingCallee.readMessage1 firstMessage).value.2

/-- What the second message of the Responder is made from. -/
def publicEphemeral : Bytes :=
  Bytes.ofNatBE 32 0xaf2ca8834ee946384be32c9e9f28181bd9ff8afce7eca737fac99804a8d87079

def ephemeralSecret : Bytes :=
  Bytes.ofNatBE 32 0xab489722f6c06514e4cfe8751d1debd923555e4ad5869149349374dac7f95a75

def staticSecret : Bytes :=
  Bytes.ofNatBE 32 0x2d39ed23da3ca80a285c78e9d976fc2c8653a7a294de2ff76af97f9a75fb284e

def staticCredential : OwnCredential := .ofKid (KeyPair.last .x25519) [2]

theorem answering_material : let m := answering.current.material
    answering.settings.version = .v23 ∧ answering.current.role = .responder ∧ m.method = 3 ∧
      m.suite = .suite0 ∧ m.ephemeralKey.publicKey.toBytes = publicEphemeral ∧
      (m.agree m.ephemeralKey m.peerEphemeralKey).toOption = some ephemeralSecret ∧
      (m.staticSecret true false m.peer.longTermKey m.peerEphemeralKey).toOption =
        some (some staticSecret) ∧
      m.ownCredential.toOption = some staticCredential := by
  decide +kernel

/-- The transcript hash and the key that the proof of the Responder is made with. -/
def transcriptHash2 : Bytes :=
  Bytes.ofNatBE 32 0x6f2af144a0ea24c1651fd415e3c124d03c361e4286fa41d3adb818132da896e4

def macKey2 : Bytes :=
  Bytes.ofNatBE 32 0x69539a1578000e16a872ef5bac329a5218abb35de82a346534fb3c7e0338377a

theorem transcriptHash2_eq : KeySchedule.th2 publicEphemeral none
    (KeySchedule.hash (firstMessage.drop 1)) = .ok transcriptHash2 := by
  have hhash : KeySchedule.hash (Cbor.encodeBytes publicEphemeral ++ [] ++
      Cbor.encodeBytes (KeySchedule.hash (firstMessage.drop 1))) = transcriptHash2 := by
    rw [KeySchedule.hash, KeySchedule.hash, Digest.Sha256.digest_eq, Digest.Sha256.digest_eq]
    decide +kernel
  rw [KeySchedule.th2, KeySchedule.th2Input, pure_eq_ok, ok_bind]
  exact congrArg Except.ok hhash

theorem macKey2_eq : KeySchedule.prk3e2m (KeySchedule.prk2e transcriptHash2 ephemeralSecret)
    transcriptHash2 (some staticSecret) = .ok macKey2 := by
  unfold KeySchedule.prk3e2m KeySchedule.mix KeySchedule.kdf KeySchedule.expand KeySchedule.prk2e
    Digest.Hkdf.extract
  dsimp only
  rw [Digest.Hkdf.expand_short (by decide) (by decide), Digest.hmac_eq]
  simp only [ok_bind]
  rw [Digest.hmac_eq]
  refine congrArg Except.ok ?_
  decide +kernel

/-- What the proof of the Responder covers besides the items. -/
def macInput : Bytes :=
  staticCredential.idCred.encode ++ Cbor.encodeBytes transcriptHash2 ++ staticCredential.cred

/-- The MAC over the padding is another one than that over nothing. -/
theorem macs_ne : KeySchedule.mac macKey2 Label.mac2.number staticCredential.idCred transcriptHash2
      staticCredential.cred [.integer 0] 8 ≠
    KeySchedule.mac macKey2 Label.mac2.number staticCredential.idCred transcriptHash2
      staticCredential.cred [] 8 := by
  have hpadded : KeySchedule.macContext staticCredential.idCred transcriptHash2
      staticCredential.cred [.integer 0] = .ok (macInput ++ [0]) := rfl
  have hempty : KeySchedule.macContext staticCredential.idCred transcriptHash2
      staticCredential.cred [] = .ok (macInput ++ []) := rfl
  rw [KeySchedule.mac, KeySchedule.mac, hpadded, hempty, ok_bind, ok_bind]
  unfold KeySchedule.kdf KeySchedule.expand
  rw [Digest.Hkdf.expand_short (by decide) (by decide),
    Digest.Hkdf.expand_short (by decide) (by decide), Ne, Except.ok.injEq]
  decide +kernel

/-- The proof of the padded message does not cover what is left of its items. -/
theorem answering_uncovered {d : Draft2} (hd : answering.draft2 = .ok d)
    (hhash : answering.current.material.hashMessage1 = KeySchedule.hash (firstMessage.drop 1)) :
    ¬(d.authentication answering.current.material).Covers [.integer 0] [] := by
  obtain ⟨hversion, hrole, hmethod, hsuite, hephemeral, hagree, hstatic, hcredential⟩ :=
    answering_material
  rw [toOption_eq_some] at hagree hstatic hcredential
  obtain ⟨-, hgY, -, hsecrets, ⟨gRX, hgRX, hprk⟩, hown⟩ := draft2_eq_ok.mp hd
  obtain ⟨th2, hth2, hsecrets⟩ := bind_eq_ok.mp hsecrets
  rw [hagree, ok_bind, hversion] at hsecrets
  rw [hgY, hephemeral, hhash, hversion] at hth2
  obtain rfl : transcriptHash2 = th2 := Except.ok.inj (transcriptHash2_eq.symm.trans hth2)
  obtain ⟨hth, hprk2e⟩ : transcriptHash2 = d.th2 ∧
      KeySchedule.prk2e transcriptHash2 ephemeralSecret = d.prk2e :=
    Prod.mk.inj (Except.ok.inj hsecrets)
  rw [hrole, hmethod] at hgRX
  obtain rfl : some staticSecret = gRX := Except.ok.inj (hstatic.symm.trans hgRX)
  rw [← hth, ← hprk2e] at hprk
  have hkey : macKey2 = d.prk3e2m := Except.ok.inj (macKey2_eq.symm.trans hprk)
  have howner : staticCredential = d.credential := Except.ok.inj (hcredential.symm.trans hown)
  intro hcovers
  apply macs_ne
  have hmac := hcovers.mac_eq (by rw [Draft2.authentication, hmethod]; rfl)
  simp only [Authentication.mac, Draft2.authentication, hmethod, hsuite] at hmac
  rw [← hkey, ← hth, ← howner] at hmac
  exact hmac

/-- The second message is not accepted, since the Initiator skips padding that the proof covers. -/
theorem padded_message2_refused : ∃ i₁ m₂ r₂,
    staticCaller.writeMessage1.value = (some firstMessage, i₁) ∧
      i₁.current.material.method = 3 ∧ i₁.current.material.suite = .suite0 ∧
      i₁.current.material.hashMessage1 = KeySchedule.hash (firstMessage.drop 1) ∧
      (paddingCallee.readMessage1 firstMessage).value = (true, answering) ∧
      answering.writeMessage2.value = (some m₂, r₂) ∧ (i₁.readMessage2 m₂).value.1 = false := by
  obtain ⟨i₁, hwrite, hmethod, hsuite, hhash⟩ := staticCaller_writeMessage1
  obtain ⟨r₁, m₂, r₂, hread, hwrite₂, hafter⟩ := paddingCallee_answers hwrite hsuite
  obtain rfl : answering = r₁ := congrArg Prod.snd hread
  have hi₁ : Reachable { method := 3 } (staticallyAcquainted [1] [2] []) i₁ :=
    staticCaller_reachable.called .writeMessage1 (congrArg (Prod.map Answer.written id) hwrite)
  have hr₁ : Reachable { method := 3, isInitiator := false, isCoapClient := false }
      (staticallyAcquainted [2] [1] [padding]) answering :=
    paddingCallee_reachable.called (.readMessage1 firstMessage)
      (congrArg (Prod.map Answer.read id) hread)
  have hpartners := staticCaller_partners.of_reachable staticCaller_reachable hi₁
    paddingCallee_reachable hr₁
  have hsends : answering.Sends i₁ .message2 [padding] :=
    (paddingCallee_sends .message2).of_eq (staticCaller_reachable.same hi₁).1
      (staticCaller_reachable.same hi₁).2 (paddingCallee_reachable.same hr₁).2
  obtain ⟨d, hd, hreceives, -⟩ := message2_received hpartners.hears hsends hi₁.indexed
    hr₁.coherent.2.2 (hpartners.initiator_role hi₁) (hpartners.responder_role hr₁) hafter
    (hpartners.responder_known hr₁ (hafter.method_eq.symm.trans hmethod)
      (hafter.suite_eq.symm.trans hsuite)) hwrite₂
  refine ⟨i₁, m₂, r₂, hwrite, hmethod, hsuite, hhash, hread, hwrite₂, ?_⟩
  rw [← Bool.not_eq_true, hreceives.accepted_iff]
  exact answering_uncovered hd (hafter.hash_eq.symm.trans hhash)

/-- A Responder that pads its second message is refused by an Initiator that knows it and skips
padding. -/
theorem staticCaller_refuses_padding : ∃ m₁ i₁ r₁ m₂ r₂,
    Partners staticCaller paddingCallee 3 .suite0 ∧
      paddingCallee.Sends staticCaller .message2 [padding] ∧
      staticCaller.writeMessage1.value = (some m₁, i₁) ∧
      i₁.current.material.method = 3 ∧ i₁.current.material.suite = .suite0 ∧
      (paddingCallee.readMessage1 m₁).value = (true, r₁) ∧
      r₁.writeMessage2.value = (some m₂, r₂) ∧ (i₁.readMessage2 m₂).value.1 = false := by
  obtain ⟨i₁, m₂, r₂, hwrite, hmethod, hsuite, -, hread, hwrite₂, hrefused⟩ := padded_message2_refused
  exact ⟨firstMessage, i₁, answering, m₂, r₂, staticCaller_partners, paddingCallee_sends .message2,
    hwrite, hmethod, hsuite, hread, hwrite₂, hrefused⟩

end Padded

end Engine

end EdhocLab
