import EdhocLab.Proofs.Engine.Completion
import EdhocLab.Proofs.Engine.Service

/-! # Own keys

An endpoint files its credentials by the curves of their keys, and a session takes the one for its
part, method and suite.  Its keys then fit the suite at any time, so that a proof is never refused for
the key that it is made with.
-/
namespace EdhocLab

open Cbor (Value)
open Handshake

namespace Endpoint

variable {endpoint : Endpoint}

/-- Every credential is filed under the curve of its key. -/
def Filed (endpoint : Endpoint) : Prop := ∀ entry ∈ endpoint.own, entry.2.key.curve = entry.1.2

/-- The endpoints that are created and filled in before an engine uses them. -/
inductive Assembled : Endpoint → Prop
  | created {suites : List Suite} {oscoreUri : String} {endpoint : Endpoint}
      (h : create suites oscoreUri = .ok endpoint) : Assembled endpoint
  | own {endpoint : Endpoint} (h : Assembled endpoint) (usage : KeyUsage)
      (credential : OwnCredential) : Assembled (endpoint.addOwn usage credential)
  | peer {endpoint : Endpoint} (h : Assembled endpoint) (peer : Peer) :
      Assembled (endpoint.addPeer peer)
  | profile {endpoint : Endpoint} (h : Assembled endpoint) (uri : String) (profile : AppProfile) :
      Assembled (endpoint.addProfile uri profile)
  | eadLabels {endpoint : Endpoint} (h : Assembled endpoint) (labels : List Int) :
      Assembled (endpoint.setEadLabels labels)
  | hooks {endpoint : Endpoint} (h : Assembled endpoint) (hooks : Ead.Hooks) :
      Assembled { endpoint with hooks }

theorem Filed.addOwn (h : endpoint.Filed) (usage : KeyUsage) (credential : OwnCredential) :
    (endpoint.addOwn usage credential).Filed := by
  intro entry hentry
  rcases List.mem_cons.mp hentry with rfl | hentry
  · rfl
  · exact h entry (List.mem_of_mem_filter hentry)

theorem Assembled.filed (h : endpoint.Assembled) : endpoint.Filed := by
  induction h with
  | @created suites _ _ hcreate =>
    cases suites with
    | nil => cases hcreate
    | cons suite suites =>
      cases hcreate
      exact fun _ hentry => absurd hentry List.not_mem_nil
  | own _ usage credential ih => exact ih.addOwn usage credential
  | peer _ _ ih | profile _ _ _ ih | eadLabels _ _ ih | hooks _ _ ih => exact ih

/-- The credential for a part, method and suite is on the curve that they ask for. -/
theorem Filed.authCredential_curve (h : endpoint.Filed) {role : Role} {method : UInt8}
    {suite : Suite} {credential : OwnCredential}
    (hcredential : endpoint.authCredential role method suite = some credential) :
    credential.key.curve = authCurve role method suite := by
  obtain ⟨before, after, hown, -⟩ := List.lookup_eq_some_iff.mp hcredential
  rw [h (_, credential) (hown ▸ List.mem_append_right before List.mem_cons_self), authCurve]
  split <;> rfl

end Endpoint

namespace Handshake

variable {α β : Type}

/-- A computation that fails for no key. -/
def NoKeyError (x : Except Error α) : Prop := ∀ error, x ≠ .error (.key error)

namespace NoKeyError

theorem bind_of_ok {x : Except Error α} {f : α → Except Error β} (hx : NoKeyError x)
    (hf : ∀ a, x = .ok a → NoKeyError (f a)) : NoKeyError (x >>= f) := by
  cases x with
  | ok a => exact hf a rfl
  | error e => exact fun error h => hx error (congrArg Except.error (Except.error.inj h))

theorem bind {x : Except Error α} {f : α → Except Error β} (hx : NoKeyError x)
    (hf : ∀ a, NoKeyError (f a)) : NoKeyError (x >>= f) := hx.bind_of_ok fun a _ => hf a

theorem ok (a : α) : NoKeyError (.ok a) := fun _ => nofun

theorem of_isOk {x : Except Error α} (h : x.isOk) : NoKeyError x := by
  obtain ⟨a, rfl⟩ := isOk_iff.mp h
  exact ok a

theorem map {x : Except Error α} (hx : NoKeyError x) (f : α → β) : NoKeyError (x.map f) := by
  cases x with
  | ok a => exact ok _
  | error e => exact fun error h => hx error (congrArg Except.error (Except.error.inj h))

/-- Failures of another kind are not those of keys. -/
theorem mapError {ε : Type} {g : ε → Error} (hg : ∀ e error, g e ≠ .key error) (x : Except ε α) :
    NoKeyError (x.mapError g) := by
  cases x with
  | ok a => exact ok a
  | error e => exact fun error h => hg e error (Except.error.inj h)

theorem encodeItem (v : Value) : NoKeyError (KeySchedule.encodeItem v) := mapError (by nofun) _

theorem encodeItems (items : List Value) : NoKeyError (KeySchedule.encodeItems items) :=
  mapError (by nofun) _

variable {prk th cred external mac : Bytes} {signs : Bool} {suite : Suite} {idCred : Value}
  {ead : List Value} {label : Label} {credential : OwnCredential}

theorem kdf {number : Int} {context : Bytes} {length : Nat} :
    NoKeyError (KeySchedule.kdf prk number context length) := by
  unfold KeySchedule.kdf KeySchedule.expand
  split
  · exact ok _
  · exact fun _ => nofun

theorem proofInput : NoKeyError (Engine.proofInput prk label signs suite idCred th cred ead) := by
  have hcontext : NoKeyError (KeySchedule.macContext idCred th cred ead) :=
    (encodeItem idCred).bind fun _ => (encodeItems ead).bind fun _ => ok _
  have hexternal : NoKeyError (KeySchedule.externalData th cred ead) :=
    (encodeItems ead).bind fun _ => ok _
  exact (hcontext.bind fun _ => kdf).bind fun _ => hexternal.bind fun _ => ok _

/-- A key on the signature curve signs. -/
theorem signatureOrMac {key : KeyPair} (hcurve : signs → key.curve = suite.signatureCurve) :
    NoKeyError (KeySchedule.signatureOrMac signs suite mac idCred external key) := by
  cases signs with
  | false => exact ok mac
  | true =>
    have hcurve : key.curve = suite.signatureCurve := hcurve rfl
    unfold KeySchedule.signatureOrMac
    rw [if_neg (by decide), if_neg (not_not_intro hcurve)]
    refine (encodeItem idCred).bind fun i => of_isOk ?_
    obtain ⟨signature, hsign, -⟩ := KeyPair.sign_eq_ok (hcurve ▸ suite.signatureCurve_ne_x25519)
      (Cose.sigStructure i external mac)
    rw [Cose.sign, hsign]
    rfl

theorem prove (hcurve : signs → credential.key.curve = suite.signatureCurve) :
    NoKeyError (Engine.prove prk label signs suite credential th ead) :=
  proofInput.bind fun _ => signatureOrMac hcurve

theorem identityElement (field : Field) (credential : OwnCredential) :
    NoKeyError (Engine.identityElement field credential) := by
  unfold Engine.identityElement
  split
  · exact ok _
  · exact fun _ => nofun

theorem identifierValue {field : Field} {id : Bytes} :
    NoKeyError (Handshake.identifierValue field id) := by
  unfold Handshake.identifierValue
  split
  · exact ok _
  · exact fun _ => nofun

end NoKeyError

end Handshake

namespace Engine

variable {settings : Settings} {endpoint : Endpoint} {e : Engine}

theorem produceEad_noKeyError (slot : Ead.Slot) : NoKeyError (e.produceEad slot).result := by
  rw [produceEad_result]
  exact .mapError (by nofun) _

/-- With a key that signs for the suite the message fails for no key. -/
theorem finish2_noKeyError {d : Draft2} (hcurve : responderSigns e.current.material.method →
      d.credential.key.curve = e.current.material.suite.signatureCurve) (ead : List Value) :
    NoKeyError (e.finish2 d ead) := by
  unfold finish2
  refine (NoKeyError.prove hcurve).bind fun proof => ?_
  refine (NoKeyError.identityElement .idCredR d.credential).bind fun idCredR => ?_
  refine (NoKeyError.encodeItems _).bind fun plaintext2 => ?_
  refine (NoKeyError.of_isOk (KeySchedule.keystream2_isOk ..)).bind fun keystream => ?_
  exact (NoKeyError.encodeItems _).bind fun message => .ok _

theorem finish3_noKeyError {d : Draft3} (hcurve : initiatorSigns e.current.material.method →
      d.credential.key.curve = e.current.material.suite.signatureCurve) (ead : List Value) :
    NoKeyError (e.finish3 d ead) := by
  unfold finish3
  refine (NoKeyError.prove hcurve).bind fun proof => ?_
  refine (NoKeyError.identityElement .idCredI d.credential).bind fun idCredI => ?_
  refine (NoKeyError.encodeItems _).bind fun plaintext3 => ?_
  have hkeys : NoKeyError (KeySchedule.keyAndIv e.current.material.suite
      e.current.material.phase2.prk3e2m Label.k3.number Label.iv3.number d.th3) :=
    NoKeyError.kdf.bind fun _ => NoKeyError.kdf.bind fun _ => .ok _
  refine hkeys.bind fun keys => ?_
  refine NoKeyError.bind (.mapError (by nofun) _) fun ciphertext3 => ?_
  refine (NoKeyError.encodeItems _).bind fun message => ?_
  exact (NoKeyError.of_isOk (phase3_isOk ..)).bind fun phase3 => .ok _

section Keys

variable {m : Material} {peer : PublicKey}

/-- Keys on the curve of the suite agree on a secret. -/
theorem agree_noKeyError {own : KeyPair} (hown : own.curve = m.suite.dhCurve)
    (hpeer : peer.curve = m.suite.dhCurve) : NoKeyError (m.agree own peer) :=
  .of_isOk ((Material.agree_isOk hown).mpr hpeer)

theorem secrets2_noKeyError {version : Version} {gY : Bytes} {cR : Option Value}
    (hown : m.ephemeralKey.curve = m.suite.dhCurve) (hpeer : peer.curve = m.suite.dhCurve) :
    NoKeyError (m.secrets2 version gY cR peer) := by
  have hinput : NoKeyError (KeySchedule.th2Input gY cR m.hashMessage1) := by
    unfold KeySchedule.th2Input
    cases cR with
    | none => exact .ok _
    | some v => exact (NoKeyError.encodeItem v).bind fun _ => .ok _
  exact (hinput.map _).bind fun _ => (agree_noKeyError hown hpeer).bind fun _ => .ok _

theorem ownCredential_noKeyError : NoKeyError m.ownCredential := by
  unfold Material.ownCredential
  split
  · exact .ok _
  · exact fun _ => nofun

/-- The owner of a static key on the curve of the suite agrees with an ephemeral key on it. -/
theorem staticSecret_noKeyError {signs : Bool} {longTerm : PublicKey}
    (hown : ∀ credential, m.ownCredential = .ok credential → signs = false →
      credential.key.curve = m.suite.dhCurve)
    (hpeer : peer.curve = m.suite.dhCurve) :
    NoKeyError (m.staticSecret true signs longTerm peer) := by
  unfold Material.staticSecret
  cases signs with
  | true => exact .ok _
  | false =>
    cases hcredential : m.ownCredential with
    | error error =>
      intro failure h
      exact ownCredential_noKeyError failure
        (hcredential.trans (congrArg Except.error (Except.error.inj h)))
    | ok credential =>
      exact (agree_noKeyError (hown credential hcredential rfl) hpeer).bind fun _ => .ok _

end Keys

/-- The credential of the current session is on the curve that its part, method and suite ask for. -/
theorem credential_curve (hcoherent : e.Coherent) (hfiled : e.endpoint.Filed)
    {credential : OwnCredential} (h : e.current.material.ownCredential = .ok credential) :
    credential.key.curve = Endpoint.authCurve e.current.role e.current.material.method
      e.current.material.suite := by
  refine hfiled.authCredential_curve ?_
  rw [← hcoherent.current.keys.credential_eq]
  unfold Material.ownCredential at h
  split at h
  · rename_i heq
    rw [heq, Except.ok.inj h]
  · cases h

theorem prepended_noKeyError {field : Field} {id : Bytes} : NoKeyError (e.prepended field id) := by
  unfold prepended
  split
  · exact NoKeyError.identifierValue.map _
  · exact .ok _

section Sessions

variable (hcoherent : e.Coherent) (hfiled : e.endpoint.Filed)

include hcoherent hfiled

/-- A credential that does not sign is on the curve for the shared secrets. -/
theorem static_curve (hsigns : Endpoint.signs e.current.role e.current.material.method = false)
    {credential : OwnCredential} (h : e.current.material.ownCredential = .ok credential) :
    credential.key.curve = e.current.material.suite.dhCurve := by
  rw [credential_curve hcoherent hfiled h, Endpoint.authCurve, hsigns]
  rfl

/-- The current session has a key for the secrets of its part, unless it signs instead. -/
theorem ownSecret_noKeyError {signs : Bool} {longTerm : PublicKey}
    (hsigns : Endpoint.signs e.current.role e.current.material.method = signs)
    (hpeer : e.current.material.peerEphemeralKey.curve = e.current.material.suite.dhCurve) :
    NoKeyError (e.current.material.staticSecret true signs longTerm
      e.current.material.peerEphemeralKey) := by
  refine staticSecret_noKeyError (fun credential hcredential hstatic => ?_) hpeer
  exact static_curve hcoherent hfiled (hsigns.trans hstatic) hcredential

/-- A credential that signs is on the signature curve. -/
theorem signature_curve (hsigns : Endpoint.signs e.current.role e.current.material.method)
    {credential : OwnCredential} (h : e.current.material.ownCredential = .ok credential) :
    credential.key.curve = e.current.material.suite.signatureCurve := by
  rw [credential_curve hcoherent hfiled h, Endpoint.authCurve, if_pos hsigns]

/-- A Responder whose peer has a key on the curve of the suite drafts the message with its keys. -/
theorem draft2_noKeyError (hrole : e.current.role = .responder)
    (hpeer : e.current.material.peerEphemeralKey.curve = e.current.material.suite.dhCurve) :
    NoKeyError e.draft2 := by
  unfold draft2
  refine prepended_noKeyError.bind fun prepended => ?_
  refine NoKeyError.identifierValue.bind fun cR => ?_
  refine (secrets2_noKeyError hcoherent.current.keys.ephemeral_curve hpeer).bind fun secrets => ?_
  rw [beq_iff_eq.mpr hrole]
  refine (ownSecret_noKeyError hcoherent hfiled (by rw [hrole]; rfl) hpeer).bind fun gRX => ?_
  refine (NoKeyError.of_isOk (KeySchedule.mix_isOk ..)).bind fun prk3e2m => ?_
  exact ownCredential_noKeyError.bind fun credential => .ok _

theorem draft3_noKeyError (hrole : e.current.role = .initiator)
    (hpeer : e.current.material.peerEphemeralKey.curve = e.current.material.suite.dhCurve) :
    NoKeyError e.draft3 := by
  unfold draft3
  refine prepended_noKeyError.bind fun prepended => ?_
  rw [beq_iff_eq.mpr hrole]
  refine (ownSecret_noKeyError hcoherent hfiled (by rw [hrole]; rfl) hpeer).bind fun gIY => ?_
  refine (NoKeyError.of_isOk (KeySchedule.mix_isOk ..)).bind fun prk4e3m => ?_
  exact ownCredential_noKeyError.bind fun credential => .ok _

/-- Once drafted, the message fails for no key. -/
theorem finish2_of_draft2 (hrole : e.current.role = .responder) {d : Draft2} (hd : e.draft2 = .ok d)
    (ead : List Value) : NoKeyError (e.finish2 d ead) := by
  obtain ⟨-, -, -, -, -, hcredential⟩ := draft2_eq_ok.mp hd
  refine finish2_noKeyError (fun hsigns => ?_) ead
  refine signature_curve hcoherent hfiled ?_ hcredential
  rw [hrole]
  exact hsigns

theorem finish3_of_draft3 (hrole : e.current.role = .initiator) {d : Draft3} (hd : e.draft3 = .ok d)
    (ead : List Value) : NoKeyError (e.finish3 d ead) := by
  obtain ⟨-, -, -, hcredential⟩ := draft3_eq_ok.mp hd
  refine finish3_noKeyError (fun hsigns => ?_) ead
  refine signature_curve hcoherent hfiled ?_ hcredential
  rw [hrole]
  exact hsigns

/-- A Responder whose peer has a key on the curve of the suite builds the message with its keys. -/
theorem build2_noKeyError (hrole : e.current.role = .responder)
    (hpeer : e.current.material.peerEphemeralKey.curve = e.current.material.suite.dhCurve) :
    NoKeyError e.build2.result := by
  rw [build2, Check.result_bind]
  refine (draft2_noKeyError hcoherent hfiled hrole hpeer).bind_of_ok fun d hd => ?_
  rw [Check.result_bind]
  exact (e.produceEad_noKeyError .message2).bind fun ead =>
    finish2_of_draft2 hcoherent hfiled hrole hd ead

theorem build3_noKeyError (hrole : e.current.role = .initiator)
    (hpeer : e.current.material.peerEphemeralKey.curve = e.current.material.suite.dhCurve) :
    NoKeyError e.build3.result := by
  rw [build3, Check.result_bind]
  refine (draft3_noKeyError hcoherent hfiled hrole hpeer).bind_of_ok fun d hd => ?_
  rw [Check.result_bind]
  exact (e.produceEad_noKeyError .message3).bind fun ead =>
    finish3_of_draft3 hcoherent hfiled hrole hd ead

end Sessions

/-- The own keys of every session fit its suite, which is one of the endpoint's.  So neither part is
ever refused the key of its proof, and neither message fails for a key unless the one of the peer is
on another curve than the suite. -/
theorem own_keys_fit (h : InService settings endpoint e) (hassembled : endpoint.Assembled) :
    (∀ s ∈ e.sessions.sessions, s.material.suite ∈ endpoint.suites ∧
      s.material.ephemeralKey.curve = s.material.suite.dhCurve ∧
      s.material.credential =
        endpoint.authCredential s.role s.material.method s.material.suite) ∧
    (e.current.role = .responder →
      (∀ d ead, e.draft2 = .ok d → e.finish2 d ead ≠ .error (.key .mismatch)) ∧
      (e.build2.result = .error (.key .mismatch) →
        e.current.material.peerEphemeralKey.curve ≠ e.current.material.suite.dhCurve)) ∧
    (e.current.role = .initiator →
      (∀ d ead, e.draft3 = .ok d → e.finish3 d ead ≠ .error (.key .mismatch)) ∧
      (e.build3.result = .error (.key .mismatch) →
        e.current.material.peerEphemeralKey.curve ≠ e.current.material.suite.dhCurve)) := by
  obtain ⟨rfl, rfl, hcoherent⟩ := h.coherent
  have hfiled := hassembled.filed
  refine ⟨fun s hs => ?_, fun hrole => ⟨fun d ead hd => ?_, fun herror hpeer => ?_⟩,
    fun hrole => ⟨fun d ead hd => ?_, fun herror hpeer => ?_⟩⟩
  · have hkeys := (hcoherent s hs).keys
    exact ⟨hkeys.suite_mem, hkeys.ephemeral_curve, hkeys.credential_eq⟩
  · exact finish2_of_draft2 hcoherent hfiled hrole hd ead .mismatch
  · exact build2_noKeyError hcoherent hfiled hrole hpeer .mismatch herror
  · exact finish3_of_draft3 hcoherent hfiled hrole hd ead .mismatch
  · exact build3_noKeyError hcoherent hfiled hrole hpeer .mismatch herror

theorem acquainted_assembled (kid peerKid : Bytes) : (acquainted kid peerKid).Assembled := by
  have hcreated : Endpoint.Assembled { acquainted kid peerKid with
      own := [], peers := [], profiles := [] } := .created (show Endpoint.create [.suite0] "" = _ from rfl)
  have hown := (hcreated.own .ecdh (.ofKid (KeyPair.last .x25519) kid)).own .signature
    (.ofKid (KeyPair.last .ed25519) kid)
  exact (hown.peer (OwnCredential.ofKid (KeyPair.last .ed25519) peerKid).toPeer).profile
    "coap://localhost:5683/.well-known/edhoc" {}

/-- A Responder that has heard of its peer drafts the second message, and signs it. -/
theorem callee_own_keys_fit : ∃ e d,
    InService { isInitiator := false, isCoapClient := false } (acquainted [2] [1]) e ∧
    (acquainted [2] [1]).Assembled ∧ e.current.role = .responder ∧ e.draft2 = .ok d ∧
    (∀ s ∈ e.sessions.sessions, s.material.suite ∈ (acquainted [2] [1]).suites ∧
      s.material.ephemeralKey.curve = s.material.suite.dhCurve ∧
      s.material.credential =
        (acquainted [2] [1]).authCredential s.role s.material.method s.material.suite) ∧
    (∀ ead, e.finish2 d ead ≠ .error (.key .mismatch)) ∧
    e.build2.result ≠ .error (.key .mismatch) := by
  obtain ⟨m₁, m₂, i₁, i₂, r₁, r₂, h⟩ := exists_exchanged
  have hr₁ := h.answering
  obtain ⟨phase2, hbuilt, -⟩ := writeMessage2_eq_some h.write2 hr₁.role
  obtain ⟨d, _, hd, -⟩ := build2_eq_ok hbuilt
  have hassembled := acquainted_assembled [2] [1]
  obtain ⟨hkeys, hresponder, -⟩ := own_keys_fit hr₁.inService hassembled
  refine ⟨r₁, d, hr₁.inService, hassembled, hr₁.role, hd, hkeys, fun ead => ?_, ?_⟩
  · exact (hresponder hr₁.role).1 d ead hd
  · rw [hbuilt]
    exact nofun

end Engine

end EdhocLab
