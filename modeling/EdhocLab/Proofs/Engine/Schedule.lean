import EdhocLab.Proofs.Engine.Completion
import EdhocLab.Proofs.Engine.Edit

/-! # Key schedules of sessions

The keys of a message enter a session together, so that those of a session derive from one another
whatever messages were written and read on the way, or are all unknown.
-/
namespace EdhocLab

open Handshake

/-- The last key of the second message derives from the one before it, and from a shared secret if
the Responder does not sign. -/
def Phase2.Consistent (method : UInt8) (p : Phase2) : Prop :=
  if responderSigns method then p.prk3e2m = p.prk2e
  else ∃ (own : KeyPair) (peer : PublicKey) (secret salt : Bytes),
    own.exchange peer = .ok secret ∧ KeySchedule.kdf p.prk2e 1 p.th2 32 = .ok salt ∧
      p.prk3e2m = Digest.Hkdf.extract salt secret

/-- The last keys of the handshake derive from those before them. -/
structure Phase3.Consistent (p : Phase3) : Prop where
  prkOut_eq : KeySchedule.kdf p.prk4e3m 7 p.th4 32 = .ok p.prkOut
  prkExporter_eq : KeySchedule.kdf p.prkOut 10 [] 32 = .ok p.prkExporter

namespace Material

/-- Keys that derive from one another or are all unknown, those of an Initiator together with the
message that they were written for. -/
structure Scheduled (role : Role) (m : Material) : Prop where
  phase2 : m.phase2 = .placeholder ∨ m.phase2.Consistent m.method
  phase3 : m.phase3 = .placeholder ∨ m.phase3.Consistent
  message3_iff : role = .initiator → (m.message3 = placeholder ↔ m.phase3 = .placeholder)

theorem fresh_scheduled (endpoint : Endpoint) (role : Role) (method : UInt8) (connectionId : Bytes)
    (peerSuites : List Int) (entropy : Entropy) :
    (fresh endpoint role method connectionId peerSuites entropy).1.Scheduled role where
  phase2 := .inl rfl
  phase3 := .inl rfl
  message3_iff _ := ⟨fun _ => rfl, fun _ => rfl⟩

/-- Only the method, the keys and the message matter. -/
theorem Scheduled.of_eq {role : Role} {m m' : Material} (h : m.Scheduled role)
    (hmethod : m'.method = m.method) (hphase2 : m'.phase2 = m.phase2)
    (hphase3 : m'.phase3 = m.phase3) (hmessage3 : m'.message3 = m.message3) :
    m'.Scheduled role where
  phase2 := by
    rw [hphase2, hmethod]
    exact h.phase2
  phase3 := by
    rw [hphase3]
    exact h.phase3
  message3_iff := by
    rw [hphase3, hmessage3]
    exact h.message3_iff

theorem Scheduled.selectSuite {role : Role} {m : Material} (h : m.Scheduled role)
    (endpoint : Endpoint) (role' : Role) (suite : Suite) (entropy : Entropy) :
    (m.selectSuite endpoint role' suite entropy).1.Scheduled role := by
  rw [selectSuite_fst]
  exact h.of_eq rfl rfl rfl rfl

variable {m : Material}

theorem agree_eq_ok {own : KeyPair} {peer : PublicKey} {secret : Bytes}
    (h : m.agree own peer = .ok secret) : own.exchange peer = .ok secret := by
  unfold agree at h
  split at h
  · exact mapError_eq_ok.mp h
  · cases h

/-- There is a static secret where the owner does not sign, and it is shared by two keys. -/
theorem staticSecret_eq_ok {isOwner signs : Bool} {longTerm ephemeral : PublicKey}
    {secret : Option Bytes} (h : m.staticSecret isOwner signs longTerm ephemeral = .ok secret) :
    if signs then secret = none
    else ∃ (own : KeyPair) (peer : PublicKey) (shared : Bytes),
      secret = some shared ∧ own.exchange peer = .ok shared := by
  cases signs with
  | true =>
    cases h
    rfl
  | false =>
    cases isOwner with
    | true =>
      obtain ⟨credential, -, h⟩ := bind_eq_ok.mp h
      obtain ⟨shared, hshared, h⟩ := bind_eq_ok.mp h
      cases h
      exact ⟨_, _, shared, rfl, agree_eq_ok hshared⟩
    | false =>
      obtain ⟨shared, hshared, h⟩ := bind_eq_ok.mp h
      cases h
      exact ⟨_, _, shared, rfl, agree_eq_ok hshared⟩

/-- Both parties mix the static secret of the Responder in. -/
theorem phase2_consistent {isOwner : Bool} {method : UInt8} {longTerm ephemeral : PublicKey}
    {gRX : Option Bytes} {th2 prk2e prk3e2m : Bytes}
    (hsecret : m.staticSecret isOwner (responderSigns method) longTerm ephemeral = .ok gRX)
    (hprk : KeySchedule.prk3e2m prk2e th2 gRX = .ok prk3e2m) (plaintext2 : Bytes) :
    Phase2.Consistent method { th2, plaintext2, prk2e, prk3e2m } := by
  have hsecret := staticSecret_eq_ok hsecret
  unfold Phase2.Consistent
  split
  · rename_i hsigns
    rw [hsigns, if_pos rfl] at hsecret
    cases hsecret
    exact (Except.ok.inj hprk).symm
  · rename_i hsigns
    rw [if_neg hsigns] at hsecret
    obtain ⟨own, peer, shared, rfl, hexchange⟩ := hsecret
    obtain ⟨salt, hsalt, hprk⟩ := bind_eq_ok.mp hprk
    exact ⟨own, peer, shared, salt, hexchange, hsalt, (Except.ok.inj hprk).symm⟩

end Material

namespace Engine

variable {settings : Settings} {endpoint : Endpoint} {e : Engine} {s : Session}

theorem phase3_eq_ok {th3 prk4e3m plaintext3 credI : Bytes} {p : Phase3}
    (h : e.phase3 th3 prk4e3m plaintext3 credI = .ok p) : p.th3 = th3 ∧ p.Consistent := by
  obtain ⟨prkOut, hout, h⟩ := bind_eq_ok.mp h
  obtain ⟨prkExporter, hexporter, h⟩ := bind_eq_ok.mp h
  cases h
  exact ⟨rfl, hout, hexporter⟩

theorem build2_consistent {message : Bytes} {phase2 : Phase2}
    (h : e.build2.result = .ok (message, phase2)) :
    phase2.Consistent e.current.material.method := by
  obtain ⟨d, ead, hd, -, hfinish⟩ := build2_eq_ok h
  obtain ⟨-, -, -, -, ⟨gRX, hsecret, hprk⟩, -⟩ := draft2_eq_ok.mp hd
  obtain ⟨-, -, -, -, -, -, -, -, hth2, hprk2e, hprk3e2m⟩ := finish2_eq_ok hfinish
  rw [← hth2, ← hprk2e, ← hprk3e2m] at hprk
  exact Material.phase2_consistent hsecret hprk phase2.plaintext2

theorem verify2_consistent {o : Opened2} {prk3e2m : Bytes} (h : verify2 s o = .ok prk3e2m) :
    (learn2 s.material o prk3e2m).phase2.Consistent s.material.method := by
  obtain ⟨gRX, hsecret, h⟩ := bind_eq_ok.mp h
  obtain ⟨prk, hprk, h⟩ := bind_eq_ok.mp h
  obtain ⟨⟨⟩, -, h⟩ := bind_eq_ok.mp h
  cases h
  exact Material.phase2_consistent hsecret hprk o.plaintext2

/-- A third message has a tag, which no placeholder has room for. -/
theorem build3_ne_placeholder {message : Bytes} {phase3 : Phase3}
    (h : e.build3.result = .ok (message, phase3)) :
    message ≠ placeholder ∧ phase3 ≠ .placeholder ∧ phase3.Consistent := by
  obtain ⟨d, ead, hd, -, hfinish⟩ := build3_eq_ok h
  obtain ⟨-, hth3, -⟩ := draft3_eq_ok.mp hd
  obtain ⟨-, -, plaintext3, key, iv, ciphertext3, -, -, -, -, hciphertext, hmessage, hphase3⟩ :=
    finish3_eq_ok hfinish
  obtain ⟨hphase3_th3, hconsistent⟩ := phase3_eq_ok hphase3
  refine ⟨?_, ?_, hconsistent⟩
  · intro hplaceholder
    have htag := Aead.Algorithm.tagLength_pos e.current.material.suite.aead
    have hlength := KeySchedule.length_of_encrypt hciphertext
    obtain ⟨-, hencoded⟩ := KeySchedule.encodeItems_eq_ok.mp hmessage
    have hhead := Cbor.length_head_pos 2 ciphertext3.length
    have hsum := congrArg List.length (hencoded.trans hplaceholder)
    rw [Cbor.Value.encodeItems_append] at hsum
    simp only [Cbor.Value.encodeItems, Cbor.Value.encode, List.length_append, List.length_nil,
      placeholder, List.length_singleton] at hsum
    omega
  · intro hplaceholder
    have hlength : phase3.th3.length = 32 := by
      rw [hphase3_th3, hth3]
      exact Digest.Sha256.length_digest _
    rw [hplaceholder] at hlength
    cases hlength

/-- Every edit keeps the keys of a session scheduled. -/
theorem Edit.scheduled {m : Material} (h : s.material.Scheduled s.role) (hedit : e.Edit s m) :
    m.Scheduled s.role := by
  cases hedit with
  | kept => exact h
  | offered => exact h.selectSuite ..
  | written1 => exact (h.selectSuite ..).of_eq rfl rfl rfl rfl
  | written2 hcurrent hbuild =>
    subst hcurrent
    exact { h with phase2 := .inr (build2_consistent hbuild) }
  | written3 hcurrent hbuild =>
    obtain ⟨hmessage, hphase3, hconsistent⟩ := build3_ne_placeholder hbuild
    exact { h with
      phase3 := .inr hconsistent
      message3_iff := fun _ => iff_of_false hmessage hphase3 }
  | accepted2 _ hverify => exact { h with phase2 := .inr (verify2_consistent hverify) }
  | accepted3 _ _ hphase3 hrole =>
    exact { h with
      phase3 := .inr (phase3_eq_ok hphase3).2
      message3_iff := fun hinitiator => absurd (hrole.symm.trans hinitiator) nofun }
  | acceptedError => exact h.of_eq rfl rfl rfl rfl

theorem acceptedMaterial_scheduled (e : Engine) (a : Accepted1) :
    (e.acceptedMaterial a).Scheduled .responder :=
  ((Material.fresh_scheduled ..).selectSuite ..).of_eq rfl rfl rfl rfl

/-- Whatever an engine has been through, the keys of each of its sessions derive from one another. -/
theorem Reachable.sessions_scheduled (h : Reachable settings endpoint e) (hs : s ∈ e.sessions.sessions) :
    s.material.Scheduled s.role := by
  refine h.induction_on_sessions ?_ ?_ ?_ hs
  · intro role method connectionId peerSuites entropy suitesInError
    exact (Material.fresh_scheduled endpoint role method connectionId peerSuites entropy).of_eq
      rfl rfl rfl rfl
  · intro e sequence a _ _ _
    exact e.acceptedMaterial_scheduled a
  · intro e s m _ _ hscheduled hedit
    exact hedit.scheduled hscheduled

/-- A fresh Initiator that writes its third message right away has the keys of that message and still
none of the second. -/
theorem caller_scheduled : ∃ s, s ∈ (caller.act (.call .writeMessage3)).sessions.sessions ∧
    s.material.Scheduled s.role ∧ s.material.phase2 = .placeholder ∧
    s.material.phase3.Consistent ∧ s.material.message3 ≠ placeholder := by
  obtain ⟨hrole, hmaterial⟩ := caller_current
  cases caller_completes with
  | @written message _ hsome =>
    have hwrite : caller.writeMessage3.value = (some message, caller.act (.call .writeMessage3)) :=
      Prod.ext hsome rfl
    obtain ⟨phase3, hbuild, hwritten⟩ := writeMessage3_eq_some hwrite hrole
    obtain ⟨hmessage, -, hconsistent⟩ := build3_ne_placeholder hbuild
    have hmem : (caller.act (.call .writeMessage3)).current ∈
        (caller.act (.call .writeMessage3)).sessions.sessions := SessionTable.currentSession_mem _
    refine ⟨_, hmem, (caller_reachable.acted _).sessions_scheduled hmem, ?_⟩
    rw [hwritten, hmaterial]
    exact ⟨rfl, hconsistent, hmessage⟩

end Engine

end EdhocLab
