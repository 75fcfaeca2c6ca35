import EdhocLab.Proofs.Engine.HookCalls
import EdhocLab.Proofs.Engine.Mirror

/-! # What a proof covers

A party makes its proof over the authorization data that it sends, and its reader checks the proof over
the data that it keeps.
-/
namespace EdhocLab

open Cbor (Value)
open Handshake

/-- What the sender of a message authenticates itself with. -/
structure Authentication where
  prk : Bytes
  label : Label
  signs : Bool
  suite : Suite
  credential : OwnCredential
  th : Bytes

namespace Authentication

variable (a : Authentication) (ead : List Value)

def prove : Except Error Bytes :=
  Engine.prove a.prk a.label a.signs a.suite a.credential a.th ead

/-- The check of those who know the credential. -/
def check (proof : Bytes) : Except Error Unit :=
  Engine.checkProof a.prk a.label a.signs a.suite a.credential.toPeer a.th ead proof

def mac : Except Error Bytes :=
  KeySchedule.mac a.prk a.label.number a.credential.idCred a.th a.credential.cred ead
    (KeySchedule.macLength a.signs a.suite)

/-- The proof over what is sent holds over what is kept. -/
def Covers (sent kept : List Value) : Prop :=
  ∃ proof, a.prove sent = .ok proof ∧ a.check kept proof = .ok ()

variable {a ead}

theorem covers_iff {sent kept : List Value} {proof : Bytes} (h : a.prove sent = .ok proof) :
    a.Covers sent kept ↔ a.check kept proof = .ok () := by
  constructor
  · rintro ⟨proof', hproof, hcheck⟩
    rw [h, Except.ok.injEq] at hproof
    rwa [hproof]
  · exact fun hcheck => ⟨proof, h, hcheck⟩

/-- A proof covers what it is made over. -/
theorem covers_self {proof : Bytes} (h : a.prove ead = .ok proof) : a.Covers ead ead :=
  ⟨proof, h, Engine.checkProof_of_prove h⟩

/-- Without a signature the proof is the MAC itself, which has to be the same for both. -/
theorem Covers.mac_eq {sent kept : List Value} (h : a.Covers sent kept) (hsigns : a.signs = false) :
    a.mac sent = a.mac kept := by
  obtain ⟨proof, hproof, hcheck⟩ := h
  obtain ⟨⟨sentMac, sentData⟩, hsent, hproof⟩ := bind_eq_ok.mp hproof
  obtain ⟨⟨keptMac, keptData⟩, hkept, hcheck⟩ := bind_eq_ok.mp hcheck
  obtain ⟨_, hsentMac, hsent⟩ := bind_eq_ok.mp hsent
  obtain ⟨_, -, hsent⟩ := bind_eq_ok.mp hsent
  obtain ⟨_, hkeptMac, hkept⟩ := bind_eq_ok.mp hkept
  obtain ⟨_, -, hkept⟩ := bind_eq_ok.mp hkept
  cases hsent
  cases hkept
  obtain rfl : sentMac = proof := by simpa [KeySchedule.signatureOrMac, hsigns] using hproof
  have hequal : sentMac = keptMac := by
    simpa [KeySchedule.verifySignatureOrMac, hsigns] using hcheck
  rw [mac, mac, hsentMac, hequal]
  exact hkeptMac.symm

end Authentication

namespace Engine

/-- The outcome of reading a message whose sender authenticates itself.  The hooks get the kept items,
and get them again for the identity once the proof is checked. -/
structure Receives (slot : Ead.Slot) (idCred : Value) (kept : List Value) (covered : Prop)
    (read : Traced (Bool × Engine)) : Prop where
  accepted_iff : read.value.1 = true ↔ covered
  calls_eq : read.calls = if kept.isEmpty then []
    else .preVerify slot kept :: if read.value.1 then [.postVerify slot idCred kept] else []

/-- A message is received from the verdict on its proof. -/
theorem Receives.of_check (e : Engine) {slot : Ead.Slot} {a : Authentication} {sent kept : List Value}
    {proof : Bytes} {read : Traced (Bool × Engine)} (hproof : a.prove sent = .ok proof)
    (hvalue : read.value.1 = (a.check kept proof).isOk)
    (hcalls : read.calls = (e.preVerify slot kept).calls ++
      if (a.check kept proof).isOk then
        (e.postVerify slot a.credential.idCred.received kept).calls
      else []) :
    Receives slot a.credential.idCred.received kept (a.Covers sent kept) read where
  accepted_iff := by
    rw [Authentication.covers_iff hproof, hvalue, isOk_iff]
    exact ⟨fun ⟨_, h⟩ => h, fun h => ⟨(), h⟩⟩
  calls_eq := by
    rw [hcalls, hvalue, preVerify_calls, postVerify_calls]
    cases kept with
    | nil => simp
    | cons _ _ => rfl

end Engine

end EdhocLab
