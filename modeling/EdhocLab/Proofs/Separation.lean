import EdhocLab.Handshake.KeySchedule
import EdhocLab.Oscore.Derivation
import EdhocLab.Proofs.Cbor.Distinction

/-! # Inputs of derivations and signatures are kept apart

What a key is derived for, what a message is authenticated with and what is signed is written as data
items, one inside the other for some of them.  Each of these inputs tells all of its parts, so that no
key serves two purposes and no signature two messages.
-/
namespace EdhocLab

open Cbor (Value encode_eq_iff encodeItems_eq_iff)

section Parts

variable {label label' algorithm algorithm' : Int} {context context' : Bytes} {length length' : Nat}

theorem Handshake.KeySchedule.info_eq_iff :
    info label context length = info label' context' length' ↔
      label = label' ∧ context = context' ∧ length = length' := by
  refine (encodeItems_eq_iff (by rfl) (by rfl) (by rfl)).trans ?_
  simp only [List.cons.injEq, Value.integer.injEq, Value.bytes.injEq, Int.natCast_inj, and_true]

theorem Oscore.info_eq_iff {id id' : Bytes} {type type' : String} :
    info id algorithm type length = info id' algorithm' type' length' ↔
      id = id' ∧ algorithm = algorithm' ∧ type = type' ∧ length = length' := by
  rw [info, info, encode_eq_iff rfl rfl]
  simp only [Value.array.injEq, List.cons.injEq, Value.bytes.injEq, Value.integer.injEq,
    Value.text.injEq, Int.natCast_inj, true_and, and_true]

section Aad

variable {kid kid' piv piv' : Bytes}

theorem Oscore.aadArray_eq_iff : aadArray algorithm kid piv = aadArray algorithm' kid' piv' ↔
    algorithm = algorithm' ∧ kid = kid' ∧ piv = piv' := by
  rw [aadArray, aadArray, encode_eq_iff rfl rfl]
  simp

theorem Oscore.aad_eq_iff : aad algorithm kid piv = aad algorithm' kid' piv' ↔
    algorithm = algorithm' ∧ kid = kid' ∧ piv = piv' := by
  rw [aad, aad, encode_eq_iff rfl rfl, ← aadArray_eq_iff]
  simp

end Aad

theorem Cose.sigStructure_eq_iff {idCred idCred' external external' payload payload' : Bytes} :
    sigStructure idCred external payload = sigStructure idCred' external' payload' ↔
      idCred = idCred' ∧ external = external' ∧ payload = payload' := by
  rw [sigStructure, sigStructure, encode_eq_iff rfl rfl]
  simp

end Parts

/-- Each input tells its parts: that of a key derivation its label, context and length; that of a
context's key its owner, algorithm, type and length; the associated data of a message its algorithm,
key identifier and partial IV; and what is signed its header map, external data and payload.  Neither
numbers nor strings are limited. -/
theorem inputs_separated :
    (∀ label context length label' context' length',
      Handshake.KeySchedule.info label context length =
        Handshake.KeySchedule.info label' context' length' ↔
      label = label' ∧ context = context' ∧ length = length') ∧
    (∀ id algorithm type length id' algorithm' type' length',
      Oscore.info id algorithm type length = Oscore.info id' algorithm' type' length' ↔
      id = id' ∧ algorithm = algorithm' ∧ type = type' ∧ length = length') ∧
    (∀ algorithm kid piv algorithm' kid' piv',
      Oscore.aad algorithm kid piv = Oscore.aad algorithm' kid' piv' ↔
      algorithm = algorithm' ∧ kid = kid' ∧ piv = piv') ∧
    ∀ idCred external payload idCred' external' payload',
      Cose.sigStructure idCred external payload = Cose.sigStructure idCred' external' payload' ↔
      idCred = idCred' ∧ external = external' ∧ payload = payload' := by
  refine ⟨?_, ?_, ?_, ?_⟩
  · intro label context length label' context' length'
    exact Handshake.KeySchedule.info_eq_iff
  · intro id algorithm type length id' algorithm' type' length'
    exact Oscore.info_eq_iff
  · intro algorithm kid piv algorithm' kid' piv'
    exact Oscore.aad_eq_iff
  · intro idCred external payload idCred' external' payload'
    exact Cose.sigStructure_eq_iff

end EdhocLab
