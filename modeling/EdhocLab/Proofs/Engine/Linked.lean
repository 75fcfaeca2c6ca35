import EdhocLab.Proofs.Cose.Element
import EdhocLab.Proofs.Ead.Accept
import EdhocLab.Proofs.Engine.Mirror
import EdhocLab.Proofs.Engine.Registry

/-! # Linked engines

Two engines that can run a handshake with each other, and what the material of their sessions has in
common after each message.  The relation after a message is what the next message relies on.
-/
namespace EdhocLab

open Cbor (Value)
open Handshake

namespace Endpoint

/-- The endpoint knows the peer with the credential, and does not take it for one of its own. -/
structure Knows (endpoint : Endpoint) (credential : OwnCredential) : Prop where
  peer_eq : endpoint.peer? credential.idCred = some credential.toPeer
  not_own : endpoint.isOwnIdCred credential.idCred = false
  /-- The header map can be read at all. -/
  depth_le : credential.idCred.depth ≤ Cbor.maxDepth
  /-- What can be read of the header map, which then has no tags, is the same map. -/
  received_same : credential.idCred.isProper → credential.idCred.received.isSame credential.idCred

variable {endpoint : Endpoint} {idCred idCred' : Value}

theorem isOwnIdCred_congr (h : idCred'.isSame idCred) :
    endpoint.isOwnIdCred idCred' = endpoint.isOwnIdCred idCred := by
  simp only [isOwnIdCred, Value.isSame_congr h]

/-- A peer is found from each form of its identity, with that form. -/
theorem peer?_congr (h : idCred'.isSame idCred) :
    endpoint.peer? idCred' = (endpoint.peer? idCred).map ({ · with idCred := idCred' }) := by
  simp only [peer?, Value.isSame_congr h, Option.map_map]
  rfl

/-- Nothing but the identity has to be found where that is a key identifier. -/
theorem knows_ofKid {key : KeyPair} {kid : Bytes}
    (hpeer : endpoint.peer? (Cose.kidMap kid) = some (OwnCredential.ofKid key kid).toPeer)
    (hown : endpoint.isOwnIdCred (Cose.kidMap kid) = false) :
    endpoint.Knows (.ofKid key kid) where
  peer_eq := hpeer
  not_own := hown
  depth_le := Nat.le_trans (Nat.le_of_eq (Cose.depth_kidMap kid)) (by decide)
  received_same _ := Value.isSame_self (Cose.kidMap kid)

end Endpoint

/-- Hooks that let everything pass. -/
structure Ead.Hooks.Lenient (hooks : Ead.Hooks) : Prop where
  pre : ∀ slot ead, hooks.preVerify slot ead = .ok ()
  post : ∀ slot idCred ead, hooks.postVerify slot idCred ead = .ok ()

namespace Engine

/-- The reader can take apart what the writer sends: one revision, and opposite sides of the
transport. -/
structure Attuned (reader writer : Engine) : Prop where
  version_eq : reader.settings.version = writer.settings.version
  prepends_eq : reader.settings.prependsOnReceive = writer.settings.prependsOnSend
  lenient : reader.endpoint.hooks.Lenient

/-- The reader supports all the authorization data that the writer sends. -/
structure Hears (reader writer : Engine) : Prop extends Attuned reader writer where
  kept : ∀ slot values, writer.endpoint.hooks.produce slot = .ok values →
    Ead.Kept reader.eadConvention reader.endpoint.eadLabels values

/-- The writer sends items that the reader supports or may skip. -/
structure Sends (writer reader : Engine) (slot : Ead.Slot) (items : List Ead.Item) : Prop where
  produce_eq : writer.endpoint.hooks.produce slot = .ok (items.flatMap Ead.Item.toValues)
  tolerated : ∀ item ∈ items, item.Tolerated reader.eadConvention reader.endpoint.eadLabels

section Address

variable {reader writer : Engine}

/-- A message for the current session of the reader is found to be for it. -/
theorem addressed_current (hindexed : reader.Indexed)
    (hprepends : reader.settings.prependsOnReceive = writer.settings.prependsOnSend)
    {sent field : Field} {front items : List Value}
    (hfront : writer.prepended sent reader.current.material.connectionId = .ok front) :
    reader.addressed field (front ++ items) = .ok (reader.sessions.currentHandle, items) := by
  have hfind := hindexed.find?_current
  unfold addressed
  rw [hprepends]
  obtain ⟨hsends, v, hv, rfl⟩ | ⟨hsends, rfl⟩ := prepended_eq_ok hfront
  · have hid : identifierOf field v = .ok reader.current.material.connectionId :=
      identifierOf_eq_ok.mpr (Cbor.Identifier.ofValue?_toValue? hv)
    simp [hsends, hid, hfind]
  · simp [hsends, hfind]

theorem depth_front {sent : Field} {id : Bytes} {front : List Value}
    (h : writer.prepended sent id = .ok front) : Value.depthOfItems front = 0 := by
  obtain ⟨-, v, hv, rfl⟩ | ⟨-, rfl⟩ := prepended_eq_ok h
  · simp [Value.depthOfItems, Cbor.Identifier.depth_toValue? hv]
  · rfl

theorem map_received_front {sent : Field} {id : Bytes} {front : List Value}
    (h : writer.prepended sent id = .ok front) : front.map Value.received = front := by
  obtain ⟨-, v, hv, rfl⟩ | ⟨-, rfl⟩ := prepended_eq_ok h
  · simp [Cbor.Identifier.received_toValue? hv]
  · rfl

/-- A ciphertext is decoded behind what stands in front of it. -/
theorem decodeItems_ciphertext {sent : Field} {id ciphertext message : Bytes} {front : List Value}
    (hfront : writer.prepended sent id = .ok front)
    (hmessage : KeySchedule.encodeItems (front ++ [.bytes ciphertext]) = .ok message) :
    decodeItems message = .ok (front ++ [.bytes ciphertext]) := by
  have hitems := decodeItems_of_encodeItems hmessage (by
    simp [Value.depthOfItems_append, Value.depthOfItems, Value.depth, depth_front hfront])
  rwa [List.map_append, map_received_front hfront] at hitems

theorem length_front {sent : Field} {id : Bytes} {front : List Value}
    (h : writer.prepended sent id = .ok front) : front.length ≤ 1 := by
  obtain ⟨-, v, -, rfl⟩ | ⟨-, rfl⟩ := prepended_eq_ok h
  · exact Nat.le_refl 1
  · exact Nat.zero_le 1

end Address

section Exchange

variable {reader writer reader' writer' : Engine} {slot : Ead.Slot} {items : List Ead.Item}

theorem Attuned.of_eq (h : Attuned reader writer) (hrs : reader'.settings = reader.settings)
    (hre : reader'.endpoint = reader.endpoint) (hws : writer'.settings = writer.settings) :
    Attuned reader' writer' where
  version_eq := by rw [hrs, hws, h.version_eq]
  prepends_eq := by rw [hrs, hws, h.prepends_eq]
  lenient := hre ▸ h.lenient

theorem Attuned.preVerify_ok (h : Attuned reader writer) (slot : Ead.Slot) (ead : List Value) :
    (reader.preVerify slot ead).result = .ok () := by
  rw [preVerify_result, h.lenient.pre]
  split <;> rfl

theorem Attuned.postVerify_ok (h : Attuned reader writer) (slot : Ead.Slot) (idCred : Value)
    (ead : List Value) : (reader.postVerify slot idCred ead).result = .ok () := by
  rw [postVerify_result, h.lenient.post]
  split <;> rfl

theorem Hears.of_eq (h : Hears reader writer) (hrs : reader'.settings = reader.settings)
    (hre : reader'.endpoint = reader.endpoint) (hws : writer'.settings = writer.settings)
    (hwe : writer'.endpoint = writer.endpoint) : Hears reader' writer' where
  toAttuned := h.toAttuned.of_eq hrs hre hws
  kept := by
    rw [eadConvention, hrs, hre, hwe]
    exact h.kept

/-- A reader that supports what it is sent keeps all of it. -/
theorem Hears.sends (h : Hears reader writer) {ead : List Value}
    (head : writer.endpoint.hooks.produce slot = .ok ead) :
    ∃ items, writer.Sends reader slot items ∧ ead = items.flatMap Ead.Item.toValues ∧
      Ead.handed reader.endpoint.eadLabels items = ead := by
  obtain ⟨items, hitems, rfl⟩ := h.kept slot ead head
  exact ⟨items, ⟨head, fun item hitem => (hitems item hitem).tolerated⟩, rfl,
    Ead.handed_of_kept hitems⟩

theorem Sends.of_eq (h : writer.Sends reader slot items) (hrs : reader'.settings = reader.settings)
    (hre : reader'.endpoint = reader.endpoint) (hwe : writer'.endpoint = writer.endpoint) :
    writer'.Sends reader' slot items where
  produce_eq := hwe ▸ h.produce_eq
  tolerated := by
    rw [eadConvention, hrs, hre]
    exact h.tolerated

/-- The reader keeps the items that it supports. -/
theorem Sends.acceptEad_ok (h : writer.Sends reader slot items) :
    reader.acceptEad (items.flatMap Ead.Item.toValues) =
      .ok (Ead.handed reader.endpoint.eadLabels items) :=
  acceptEad_eq_ok.mpr (Ead.accept_of_tolerated h.tolerated)

theorem Sends.eq_of_produce (h : writer.Sends reader slot items) {ead : List Value}
    (head : writer.endpoint.hooks.produce slot = .ok ead) : ead = items.flatMap Ead.Item.toValues :=
  Except.ok.inj (head.symm.trans h.produce_eq)

end Exchange

/-- The identity of a known peer is found from how it was received. -/
theorem peerOf_ok {e : Engine} {credential : OwnCredential} (h : e.endpoint.Knows credential)
    (hproper : credential.idCred.isProper) {element : Value}
    (helement : Cose.toElement? credential.idCred = some element) (refuseOwn : Bool) :
    e.peerOf element.received refuseOwn = .ok credential.toPeer.received := by
  have hid := Cose.ofElement?_received helement
  have hsame := h.received_same hproper
  have hpeer : e.endpoint.peer? credential.idCred.received = some credential.toPeer.received := by
    rw [Endpoint.peer?_congr hsame, h.peer_eq]
    rfl
  have hown : e.endpoint.isOwnIdCred credential.idCred.received = false := by
    rw [Endpoint.isOwnIdCred_congr hsame, h.not_own]
  unfold peerOf
  cases hreceived : element.received with
  | bytes | integer | map => simp [hreceived ▸ hid, hpeer, hown]
  | text | array | bool | null | float | tag => cases hreceived ▸ hid

end Engine

end EdhocLab
