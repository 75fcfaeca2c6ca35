import EdhocLab.Proofs.Oscore.Channel

/-! # Nonces of a sender

A context encrypts once at most for each message that it protects, under a nonce of its own sequence
number or of the partial IV of the request that is answered.  A number is taken before anything can
fail, so that no later message gets it again.
-/
namespace EdhocLab.Oscore

open Coap (Packet)

/-- What a context protects. -/
inductive Use
  | request (message : Bytes)
  | response (message request : Bytes) (reusePiv : Bool)
  deriving DecidableEq, Repr

/-- Where the partial IV of a nonce comes from. -/
inductive Origin
  /-- From the own sequence number. -/
  | own (sequence : Nat)
  /-- From the request that is answered. -/
  | request (piv : Bytes)
  deriving DecidableEq, Repr

/-- What the cipher is given for a message, and the packet that its output is put into. -/
structure Seal where
  origin : Origin
  nonce : Bytes
  aad : Bytes
  plaintext : Bytes
  packet : Packet
  option : OptionValue
  deriving DecidableEq

namespace Context

def perform (context : Context) : Use → Except Error Bytes × Context
  | .request message => context.protectRequest message
  | .response message request reusePiv => context.protectResponse message request reusePiv

/-- The context after protecting some messages one after the other. -/
def after (context : Context) (uses : List Use) : Context :=
  uses.foldl (fun context use => (context.perform use).2) context

/-- A message as it is given to the cipher, unless it cannot be protected. -/
def draft (message : Bytes) (origin : Origin) (aad nonce : Bytes) (option : OptionValue) :
    Except Error Seal := do
  let packet ← (Packet.ofBytes message).mapError Error.coap
  checkOptions packet
  let plaintext ← innerBytes packet
  return { origin, nonce, aad, plaintext, packet, option }

/-- What the cipher is given when a message is protected. -/
def sealing (context : Context) : Use → Except Error Seal
  | .request message =>
    let piv := context.nextPiv
    draft message (.own context.senderSequence)
      (aad context.algorithm.coseId context.senderId piv)
      (nonce piv context.senderId context.commonIv)
      { piv := some piv, kidContext := none, kid := some context.senderId }
  | .response message request reusePiv => do
    let (kid, requestPiv) ← (Packet.ofBytes request).mapError Error.coap >>= requestParts
    let aad := aad context.algorithm.coseId kid requestPiv
    if reusePiv then
      draft message (.request requestPiv) aad
        (nonce requestPiv context.recipientId context.commonIv) .empty
    else
      let piv := context.nextPiv
      draft message (.own context.senderSequence) aad (nonce piv context.senderId context.commonIv)
        { piv := some piv, kidContext := none, kid := none }

/-- The one encryption for a message, and the protected packet. -/
def finish (context : Context) (s : Seal) : Except Error Bytes := do
  let payload ← (context.algorithm.encrypt context.senderKey s.nonce s.aad s.plaintext).mapError
    Error.aead
  (outerPacket s.packet s.option.encode payload).toBytes.mapError Error.coap

/-- What the cipher is given in a run, for each message that gets so far. -/
def seals : Context → List Use → List Seal
  | _, [] => []
  | context, use :: uses => (context.sealing use).toOption.toList ++ (context.perform use).2.seals uses

end Context

/-- The nonce that belongs to an origin. -/
def Origin.nonce (context : Context) : Origin → Bytes
  | .own sequence => Oscore.nonce (formatPiv sequence) context.senderId context.commonIv
  | .request piv => Oscore.nonce piv context.recipientId context.commonIv

def Origin.isOwn : Origin → Bool
  | .own _ => true
  | .request _ => false

theorem Origin.isOwn_iff {origin : Origin} : origin.isOwn ↔ ∃ n, origin = .own n := by
  cases origin <;> simp [isOwn]

theorem Origin.not_isOwn_iff {origin : Origin} :
    origin.isOwn = false ↔ ∃ piv, origin = .request piv := by
  cases origin <;> simp [isOwn]

namespace Context

section Step

variable (context : Context) (use : Use)

theorem protect_eq (message aad nonce : Bytes) (origin : Origin) (option : OptionValue) :
    context.protect message aad nonce option =
      draft message origin aad nonce option >>= context.finish := by
  unfold protect draft
  cases (Packet.ofBytes message).mapError Error.coap with
  | error e => rfl
  | ok packet =>
    simp only [ok_bind]
    cases checkOptions packet with
    | error e => rfl
    | ok _ =>
      simp only [ok_bind]
      cases innerBytes packet with
      | error e => rfl
      | ok plaintext => rfl

/-- A message is protected by one encryption of what is sealed, and by none if nothing is. -/
theorem perform_fst : (context.perform use).1 = context.sealing use >>= context.finish := by
  cases use with
  | request message => exact protect_eq ..
  | response message request reusePiv =>
    simp only [perform, protectResponse, sealing]
    cases (Packet.ofBytes request).mapError Error.coap >>= requestParts with
    | error e => rfl
    | ok parts =>
      cases reusePiv with
      | true => exact protect_eq ..
      | false => exact protect_eq ..

/-- Nothing but the sequence number changes, and that by one at most. -/
theorem perform_snd : (context.perform use).2 = context ∨
    (context.perform use).2 = context.advance := by
  cases use with
  | request message => exact .inr rfl
  | response message request reusePiv =>
    simp only [perform, protectResponse]
    cases (Packet.ofBytes request).mapError Error.coap >>= requestParts with
    | error e => exact .inl rfl
    | ok parts =>
      cases reusePiv with
      | true => exact .inl rfl
      | false => exact .inr rfl

variable {context use}

theorem of_draft {message aad nonce : Bytes} {origin : Origin} {option : OptionValue} {s : Seal}
    (h : draft message origin aad nonce option = .ok s) : s.origin = origin ∧ s.nonce = nonce := by
  obtain ⟨packet, -, h⟩ := bind_eq_ok.mp h
  obtain ⟨_, -, h⟩ := bind_eq_ok.mp h
  obtain ⟨plaintext, -, h⟩ := bind_eq_ok.mp h
  cases h
  exact ⟨rfl, rfl⟩

/-- A sealed message has the nonce of its origin, and uses up its number if that is the own one. -/
theorem of_sealing {s : Seal} (h : context.sealing use = .ok s) :
    s.nonce = s.origin.nonce context ∧ ∀ n, s.origin = .own n →
      n = context.senderSequence ∧ (context.perform use).2 = context.advance := by
  cases use with
  | request message =>
    obtain ⟨horigin, hnonce⟩ := of_draft h
    rw [horigin]
    refine ⟨hnonce, ?_⟩
    intro n hn
    cases hn
    exact ⟨rfl, rfl⟩
  | response message request reusePiv =>
    obtain ⟨⟨kid, piv⟩, hparts, h⟩ := bind_eq_ok.mp h
    cases reusePiv with
    | true =>
      obtain ⟨horigin, hnonce⟩ := of_draft h
      rw [horigin]
      exact ⟨hnonce, nofun⟩
    | false =>
      obtain ⟨horigin, hnonce⟩ := of_draft h
      rw [horigin]
      refine ⟨hnonce, ?_⟩
      intro n hn
      cases hn
      refine ⟨rfl, ?_⟩
      simp only [perform, protectResponse, hparts]
      rfl

end Step

section Run

variable {context : Context} {uses : List Use} {s : Seal}

@[simp] theorem after_cons (context : Context) (use : Use) (uses : List Use) :
    context.after (use :: uses) = (context.perform use).2.after uses := rfl

theorem senderSequence_le_perform (context : Context) (use : Use) :
    context.senderSequence ≤ (context.perform use).2.senderSequence := by
  rcases context.perform_snd use with h | h
  · exact Nat.le_of_eq (congrArg senderSequence h.symm)
  · rw [h]
    exact Nat.le_succ _

theorem senderSequence_le_after (context : Context) (uses : List Use) :
    context.senderSequence ≤ (context.after uses).senderSequence := by
  induction uses generalizing context with
  | nil => exact Nat.le_refl _
  | cons use uses ih =>
    exact Nat.le_trans (context.senderSequence_le_perform use) (ih _)

/-- Keys and identifiers stay as they are. -/
theorem after_eq (context : Context) (uses : List Use) : context.after uses =
    { context with senderSequence := (context.after uses).senderSequence } := by
  induction uses generalizing context with
  | nil => rfl
  | cons use uses ih =>
    rw [after_cons]
    rcases context.perform_snd use with h | h
    · rw [h]
      exact ih context
    · rw [h]
      exact ih context.advance

theorem mem_seals_cons {use : Use} (h : s ∈ context.seals (use :: uses)) :
    context.sealing use = .ok s ∨ s ∈ (context.perform use).2.seals uses := by
  rcases List.mem_append.mp h with h | h
  · exact .inl (toOption_eq_some.mp (Option.mem_toList.mp h))
  · exact .inr h

theorem origin_nonce_perform (context : Context) (use : Use) (origin : Origin) :
    origin.nonce (context.perform use).2 = origin.nonce context := by
  rcases context.perform_snd use with h | h
  · rw [h]
  · rw [h]
    cases origin <;> rfl

theorem nonce_of_mem_seals (h : s ∈ context.seals uses) : s.nonce = s.origin.nonce context := by
  induction uses generalizing context with
  | nil => cases h
  | cons use uses ih =>
    rcases mem_seals_cons h with h | h
    · exact (of_sealing h).1
    · rw [ih h, origin_nonce_perform]

/-- The own numbers in a run are those that the run uses up. -/
theorem sequence_of_mem_seals (h : s ∈ context.seals uses) {n : Nat} (hn : s.origin = .own n) :
    context.senderSequence ≤ n ∧ n < (context.after uses).senderSequence := by
  induction uses generalizing context with
  | nil => cases h
  | cons use uses ih =>
    rcases mem_seals_cons h with h | h
    · obtain ⟨rfl, hnext⟩ := (of_sealing h).2 n hn
      refine ⟨Nat.le_refl _, ?_⟩
      rw [after_cons, hnext]
      exact context.advance.senderSequence_le_after uses
    · obtain ⟨hle, hlt⟩ := ih h
      exact ⟨Nat.le_trans (context.senderSequence_le_perform use) hle, hlt⟩

/-- Own numbers ascend in the course of a run. -/
theorem seals_pairwise (context : Context) (uses : List Use) : (context.seals uses).Pairwise
    fun s t => ∀ m n, s.origin = .own m → t.origin = .own n → m < n := by
  induction uses generalizing context with
  | nil => exact List.Pairwise.nil
  | cons use uses ih =>
    apply List.pairwise_append.mpr
    refine ⟨?_, ih _, ?_⟩
    · cases (context.sealing use).toOption with
      | none => exact List.Pairwise.nil
      | some s => exact List.pairwise_singleton ..
    · intro s hs t ht m n hm hn
      have hseal : context.sealing use = .ok s := toOption_eq_some.mp (Option.mem_toList.mp hs)
      obtain ⟨rfl, hnext⟩ := (of_sealing hseal).2 m hm
      rw [hnext] at ht
      exact (sequence_of_mem_seals ht hn).1

/-- The cipher never gets a nonce of an own number again, and one of a request only for the same
number.  If the identifiers of the two directions differ in what a nonce holds of them, then the two
kinds of nonces differ too. -/
theorem run_nonces (context : Context) (uses : List Use)
    (h : (context.after uses).senderSequence ≤ 2 ^ 40) :
    (∀ use, ((context.after uses).perform use).1 =
      (context.after uses).sealing use >>= context.finish) ∧
    ((context.seals uses).Pairwise fun s t =>
      s.origin.isOwn → t.origin.isOwn → s.nonce ≠ t.nonce) ∧
    (∀ s ∈ context.seals uses, ∀ t ∈ context.seals uses, ∀ p q,
      s.origin = .request p → t.origin = .request q →
        (s.nonce = t.nonce ↔ Bytes.natOfBE p % 2 ^ 40 = Bytes.natOfBE q % 2 ^ 40)) ∧
    (Bytes.takeLast 7 context.senderId ≠ Bytes.takeLast 7 context.recipientId ∨
        min 7 context.senderId.length ≠ min 7 context.recipientId.length →
      ∀ s ∈ context.seals uses, ∀ t ∈ context.seals uses,
        s.origin.isOwn → t.origin.isOwn = false → s.nonce ≠ t.nonce) := by
  refine ⟨?_, ?_, ?_, ?_⟩
  · intro use
    rw [perform_fst, after_eq]
    rfl
  · apply (context.seals_pairwise uses).imp_of_mem
    intro s t hs ht hascend hown hown'
    obtain ⟨m, hm⟩ := Origin.isOwn_iff.mp hown
    obtain ⟨n, hn⟩ := Origin.isOwn_iff.mp hown'
    -- Numbers of later uses are larger, and below the bound they differ in what a nonce holds.
    have hlt := hascend m n hm hn
    have hmax := (sequence_of_mem_seals ht hn).2
    rw [nonce_of_mem_seals hs, nonce_of_mem_seals ht, hm, hn]
    exact nonce_formatPiv_ne (by omega) (by omega) (Nat.ne_of_lt hlt) _ _
  · intro s hs t ht p q hp hq
    rw [nonce_of_mem_seals hs, nonce_of_mem_seals ht, hp, hq]
    apply (nonce_eq_iff context.commonIv).trans
    exact and_iff_right rfl
  · intro hids s hs t ht hown hother heq
    obtain ⟨m, hm⟩ := Origin.isOwn_iff.mp hown
    obtain ⟨piv, hpiv⟩ := Origin.not_isOwn_iff.mp hother
    rw [nonce_of_mem_seals hs, nonce_of_mem_seals ht, hm, hpiv] at heq
    have hsame := ((nonce_eq_iff context.commonIv).mp heq).1
    have hlength := congrArg List.length hsame
    rw [length_takeLast, length_takeLast] at hlength
    rcases hids with hids | hids
    · exact hids hsame
    · exact hids hlength

/-- A request with the partial IV 5 of the context `01`. -/
def protectedRequest : Bytes := [0x40, 0x02, 0x00, 0x01, 0x93, 0x09, 0x05, 0x01]

/-- A context close to the last sequence number that nonces can tell from the others. -/
def lateContext : Context where
  algorithm := .shortTag
  commonIv := List.replicate 13 0x37
  senderId := [0x00]
  senderKey := List.replicate 16 0x11
  senderSequence := 2 ^ 40 - 3
  recipientId := [0x01]
  recipientKey := List.replicate 16 0x22
  window := .ofSize 32
  maxUnfragmentedSize := 4096

/-- Messages of both kinds, among them some that cannot be protected. -/
def lateUses : List Use :=
  [.request Channel.getRequest, .response Channel.getRequest protectedRequest true, .request [],
    .response Channel.getRequest [] false, .response Channel.getRequest protectedRequest false]

theorem run_nonces_lateUses :
    (lateContext.seals lateUses).map Seal.origin =
      [.own (2 ^ 40 - 3), .request [0x05], .own (2 ^ 40 - 1)] ∧
    (lateContext.seals lateUses).Pairwise (fun s t =>
      s.origin.isOwn → t.origin.isOwn → s.nonce ≠ t.nonce) ∧
    ∀ s ∈ lateContext.seals lateUses, ∀ t ∈ lateContext.seals lateUses,
      s.origin.isOwn → t.origin.isOwn = false → s.nonce ≠ t.nonce := by
  have horigins : (lateContext.seals lateUses).map Seal.origin =
      [.own (2 ^ 40 - 3), .request [0x05], .own (2 ^ 40 - 1)] := by rfl
  have hlate : (lateContext.after lateUses).senderSequence ≤ 2 ^ 40 := by decide
  obtain ⟨-, hown, -, hkinds⟩ := run_nonces lateContext lateUses hlate
  exact ⟨horigins, hown, hkinds (.inl (by decide))⟩

end Run

end Context

end EdhocLab.Oscore
