import EdhocLab.Proofs.Engine.Repetition
import EdhocLab.Proofs.Handshake.Totality

/-! # Messages that are not written

A call that writes no message leaves the engine as it was, with one exception: the first message
selects its suite before it is encoded.  If an item of it has no encoding, the session keeps a suite,
a credential and possibly an ephemeral key of a message that there never was.
-/
namespace EdhocLab.Engine

open Cbor (Value)
open Handshake

variable {e e' : Engine} {offer : Offer1}

/-- A first message is encoded if what was offered for it can be. -/
theorem encodeItems1_isOk (m : Material) :
    (KeySchedule.encodeItems (e.leadingTrue ++ elements1 m offer)).isOk ↔
      Value.allProper (offer.suitesI :: offer.cI :: offer.ead) := by
  have hleading : Value.allProper e.leadingTrue := by
    unfold leadingTrue
    split <;> rfl
  have hmethod : (Value.integer m.method.toNat).isProper := by
    have hlt := m.method.toNat_lt
    change Cbor.fitsHead m.method.toNat = true
    simp only [Cbor.fitsHead, decide_eq_true_eq]
    omega
  have hkey : (Value.bytes m.ephemeralKey.publicKey.toBytes).isProper := by
    rw [Value.isProper, PublicKey.length_toBytes]
    decide
  rw [KeySchedule.encodeItems_isOk, Value.allProper_append, hleading]
  simp [elements1, Value.allProper, hmethod, hkey]

/-- A first message that was offered and has no encoding leaves its suite behind. -/
theorem writeMessage1_of_improper (hoffer : e.offer1.result = .ok offer)
    (himproper : Value.allProper (offer.suitesI :: offer.cI :: offer.ead) = false) :
    e.writeMessage1.value = (none, e.selectSuite e.current.role offer.suite) := by
  have hencode (m : Material) :
      ¬ (KeySchedule.encodeItems (e.leadingTrue ++ elements1 m offer)).isOk := by
    rw [encodeItems1_isOk, himproper]
    exact Bool.false_ne_true
  rw [writeMessage1_value, hoffer]
  dsimp only
  split
  · rfl
  · rename_i hmessage
    refine absurd ?_ (hencode (e.selectSuite e.current.role offer.suite).current.material)
    rw [hmessage]
    rfl

/-- A first message that is not written was not offered, or its suite is selected without it. -/
theorem unwritten1 (h : e.writeMessage1.value = (none, e')) :
    (∃ error, e.offer1.result = .error error) ∧ e' = e ∨
      ∃ offer, e.offer1.result = .ok offer ∧
        Value.allProper (offer.suitesI :: offer.cI :: offer.ead) = false ∧
        e' = e.selectSuite e.current.role offer.suite := by
  rw [writeMessage1_value] at h
  cases hoffer : e.offer1.result with
  | error error =>
    rw [hoffer] at h
    exact .inl ⟨⟨error, rfl⟩, (Prod.mk.inj h).2.symm⟩
  | ok offer =>
    rw [hoffer] at h
    dsimp only at h
    cases hencode : KeySchedule.encodeItems (e.leadingTrue ++
        elements1 (e.selectSuite e.current.role offer.suite).current.material offer) with
    | error error =>
      rw [hencode] at h
      refine .inr ⟨offer, rfl, ?_, (Prod.mk.inj h).2.symm⟩
      rw [← Bool.not_eq_true, ← encodeItems1_isOk, hencode]
      exact nofun
    | ok message =>
      rw [hencode] at h
      dsimp only at h
      split at h <;> cases h

/-- Every other message that is not written leaves no trace. -/
theorem unwritten_others {call : Call} (hcall : call ≠ .writeMessage1)
    (h : (e.perform call).value = (.written none, e')) : e' = e := by
  cases call with
  | writeMessage1 => exact absurd rfl hcall
  | writeMessage2 =>
    change Prod.map Answer.written id e.writeMessage2.value = _ at h
    rw [writeMessage2_value] at h
    cases hbuilt : e.build2.result with
    | error _ => rw [hbuilt] at h; exact (Prod.mk.inj h).2.symm
    | ok built => cases hr : e.current.role <;> simp [hbuilt, hr] at h
  | writeMessage3 =>
    change Prod.map Answer.written id e.writeMessage3.value = _ at h
    rw [writeMessage3_value] at h
    cases hbuilt : e.build3.result with
    | error _ => rw [hbuilt] at h; exact (Prod.mk.inj h).2.symm
    | ok built => cases hr : e.current.role <;> simp [hbuilt, hr] at h
  | writeMessage4 =>
    change Prod.map Answer.written id e.writeMessage4.value = _ at h
    rw [writeMessage4_value] at h
    exact (Prod.mk.inj h).2.symm
  | writeError code diagnostic =>
    change Prod.map Answer.written id (e.writeError code diagnostic).value = _ at h
    rw [writeError_value] at h
    exact (Prod.mk.inj h).2.symm
  | readMessage1 | readMessage2 | readMessage3 | readMessage4 | readError => cases h

/-- A message that is not written leaves the engine as it was, unless it is a first message that was
offered for a suite other than the selected one and has no encoding. -/
theorem unwritten_keeps_engine_iff {settings : Settings} {endpoint : Endpoint} {call : Call}
    (hreachable : Reachable settings endpoint e)
    (h : (e.perform call).value = (.written none, e')) :
    (e' = e ↔ ∀ offer, call = .writeMessage1 → e.offer1.result = .ok offer →
      offer.suite = e.current.material.suite) ∧
    ∀ offer, call = .writeMessage1 → e.offer1.result = .ok offer →
      Value.allProper (offer.suitesI :: offer.cI :: offer.ead) = false ∧
        e' = e.selectSuite e.current.role offer.suite := by
  by_cases hcall : call = .writeMessage1
  · subst hcall
    obtain ⟨rfl, rfl, hcoherent⟩ := hreachable.coherent
    have hwrite : e.writeMessage1.value = (none, e') := by
      obtain ⟨hanswer, rfl⟩ := Prod.mk.inj h
      exact Prod.ext (Answer.written.inj hanswer) rfl
    rcases unwritten1 hwrite with ⟨⟨error, herror⟩, rfl⟩ | ⟨offer, hoffer, himproper, rfl⟩
    · rw [herror]
      exact ⟨⟨fun _ _ _ => nofun, fun _ => rfl⟩, fun _ _ => nofun⟩
    · refine ⟨⟨?_, fun hsuite => ?_⟩, ?_⟩
      · rintro hsame other - hother
        cases hoffer.symm.trans hother
        have hselected : (e.selectSuite e.current.role offer.suite).current.material.suite =
            offer.suite := by
          rw [(e.updates_selectSuite offer.suite).material_eq]
          exact Material.selectSuite_suite ..
        rw [← hselected, hsame]
      · rw [hsuite offer rfl hoffer]
        exact selectSuite_self hcoherent.current.keys
      · rintro other - hother
        cases hoffer.symm.trans hother
        exact ⟨himproper, rfl⟩
  · exact ⟨⟨fun _ _ hfirst => absurd hfirst hcall, fun _ => unwritten_others hcall h⟩,
      fun _ hfirst => absurd hfirst hcall⟩

/-- An endpoint with two suites whose application sends a number that no item can hold. -/
def overflowing : Endpoint where
  preferredSuite := .suite0
  otherSuites := [.suite2]
  own := []
  peers := []
  eadLabels := []
  profiles := [("coap://localhost:5683/.well-known/edhoc", {})]
  hooks := .sending fun _ => [.integer (2 ^ 64)]
  oscoreUri := ""

/-- An Initiator of that endpoint after its peer asked for suite 2. -/
def redirected : Engine :=
  (initial {} overflowing {} { blocks := [], seed := 0, counter := 0 }).act
    (.call (.readError [0x02, 0x02]))

theorem redirected_reachable : Reachable {} overflowing redirected :=
  .acted (.created (by rw [create_result]; rfl)) _

def redirectedOffer : Offer1 where
  suite := .suite2
  suitesI := .array [.integer 0, .integer 2]
  cI := .integer (-23)
  ead := [.integer (2 ^ 64)]

theorem redirected_writeMessage1 : (redirected.perform .writeMessage1).value =
    (.written none, redirected.selectSuite redirected.current.role redirectedOffer.suite) := by
  have hoffer : redirected.offer1.result = .ok redirectedOffer := rfl
  have himproper : Value.allProper
      (redirectedOffer.suitesI :: redirectedOffer.cI :: redirectedOffer.ead) = false := rfl
  change Prod.map Answer.written id redirected.writeMessage1.value = _
  rw [writeMessage1_of_improper hoffer himproper]
  rfl

theorem redirected_suite : (redirected.selectSuite redirected.current.role
    redirectedOffer.suite).current.material.suite = .suite2 := by
  rw [(redirected.updates_selectSuite redirectedOffer.suite).material_eq]
  exact Material.selectSuite_suite ..

theorem redirected_keeps_engine_iff : ∃ e', Reachable {} overflowing redirected ∧
    (redirected.perform .writeMessage1).value = (.written none, e') ∧
    (e' = redirected ↔ ∀ offer, Call.writeMessage1 = .writeMessage1 →
      redirected.offer1.result = .ok offer →
        offer.suite = redirected.current.material.suite) ∧
    ∀ offer, Call.writeMessage1 = .writeMessage1 → redirected.offer1.result = .ok offer →
      Value.allProper (offer.suitesI :: offer.cI :: offer.ead) = false ∧
        e' = redirected.selectSuite redirected.current.role offer.suite :=
  ⟨_, redirected_reachable, redirected_writeMessage1,
    unwritten_keeps_engine_iff redirected_reachable redirected_writeMessage1⟩

/-- The Initiator answers with no message, but its session changes to suite 2. -/
theorem redirected_changes : Reachable {} overflowing redirected ∧
    redirected.current.material.suite = .suite0 ∧
    ∃ e', (redirected.perform .writeMessage1).value = (.written none, e') ∧
      e'.current.material.suite = .suite2 ∧ e' ≠ redirected := by
  refine ⟨redirected_reachable, rfl, _, redirected_writeMessage1, redirected_suite, fun heq => ?_⟩
  have hsuite := redirected_suite
  rw [heq] at hsuite
  cases hsuite

end EdhocLab.Engine
