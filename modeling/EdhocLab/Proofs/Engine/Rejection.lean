import EdhocLab.Proofs.Engine.Delivery.Skipped

/-! # Rejected messages

A message that is not accepted leaves the whole engine as it was: every reader comes to its verdict
first, and only an accepted message reaches the one change of state behind it.
-/
namespace EdhocLab.Engine

/-- A call that reads a message and rejects it changes nothing at all. -/
theorem rejected_read_keeps_engine {e e' : Engine} {call : Call}
    (h : (e.perform call).value = (.read false, e')) : e' = e := by
  cases call with
  | writeMessage1 | writeMessage2 | writeMessage3 | writeMessage4 | writeError code diagnostic =>
    cases h
  | readMessage1 sequence =>
    change Prod.map Answer.read id (e.readMessage1 sequence).value = _ at h
    rw [readMessage1_value] at h
    cases hc : (e.check1 sequence).result with
    | error _ => rw [hc] at h; exact (Prod.mk.inj h).2.symm
    | ok accepted => cases accepted <;> simp [hc] at h
  | readMessage2 sequence =>
    change Prod.map Answer.read id (e.readMessage2 sequence).value = _ at h
    rw [readMessage2_value] at h
    cases hc : (e.check2 sequence).result with
    | error _ => rw [hc] at h; exact (Prod.mk.inj h).2.symm
    | ok found => cases hr : (e.sessions.get found.1).role <;> simp [hc, hr] at h
  | readMessage3 sequence =>
    change Prod.map Answer.read id (e.readMessage3 sequence).value = _ at h
    rw [readMessage3_value] at h
    cases hc : (e.check3 sequence).result with
    | error _ => rw [hc] at h; exact (Prod.mk.inj h).2.symm
    | ok found => cases hr : (e.sessions.get found.1).role <;> simp [hc, hr] at h
  | readMessage4 sequence =>
    change Prod.map Answer.read id (e.readMessage4 sequence).value = _ at h
    rw [readMessage4_value] at h
    exact (Prod.mk.inj h).2.symm
  | readError sequence =>
    change Prod.map Answer.read id (e.readError sequence).value = _ at h
    rw [readError_value] at h
    cases hc : (e.checkError sequence).result with
    | error _ => rw [hc] at h; exact (Prod.mk.inj h).2.symm
    | ok found =>
      obtain ⟨handle, suites⟩ := found
      cases suites <;> simp [hc] at h

/-- An Initiator waits for the answer to its first message.  It refuses one with a MAC over padding that
it skips, and goes on waiting with the hash, the keys and the contexts that it had. -/
theorem padded_message2_keeps_engine : ∃ i₁ m₂ r₂ i₂,
    staticCaller.writeMessage1.value = (some firstMessage, i₁) ∧
      i₁.current.material.hashMessage1 = Handshake.KeySchedule.hash (firstMessage.drop 1) ∧
      (paddingCallee.readMessage1 firstMessage).value = (true, answering) ∧
      answering.writeMessage2.value = (some m₂, r₂) ∧
      (i₁.perform (.readMessage2 m₂)).value = (.read false, i₂) ∧ i₂ = i₁ := by
  obtain ⟨i₁, m₂, r₂, hwrite, -, -, hhash, hread, hwrite₂, hrefused⟩ := padded_message2_refused
  have hvalue : (i₁.readMessage2 m₂).value = (false, (i₁.readMessage2 m₂).value.2) :=
    Prod.ext hrefused rfl
  have h : (i₁.perform (.readMessage2 m₂)).value = (.read false, (i₁.readMessage2 m₂).value.2) :=
    congrArg (Prod.map Answer.read id) hvalue
  exact ⟨i₁, m₂, r₂, _, hwrite, hhash, hread, hwrite₂, h, rejected_read_keeps_engine h⟩

end EdhocLab.Engine
