import EdhocLab.Handshake.Negotiation
import EdhocLab.Proofs.Cbor.RoundTrip
import EdhocLab.Proofs.Check

/-! # Negotiated suites

Any list of suites that an Initiator sends is read, and selects the suite that the Initiator means.
An offer in return holds what the Initiator needs to select its first suite that the Responder
supports, which the Responder then accepts.
-/
namespace EdhocLab

@[simp] theorem Suite.id_inj {a b : Suite} : a.id = b.id ↔ a = b := by
  cases a <;> cases b <;> decide

namespace Handshake.Negotiation

open Cbor (Value)

variable {own others listed : List Suite} {peer : List Int} {suite : Suite} {suitesI : Value}

theorem suiteOf?_id (suite : Suite) : suiteOf? (.integer suite.id) = some suite.id := by
  cases suite <;> rfl

theorem int64?_id (suite : Suite) : Value.int64? (.integer suite.id) = some suite.id := by
  cases suite <;> rfl

/-- Suites are read by whatever reads single ones. -/
theorem mapM_suites {read : Value → Option Int}
    (h : ∀ suite : Suite, read (.integer suite.id) = some suite.id) (suites : List Suite) :
    ((suites.map Suite.id).map Value.integer).mapM read = some (suites.map Suite.id) := by
  induction suites with
  | nil => rfl
  | cons suite suites ih =>
    rw [List.map_cons, List.map_cons, List.mapM_cons, h, ih]
    rfl

/-- A list that is sent is read as it was. -/
theorem suitesOf?_suitesValue (suites : List Suite) :
    suitesOf? (suitesValue (suites.map Suite.id)) = some (suites.map Suite.id) := by
  cases suites with
  | nil => rfl
  | cons first rest =>
    cases rest with
    | nil =>
      rw [List.map_singleton, suitesValue, suitesOf?, int64?_id]
      rfl
    | cons second rest => exact mapM_suites int64?_id (first :: second :: rest)

theorem received_suitesValue (ids : List Int) : (suitesValue ids).received = suitesValue ids := by
  unfold suitesValue
  split
  · rfl
  · rw [Value.received, Value.receivedItems_eq_map, List.map_map]
    rfl

theorem depth_suitesValue (ids : List Int) : (suitesValue ids).depth ≤ 1 := by
  have hflat : ∀ ids : List Int, Value.depthOfItems (ids.map .integer) = 0 := by
    intro ids
    induction ids with
    | nil => rfl
    | cons id ids ih => simp [Value.depthOfItems, Value.depth, ih]
  unfold suitesValue
  split
  · exact Nat.zero_le _
  · exact Nat.le_of_eq (by rw [Value.depth, hflat])

section UpTo

/-- The suites that are listed with a selected one. -/
def upTo (own : List Suite) (suite : Suite) : List Suite :=
  own.takeWhile (fun other => other.id != suite.id) ++ [suite]

theorem upTo_cons (other : Suite) (own : List Suite) (suite : Suite) :
    upTo (other :: own) suite = if other = suite then [suite] else other :: upTo own suite := by
  by_cases h : other = suite
  · simp [upTo, h]
  · simp [upTo, h]

theorem upTo_prefix (h : suite ∈ own) : upTo own suite <+: own := by
  induction own with
  | nil => cases h
  | cons other own ih =>
    rw [upTo_cons]
    split
    · rename_i heq
      rw [heq]
      exact List.prefix_append [suite] own
    · rename_i hne
      have hmem : suite ∈ own := (List.mem_cons.mp h).resolve_left (Ne.symm hne)
      exact (List.prefix_cons_inj other).mpr (ih hmem)

/-- What is first among all suites is first among those up to it. -/
theorem find?_upTo {wanted : Suite → Bool} (h : own.find? wanted = some suite) :
    (upTo own suite).find? wanted = some suite := by
  have hwanted : wanted suite := List.find?_some h
  induction own with
  | nil => cases h
  | cons other own ih =>
    rw [upTo_cons]
    split
    · exact List.find?_cons_of_pos hwanted
    · rename_i hne
      have hother : ¬wanted other := by
        intro hother
        rw [List.find?_cons_of_pos hother] at h
        exact hne (Option.some.inj h)
      rw [List.find?_cons_of_neg hother] at h ⊢
      exact ih h

end UpTo

section Select

theorem selectSuite_mem (h : selectSuite own peer = .ok suite) : suite ∈ own := by
  unfold selectSuite at h
  cases own with
  | nil => cases h
  | cons preferred others =>
    dsimp only at h
    split at h
    · cases h
      exact List.mem_cons_self
    · split at h
      · rename_i hfind
        cases h
        exact List.mem_of_find?_eq_some hfind
      · cases h

theorem negotiate_eq_ok : negotiate own peer = .ok (suite, suitesI) ↔
    selectSuite own peer = .ok suite ∧ suitesI = suitesValue ((upTo own suite).map Suite.id) := by
  unfold negotiate upTo
  cases selectSuite own peer with
  | error e => simp
  | ok selected =>
    simp only [ok_bind, pure_eq_ok, Except.ok.injEq, Prod.mk.injEq, List.map_append,
      List.map_singleton]
    exact and_congr_right fun heq => by rw [heq, eq_comm]

/-- Once something is known about the peer, the first suite of both is selected. -/
theorem selectSuite_of_known (hown : own ≠ []) (hothers : others ≠ []) :
    selectSuite own (others.map Suite.id) =
      match own.find? (· ∈ others) with
      | some suite => .ok suite
      | none => .error .noCommonSuite := by
  obtain ⟨preferred, rest, rfl⟩ := List.exists_cons_of_ne_nil hown
  obtain ⟨first, more, rfl⟩ := List.exists_cons_of_ne_nil hothers
  have hcontains : (fun suite : Suite => ((first :: more).map Suite.id).contains suite.id) =
      fun suite => decide (suite ∈ first :: more) := by
    funext suite
    rw [List.contains_eq_mem]
    simp
  unfold selectSuite
  rw [hcontains]
  rfl

end Select

section Check

theorem offerFor_eq (others listed : List Suite) (suite : Suite) :
    offerFor (others.map Suite.id) (listed.map Suite.id) suite.id =
      match listed.find? (· ∈ others) with
      | none => some (suitesValue (others.map Suite.id))
      | some shared =>
        if shared = suite then none else some (suitesValue ([shared].map Suite.id)) := by
  have hcontains : ((fun id => (others.map Suite.id).contains id) ∘ Suite.id) =
      fun suite => decide (suite ∈ others) := by
    funext suite
    simp [Function.comp, List.contains_eq_mem]
  rw [offerFor, List.find?_map, hcontains]
  cases listed.find? (· ∈ others) with
  | none => rfl
  | some shared => simp

/-- A Responder reads the list, and answers to its last suite. -/
theorem checkSuites_suitesValue (before : List Suite) (suite : Suite) (other : List Int) :
    checkSuites (suitesValue ((before ++ [suite]).map Suite.id)) other =
      .ok {
        selected := suite.id
        offer := offerFor other ((before ++ [suite]).map Suite.id) suite.id } := by
  cases before with
  | nil => rw [List.nil_append, List.map_singleton, suitesValue, checkSuites, suiteOf?_id]
  | cons first before =>
    let sent := first :: before ++ [suite]
    have hvalue : suitesValue (sent.map Suite.id) = .array ((sent.map Suite.id).map .integer) := by
      cases before <;> rfl
    have hlength : ¬((sent.map Suite.id).map Value.integer).length < 2 := by
      simp [sent]
    have hlast : (sent.map Suite.id).getLastD 0 = suite.id := by
      rw [List.map_append]
      exact List.getLastD_concat
    change checkSuites (suitesValue (sent.map Suite.id)) other = _
    rw [hvalue, checkSuites, listedSuites, if_neg hlength, mapM_suites suiteOf?_id, ok_bind, hlast]
    rfl

/-- A Responder reads the selected suite from the list. -/
theorem checkSuites_of_negotiate (h : negotiate own peer = .ok (suite, suitesI)) (other : List Int) :
    checkSuites suitesI other = .ok {
      selected := suite.id
      offer := offerFor other ((upTo own suite).map Suite.id) suite.id } := by
  obtain ⟨-, rfl⟩ := negotiate_eq_ok.mp h
  exact checkSuites_suitesValue _ suite other

theorem received_of_negotiate (h : negotiate own peer = .ok (suite, suitesI)) :
    suitesI.received = suitesI := by
  obtain ⟨-, rfl⟩ := negotiate_eq_ok.mp h
  exact received_suitesValue _

theorem depth_of_negotiate (h : negotiate own peer = .ok (suite, suitesI)) : suitesI.depth ≤ 1 := by
  obtain ⟨-, rfl⟩ := negotiate_eq_ok.mp h
  exact depth_suitesValue _

/-- A selection is accepted if it is the first of the listed suites that the Responder has. -/
theorem offerFor_eq_none : offerFor (others.map Suite.id) (listed.map Suite.id) suite.id = none ↔
    listed.find? (· ∈ others) = some suite := by
  rw [offerFor_eq]
  cases listed.find? (· ∈ others) <;> simp

/-- Whatever is offered, the first own suite in it is the first one that the Responder has. -/
theorem offerFor_eq_some (hothers : others ≠ []) (hmem : suite ∈ own) {suitesR : Value}
    (h : offerFor (others.map Suite.id) ((upTo own suite).map Suite.id) suite.id = some suitesR) :
    ∃ offered : List Suite, offered ≠ [] ∧ suitesR = suitesValue (offered.map Suite.id) ∧
      own.find? (· ∈ offered) = own.find? (· ∈ others) := by
  rw [offerFor_eq] at h
  cases hfind : (upTo own suite).find? (· ∈ others) with
  | none =>
    rw [hfind] at h
    exact ⟨others, hothers, (Option.some.inj h).symm, rfl⟩
  | some shared =>
    simp only [hfind] at h
    split at h
    · cases h
    obtain ⟨behind, hbehind⟩ := upTo_prefix hmem
    have hfirst : own.find? (· ∈ others) = some shared := by
      rw [← hbehind, List.find?_append, hfind]
      rfl
    refine ⟨[shared], List.cons_ne_nil shared [], (Option.some.inj h).symm, ?_⟩
    rw [hfirst]
    cases honly : own.find? (· ∈ [shared]) with
    | none =>
      have hnone := List.find?_eq_none.mp honly shared (List.mem_of_find?_eq_some hfirst)
      simp at hnone
    | some found =>
      have hfound := List.find?_some honly
      simpa using hfound

/-- With an offer at hand, the first suite of both is selected, and accepted. -/
theorem negotiate_of_offer (hown : own ≠ []) {offered : List Suite} (hoffered : offered ≠ [])
    (hfind : own.find? (· ∈ offered) = own.find? (· ∈ others)) :
    match own.find? (· ∈ others) with
    | some shared => ∃ suitesI, negotiate own (offered.map Suite.id) = .ok (shared, suitesI) ∧
      checkSuites suitesI (others.map Suite.id) = .ok { selected := shared.id, offer := none }
    | none => negotiate own (offered.map Suite.id) = .error .noCommonSuite := by
  have hselect := selectSuite_of_known hown hoffered
  rw [hfind] at hselect
  cases hshared : own.find? (· ∈ others) with
  | none =>
    rw [hshared] at hselect
    rw [negotiate, hselect]
    rfl
  | some shared =>
    rw [hshared] at hselect
    have hnegotiate := negotiate_eq_ok.mpr ⟨hselect, rfl⟩
    refine ⟨_, hnegotiate, ?_⟩
    rw [checkSuites_of_negotiate hnegotiate, offerFor_eq_none.mpr (find?_upTo hshared)]

end Check

end Handshake.Negotiation

end EdhocLab
