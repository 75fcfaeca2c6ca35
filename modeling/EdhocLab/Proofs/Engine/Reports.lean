import EdhocLab.Proofs.Engine.DroppedRequest

/-! # Reports of requests

A request waits as a draft until a resource completes it or its response is held back, and is polled
as what it came to then.  Entries only move from one place to the next, so that a request whose
identifier no other has is reported once, whatever happens in between.
-/
namespace EdhocLab

open Engine (callee)
open Transport (Exchange Exchanger Ledger Queue)

namespace Engine

theorem sendResponse_value (e : Engine) (messageId : UInt16) : (e.sendResponse messageId).value =
    if 0 < e.exchanger.draft.occurrences messageId then
      (false, { e with exchanger := {
        draft := e.exchanger.draft.removeAll fun exchange => exchange.messageId == messageId
        received := e.exchanger.received.offer (.failed messageId) } })
    else (true, e) := by
  have hremoved := e.exchanger.removeDraft_fst messageId
  by_cases hdraft : 0 < e.exchanger.draft.occurrences messageId
  · simp only [sendResponse, hremoved.mpr hdraft, if_true, if_pos hdraft, Traced.value_bind,
      Traced.value_pure, recordReceived_value]
    rfl
  · simp only [sendResponse, Bool.eq_false_iff.mpr (mt hremoved.mp hdraft),
      Bool.false_eq_true, if_false, if_neg hdraft, Traced.value_pure]

theorem sendResponse_fst (e : Engine) (messageId : UInt16) :
    (e.sendResponse messageId).value.1 = false ↔ 0 < e.exchanger.draft.occurrences messageId := by
  by_cases hdraft : 0 < e.exchanger.draft.occurrences messageId <;>
    simp [sendResponse_value, hdraft]

end Engine

/-- What a resource found.  It is noted on the exchange, which stays that of the message. -/
structure Finding where
  note : Exchange → Exchange
  keeps (exchange : Exchange) : (note exchange).messageId = exchange.messageId

/-- What happens to the exchanges of an engine, among any actions on it. -/
inductive Turn
  | receive (packet : Coap.Packet)
  | act (action : Action)
  | complete (messageId : UInt16) (finding : Finding)
  | respond (messageId : UInt16)
  | poll

/-- The requests that arrive. -/
def Turn.requests : Turn → List UInt16
  | receive packet => [packet.messageId]
  | act _ | complete _ _ | respond _ | poll => []

/-- An engine, and the exchanges that were polled from it. -/
structure Driven where
  engine : Engine
  polled : List Exchange

namespace Driven

variable {d : Driven} {messageId : UInt16}

/-- The exchanges of the engine. -/
def ledger (d : Driven) : Ledger := { exchanger := d.engine.exchanger, polled := d.polled }

def turn (d : Driven) : Turn → Driven
  | .receive packet => { d with engine := (d.engine.receiveRequest packet).value.2.2 }
  | .act action => { d with engine := d.engine.act action }
  | .complete messageId finding => { d with engine := { d.engine with
      exchanger := (d.engine.exchanger.completeDraft messageId finding.note).value.2 } }
  | .respond messageId => { d with engine := (d.engine.sendResponse messageId).value.2 }
  | .poll => { engine := { d.engine with exchanger := d.ledger.poll.exchanger }
               polled := d.ledger.poll.polled }

def run (d : Driven) (turns : List Turn) : Driven := turns.foldl turn d

section Turn

theorem takes_receive (d : Driven) (packet : Coap.Packet) :
    d.ledger.Takes (d.turn (.receive packet)).ledger [packet.messageId] := by
  have hhandled := d.engine.receiveRequest_handled packet
  change d.ledger.Takes
    { exchanger := (d.engine.receiveRequest packet).value.2.2.exchanger, polled := d.polled } _
  generalize (d.engine.receiveRequest packet).value = handled at hhandled ⊢
  cases hhandled with
  | plain => exact Ledger.takes_draft (Engine.exchangeOf packet)
  | dropped => exact Ledger.takes_rfl _
  | @accepted message3 =>
    rw [Engine.withDraft, (d.engine.readMessage3_change message3).exchanger_eq]
    exact Ledger.takes_draft (Engine.exchangeOf packet)
  | rejected => exact Ledger.takes_received (.failed packet.messageId)

theorem takes_respond (d : Driven) (messageId : UInt16) :
    d.ledger.Takes (d.turn (.respond messageId)).ledger [] := by
  change d.ledger.Takes
    { exchanger := (d.engine.sendResponse messageId).value.2.exchanger, polled := d.polled } _
  rw [Engine.sendResponse_value]
  split
  · rename_i hdraft
    exact Ledger.takes_withdrawn hdraft
  · exact Ledger.takes_rfl []

/-- A turn takes in the requests that arrive with it. -/
theorem takes_turn (d : Driven) (turn : Turn) :
    d.ledger.Takes (d.turn turn).ledger turn.requests := by
  cases turn with
  | receive packet => exact d.takes_receive packet
  | act action =>
    change d.ledger.Takes { exchanger := (d.engine.act action).exchanger, polled := d.polled } _
    rw [(d.engine.act_change action).exchanger_eq]
    exact Ledger.takes_rfl []
  | complete messageId finding => exact Ledger.takes_completeDraft finding.keeps
  | respond messageId => exact d.takes_respond messageId
  | poll => exact Ledger.takes_poll

end Turn

section Run

theorem run_append (d : Driven) (turns later : List Turn) :
    d.run (turns ++ later) = (d.run turns).run later := List.foldl_append

/-- A run takes in the requests that arrive in it. -/
theorem takes_run (d : Driven) (turns : List Turn) :
    d.ledger.Takes (d.run turns).ledger (turns.flatMap Turn.requests) := by
  induction turns generalizing d with
  | nil => exact Ledger.takes_rfl []
  | cons turn turns ih => exact (d.takes_turn turn).trans (ih (d.turn turn))

theorem run_draft_le (d : Driven) (turns : List Turn) (messageId : UInt16) :
    (d.run turns).engine.exchanger.draft.occurrences messageId ≤
      d.engine.exchanger.draft.occurrences messageId +
        (turns.flatMap Turn.requests).count messageId :=
  (d.takes_run turns).draft_le messageId

/-- There is no draft behind its response. -/
theorem draft_respond (d : Driven) (messageId : UInt16) :
    (d.turn (.respond messageId)).engine.exchanger.draft.occurrences messageId = 0 := by
  change (d.engine.sendResponse messageId).value.2.exchanger.draft.occurrences messageId = 0
  rw [Engine.sendResponse_value]
  split
  · exact (Queue.occurrences_removeAll ..).trans (if_pos rfl)
  · rename_i hdraft
    exact Nat.eq_zero_of_not_pos hdraft

/-- There is no draft behind its completion, if it was the only one. -/
theorem draft_complete (finding : Finding) (honce : d.ledger.occurrences messageId ≤ 1) :
    (d.turn (.complete messageId finding)).engine.exchanger.draft.occurrences messageId = 0 := by
  change (d.engine.exchanger.completeDraft messageId finding.note).value.2.draft.occurrences
    messageId = 0
  rcases d.engine.exchanger.completeDraft_cases messageId finding.note with
    ⟨hnone, heq⟩ | ⟨hsome, exchange, -, heq⟩
  · rw [heq]
    exact hnone
  · rw [heq]
    have hremoved := d.engine.exchanger.draft.occurrences_removeFirst messageId hsome
    have htotal := d.ledger.occurrences_eq messageId
    rw [if_pos rfl] at hremoved
    simp only [ledger] at htotal honce ⊢
    omega

/-- A draft that is gone does not come back without its request: it is neither completed nor is a
response held back for it. -/
theorem run_without_draft (later : List Turn)
    (hgone : d.engine.exchanger.draft.occurrences messageId = 0)
    (hlater : messageId ∉ later.flatMap Turn.requests) :
    (∀ update, ((d.run later).engine.exchanger.completeDraft messageId update).value.1 = false) ∧
      ((d.run later).engine.sendResponse messageId).value.1 = true := by
  have hle := d.run_draft_le later messageId
  rw [hgone, List.count_eq_zero.mpr hlater] at hle
  have hnone : ¬ 0 < (d.run later).engine.exchanger.draft.occurrences messageId := Nat.not_lt.mpr hle
  constructor
  · intro update
    exact Bool.eq_false_iff.mpr fun h => hnone (Exchanger.completeDraft_fst.mp h)
  · exact Bool.eq_true_of_not_eq_false fun h => hnone ((Engine.sendResponse_fst _ _).mp h)

end Run

section Start

variable {e : Engine} {turns later : List Turn}

/-- An engine from which nothing was polled yet. -/
def start (e : Engine) : Driven := { engine := e, polled := [] }

theorem ledger_start (hempty : e.exchanger = .empty) :
    (start e).ledger = { exchanger := .empty, polled := [] } := by
  rw [ledger, start, hempty]

/-- A draft is of a request that arrived. -/
theorem requested_of_draft (hempty : e.exchanger = .empty)
    (hdraft : 0 < ((start e).run turns).engine.exchanger.draft.occurrences messageId) :
    messageId ∈ turns.flatMap Turn.requests := by
  have hle := Nat.lt_of_lt_of_le hdraft ((start e).run_draft_le turns messageId)
  rw [start, hempty, show Exchanger.empty.draft.occurrences messageId = 0 from rfl,
    Nat.zero_add] at hle
  exact List.count_pos_iff.mp hle

theorem occurrences_le_one (hempty : e.exchanger = .empty)
    (hdistinct : (turns.flatMap Turn.requests).Nodup) (messageId : UInt16) :
    ((start e).run turns).ledger.occurrences messageId ≤ 1 := by
  have hle := ((start e).takes_run turns).le messageId
  have hstart : (start e).ledger.occurrences messageId = 0 := by
    rw [ledger_start hempty]
    rfl
  rw [hstart, Nat.zero_add] at hle
  exact Nat.le_trans hle (List.nodup_iff_count.mp hdistinct messageId)

/-- The queues have room for one entry each, and no more is in them. -/
theorem lengths_le_one (hempty : e.exchanger = .empty) (turns : List Turn) :
    ((start e).run turns).engine.exchanger.draft.length ≤ 1 ∧
      ((start e).run turns).engine.exchanger.received.length ≤ 1 := by
  have htakes := (start e).takes_run turns
  rw [ledger_start hempty] at htakes
  obtain ⟨hdraft, hreceived⟩ := htakes.fits ⟨Nat.zero_le _, Nat.zero_le _⟩
  rw [Queue.Fits, htakes.capacity_eq.1] at hdraft
  rw [Queue.Fits, htakes.capacity_eq.2] at hreceived
  exact ⟨hdraft, hreceived⟩

/-- A request is reported once.  Where no two requests have the same identifier, no identifier occurs
twice among the drafts and the reports, those that were polled included; a report stays the only one
of its request for good; neither queue holds more than one entry.  A response is held back exactly
for a draft, which is never completed afterwards, as the response to a completed one is never held
back. -/
theorem requests_reported_once (hempty : e.exchanger = .empty)
    (hdistinct : ((turns ++ later).flatMap Turn.requests).Nodup) :
    let d := (start e).run turns
    (d.ledger.exchanges.map Exchange.messageId).Nodup ∧
    (∀ report ∈ d.ledger.reports, ∀ other ∈ (d.run later).ledger.reports,
      report.messageId = other.messageId → report = other) ∧
    d.engine.exchanger.draft.length ≤ 1 ∧ d.engine.exchanger.received.length ≤ 1 ∧
    (∀ messageId, (d.engine.sendResponse messageId).value.1 = false ↔
      ∃ draft ∈ d.engine.exchanger.draft.items, draft.messageId = messageId) ∧
    (∀ messageId update, (d.engine.sendResponse messageId).value.1 = false →
      (((d.turn (.respond messageId)).run later).engine.exchanger.completeDraft messageId
        update).value.1 = false) ∧
    (∀ messageId finding,
      (d.engine.exchanger.completeDraft messageId finding.note).value.1 = true →
      (((d.turn (.complete messageId finding)).run later).engine.sendResponse messageId).value.1 =
        true) := by
  have hdistinct' := hdistinct
  rw [List.flatMap_append, List.nodup_append'] at hdistinct'
  obtain ⟨hturns, -, hdisjoint⟩ := hdistinct'
  obtain ⟨hdraft, hreceived⟩ := lengths_le_one hempty turns
  have honce := occurrences_le_one hempty hturns
  have honceAfter := occurrences_le_one hempty hdistinct
  refine ⟨(Ledger.nodup_iff _).mpr honce, ?_, hdraft, hreceived, ?_, ?_, ?_⟩
  · intro report hreport other hother hid
    rw [run_append] at honceAfter
    have hkept := (takes_run _ later).keeps_reports.subset hreport
    exact List.inj_on_of_nodup_map ((Ledger.nodup_iff _).mpr honceAfter)
      (List.mem_append_left _ hkept) (List.mem_append_left _ hother) hid
  · intro messageId
    rw [Engine.sendResponse_fst, Queue.occurrences_pos]
  · intro messageId update hheld
    -- A draft comes from a request among the turns, so that no later request has its identifier.
    have hrequested := requested_of_draft hempty ((Engine.sendResponse_fst _ _).mp hheld)
    exact (run_without_draft later (draft_respond _ messageId) (hdisjoint hrequested)).1 update
  · intro messageId finding hcompleted
    have hrequested := requested_of_draft hempty (Exchanger.completeDraft_fst.mp hcompleted)
    exact (run_without_draft later (draft_complete finding (honce messageId))
      (hdisjoint hrequested)).2

/-- A request that is not combined. -/
def plainRequest (messageId : UInt16) : Coap.Packet :=
  { Engine.protectedRequest [] with messageId, options := [] }

/-- The first of two requests takes the only place of a draft.  Its response is held back, and a third
request arrives before the failure is polled. -/
theorem callee_reports : callee.exchanger = .empty ∧
    let d := (start callee).run [.receive (plainRequest 7), .receive (plainRequest 8)]
    let d' := (d.turn (.respond 7)).run [.receive (plainRequest 9), .poll]
    (d.ledger.exchanges.map Exchange.messageId).Nodup ∧
      (d.engine.sendResponse 7).value.1 = false ∧ d'.polled = [.failed 7] ∧
      (d'.engine.exchanger.completeDraft 7 id).value.1 = false ∧
      (d'.engine.exchanger.completeDraft 9 id).value.1 = true := by
  have hempty : callee.exchanger = .empty := rfl
  have hdistinct : (([.receive (plainRequest 7), .receive (plainRequest 8)] ++
      [.receive (plainRequest 9), .poll] : List Turn).flatMap Turn.requests).Nodup := by decide
  obtain ⟨hnodup, -, -, -, -, hnever, -⟩ := requests_reported_once hempty hdistinct
  have hheld : (((start callee).run
      [.receive (plainRequest 7), .receive (plainRequest 8)]).engine.sendResponse 7).value.1 =
        false := by rfl
  exact ⟨hempty, hnodup, hheld, by rfl, hnever 7 id hheld, by rfl⟩

end Start

end Driven

end EdhocLab
