import EdhocLab.Transport.Exchange

/-! # Entries of the queues

How often the exchange of a message is queued or was polled.  Every operation on the queues moves
entries, removes them or adds the one that it is given, so that no exchange is doubled on its way.
-/
namespace EdhocLab.Transport

namespace Queue

/-- The queue with a new entry, or as it is if it is full. -/
def offer (queue : Queue) (exchange : Exchange) : Queue := (queue.offer? exchange).getD queue

/-- How many entries are exchanges of a message. -/
def occurrences (queue : Queue) (messageId : UInt16) : Nat :=
  queue.items.countP fun exchange => exchange.messageId == messageId

/-- The queue holds no more than it has room for. -/
def Fits (queue : Queue) : Prop := queue.length ≤ queue.capacity

variable (queue : Queue) (exchange : Exchange) (messageId : UInt16)

theorem offer_eq : queue.offer exchange =
    if queue.length < queue.capacity then { queue with items := queue.items ++ [exchange] }
    else queue := by
  unfold offer offer?
  split <;> rfl

theorem occurrences_pos : 0 < queue.occurrences messageId ↔
    ∃ exchange ∈ queue.items, exchange.messageId = messageId := by
  simp [occurrences, List.countP_pos_iff]

theorem occurrences_offer_le : (queue.offer exchange).occurrences messageId ≤
    queue.occurrences messageId + if exchange.messageId = messageId then 1 else 0 := by
  rw [offer_eq]
  split
  · simp [occurrences, List.countP_append, List.countP_singleton]
  · exact Nat.le_add_right ..

theorem occurrences_removeAll (other : UInt16) :
    (queue.removeAll fun exchange => exchange.messageId == other).occurrences messageId =
      if messageId = other then 0 else queue.occurrences messageId := by
  simp only [occurrences, removeAll, List.countP_filter]
  split
  · rename_i h
    simp [h]
  · rename_i h
    refine List.countP_congr fun exchange _ => ?_
    simp only [Bool.and_eq_true, Bool.not_eq_true', beq_iff_eq, beq_eq_false_iff_ne]
    exact and_iff_left_of_imp fun hid heq => h (hid.symm.trans heq)

/-- Removing the first entry for a message takes away that one. -/
theorem occurrences_removeFirst {other : UInt16} (h : 0 < queue.occurrences other) :
    (queue.removeFirst fun exchange => exchange.messageId == other).occurrences messageId +
      (if other = messageId then 1 else 0) = queue.occurrences messageId := by
  obtain ⟨found, hmem, hfound⟩ := (queue.occurrences_pos other).mp h
  have hmatches : (found.messageId == other) = true := beq_iff_eq.mpr hfound
  obtain ⟨first, before, behind, -, hfirst, hitems, herased⟩ :=
    List.exists_of_eraseP (p := fun exchange => exchange.messageId == other) hmem hmatches
  have hid : first.messageId = other := beq_iff_eq.mp hfirst
  rw [occurrences, occurrences, removeFirst, herased, hitems]
  simp only [List.countP_append, List.countP_cons, hid, beq_iff_eq]
  omega

theorem items_prefix_offer : queue.items <+: (queue.offer exchange).items := by
  rw [offer_eq]
  split
  · exact List.prefix_append ..
  · exact List.prefix_rfl

theorem capacity_offer : (queue.offer exchange).capacity = queue.capacity := by
  rw [offer_eq]
  split <;> rfl

variable {queue}

theorem Fits.offer (h : queue.Fits) : (queue.offer exchange).Fits := by
  rw [offer_eq]
  split
  · rename_i hroom
    simp only [Fits, length, List.length_append, List.length_singleton]
    exact hroom
  · exact h

theorem Fits.removeAll (h : queue.Fits) (p : Exchange → Bool) : (queue.removeAll p).Fits :=
  Nat.le_trans (List.length_filter_le ..) h

theorem Fits.removeFirst (h : queue.Fits) (p : Exchange → Bool) : (queue.removeFirst p).Fits :=
  Nat.le_trans (List.length_eraseP_le ..) h

end Queue

/-- Neither queue holds more than it has room for. -/
def Exchanger.Fits (exchanger : Exchanger) : Prop := exchanger.draft.Fits ∧ exchanger.received.Fits

namespace Exchanger

variable {exchanger : Exchanger} {other : UInt16} {update : Exchange → Exchange}

theorem offerDraft_value (exchanger : Exchanger) (exchange : Exchange) :
    (exchanger.offerDraft exchange).value =
      { exchanger with draft := exchanger.draft.offer exchange } := by
  unfold offerDraft Queue.offer
  cases exchanger.draft.offer? exchange <;> rfl

theorem offerReceived_value (exchanger : Exchanger) (exchange : Exchange) :
    (exchanger.offerReceived exchange).value =
      { exchanger with received := exchanger.received.offer exchange } := by
  unfold offerReceived Queue.offer
  cases exchanger.received.offer? exchange <;> rfl

theorem removeDraft_fst (exchanger : Exchanger) (other : UInt16) :
    (exchanger.removeDraft other).1 = true ↔ 0 < exchanger.draft.occurrences other := by
  rw [Queue.occurrences_pos, removeDraft]
  simp

/-- What becomes of the queues with the completion of a draft. -/
theorem completeDraft_cases (exchanger : Exchanger) (other : UInt16) (update : Exchange → Exchange) :
    (exchanger.draft.occurrences other = 0 ∧
      (exchanger.completeDraft other update).value = (false, exchanger)) ∨
    (0 < exchanger.draft.occurrences other ∧ ∃ exchange, exchange.messageId = other ∧
      (exchanger.completeDraft other update).value = (true, {
        draft := exchanger.draft.removeFirst fun exchange => exchange.messageId == other
        received := exchanger.received.offer (update exchange) })) := by
  unfold completeDraft
  dsimp only
  cases hfind : exchanger.draft.items.find? fun exchange => exchange.messageId == other with
  | none => exact .inl ⟨List.countP_eq_zero.mpr (List.find?_eq_none.mp hfind), rfl⟩
  | some exchange =>
    have hid : exchange.messageId = other := beq_iff_eq.mp
      (List.find?_some (p := fun exchange : Exchange => exchange.messageId == other) hfind)
    refine .inr ⟨(Queue.occurrences_pos _ _).mpr ⟨exchange, List.mem_of_find?_eq_some hfind, hid⟩,
      exchange, hid, ?_⟩
    simp only [Traced.value_bind, Traced.value_pure, offerReceived_value]

theorem completeDraft_fst : (exchanger.completeDraft other update).value.1 = true ↔
    0 < exchanger.draft.occurrences other := by
  rcases exchanger.completeDraft_cases other update with ⟨hnone, heq⟩ | ⟨hsome, _, -, heq⟩
  · simp [heq, hnone]
  · simp [heq, hsome]

end Exchanger

/-- The queues, and the exchanges that were polled from them. -/
structure Ledger where
  exchanger : Exchanger
  polled : List Exchange

namespace Ledger

variable {ledger ledger' ledger'' : Ledger} {other : UInt16} {requests requests' : List UInt16}
  {update : Exchange → Exchange}

/-- What is or was reported: the received exchanges behind those that were polled. -/
def reports (ledger : Ledger) : List Exchange := ledger.polled ++ ledger.exchanger.received.items

/-- All exchanges, the drafts included. -/
def exchanges (ledger : Ledger) : List Exchange := ledger.reports ++ ledger.exchanger.draft.items

/-- How many of all exchanges are of a message. -/
def occurrences (ledger : Ledger) (messageId : UInt16) : Nat :=
  ledger.exchanges.countP fun exchange => exchange.messageId == messageId

theorem occurrences_eq (ledger : Ledger) (messageId : UInt16) : ledger.occurrences messageId =
    ledger.polled.countP (fun exchange => exchange.messageId == messageId) +
      ledger.exchanger.received.occurrences messageId +
      ledger.exchanger.draft.occurrences messageId := by
  simp only [occurrences, exchanges, reports, List.countP_append, Queue.occurrences]

theorem nodup_iff (ledger : Ledger) : (ledger.exchanges.map Exchange.messageId).Nodup ↔
    ∀ messageId, ledger.occurrences messageId ≤ 1 := by
  simp only [List.nodup_iff_count, List.count_eq_countP, List.countP_map]
  rfl

/-- Reports the oldest received exchange to who asks. -/
def poll (ledger : Ledger) : Ledger :=
  let (oldest, received) := ledger.exchanger.received.poll
  { exchanger := { ledger.exchanger with received }, polled := ledger.polled ++ oldest.toList }

/-- A poll reports what is a report already. -/
theorem reports_poll (ledger : Ledger) : ledger.poll.reports = ledger.reports := by
  cases hitems : ledger.exchanger.received.items with
  | nil => simp [reports, poll, Queue.poll, hitems]
  | cons oldest rest => simp [reports, poll, Queue.poll, hitems]

/-- Something happened: all that is new among the exchanges are entries for some requests, and new
reports are behind those there were. -/
structure Takes (ledger ledger' : Ledger) (requests : List UInt16) : Prop where
  draft_le (messageId : UInt16) : ledger'.exchanger.draft.occurrences messageId ≤
    ledger.exchanger.draft.occurrences messageId + requests.count messageId
  le (messageId : UInt16) :
    ledger'.occurrences messageId ≤ ledger.occurrences messageId + requests.count messageId
  fits (h : ledger.exchanger.Fits) : ledger'.exchanger.Fits
  capacity_eq : ledger'.exchanger.draft.capacity = ledger.exchanger.draft.capacity ∧
    ledger'.exchanger.received.capacity = ledger.exchanger.received.capacity
  keeps_reports : ledger.reports <+: ledger'.reports

theorem takes_rfl (requests : List UInt16) : ledger.Takes ledger requests where
  draft_le _ := Nat.le_add_right ..
  le _ := Nat.le_add_right ..
  fits h := h
  capacity_eq := ⟨rfl, rfl⟩
  keeps_reports := List.prefix_rfl

theorem Takes.trans (h : ledger.Takes ledger' requests) (h' : ledger'.Takes ledger'' requests') :
    ledger.Takes ledger'' (requests ++ requests') where
  draft_le messageId := by
    have hfirst := h.draft_le messageId
    have hsecond := h'.draft_le messageId
    rw [List.count_append]
    omega
  le messageId := by
    have hfirst := h.le messageId
    have hsecond := h'.le messageId
    rw [List.count_append]
    omega
  fits hfits := h'.fits (h.fits hfits)
  capacity_eq := ⟨h'.capacity_eq.1.trans h.capacity_eq.1, h'.capacity_eq.2.trans h.capacity_eq.2⟩
  keeps_reports := h.keeps_reports.trans h'.keeps_reports

theorem takes_draft (exchange : Exchange) : ledger.Takes { ledger with
    exchanger := { ledger.exchanger with draft := ledger.exchanger.draft.offer exchange } }
    [exchange.messageId] where
  draft_le messageId := by
    simpa [List.count_singleton] using
      ledger.exchanger.draft.occurrences_offer_le exchange messageId
  le messageId := by
    have hdraft := ledger.exchanger.draft.occurrences_offer_le exchange messageId
    simp only [occurrences_eq, List.count_singleton, beq_iff_eq]
    omega
  fits h := ⟨h.1.offer exchange, h.2⟩
  capacity_eq := ⟨Queue.capacity_offer .., rfl⟩
  keeps_reports := List.prefix_rfl

theorem takes_received (exchange : Exchange) : ledger.Takes { ledger with
    exchanger := { ledger.exchanger with received := ledger.exchanger.received.offer exchange } }
    [exchange.messageId] where
  draft_le _ := Nat.le_add_right ..
  le messageId := by
    have hreceived := ledger.exchanger.received.occurrences_offer_le exchange messageId
    simp only [occurrences_eq, List.count_singleton, beq_iff_eq]
    omega
  fits h := ⟨h.1, h.2.offer exchange⟩
  capacity_eq := ⟨rfl, Queue.capacity_offer ..⟩
  keeps_reports := (List.prefix_append_right_inj _).mpr (Queue.items_prefix_offer ..)

/-- Drafts of a message leave their queue, at least one of them, and an exchange of the message is
received instead. -/
theorem takes_moved {draft : Queue} {exchange : Exchange}
    (hle : ∀ messageId, draft.occurrences messageId +
      (if exchange.messageId = messageId then 1 else 0) ≤
        ledger.exchanger.draft.occurrences messageId)
    (hfits : ledger.exchanger.draft.Fits → draft.Fits)
    (hcapacity : draft.capacity = ledger.exchanger.draft.capacity) :
    ledger.Takes { ledger with
      exchanger := { draft, received := ledger.exchanger.received.offer exchange } } [] where
  draft_le messageId := Nat.le_trans (Nat.le_add_right ..) (hle messageId)
  le messageId := by
    -- A full queue loses the exchange, so that the sum may shrink but never grows.
    have hdraft := hle messageId
    have hreceived := ledger.exchanger.received.occurrences_offer_le exchange messageId
    simp only [occurrences_eq, List.count_nil]
    omega
  fits h := ⟨hfits h.1, h.2.offer _⟩
  capacity_eq := ⟨hcapacity, Queue.capacity_offer ..⟩
  keeps_reports := (List.prefix_append_right_inj _).mpr (Queue.items_prefix_offer ..)

/-- Completing a draft moves its exchange, if the update leaves it that of the message. -/
theorem takes_completeDraft
    (hupdate : ∀ exchange, (update exchange).messageId = exchange.messageId) : ledger.Takes
      { ledger with exchanger := (ledger.exchanger.completeDraft other update).value.2 } [] := by
  rcases ledger.exchanger.completeDraft_cases other update with
    ⟨-, heq⟩ | ⟨hsome, exchange, hid, heq⟩
  · rw [heq]
    exact takes_rfl []
  · rw [heq]
    refine takes_moved (fun messageId => ?_) (fun h => h.removeFirst _) rfl
    rw [hupdate, hid]
    exact Nat.le_of_eq (Queue.occurrences_removeFirst _ messageId hsome)

/-- Withdrawing a draft moves it as well, as an exchange that failed. -/
theorem takes_withdrawn (hsome : 0 < ledger.exchanger.draft.occurrences other) :
    ledger.Takes { ledger with exchanger := {
      draft := ledger.exchanger.draft.removeAll fun exchange => exchange.messageId == other
      received := ledger.exchanger.received.offer (.failed other) } } [] := by
  refine takes_moved (fun messageId => ?_) (fun h => h.removeAll _) rfl
  rw [Queue.occurrences_removeAll, show (Exchange.failed other).messageId = other from rfl]
  by_cases hid : messageId = other
  · subst hid
    rwa [if_pos rfl, if_pos rfl, Nat.zero_add]
  · rw [if_neg hid, if_neg (Ne.symm hid)]
    exact Nat.le_refl _

theorem takes_poll : ledger.Takes ledger.poll [] where
  draft_le _ := Nat.le_refl _
  le messageId := by
    rw [occurrences, exchanges, reports_poll]
    exact Nat.le_refl _
  fits h := ⟨h.1, Nat.le_trans (Nat.le_of_eq List.length_tail) (Nat.le_trans (Nat.sub_le ..) h.2)⟩
  capacity_eq := ⟨rfl, rfl⟩
  keeps_reports := ⟨[], by rw [List.append_nil, reports_poll]⟩

end Ledger

end EdhocLab.Transport
