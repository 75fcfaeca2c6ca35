import EdhocLab.Ead.Item
import EdhocLab.Proofs.Cbor.RoundTrip

/-! # Accepted authorization data

Items in the layout of the version are read back one by one.  A receiver drops padding and the items
that it may skip; one that supports all items keeps all of them.
-/
namespace EdhocLab.Ead

open Cbor (Value)

/-- An item that can be sent in a layout. -/
structure Item.LaidOut (convention : Convention) (item : Item) : Prop where
  label_ge : -(2 ^ 63) ≤ item.label
  label_lt : item.label < 2 ^ 63
  paired : convention = .forcedPairs → item.value.isSome

/-- An item in the layout that a receiver supports, and that is not padding. -/
structure Item.Kept (convention : Convention) (supported : List Int) (item : Item) : Prop where
  laidOut : item.LaidOut convention
  label_ne : item.label ≠ 0
  isSupported : item.isSupported supported

/-- An item in the layout that a receiver supports or may skip. -/
structure Item.Tolerated (convention : Convention) (supported : List Int) (item : Item) : Prop where
  laidOut : item.LaidOut convention
  not_critical : 0 ≤ item.label ∨ item.isSupported supported

theorem Item.Kept.tolerated {convention : Convention} {supported : List Int} {item : Item}
    (h : item.Kept convention supported) : item.Tolerated convention supported :=
  ⟨h.laidOut, .inr h.isSupported⟩

/-- A list of values that consists of items which a receiver keeps. -/
def Kept (convention : Convention) (supported : List Int) (values : List Value) : Prop :=
  ∃ items : List Item, (∀ item ∈ items, item.Kept convention supported) ∧
    values = items.flatMap Item.toValues

/-- The values of the supported items, padding left out. -/
def handed (supported : List Int) (items : List Item) : List Value :=
  (items.filter fun item => !item.isPadding && item.isSupported supported).flatMap Item.toValues

theorem int64?_integer {n : Int} (hge : -(2 ^ 63) ≤ n) (hlt : n < 2 ^ 63) :
    Value.int64? (.integer n) = some n := by
  rw [Value.int64?, if_pos ⟨hge, hlt⟩]

theorem readPairs_flatMap {items : List Item} (h : ∀ item ∈ items, item.LaidOut .forcedPairs) :
    readPairs (items.flatMap Item.toValues) = some items := by
  induction items with
  | nil => rfl
  | cons item items ih =>
    obtain ⟨hitem, hitems⟩ := List.forall_mem_cons.mp h
    obtain ⟨label, value⟩ := item
    obtain ⟨b, rfl⟩ := Option.isSome_iff_exists.mp (hitem.paired rfl)
    simp [Item.toValues, readPairs, int64?_integer hitem.label_ge hitem.label_lt, Value.bytes?,
      ih hitems]

/-- Behind an item without value never stands a byte string. -/
theorem readOptional_none {label : Int} {items : List Item} (hge : -(2 ^ 63) ≤ label)
    (hlt : label < 2 ^ 63) : readOptional (.integer label :: items.flatMap Item.toValues) =
      (readOptional (items.flatMap Item.toValues)).map ({ label, value := none } :: ·) := by
  cases items with
  | nil => simp [readOptional, int64?_integer hge hlt]
  | cons next items =>
    obtain ⟨nextLabel, value⟩ := next
    have hlabel := int64?_integer hge hlt
    rw [Option.map_eq_bind, List.flatMap_cons]
    cases value with
    | none =>
      simp only [Item.toValues, readOptional, hlabel, List.singleton_append, Option.bind_eq_bind,
        Option.bind_some]
      rfl
    | some value =>
      simp only [Item.toValues, readOptional, hlabel, List.cons_append, List.nil_append,
        Option.bind_eq_bind, Option.bind_some]
      rfl

theorem readOptional_flatMap {items : List Item}
    (h : ∀ item ∈ items, item.LaidOut .optionalValue) :
    readOptional (items.flatMap Item.toValues) = some items := by
  induction items with
  | nil => rfl
  | cons item items ih =>
    obtain ⟨hitem, hitems⟩ := List.forall_mem_cons.mp h
    obtain ⟨label, value⟩ := item
    cases value with
    | none =>
      rw [List.flatMap_cons, Item.toValues]
      exact (readOptional_none hitem.label_ge hitem.label_lt).trans (by rw [ih hitems]; rfl)
    | some b =>
      simp [Item.toValues, readOptional, int64?_integer hitem.label_ge hitem.label_lt, ih hitems]

/-- What was laid out is read as the same items. -/
theorem read_flatMap {convention : Convention} {items : List Item}
    (h : ∀ item ∈ items, item.LaidOut convention) :
    convention.read (items.flatMap Item.toValues) = some items := by
  cases convention with
  | forcedPairs => exact readPairs_flatMap h
  | optionalValue => exact readOptional_flatMap h

/-- A receiver accepts what it supports or may skip, and keeps what it supports. -/
theorem accept_of_tolerated {convention : Convention} {supported : List Int} {items : List Item}
    (h : ∀ item ∈ items, item.Tolerated convention supported) :
    accept convention supported (items.flatMap Item.toValues) = some (handed supported items) := by
  have hread := read_flatMap fun item hitem => (h item hitem).laidOut
  have hnone : items.any (fun item => item.isCritical && !item.isSupported supported) = false := by
    rw [List.any_eq_false]
    intro item hitem
    rcases (h item hitem).not_critical with hlabel | hsupported
    · simp [Item.isCritical, Int.not_lt.mpr hlabel]
    · simp [hsupported]
  have hselect : select supported items =
      some (items.filter fun item => !item.isPadding && item.isSupported supported) := by
    rw [select, hnone, if_neg (by decide)]
  simp [accept, hread, hselect, handed]

theorem handed_of_kept {convention : Convention} {supported : List Int} {items : List Item}
    (h : ∀ item ∈ items, item.Kept convention supported) :
    handed supported items = items.flatMap Item.toValues := by
  have hall : items.filter (fun item => !item.isPadding && item.isSupported supported) = items := by
    rw [List.filter_eq_self]
    intro item hitem
    simp [Item.isPadding, (h item hitem).label_ne, (h item hitem).isSupported]
  rw [handed, hall]

/-- Authorization data has no tags. -/
@[simp] theorem map_received_flatMap (items : List Item) :
    (items.flatMap Item.toValues).map Value.received = items.flatMap Item.toValues := by
  induction items with
  | nil => rfl
  | cons item items ih =>
    obtain ⟨label, value⟩ := item
    cases value <;> simp [Item.toValues, Value.received, ih]

/-- Authorization data holds no containers. -/
@[simp] theorem depthOfItems_flatMap (items : List Item) :
    Value.depthOfItems (items.flatMap Item.toValues) = 0 := by
  induction items with
  | nil => rfl
  | cons item items ih =>
    obtain ⟨label, value⟩ := item
    cases value <;> simp [Item.toValues, Value.depthOfItems, Value.depth, ih]

end EdhocLab.Ead
