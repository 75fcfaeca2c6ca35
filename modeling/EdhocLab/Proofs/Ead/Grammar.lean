import EdhocLab.Proofs.Ead.Accept

/-! # The grammar of authorization data

Which lists of values are accepted is settled by how they divide into items: labels of 64 bits, each with
a byte string where the layout asks for one or where one follows, and none that is critical and not
supported.  What is accepted are the supported items, in their order and with their values.
-/
namespace EdhocLab.Ead

open Cbor (Value)

variable {convention : Convention} {supported : List Int} {values result : List Value}
  {items : List Item}

theorem int64?_eq_some {v : Value} {n : Int} :
    v.int64? = some n ↔ v = .integer n ∧ -(2 ^ 63) ≤ n ∧ n < 2 ^ 63 := by
  constructor
  · intro h
    cases v with
    | integer m =>
      by_cases hm : -(2 ^ 63) ≤ m ∧ m < 2 ^ 63
      · rw [Value.int64?, if_pos hm] at h
        cases h
        exact ⟨rfl, hm⟩
      · rw [Value.int64?, if_neg hm] at h
        cases h
    | bytes | text | array | map | bool | null | float | tag => cases h
  · rintro ⟨rfl, hge, hlt⟩
    exact int64?_integer hge hlt

theorem bytes?_eq_some {v : Value} {b : Bytes} : v.bytes? = some b ↔ v = .bytes b := by
  cases v <;> simp [Value.bytes?]

/-- Pairs are read as the items that they are the values of. -/
theorem readPairs_sound (h : readPairs values = some items) :
    values = items.flatMap Item.toValues ∧ ∀ item ∈ items, item.LaidOut .forcedPairs := by
  fun_induction readPairs values generalizing items with
  | case1 =>
    cases h
    simp
  | case2 => cases h
  | case3 label value rest ih =>
    obtain ⟨n, hn, h⟩ := Option.bind_eq_some_iff.mp h
    obtain ⟨b, hb, h⟩ := Option.bind_eq_some_iff.mp h
    obtain ⟨others, hothers, h⟩ := Option.bind_eq_some_iff.mp h
    cases h
    obtain ⟨rfl, hge, hlt⟩ := int64?_eq_some.mp hn
    obtain rfl := bytes?_eq_some.mp hb
    obtain ⟨rfl, hall⟩ := ih hothers
    exact ⟨rfl, List.forall_mem_cons.mpr ⟨⟨hge, hlt, fun _ => rfl⟩, hall⟩⟩

/-- Labels with and without values are read as the items that they are the values of. -/
theorem readOptional_sound (h : readOptional values = some items) :
    values = items.flatMap Item.toValues ∧ ∀ item ∈ items, item.LaidOut .optionalValue := by
  fun_induction readOptional values generalizing items with
  | case1 =>
    cases h
    simp
  | case2 label value rest ih =>
    obtain ⟨n, hn, h⟩ := Option.bind_eq_some_iff.mp h
    obtain ⟨others, hothers, h⟩ := Option.bind_eq_some_iff.mp h
    cases h
    obtain ⟨rfl, hge, hlt⟩ := int64?_eq_some.mp hn
    obtain ⟨rfl, hall⟩ := ih hothers
    exact ⟨rfl, List.forall_mem_cons.mpr ⟨⟨hge, hlt, nofun⟩, hall⟩⟩
  | case3 label rest hrest ih =>
    obtain ⟨n, hn, h⟩ := Option.bind_eq_some_iff.mp h
    obtain ⟨others, hothers, h⟩ := Option.bind_eq_some_iff.mp h
    cases h
    obtain ⟨rfl, hge, hlt⟩ := int64?_eq_some.mp hn
    obtain ⟨rfl, hall⟩ := ih hothers
    exact ⟨rfl, List.forall_mem_cons.mpr ⟨⟨hge, hlt, nofun⟩, hall⟩⟩

/-- A list is read as items exactly if it consists of their values in the layout. -/
theorem read_eq_some : convention.read values = some items ↔
    values = items.flatMap Item.toValues ∧ ∀ item ∈ items, item.LaidOut convention := by
  constructor
  · intro h
    cases convention with
    | forcedPairs => exact readPairs_sound h
    | optionalValue => exact readOptional_sound h
  · rintro ⟨rfl, h⟩
    exact read_flatMap h

/-- Selection fails exactly for an item that is critical and not supported. -/
theorem select_eq_some {kept : List Item} : select supported items = some kept ↔
    (∀ item ∈ items, 0 ≤ item.label ∨ item.isSupported supported) ∧
      kept = items.filter fun item => !item.isPadding && item.isSupported supported := by
  have hnone : (items.any fun item => item.isCritical && !item.isSupported supported) = false ↔
      ∀ item ∈ items, 0 ≤ item.label ∨ item.isSupported supported := by
    rw [List.any_eq_false]
    apply forall₂_congr
    intro item _
    simp only [Item.isCritical, Bool.and_eq_true, decide_eq_true_eq, Bool.not_eq_true']
    by_cases hitem : item.isSupported supported <;> simp [hitem]
  rw [← hnone, select]
  by_cases hany : items.any fun item => item.isCritical && !item.isSupported supported
  · simp [hany]
  · rw [if_neg hany, Option.some.injEq]
    simp only [Bool.not_eq_true] at hany
    simp only [hany, true_and]
    exact eq_comm

theorem accept_eq_some : accept convention supported values = some result ↔
    ∃ items : List Item, values = items.flatMap Item.toValues ∧
      (∀ item ∈ items, item.Tolerated convention supported) ∧ result = handed supported items := by
  constructor
  · intro h
    obtain ⟨items, hread, h⟩ := Option.bind_eq_some_iff.mp h
    obtain ⟨kept, hselect, h⟩ := Option.bind_eq_some_iff.mp h
    cases h
    obtain ⟨hvalues, hlaidOut⟩ := read_eq_some.mp hread
    obtain ⟨hcritical, rfl⟩ := select_eq_some.mp hselect
    exact ⟨items, hvalues, fun item hitem => ⟨hlaidOut item hitem, hcritical item hitem⟩, rfl⟩
  · rintro ⟨items, rfl, htolerated, rfl⟩
    exact accept_of_tolerated htolerated

theorem Item.isSupported_iff {item : Item} :
    item.isSupported supported ↔ (item.label.natAbs : Int) ∈ supported := by
  simp [Item.isSupported]

theorem handed_eq (supported : List Int) (items : List Item) : handed supported items =
    (items.filter fun item =>
      item.label ≠ 0 ∧ (item.label.natAbs : Int) ∈ supported).flatMap Item.toValues := by
  have hfilter : ∀ item : Item, (!item.isPadding && item.isSupported supported) =
      decide (item.label ≠ 0 ∧ (item.label.natAbs : Int) ∈ supported) := by
    intro item
    by_cases hlabel : item.label = 0 <;> simp [Item.isPadding, Item.isSupported, hlabel]
  simp only [handed, hfilter]

/-- Items in pairs are also items with optional values. -/
theorem Item.Tolerated.optional {item : Item} (h : item.Tolerated convention supported) :
    item.Tolerated .optionalValue supported :=
  ⟨⟨h.laidOut.label_ge, h.laidOut.label_lt, nofun⟩, h.not_critical⟩

/-- The supported items are kept by the receiver that selected them. -/
theorem accept_handed (h : ∀ item ∈ items, item.Tolerated convention supported) :
    accept convention supported (handed supported items) = some (handed supported items) := by
  have hkept : ∀ item ∈ items.filter fun item => !item.isPadding && item.isSupported supported,
      item.Kept convention supported := by
    intro item hitem
    obtain ⟨hmem, hkeep⟩ := List.mem_filter.mp hitem
    simp only [Item.isPadding, Bool.and_eq_true, Bool.not_eq_true', beq_eq_false_iff_ne] at hkeep
    exact ⟨(h item hmem).laidOut, hkeep.1, hkeep.2⟩
  have haccept := accept_of_tolerated fun item hitem => (hkept item hitem).tolerated
  rw [handed_of_kept hkept] at haccept
  exact haccept

/-- A list is accepted from a position on exactly if its values there are those of items in the layout,
none of them critical and not supported, and what is accepted are the supported ones.  Pairs are accepted
with optional values too, and nothing is lost when what was accepted is read again. -/
theorem accept_grammar :
    (∀ convention supported (values : List Value) base result,
      accept convention supported (values.drop base) = some result ↔
        ∃ items : List Item, values.drop base = items.flatMap Item.toValues ∧
          (∀ item ∈ items, item.LaidOut convention) ∧
          (∀ item ∈ items, item.label < 0 → (item.label.natAbs : Int) ∈ supported) ∧
          result = (items.filter fun item =>
            item.label ≠ 0 ∧ (item.label.natAbs : Int) ∈ supported).flatMap Item.toValues) ∧
    (∀ supported (values : List Value) base result,
      accept .forcedPairs supported (values.drop base) = some result →
      accept .optionalValue supported (values.drop base) = some result) ∧
    ∀ convention supported (values : List Value) base result,
      accept convention supported (values.drop base) = some result →
      accept convention supported result = some result := by
  refine ⟨?_, ?_, ?_⟩
  · intro convention supported values base result
    rw [accept_eq_some]
    constructor
    · rintro ⟨items, hvalues, htolerated, hresult⟩
      refine ⟨items, hvalues, fun item hitem => (htolerated item hitem).laidOut, ?_,
        hresult.trans (handed_eq supported items)⟩
      intro item hitem hlabel
      exact Item.isSupported_iff.mp
        ((htolerated item hitem).not_critical.resolve_left (Int.not_le.mpr hlabel))
    · rintro ⟨items, hvalues, hlaidOut, hcritical, hresult⟩
      refine ⟨items, hvalues, fun item hitem => ⟨hlaidOut item hitem, ?_⟩,
        hresult.trans (handed_eq supported items).symm⟩
      by_cases hlabel : 0 ≤ item.label
      · exact .inl hlabel
      · exact .inr (Item.isSupported_iff.mpr (hcritical item hitem (Int.not_le.mp hlabel)))
  · intro supported values base result h
    obtain ⟨items, hvalues, htolerated, hresult⟩ := accept_eq_some.mp h
    exact accept_eq_some.mpr ⟨items, hvalues, fun item hitem => (htolerated item hitem).optional,
      hresult⟩
  · intro convention supported values base result h
    obtain ⟨items, -, htolerated, rfl⟩ := accept_eq_some.mp h
    exact accept_handed htolerated

/-- An element of the message, then an item to skip, a critical one, padding and a supported one. -/
def mixedItems : List Item :=
  [⟨7, some [2]⟩, ⟨-5, some [3]⟩, ⟨0, some [0, 0]⟩, ⟨1, some [4]⟩]

def mixedValues : List Value := .integer 9 :: mixedItems.flatMap Item.toValues

def supportedValues : List Value := [.integer (-5), .bytes [3], .integer 1, .bytes [4]]

theorem accept_grammar_mixed :
    (∀ item ∈ mixedItems, item.label < 0 → (item.label.natAbs : Int) ∈ [1, 5]) ∧
      accept .forcedPairs [1, 5] (mixedValues.drop 1) = some supportedValues ∧
      accept .optionalValue [1, 5] (mixedValues.drop 1) = some supportedValues ∧
      accept .forcedPairs [1, 5] supportedValues = some supportedValues := by
  obtain ⟨hgrammar, hoptional, hagain⟩ := accept_grammar
  have hlaidOut : ∀ item ∈ mixedItems, item.LaidOut .forcedPairs := by
    simp only [mixedItems, List.forall_mem_cons]
    exact ⟨⟨by decide, by decide, fun _ => rfl⟩, ⟨by decide, by decide, fun _ => rfl⟩,
      ⟨by decide, by decide, fun _ => rfl⟩, ⟨by decide, by decide, fun _ => rfl⟩, nofun⟩
  have hcritical : ∀ item ∈ mixedItems, item.label < 0 → (item.label.natAbs : Int) ∈ [1, 5] := by
    decide
  have haccept := (hgrammar .forcedPairs [1, 5] mixedValues 1 supportedValues).mpr
    ⟨mixedItems, rfl, hlaidOut, hcritical, by decide⟩
  exact ⟨hcritical, haccept, hoptional _ _ _ _ haccept, hagain _ _ _ _ _ haccept⟩

end EdhocLab.Ead
