import EdhocLab.Proofs.Cbor.Proper

/-! # Values without their tags

A tagged value is written as its content, so that an encoding is that of a value without tags.  What is
read from it has no tags either, and lists the keys of its maps in order again, where keys that only tags
told apart are one.
-/
namespace EdhocLab.Cbor

namespace Value

mutual

/-- The value without its tags.  The entries of maps stay where they are. -/
def untagged : Value → Value
  | .integer n => .integer n
  | .bytes b => .bytes b
  | .text s => .text s
  | .array items => .array (untaggedItems items)
  | .map entries => .map (untaggedEntries entries)
  | .bool b => .bool b
  | .null => .null
  | .float bits => .float bits
  | .tag _ content => content.untagged

def untaggedItems : List Value → List Value
  | [] => []
  | v :: vs => v.untagged :: untaggedItems vs

def untaggedEntries : List (Value × Value) → List (Value × Value)
  | [] => []
  | (k, v) :: es => (k.untagged, v.untagged) :: untaggedEntries es

end

mutual

/-- What is read from the encoding of a value: the value without its tags, the keys of its maps in
order. -/
def received : Value → Value
  | .integer n => .integer n
  | .bytes b => .bytes b
  | .text s => .text s
  | .array items => .array (receivedItems items)
  | .map entries => .map (ofEntries (receivedEntries entries))
  | .bool b => .bool b
  | .null => .null
  | .float bits => .float bits
  | .tag _ content => content.received

def receivedItems : List Value → List Value
  | [] => []
  | v :: vs => v.received :: receivedItems vs

def receivedEntries : List (Value × Value) → List (Value × Value)
  | [] => []
  | (k, v) :: es => (k.received, v.received) :: receivedEntries es

end

/-- Whether the value as a whole is tagged. -/
def isTag : Value → Bool
  | .tag _ _ => true
  | .integer _ | .bytes _ | .text _ | .array _ | .map _ | .bool _ | .null | .float _ => false

/-- The value has no tags. -/
def IsUntagged (v : Value) : Prop := v.untagged = v

instance (v : Value) : Decidable v.IsUntagged := inferInstanceAs (Decidable (v.untagged = v))

section Lists

variable {items : List Value} {entries : List (Value × Value)}

theorem untaggedItems_eq_map : untaggedItems items = items.map untagged := by
  induction items with
  | nil => rfl
  | cons v vs ih => rw [untaggedItems, ih, List.map_cons]

theorem untaggedEntries_eq_map : untaggedEntries entries = entries.map (Prod.map untagged untagged) := by
  induction entries with
  | nil => rfl
  | cons e es ih => rw [untaggedEntries, ih, List.map_cons, Prod.map]

theorem receivedItems_eq_map : receivedItems items = items.map received := by
  induction items with
  | nil => rfl
  | cons v vs ih => rw [receivedItems, ih, List.map_cons]

theorem receivedEntries_eq_map : receivedEntries entries = entries.map (Prod.map received received) := by
  induction entries with
  | nil => rfl
  | cons e es ih => rw [receivedEntries, ih, List.map_cons, Prod.map]

end Lists

mutual

/-- Tags leave no trace in an encoding. -/
theorem encode_untagged (v : Value) : v.untagged.encode = v.encode := by
  cases v with
  | integer | bytes | text | bool | null | float => rfl
  | array items =>
    have hlength : (untaggedItems items).length = items.length := by
      rw [untaggedItems_eq_map, List.length_map]
    rw [untagged, encode, encode, hlength, encodeItems_untagged items]
  | map entries =>
    have hlength : (untaggedEntries entries).length = entries.length := by
      rw [untaggedEntries_eq_map, List.length_map]
    rw [untagged, encode, encode, hlength, encodeEntries_untagged entries]
  | tag number content => exact encode_untagged content

theorem encodeItems_untagged (vs : List Value) : encodeItems (untaggedItems vs) = encodeItems vs := by
  cases vs with
  | nil => rfl
  | cons v vs => rw [untaggedItems, encodeItems, encodeItems, encode_untagged v, encodeItems_untagged vs]

theorem encodeEntries_untagged (es : List (Value × Value)) :
    encodeEntries (untaggedEntries es) = encodeEntries es := by
  cases es with
  | nil => rfl
  | cons e es =>
    rw [untaggedEntries, encodeEntries, encodeEntries, encode_untagged e.1, encode_untagged e.2,
      encodeEntries_untagged es]

end

section IsUntagged

variable {v : Value} {items : List Value} {entries : List (Value × Value)}

theorem isUntagged_array_iff : (array items).IsUntagged ↔ ∀ v ∈ items, v.IsUntagged := by
  rw [IsUntagged, untagged, array.injEq, untaggedItems_eq_map]
  have h := List.map_inj_left (l := items) (f := untagged) (g := id)
  rwa [List.map_id] at h

theorem isUntagged_map_iff :
    (map entries).IsUntagged ↔ ∀ e ∈ entries, e.1.IsUntagged ∧ e.2.IsUntagged := by
  rw [IsUntagged, untagged, map.injEq, untaggedEntries_eq_map]
  have h := List.map_inj_left (l := entries) (f := Prod.map untagged untagged) (g := id)
  simp only [List.map_id, Prod.ext_iff] at h
  exact h

theorem untagged_ne_tag (v : Value) {number : UInt64} {content : Value} :
    v.untagged ≠ .tag number content := by
  cases v with
  | tag _ inner => exact untagged_ne_tag inner
  | integer | bytes | text | array | map | bool | null | float => exact nofun

theorem IsUntagged.not_isTag (h : v.IsUntagged) : ¬v.isTag := by
  cases v with
  | tag number content => exact absurd h (untagged_ne_tag content)
  | integer | bytes | text | array | map | bool | null | float => exact nofun

end IsUntagged

section Same

variable {v w : Value}

theorem major_sortKey_eq_six : v.sortKey.major = 6 ↔ v.isTag := by
  cases v with
  | integer n => cases n <;> simp [sortKey, isTag]
  | bytes | text | array | map | bool | null | float | tag => simp [sortKey, isTag]

theorem isTag_eq_of_isSame (h : v.isSame w) : v.isTag = w.isTag := by
  rw [Bool.eq_iff_iff, ← major_sortKey_eq_six, ← major_sortKey_eq_six, isSame_iff.mp h]

/-- Tags inside a value do not count in its order. -/
theorem sortKey_untagged (h : ¬v.isTag) : v.untagged.sortKey = v.sortKey := by
  cases v with
  | integer | bytes | text | bool | null | float => rfl
  | array items =>
    rw [untagged, sortKey, sortKey, encodeItems_untagged, untaggedItems_eq_map, List.length_map]
  | map entries =>
    rw [untagged, sortKey, sortKey, encodeEntries_untagged, untaggedEntries_eq_map, List.length_map]
  | tag => exact absurd rfl h

/-- Values that are equal up to tags are the same, unless just one of them is tagged as a whole. -/
theorem isSame_iff_of_untagged_eq (h : v.untagged = w.untagged) :
    v.isSame w ↔ v.isTag = w.isTag := by
  refine ⟨isTag_eq_of_isSame, fun htag => isSame_iff.mpr ?_⟩
  by_cases hv : v.isTag
  · obtain ⟨m, c, rfl⟩ : ∃ m c, v = .tag m c := by cases v <;> simp_all [isTag]
    obtain ⟨n, d, rfl⟩ : ∃ n d, w = .tag n d := by cases w <;> simp_all [isTag]
    rw [sortKey, sortKey, ← encode_untagged c, ← encode_untagged d, show c.untagged = d.untagged from h]
  · rw [← sortKey_untagged hv, h, sortKey_untagged (htag ▸ hv)]

end Same

section Received

mutual

/-- Where the keys of maps are still in order without tags, nothing but the tags is lost. -/
theorem received_eq_untagged (v : Value) (h : v.untagged.isProper) : v.received = v.untagged := by
  cases v with
  | integer | bytes | text | bool | null | float => rfl
  | array items =>
    simp only [untagged, isProper, Bool.and_eq_true] at h
    rw [received, untagged, receivedItems_eq_untaggedItems items h.2]
  | map entries =>
    simp only [untagged, isProper, Bool.and_eq_true] at h
    rw [received, untagged, receivedEntries_eq_untaggedEntries entries h.2,
      ofEntries_of_keysAscend h.1.2]
  | tag number content => exact received_eq_untagged content h

theorem receivedItems_eq_untaggedItems (vs : List Value) (h : allProper (untaggedItems vs)) :
    receivedItems vs = untaggedItems vs := by
  cases vs with
  | nil => rfl
  | cons v vs =>
    simp only [untaggedItems, allProper, Bool.and_eq_true] at h
    rw [receivedItems, untaggedItems, received_eq_untagged v h.1,
      receivedItems_eq_untaggedItems vs h.2]

theorem receivedEntries_eq_untaggedEntries (es : List (Value × Value))
    (h : allEntriesProper (untaggedEntries es)) : receivedEntries es = untaggedEntries es := by
  cases es with
  | nil => rfl
  | cons e es =>
    simp only [untaggedEntries, allEntriesProper, Bool.and_eq_true] at h
    rw [receivedEntries, untaggedEntries, received_eq_untagged e.1 h.1.1,
      received_eq_untagged e.2 h.1.2, receivedEntries_eq_untaggedEntries es h.2]

end

/-- A value without tags is read again as it is. -/
theorem received_of_isUntagged (v : Value) (hproper : v.isProper) (h : v.IsUntagged) :
    v.received = v := by
  have huntagged : v.untagged = v := h
  rw [received_eq_untagged v (huntagged.symm ▸ hproper), huntagged]

theorem map_received_of_isUntagged {vs : List Value} (hproper : allProper vs)
    (h : ∀ v ∈ vs, v.IsUntagged) : vs.map received = vs := by
  have hsame : vs.map received = vs.map id := List.map_congr_left fun v hv =>
    v.received_of_isUntagged (allProper_iff.mp hproper v hv) (h v hv)
  rw [hsame, List.map_id]

end Received

end Value

section Read

open Value (IsUntagged isUntagged_array_iff isUntagged_map_iff forall_ofEntries)

theorem isUntagged_simple {info : Nat} {argument : Argument} {v : Value}
    (h : simple info argument = some v) : v.IsUntagged := by
  unfold simple at h
  split at h <;> cases h <;> rfl

theorem readInvariant_isUntagged : ReadInvariant fun _ v => v.IsUntagged where
  integer _ _ _ := ⟨rfl, rfl⟩
  bytes _ _ _ := rfl
  text _ _ _ := rfl
  array _ _ _ h := isUntagged_array_iff.mpr h
  map _ _ _ h := isUntagged_map_iff.mpr (forall_ofEntries h)
  tagged _ _ h := h
  simple _ _ _ _ _ h := isUntagged_simple h

/-- Nothing that is read has tags. -/
theorem isUntagged_readItem {depth : Nat} {bs rest : Bytes} {v : Value}
    (h : readItem depth bs = some (v, rest)) : v.IsUntagged :=
  readInvariant_isUntagged.readItem h

end Read

end EdhocLab.Cbor
