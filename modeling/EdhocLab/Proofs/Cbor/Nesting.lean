import EdhocLab.Proofs.Cbor.Distinction

/-! # Sequences and their encodings

What is read nests no deeper than its reader may go, for tags and replaced entries leave nothing
behind.  So a sequence is decoded from its encoding exactly if none of its items is too deep or holds a
tag, and whatever was decoded has an encoding of its own that is decoded to the same items.
-/
namespace EdhocLab.Cbor

namespace Value

variable {d : Nat}

theorem depthOfItems_le {vs : List Value} : depthOfItems vs ≤ d ↔ ∀ v ∈ vs, v.depth ≤ d := by
  induction vs with
  | nil => simp [depthOfItems]
  | cons v vs ih => rw [depthOfItems, Nat.max_le, ih, List.forall_mem_cons]

theorem depthOfEntries_le {entries : List (Value × Value)} :
    depthOfEntries entries ≤ d ↔ ∀ e ∈ entries, e.1.depth ≤ d ∧ e.2.depth ≤ d := by
  induction entries with
  | nil => simp [depthOfEntries]
  | cons e entries ih => rw [depthOfEntries, Nat.max_le, Nat.max_le, ih, List.forall_mem_cons]

end Value

section Read

open Value (depthOfItems_le depthOfEntries_le forall_ofEntries)

variable {d : Nat} {bs rest : Bytes} {v : Value}

theorem depth_simple {info : Nat} {argument : Argument} (h : simple info argument = some v) :
    v.depth = 0 := by
  unfold simple at h
  split at h <;> cases h <;> rfl

/-- Containers are one deeper than what is read inside, and tags no deeper. -/
theorem readInvariant_depth : ReadInvariant fun d v => v.depth ≤ d where
  integer d _ _ := ⟨Nat.zero_le d, Nat.zero_le d⟩
  bytes d _ _ := Nat.zero_le d
  text d _ _ := Nat.zero_le d
  array _ _ _ h := Nat.succ_le_succ (depthOfItems_le.mpr h)
  map d _ _ h := Nat.succ_le_succ
    (depthOfEntries_le.mpr (forall_ofEntries (P := fun v => v.depth ≤ d) h))
  tagged _ _ h := Nat.le_succ_of_le h
  simple d _ _ _ _ h := depth_simple h ▸ Nat.zero_le d

/-- No value is deeper than its reader may go. -/
theorem depth_readItem (h : readItem d bs = some (v, rest)) : v.depth ≤ d :=
  readInvariant_depth.readItem h

theorem depth_of_decodeSequence {vs : List Value} (h : decodeSequence bs = .ok vs) :
    ∀ v ∈ vs, v.depth ≤ maxDepth :=
  decodeSequence_forall (fun _ _ _ => depth_readItem) h

theorem isUntagged_of_decodeSequence {vs : List Value} (h : decodeSequence bs = .ok vs) :
    ∀ v ∈ vs, v.IsUntagged :=
  decodeSequence_forall (fun _ _ _ => isUntagged_readItem) h

end Read

/-- Encoded items are decoded to themselves exactly if they have no tags and none of them nests 128
containers or more.  Tags are lost, and with them what they told apart: the value of an item itself, and
the keys of maps and their order.  Decoded items have an encoding that is decoded to them, whatever they
were decoded from. -/
theorem sequence_roundTrip :
    (∀ vs bs, encodeSequence vs = .ok bs →
      (decodeSequence bs = .ok vs ↔ ∀ v ∈ vs, v.depth < 128 ∧ v.IsUntagged)) ∧
    (∀ vs bs, encodeSequence vs = .ok bs → (∀ v ∈ vs, v.depth < 128) →
      decodeSequence bs = .ok (vs.map Value.received) ∧
        ∀ v ∈ vs, (v.received.isSame v ↔ ¬v.isTag ∧ v.untagged.isProper)) ∧
    ∀ bs vs, decodeSequence bs = .ok vs →
      ∃ bs', encodeSequence vs = .ok bs' ∧ decodeSequence bs' = .ok vs := by
  have hwritten : ∀ vs bs, encodeSequence vs = .ok bs → (∀ v ∈ vs, v.depth < 128) →
      decodeSequence bs = .ok (vs.map Value.received) ∧
        ∀ v ∈ vs, (v.received.isSame v ↔ ¬v.isTag ∧ v.untagged.isProper) := by
    intro vs bs hencode hdepth
    obtain ⟨hproper, rfl⟩ := encodeSequence_eq_ok.mp hencode
    exact ⟨decodeSequence_encodeItems hproper
      (Value.depthOfItems_le.mpr fun v hv => Nat.le_of_lt_succ (hdepth v hv)),
      fun v hv => isSame_received_iff (Value.allProper_iff.mp hproper v hv)⟩
  have hkept : ∀ vs bs, encodeSequence vs = .ok bs →
      (∀ v ∈ vs, v.depth < 128 ∧ v.IsUntagged) → decodeSequence bs = .ok vs := by
    intro vs bs hencode hvs
    rw [(hwritten vs bs hencode fun v hv => (hvs v hv).1).1,
      Value.map_received_of_isUntagged (encodeSequence_eq_ok.mp hencode).1 fun v hv => (hvs v hv).2]
  have hread : ∀ bs vs, decodeSequence bs = .ok vs → ∀ v ∈ vs, v.depth < 128 ∧ v.IsUntagged :=
    fun bs vs h v hv => ⟨Nat.lt_succ_of_le (depth_of_decodeSequence h v hv),
      isUntagged_of_decodeSequence h v hv⟩
  refine ⟨fun vs bs hencode => ⟨hread bs vs, hkept vs bs hencode⟩, hwritten, fun bs vs h => ?_⟩
  have hencode := encodeSequence_eq_ok.mpr ⟨allProper_of_decodeSequence h, rfl⟩
  exact ⟨_, hencode, hkept vs _ hencode (hread bs vs h)⟩

/-- The number 5 in two bytes, 1.0 in half precision, a map of unknown length with a key that comes
twice, and a tagged list in which a byte string stands in pieces. -/
def laxBytes : Bytes :=
  [0x18, 0x05, 0xf9, 0x3c, 0x00, 0xbf, 0x20, 0x02, 0x01, 0x02, 0x20, 0x03, 0xff, 0xc1, 0x9f, 0x5f,
    0x41, 0x0a, 0x40, 0x41, 0x0b, 0xff, 0xf7, 0xff]

def laxItems : List Value :=
  [.integer 5, .float 0x3ff0000000000000,
    .map [(.integer 1, .integer 2), (.integer (-1), .integer 3)],
    .array [.bytes [0x0a, 0x0b], .null]]

/-- The same items in their preferred encoding. -/
def strictBytes : Bytes :=
  [0x05, 0xf9, 0x3c, 0x00, 0xa2, 0x01, 0x02, 0x20, 0x03, 0x82, 0x42, 0x0a, 0x0b, 0xf6]

/-- A tagged number, a map with two keys that only a tag tells apart, and a list of a tagged item. -/
def taggedItems : List Value :=
  [.tag 1 (.integer 5), .map [(.integer 4, .bool false), (.tag 1 (.integer 4), .bool true)],
    .array [.tag 2 .null]]

def taggedEncoding : Bytes := [0x05, 0xa2, 0x04, 0xf4, 0x04, 0xf5, 0x81, 0xf6]

theorem sequence_roundTrip_lax :
    decodeSequence laxBytes = .ok laxItems ∧ encodeSequence laxItems = .ok strictBytes ∧
      (∀ v ∈ laxItems, v.depth < 128 ∧ v.IsUntagged) ∧ decodeSequence strictBytes = .ok laxItems ∧
      (∃ bs, encodeSequence laxItems = .ok bs ∧ decodeSequence bs = .ok laxItems) ∧
      encodeSequence taggedItems = .ok taggedEncoding ∧
      decodeSequence taggedEncoding = .ok (taggedItems.map Value.received) ∧
      (Value.array [.null]).isSame (.array [.tag 2 .null]) := by
  obtain ⟨hkept, hwritten, hread⟩ := sequence_roundTrip
  have hlax : decodeSequence laxBytes = .ok laxItems := by rfl
  have hstrict : encodeSequence laxItems = .ok strictBytes := by rfl
  have hplain : ∀ v ∈ laxItems, v.depth < 128 ∧ v.IsUntagged := by decide
  have htagged : encodeSequence taggedItems = .ok taggedEncoding := by rfl
  obtain ⟨hdecoded, hsame⟩ := hwritten taggedItems taggedEncoding htagged (by decide)
  exact ⟨hlax, hstrict, hplain, (hkept laxItems strictBytes hstrict).mpr hplain,
    hread laxBytes laxItems hlax, htagged, hdecoded,
    (hsame (.array [.tag 2 .null]) (by decide)).mpr ⟨by decide, by rfl⟩⟩

/-- Values with tags are decoded to other values, and a map to one that lacks an entry. -/
theorem taggedItems_not_kept :
    encodeSequence taggedItems = .ok taggedEncoding ∧ (∀ v ∈ taggedItems, v.depth < 128) ∧
      ∃ items, decodeSequence taggedEncoding = .ok items ∧ items ≠ taggedItems ∧
        items = [.integer 5, .map [(.integer 4, .bool true)], .array [.null]] ∧
        ¬(Value.integer 5).isSame (.tag 1 (.integer 5)) ∧
        ¬(Value.map [(.integer 4, .bool true)]).isSame
          (.map [(.integer 4, .bool false), (.tag 1 (.integer 4), .bool true)]) := by
  exact ⟨by rfl, by decide, _, by rfl, by decide, rfl, by decide, by decide⟩

end EdhocLab.Cbor
