import EdhocLab.Cose.Structure
import EdhocLab.Proofs.Cbor.Pairs

/-! # Public keys as maps

The encoding of a public key is that of one map, which holds the key type, the curve and the
coordinates of the key.  So keys on different curves or with different bytes have different
encodings.
-/
namespace EdhocLab.Cose

open Cbor (Value fitsHead arrayToMap decodeSequence pairs forall_mem_pairs encode_inj
  arrayToMap_of_allProper decodeSequence_arrayToMap decodeSequence_eq_singleton readItem_encode)

/-- A public key as a map: key type, curve and coordinates. -/
def keyMap (key : PublicKey) : Value :=
  match key with
  | .x25519 u _ => .map [(.integer 1, .integer 1), (.integer (-1), .integer 4),
      (.integer (-2), .bytes u)]
  | .ed25519 encoded _ => .map [(.integer 1, .integer 1), (.integer (-1), .integer 6),
      (.integer (-2), .bytes encoded)]
  | .p256 point => .map [(.integer 1, .integer 2), (.integer (-1), .integer 1),
      (.integer (-2), .bytes (Bytes.ofNatBE 32 point.x)),
      (.integer (-3), .bytes (Bytes.ofNatBE 32 point.y))]

section Key

variable {key key' : PublicKey}

theorem keyMap_eq_pairs (key : PublicKey) : keyMap key = .map (pairs (keyItems key)) := by
  cases key <;> rfl

theorem length_keyItems (key : PublicKey) :
    (keyItems key).length % 2 = 0 ∧ (keyItems key).length ≤ 23 := by
  cases key <;> simp [keyItems, PublicKey.curve]

/-- The numbers are small, and so are the lengths of the coordinates. -/
theorem allProper_keyItems (key : PublicKey) : Value.allProper (keyItems key) := by
  have hcoordinate : ∀ b : Bytes, b.length = Key.byteLength → (Value.bytes b).isProper := by
    intro b hb
    rw [Value.isProper, hb]
    rfl
  have hx := hcoordinate _ key.length_toBytes
  rw [Value.allProper_iff]
  cases key with
  | x25519 | ed25519 =>
    simp only [keyItems, PublicKey.curve, List.forall_mem_cons]
    exact ⟨rfl, rfl, rfl, rfl, rfl, hx, List.forall_mem_nil _⟩
  | p256 point =>
    have hy := hcoordinate (Bytes.ofNatBE Key.byteLength point.y) (Bytes.length_ofNatBE ..)
    simp only [keyItems, PublicKey.curve, List.forall_mem_cons]
    exact ⟨rfl, rfl, rfl, rfl, rfl, hx, rfl, hy, List.forall_mem_nil _⟩

/-- The labels stand in the order of keys. -/
theorem isProper_keyMap (key : PublicKey) : (keyMap key).isProper := by
  have hitems := Value.allProper_iff.mp (allProper_keyItems key)
  have hentries : Value.allEntriesProper (pairs (keyItems key)) :=
    Value.allEntriesProper_iff.mpr (forall_mem_pairs hitems)
  have hascend : Value.keysAscend (pairs (keyItems key)) := by cases key <;> rfl
  have hfits : fitsHead (pairs (keyItems key)).length := by cases key <;> rfl
  simp only [keyMap_eq_pairs, Value.isProper, hfits, hascend, hentries, Bool.and_self]

theorem isUntagged_keyMap (key : PublicKey) : (keyMap key).IsUntagged := by
  cases key <;> rfl

theorem depth_keyMap (key : PublicKey) : (keyMap key).depth = 1 := by
  cases key <;> rfl

/-- What is written for a public key is the encoding of its map. -/
theorem serializeKey_eq (key : PublicKey) : serializeKey key = .ok (keyMap key).encode := by
  obtain ⟨heven, hshort⟩ := length_keyItems key
  rw [serializeKey, keyMap_eq_pairs]
  exact arrayToMap_of_allProper heven hshort (allProper_keyItems key)

theorem encodeKey_eq (key : PublicKey) : encodeKey key = (keyMap key).encode := by
  rw [encodeKey, serializeKey_eq]
  rfl

/-- The encoding of a public key is decoded to its map and nothing else. -/
theorem decodeSequence_keyMap (key : PublicKey) :
    decodeSequence (keyMap key).encode = .ok [keyMap key] := by
  have hdepth : (keyMap key).depth ≤ Cbor.maxDepth := by
    rw [depth_keyMap]
    decide
  have hread := readItem_encode (keyMap key) (isProper_keyMap key) hdepth []
  rw [List.append_nil, (keyMap key).received_of_isUntagged (isProper_keyMap key)
    (isUntagged_keyMap key)] at hread
  exact decodeSequence_eq_singleton.mpr hread

theorem keyMap_inj : keyMap key = keyMap key' ↔
    key.curve = key'.curve ∧ key.toBytes = key'.toBytes ∧ key.yBytes? = key'.yBytes? := by
  cases key <;> cases key' <;>
    simp [keyMap, PublicKey.curve, PublicKey.toBytes, PublicKey.yBytes?, Key.byteLength]

/-- Keys have one encoding only if they are on one curve and have the same coordinates. -/
theorem serializeKey_inj : serializeKey key = serializeKey key' ↔
    key.curve = key'.curve ∧ key.toBytes = key'.toBytes ∧ key.yBytes? = key'.yBytes? := by
  rw [serializeKey_eq, serializeKey_eq, Except.ok.injEq,
    encode_inj (isProper_keyMap key) (isProper_keyMap key'), isUntagged_keyMap key,
    isUntagged_keyMap key', keyMap_inj]

end Key

/-- Every public key has an encoding, which is also that of its credential: one item that is decoded to
the map of its key type, curve and coordinates.  Keys share it only if they are on one curve and have
the same coordinates.  More generally, an array of keys and values is turned into their map, whatever
the order of the keys, as long as they are different.  If some have tags, these are lost, and the keys
must differ without them. -/
theorem serializeKey_unambiguous :
    (∀ key, ∃ bytes, serializeKey key = .ok bytes ∧ encodeKey key = bytes ∧
      decodeSequence bytes = .ok [keyMap key]) ∧
    (∀ key key', serializeKey key = serializeKey key' ↔
      key.curve = key'.curve ∧ key.toBytes = key'.toBytes ∧ key.yBytes? = key'.yBytes?) ∧
    (∀ items : List Value, items.length % 2 = 0 → items.length ≤ 23 →
      (∀ v ∈ items, (∃ bytes, v.encode? = .ok bytes) ∧ v.depth < 127) →
      (∀ v ∈ items, v.IsUntagged) → ((pairs items).map Prod.fst).Nodup →
      ∃ bytes entries, (Value.array items).encode? >>= arrayToMap = .ok bytes ∧
        decodeSequence bytes = .ok [.map entries] ∧ entries.Perm (pairs items)) ∧
    ∀ items : List Value, items.length % 2 = 0 → items.length ≤ 23 →
      (∀ v ∈ items, (∃ bytes, v.encode? = .ok bytes) ∧ v.depth < 127) →
      ((pairs (items.map Value.received)).map Prod.fst).Nodup →
      ∃ bytes entries, (Value.array items).encode? >>= arrayToMap = .ok bytes ∧
        decodeSequence bytes = .ok [.map entries] ∧
        entries.Perm (pairs (items.map Value.received)) := by
  have hproper : ∀ items : List Value,
      (∀ v ∈ items, (∃ bytes, v.encode? = .ok bytes) ∧ v.depth < 127) → Value.allProper items := by
    intro items hitems
    exact Value.allProper_iff.mpr fun v hv => Value.exists_encode?_iff.mp (hitems v hv).1
  refine ⟨?_, ?_, ?_, ?_⟩
  · intro key
    exact ⟨_, serializeKey_eq key, encodeKey_eq key, decodeSequence_keyMap key⟩
  · intro key key'
    exact serializeKey_inj
  · intro items heven hshort hitems huntagged hkeys
    have hreceived := Value.map_received_of_isUntagged (hproper items hitems) huntagged
    have h := decodeSequence_arrayToMap heven hshort (hproper items hitems) fun v hv => (hitems v hv).2
    rw [hreceived] at h
    exact h hkeys
  · intro items heven hshort hitems hkeys
    exact decodeSequence_arrayToMap heven hshort (hproper items hitems) (fun v hv => (hitems v hv).2)
      hkeys

/-- A list, a byte string and a negative number as keys, out of order, with their values. -/
def unsortedItems : List Value :=
  [.array [], .bytes [7], .bytes [1], .array [.null], .integer (-1), .map [(.bool true, .integer 24)]]

def turnedBytes : Bytes :=
  [0xa3, 0x80, 0x41, 0x07, 0x41, 0x01, 0x81, 0xf6, 0x20, 0xa1, 0xf5, 0x18, 0x18]

def sortedEntries : List (Value × Value) :=
  [(.integer (-1), .map [(.bool true, .integer 24)]), (.bytes [1], .array [.null]),
    (.array [], .bytes [7])]

/-- Two keys that differ in more than their tags, and a value in a tag. -/
def taggedItems : List Value := [.tag 1 (.integer 5), .bool false, .integer 6, .tag 2 (.bool true)]

theorem serializeKey_unambiguous_unsorted :
    (∀ v ∈ unsortedItems, (∃ bytes, v.encode? = .ok bytes) ∧ v.depth < 127) ∧
      ((pairs unsortedItems).map Prod.fst).Nodup ∧
      (Value.array unsortedItems).encode? >>= arrayToMap = .ok turnedBytes ∧
      decodeSequence turnedBytes = .ok [.map sortedEntries] ∧
      sortedEntries.Perm (pairs unsortedItems) ∧
      ((pairs (taggedItems.map Value.received)).map Prod.fst).Nodup ∧
      ∃ bytes entries, (Value.array taggedItems).encode? >>= arrayToMap = .ok bytes ∧
        decodeSequence bytes = .ok [.map entries] ∧
        entries.Perm [(.integer 5, .bool false), (.integer 6, .bool true)] := by
  obtain ⟨-, -, huntagged, hgeneral⟩ := serializeKey_unambiguous
  have hitems : ∀ v ∈ unsortedItems, (∃ bytes, v.encode? = .ok bytes) ∧ v.depth < 127 := by
    simp only [Value.exists_encode?_iff]
    decide
  have htagged : ∀ v ∈ taggedItems, (∃ bytes, v.encode? = .ok bytes) ∧ v.depth < 127 := by
    simp only [Value.exists_encode?_iff]
    decide
  have hkeys : ((pairs unsortedItems).map Prod.fst).Nodup := by decide
  have hreceived : ((pairs (taggedItems.map Value.received)).map Prod.fst).Nodup := by decide
  have hturned : (Value.array unsortedItems).encode? >>= arrayToMap = .ok turnedBytes := by rfl
  have hsorted : decodeSequence turnedBytes = .ok [.map sortedEntries] := by rfl
  obtain ⟨bytes, entries, hbytes, hdecode, hperm⟩ :=
    huntagged unsortedItems rfl (by decide) hitems (by decide) hkeys
  obtain rfl := Except.ok.inj (hturned.symm.trans hbytes)
  rw [hsorted, Except.ok.injEq, List.cons.injEq, Value.map.injEq] at hdecode
  exact ⟨hitems, hkeys, hturned, hsorted, hdecode.1 ▸ hperm, hreceived,
    hgeneral taggedItems rfl (by decide) htagged hreceived⟩

/-- Two keys that only a tag tells apart. -/
def alikeItems : List Value := [.integer 5, .bool false, .tag 1 (.integer 5), .bool true]

/-- Of two keys that only a tag tells apart, one is lost with its value. -/
theorem alikeItems_not_kept :
    (∀ v ∈ alikeItems, (∃ bytes, v.encode? = .ok bytes) ∧ v.depth < 127) ∧
      ((pairs alikeItems).map Prod.fst).Nodup ∧
      (Value.array alikeItems).encode? >>= arrayToMap = .ok [0xa2, 0x05, 0xf4, 0x05, 0xf5] ∧
      decodeSequence [0xa2, 0x05, 0xf4, 0x05, 0xf5] = .ok [.map [(.integer 5, .bool true)]] ∧
      ¬[(.integer 5, .bool true)].Perm (pairs alikeItems) := by
  refine ⟨?_, by decide, by rfl, by rfl, fun h => absurd h.length_eq (by decide)⟩
  simp only [Value.exists_encode?_iff]
  decide

end EdhocLab.Cose
