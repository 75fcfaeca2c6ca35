import EdhocLab.Proofs.Cbor.Untagged

/-! # Encodings are read back

The encoding of a proper value is read back as that value without its tags, whatever follows it, as long
as the reader may enter all its containers.
-/
namespace EdhocLab.Cbor

namespace Value

mutual

/-- How many containers surround the innermost part of a value.  Tags do not count, for they are not
written. -/
def depth : Value → Nat
  | .array items => depthOfItems items + 1
  | .map entries => depthOfEntries entries + 1
  | .tag _ content => content.depth
  | .integer _ | .bytes _ | .text _ | .bool _ | .null | .float _ => 0

def depthOfItems : List Value → Nat
  | [] => 0
  | v :: vs => max v.depth (depthOfItems vs)

def depthOfEntries : List (Value × Value) → Nat
  | [] => 0
  | (k, v) :: es => max (max k.depth v.depth) (depthOfEntries es)

end

theorem depthOfItems_append (vs ws : List Value) :
    depthOfItems (vs ++ ws) = max (depthOfItems vs) (depthOfItems ws) := by
  induction vs with
  | nil => simp [depthOfItems]
  | cons v vs ih => simp [depthOfItems, ih, Nat.max_assoc]

end Value

section Read

variable {nested : Option (Bytes → Option (Value × Bytes))} {bs rest : Bytes}

theorem readWith_eq {first : UInt8} {argument : Argument} {major : Nat}
    (hmajor : first.toNat / 32 = major)
    (hargument : readArgument (first.toNat % 32) bs = some (argument, rest)) :
    readWith nested (first :: bs) = readBody nested major (first.toNat % 32) argument rest := by
  simp [readWith, hargument, hmajor]

/-- Behind the head of an item stands what is announced there. -/
theorem readWith_head {major n : Nat} (hmajor : major < 8) (hn : fitsHead n) (rest : Bytes) :
    ∃ info, readWith nested (head major n ++ rest) =
      readBody nested major info (.definite n) rest := by
  obtain ⟨first, tail, hhead, hfirst, hread⟩ := head_read hmajor hn rest
  exact ⟨_, by rw [hhead, List.cons_append, readWith_eq hfirst hread]⟩

theorem readItem_eq (depth : Nat) : ∃ nested, readItem depth = readWith nested ∧
    ∀ d, depth = d + 1 → nested = some (readItem d) := by
  cases depth with
  | zero => exact ⟨none, rfl, nofun⟩
  | succ depth => exact ⟨some (readItem depth), rfl, fun d h => by cases h; rfl⟩

/-- Entries that are read one by one are brought into order as a map. -/
theorem readWith_map {read : Bytes → Option (Value × Bytes)} {entries found : List (Value × Value)}
    (hfits : fitsHead entries.length)
    (hentries : readMany (readPair read) entries.length (Value.encodeEntries entries ++ rest) =
      some (found, rest)) :
    readWith (some read) ((Value.map entries).encode ++ rest) =
      some (.map (Value.ofEntries found), rest) := by
  obtain ⟨info, h⟩ := readWith_head (show 5 < 8 by decide) hfits (Value.encodeEntries entries ++ rest)
  rw [Value.encode, List.append_assoc, h, readBody, readItems, hentries]
  rfl

end Read

open Value (allProper allEntriesProper depthOfItems depthOfEntries receivedItems receivedEntries)

mutual

/-- The encoding of a proper value is read back as that value without its tags. -/
theorem readItem_encode (v : Value) {depth : Nat} (hproper : v.isProper) (hdepth : v.depth ≤ depth)
    (rest : Bytes) : readItem depth (v.encode ++ rest) = some (v.received, rest) := by
  obtain ⟨nested, hread, hnested⟩ := readItem_eq depth
  rw [hread]
  cases v with
  | integer n =>
    cases n with
    | ofNat n =>
      obtain ⟨info, h⟩ := readWith_head (show 0 < 8 by decide) hproper rest
      rw [Value.encode, h]
      rfl
    | negSucc n =>
      obtain ⟨info, h⟩ := readWith_head (show 1 < 8 by decide) hproper rest
      rw [Value.encode, h]
      rfl
  | bytes b =>
    obtain ⟨info, h⟩ := readWith_head (show 2 < 8 by decide) hproper (b ++ rest)
    rw [Value.encode, List.append_assoc, h, readBody, readString, splitExact_append rfl]
    rfl
  | text s =>
    obtain ⟨info, h⟩ := readWith_head (show 3 < 8 by decide) hproper (Bytes.ofText s ++ rest)
    rw [Value.encode, List.append_assoc, h, readBody, readString, splitExact_append rfl]
    simp [text?_ofText, Value.received]
  | array items =>
    simp only [Value.isProper, Bool.and_eq_true] at hproper
    rw [Value.depth] at hdepth
    obtain ⟨d, rfl⟩ : ∃ d, depth = d + 1 := ⟨depth - 1, by omega⟩
    obtain ⟨info, h⟩ := readWith_head (show 4 < 8 by decide) hproper.1
      (Value.encodeItems items ++ rest)
    rw [Value.encode, List.append_assoc, h, hnested d rfl, readBody, readItems,
      readMany_encodeItems items hproper.2 (by omega) rest]
    rfl
  | map entries =>
    simp only [Value.isProper, Bool.and_eq_true] at hproper
    rw [Value.depth] at hdepth
    obtain ⟨d, rfl⟩ : ∃ d, depth = d + 1 := ⟨depth - 1, by omega⟩
    rw [hnested d rfl,
      readWith_map hproper.1.1 (readMany_encodeEntries entries hproper.2 (by omega) rest)]
    rfl
  | bool b => cases b <;> rfl
  | null => rfl
  | float bits =>
    obtain ⟨first, tail, argument, hencode, hfirst, hargument, hsimple⟩ :=
      encodeFloat_read hproper rest
    rw [Value.encode, hencode, List.cons_append, readWith_eq hfirst hargument, readBody, hsimple]
    rfl
  | tag number content =>
    rw [← hread]
    exact readItem_encode content hproper hdepth rest

theorem readMany_encodeItems (vs : List Value) {depth : Nat} (hproper : allProper vs)
    (hdepth : depthOfItems vs ≤ depth) (rest : Bytes) :
    readMany (readItem depth) vs.length (Value.encodeItems vs ++ rest) =
      some (receivedItems vs, rest) := by
  cases vs with
  | nil => rfl
  | cons v vs =>
    simp only [allProper, Bool.and_eq_true] at hproper
    rw [depthOfItems] at hdepth
    rw [Value.encodeItems, List.append_assoc]
    exact readMany_cons (readItem_encode v hproper.1 (by omega) _)
      (readMany_encodeItems vs hproper.2 (by omega) rest)

theorem readMany_encodeEntries (entries : List (Value × Value)) {depth : Nat}
    (hproper : allEntriesProper entries) (hdepth : depthOfEntries entries ≤ depth) (rest : Bytes) :
    readMany (readPair (readItem depth)) entries.length (Value.encodeEntries entries ++ rest) =
      some (receivedEntries entries, rest) := by
  cases entries with
  | nil => rfl
  | cons entry entries =>
    obtain ⟨k, v⟩ := entry
    simp only [allEntriesProper, Bool.and_eq_true] at hproper
    rw [depthOfEntries] at hdepth
    have hpair : readPair (readItem depth) (k.encode ++ (v.encode ++
        (Value.encodeEntries entries ++ rest))) =
        some ((k.received, v.received), Value.encodeEntries entries ++ rest) := by
      simp [readPair, readItem_encode k hproper.1.1 (by omega : k.depth ≤ depth),
        readItem_encode v hproper.1.2 (by omega : v.depth ≤ depth)]
    rw [Value.encodeEntries, List.append_assoc, List.append_assoc]
    exact readMany_cons hpair (readMany_encodeEntries entries hproper.2 (by omega) rest)

end

theorem encode_ne_nil {v : Value} (h : v.isProper) : v.encode ≠ [] := by
  intro hnil
  have hread := readItem_encode v h (Nat.le_refl _) []
  rw [hnil] at hread
  obtain ⟨nested, hr, -⟩ := readItem_eq v.depth
  rw [hr] at hread
  cases hread

theorem readSequence_encodeItems {vs : List Value} {limit : Nat} (hproper : allProper vs)
    (hdepth : depthOfItems vs ≤ maxDepth) (hlimit : vs.length ≤ limit) :
    readSequence limit (Value.encodeItems vs) = some (vs.map Value.received) := by
  induction vs generalizing limit with
  | nil => cases limit <;> rfl
  | cons v vs ih =>
    obtain ⟨limit, rfl⟩ : ∃ l, limit = l + 1 := ⟨limit - 1, by simp at hlimit; omega⟩
    simp only [allProper, Bool.and_eq_true] at hproper
    rw [depthOfItems] at hdepth
    have hv := readItem_encode v hproper.1 (show v.depth ≤ maxDepth by omega)
      (Value.encodeItems vs)
    have hvs := ih hproper.2 (by omega) (by simpa using hlimit)
    rw [Value.encodeItems]
    cases hbytes : v.encode ++ Value.encodeItems vs with
    | nil => exact absurd (List.append_eq_nil_iff.mp hbytes).1 (encode_ne_nil hproper.1)
    | cons first bs =>
      rw [hbytes] at hv
      simp [readSequence, hv, hvs]

theorem length_le_encodeItems {vs : List Value} (h : allProper vs) :
    vs.length ≤ (Value.encodeItems vs).length := by
  induction vs with
  | nil => simp
  | cons v vs ih =>
    simp only [allProper, Bool.and_eq_true] at h
    have hpos := List.length_pos_iff.mpr (encode_ne_nil h.1)
    have hle := ih h.2
    simp only [Value.encodeItems, List.length_cons, List.length_append]
    omega

/-- A sequence of proper values is decoded from its encoding, but for their tags. -/
theorem decodeSequence_encodeItems {vs : List Value} (hproper : allProper vs)
    (hdepth : depthOfItems vs ≤ maxDepth) :
    decodeSequence (Value.encodeItems vs) = .ok (vs.map Value.received) := by
  rw [decodeSequence, readSequence_encodeItems hproper hdepth (length_le_encodeItems hproper)]

section Received

variable {v : Value}

theorem readItem_encode_self (h : v.isProper) :
    readItem v.depth v.encode = some (v.received, []) := by
  rw [← readItem_encode v h (Nat.le_refl v.depth) [], List.append_nil]

/-- What is read from the encoding of a proper value is proper. -/
theorem isProper_received (h : v.isProper) : v.received.isProper :=
  isProper_readItem (readItem_encode_self h)

theorem isUntagged_received (h : v.isProper) : v.received.IsUntagged :=
  isUntagged_readItem (readItem_encode_self h)

end Received

end EdhocLab.Cbor
