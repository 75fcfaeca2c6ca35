import EdhocLab.Proofs.Cbor.Front
import EdhocLab.Proofs.Cbor.RoundTrip
import EdhocLab.Proofs.Outcome

/-! # Encodings one behind the other

Since no reader looks behind the item that it reads, sequences are decoded piece by piece, no encoding
of an item is a proper prefix of another one, and the first item of some bytes is the one whose
encoding they start with.
-/
namespace EdhocLab.Cbor

section Sequences

variable {a b bs rest : Bytes} {v w : Value} {vs : List Value}

theorem length_lt_of_readItem {depth : Nat} (h : readItem depth bs = some (v, rest)) :
    rest.length < bs.length := by
  obtain ⟨front, hone, rfl, -⟩ := readItem_takesFront depth bs v rest h
  rw [List.length_append]
  omega

theorem readItem_append {depth : Nat} (h : readItem depth bs = some (v, rest)) (more : Bytes) :
    readItem depth (bs ++ more) = some (v, rest ++ more) := by
  obtain ⟨front, -, rfl, hfront⟩ := readItem_takesFront depth bs v rest h
  rw [List.append_assoc]
  exact hfront (rest ++ more)

theorem readSequence_cons (limit : Nat) (first : UInt8) (bs : Bytes) :
    readSequence (limit + 1) (first :: bs) = (readItem maxDepth (first :: bs)).bind fun found =>
      (readSequence limit found.2).map (found.1 :: ·) := by
  rw [readSequence]
  · cases readItem maxDepth (first :: bs) with
    | none => rfl
    | some found => cases hrest : readSequence limit found.2 <;> simp [hrest]
  · exact List.cons_ne_nil first bs

/-- Each limit is as good as the number of bytes, if it is not lower. -/
theorem readSequence_of_le {limit limit' : Nat} (h : bs.length ≤ limit) (h' : bs.length ≤ limit') :
    readSequence limit bs = readSequence limit' bs := by
  induction limit generalizing bs limit' with
  | zero =>
    rw [List.length_eq_zero_iff.mp (Nat.le_zero.mp h)]
    cases limit' <;> rfl
  | succ limit ih =>
    cases bs with
    | nil => cases limit' <;> rfl
    | cons first bs =>
      obtain ⟨limit', rfl⟩ : ∃ n, limit' = n + 1 := ⟨limit' - 1, by simp at h'; omega⟩
      rw [readSequence_cons, readSequence_cons]
      apply Option.bind_congr
      rintro ⟨v, rest⟩ hitem
      have hlt := length_lt_of_readItem hitem
      rw [ih (show rest.length ≤ limit by omega) (show rest.length ≤ limit' by omega)]

/-- A sequence is its first item and the sequence behind it. -/
theorem decodeSequence_cons (first : UInt8) (bs : Bytes) :
    decodeSequence (first :: bs) = match readItem maxDepth (first :: bs) with
      | none => .error .invalid
      | some (v, rest) => (decodeSequence rest).map (v :: ·) := by
  rw [decodeSequence, List.length_cons, readSequence_cons]
  cases hitem : readItem maxDepth (first :: bs) with
  | none => rfl
  | some found =>
    have hle : found.2.length ≤ bs.length := Nat.le_of_lt_succ (length_lt_of_readItem hitem)
    rw [Option.bind_some, readSequence_of_le hle (Nat.le_refl found.2.length)]
    dsimp only
    rw [decodeSequence]
    cases readSequence found.2.length found.2 <;> rfl

theorem decodeSequence_of_readItem (h : readItem maxDepth bs = some (v, rest)) :
    decodeSequence bs = (decodeSequence rest).map (v :: ·) := by
  obtain ⟨first, bs, rfl⟩ := List.exists_cons_of_length_pos
    (Nat.zero_lt_of_lt (length_lt_of_readItem h))
  rw [decodeSequence_cons, h]

theorem decodeSequence_eq_nil : decodeSequence bs = .ok [] ↔ bs = [] := by
  constructor
  · intro h
    cases bs with
    | nil => rfl
    | cons first bs =>
      rw [decodeSequence_cons] at h
      split at h
      · cases h
      · obtain ⟨vs, -, hvs⟩ := map_eq_ok.mp h
        cases hvs
  · rintro rfl
    rfl

theorem decodeSequence_eq_cons : decodeSequence bs = .ok (v :: vs) ↔
    ∃ rest, readItem maxDepth bs = some (v, rest) ∧ decodeSequence rest = .ok vs := by
  constructor
  · intro h
    cases bs with
    | nil => cases h
    | cons first bs =>
      rw [decodeSequence_cons] at h
      split at h
      · cases h
      · rename_i w rest hitem
        obtain ⟨ws, hrest, hws⟩ := map_eq_ok.mp h
        cases hws
        exact ⟨rest, hitem, hrest⟩
  · rintro ⟨rest, hitem, hrest⟩
    rw [decodeSequence_of_readItem hitem, hrest]
    rfl

/-- A single item is read up to the end of its bytes. -/
theorem decodeSequence_eq_singleton :
    decodeSequence bs = .ok [v] ↔ readItem maxDepth bs = some (v, []) := by
  simp [decodeSequence_eq_cons, decodeSequence_eq_nil]

theorem decodeSequence_append (h : decodeSequence a = .ok vs) (b : Bytes) :
    decodeSequence (a ++ b) = (decodeSequence b).map (vs ++ ·) := by
  induction vs generalizing a with
  | nil =>
    rw [decodeSequence_eq_nil.mp h, List.nil_append]
    cases decodeSequence b <;> rfl
  | cons v vs ih =>
    obtain ⟨rest, hitem, hrest⟩ := decodeSequence_eq_cons.mp h
    rw [decodeSequence_of_readItem (readItem_append hitem b), ih hrest]
    cases decodeSequence b <;> rfl

theorem decodeFirst_eq_some : decodeFirst bs = .ok (some (v, rest)) ↔
    readItem maxDepth bs = some (v, rest) := by
  cases bs with
  | nil => simp [decodeFirst, maxDepth, readItem, readWith]
  | cons first bs =>
    rw [decodeFirst, List.isEmpty_cons, if_neg Bool.false_ne_true]
    cases readItem maxDepth (first :: bs) <;> simp

/-- A preferred encoding stands in front of no other one, at any depth. -/
theorem encode_eq_of_prefix (hv : v.isProper) (hw : w.isProper) (h : v.encode <+: w.encode) :
    v.encode = w.encode := by
  obtain ⟨more, hmore⟩ := h
  have hreadV := readItem_encode v hv (Nat.le_max_left v.depth w.depth) more
  have hreadW := readItem_encode w hw (Nat.le_max_right v.depth w.depth) []
  rw [List.append_nil, ← hmore, hreadV, Option.some.injEq, Prod.mk.injEq] at hreadW
  rw [← hmore, hreadW.2, List.append_nil]

end Sequences

/-- Sequences are decoded piece by piece: what the front of the bytes is decoded to does not depend
on what follows, and whether the whole is decoded depends on that alone.  So no encoding of an item
is a proper prefix of another one, however deep the items are, and the first item of some bytes is
the one with an encoding that they start with, the rest of them being left. -/
theorem decode_composes :
    (∀ a vs, decodeSequence a = .ok vs →
      ∀ b, decodeSequence (a ++ b) = (decodeSequence b).map (vs ++ ·)) ∧
    (∀ a b v w, decodeSequence a = .ok [v] → decodeSequence b = .ok [w] → a <+: b → a = b) ∧
    (∀ a b v w, Value.encode? v = .ok a → Value.encode? w = .ok b → a <+: b → a = b) ∧
    (∀ bs v rest, decodeFirst bs = .ok (some (v, rest)) ↔
      ∃ a, decodeSequence a = .ok [v] ∧ bs = a ++ rest) := by
  refine ⟨fun a vs h => decodeSequence_append h, ?_, ?_, ?_⟩
  · rintro a _ v w ha hb ⟨more, rfl⟩
    have hv := readItem_append (decodeSequence_eq_singleton.mp ha) more
    rw [decodeSequence_eq_singleton.mp hb] at hv
    cases hv
    rw [List.append_nil]
  · intro a b v w ha hb hprefix
    obtain ⟨hv, rfl⟩ := Value.encode?_eq_ok.mp ha
    obtain ⟨hw, rfl⟩ := Value.encode?_eq_ok.mp hb
    exact encode_eq_of_prefix hv hw hprefix
  · intro bs v rest
    rw [decodeFirst_eq_some]
    constructor
    · intro h
      obtain ⟨front, -, rfl, hfront⟩ := readItem_takesFront maxDepth bs v rest h
      have hitem := hfront []
      rw [List.append_nil] at hitem
      exact ⟨front, decodeSequence_eq_singleton.mpr hitem, rfl⟩
    · rintro ⟨a, ha, rfl⟩
      exact readItem_append (decodeSequence_eq_singleton.mp ha) rest

/-- A tagged list of unknown length. -/
def taggedBytes : Bytes := [0xc1, 0x9f, 0x01, 0x20, 0xff]

def taggedItem : Value := .array [.integer 1, .integer (-1)]

/-- A byte string of two bytes that lacks one of them. -/
def cutBytes : Bytes := [0x42, 0x0a]

theorem decode_composes_tagged :
    decodeSequence taggedBytes = .ok [taggedItem] ∧
      decodeSequence (taggedBytes ++ taggedBytes) = .ok [taggedItem, taggedItem] ∧
      decodeSequence (taggedBytes ++ cutBytes) = .error .invalid ∧
      decodeFirst (taggedBytes ++ cutBytes) = .ok (some (taggedItem, cutBytes)) := by
  obtain ⟨hwhole, -, -, hfirst⟩ := decode_composes
  have htagged : decodeSequence taggedBytes = .ok [taggedItem] := by rfl
  have hcut : decodeSequence cutBytes = .error .invalid := by rfl
  refine ⟨htagged, ?_, ?_, (hfirst _ taggedItem cutBytes).mpr ⟨taggedBytes, htagged, rfl⟩⟩
  · rw [hwhole taggedBytes _ htagged, htagged]
    rfl
  · rw [hwhole taggedBytes _ htagged, hcut]
    rfl

end EdhocLab.Cbor
