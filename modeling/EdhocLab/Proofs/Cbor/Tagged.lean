import EdhocLab.Proofs.Cbor.WellFormed

/-! # What is read as true

Tags are dropped, so that `true` may be read from more than its own byte: from that byte behind tags, and
from nothing else.
-/
namespace EdhocLab.Cbor

/-- How many bytes of a head follow its first one. -/
def argumentWidth (first : UInt8) : Nat :=
  if first.toNat % 32 < 24 then 0 else 2 ^ (first.toNat % 32 - 24)

/-- The heads of tags, at most `depth` of them. -/
inductive Tags : Nat → Bytes → Prop
  | none {depth : Nat} : Tags depth []
  | tag {depth : Nat} {first : UInt8} {digits tags : Bytes} (hmajor : first.toNat / 32 = 6)
      (hinfo : first.toNat % 32 < 28) (hwidth : digits.length = argumentWidth first)
      (h : Tags depth tags) : Tags (depth + 1) (first :: digits ++ tags)

section Argument

variable {first : UInt8} {argument : Argument} {bs rest : Bytes} {n : Nat}

theorem Announces.digits {major : Nat} {digits : Bytes} (h : Announces major n (first :: digits)) :
    first.toNat % 32 < 28 ∧ digits.length = argumentWidth first := by
  unfold argumentWidth
  generalize hbytes : first :: digits = head at h
  cases h with
  | short hinfo =>
    obtain ⟨rfl, rfl⟩ := List.cons.inj hbytes
    exact ⟨by omega, by rw [if_pos hinfo]; rfl⟩
  | long hinfo hinfo' hdigits =>
    obtain ⟨rfl, rfl⟩ := List.cons.inj hbytes
    exact ⟨hinfo', by rw [if_neg (Nat.not_lt.mpr hinfo), hdigits]⟩

/-- A number in a head takes the bytes that the first one of the head announces. -/
theorem readArgument_definite
    (h : readArgument (first.toNat % 32) bs = some (.definite n, rest)) :
    first.toNat % 32 < 28 ∧ ∃ digits, digits.length = argumentWidth first ∧ bs = digits ++ rest := by
  obtain ⟨digits, hbs, hhead⟩ := announces_of_readArgument h
  obtain ⟨hinfo, hwidth⟩ := hhead.digits
  exact ⟨hinfo, digits, hwidth, hbs⟩

end Argument

theorem simple_true {info : Nat} {argument : Argument}
    (h : simple info argument = some (.bool true)) : info = 21 := by
  unfold simple at h
  split at h <;> first | rfl | cases h

/-- Only a simple item and the content of a tag are read as `true`. -/
theorem readBody_true {nested : Option (Bytes → Option (Value × Bytes))} {major info : Nat}
    {argument : Argument} {bs rest : Bytes}
    (h : readBody nested major info argument bs = some (.bool true, rest)) :
    (major = 7 ∧ info = 21 ∧ rest = bs) ∨
      (major = 6 ∧ (∃ n, argument = .definite n) ∧
        ∃ read, nested = some read ∧ read bs = some (.bool true, rest)) := by
  unfold readBody at h
  split at h
  case h_4 =>
    obtain ⟨_, -, h⟩ := Option.bind_eq_some_iff.mp h
    obtain ⟨_, -, h⟩ := Option.bind_eq_some_iff.mp h
    cases h
  case h_7 n read => exact .inr ⟨rfl, ⟨n, rfl⟩, read, rfl, h⟩
  case h_8 =>
    obtain ⟨v, hv, heq⟩ := Option.map_eq_some_iff.mp h
    cases heq
    exact .inl ⟨rfl, simple_true hv, rfl⟩
  all_goals simp at h

/-- An encoding of `true` is its byte, or an encoding behind the head of a tag. -/
theorem readWith_true {nested : Option (Bytes → Option (Value × Bytes))} {bs rest : Bytes}
    (h : readWith nested bs = some (.bool true, rest)) :
    bs = 0xf5 :: rest ∨ ∃ first digits inner read, bs = first :: digits ++ inner ∧
      first.toNat / 32 = 6 ∧ first.toNat % 32 < 28 ∧ digits.length = argumentWidth first ∧
      nested = some read ∧ read inner = some (.bool true, rest) := by
  cases bs with
  | nil => cases h
  | cons first bs =>
    obtain ⟨⟨argument, inner⟩, hargument, hbody⟩ := Option.bind_eq_some_iff.mp h
    rcases readBody_true hbody with ⟨hmajor, hinfo, rfl⟩ | ⟨hmajor, ⟨n, rfl⟩, read, hread, hinner⟩
    · have hfirst : first = 0xf5 := UInt8.toNat_inj.mp (by
        rw [← Nat.div_add_mod first.toNat 32, hmajor, hinfo]
        rfl)
      rw [hfirst] at hargument
      cases hargument
      exact .inl (by rw [hfirst])
    · obtain ⟨hshort, digits, hwidth, rfl⟩ := readArgument_definite hargument
      exact .inr ⟨first, digits, inner, read, rfl, hmajor, hshort, hwidth, hread, hinner⟩

/-- What is read as `true` is its byte behind tags. -/
theorem exists_tags_of_readItem {depth : Nat} {bs rest : Bytes}
    (h : readItem depth bs = some (.bool true, rest)) :
    ∃ tags, Tags depth tags ∧ bs = tags ++ 0xf5 :: rest := by
  induction depth generalizing bs with
  | zero =>
    rcases readWith_true h with rfl | ⟨_, _, _, _, -, -, -, -, hnested, -⟩
    · exact ⟨[], .none, rfl⟩
    · cases hnested
  | succ depth ih =>
    rcases readWith_true h with rfl | ⟨first, digits, inner, read, rfl, hmajor, hinfo, hwidth,
      hnested, hinner⟩
    · exact ⟨[], .none, rfl⟩
    · cases hnested
      obtain ⟨tags, htags, rfl⟩ := ih hinner
      exact ⟨_, .tag hmajor hinfo hwidth htags, (List.append_assoc ..).symm⟩

/-- A decoded sequence starts with the first of its items. -/
theorem decodeFirst_of_decodeSequence {bs : Bytes} {v : Value} {vs : List Value}
    (h : decodeSequence bs = .ok (v :: vs)) : ∃ rest, decodeFirst bs = .ok (some (v, rest)) ∧
      readItem maxDepth bs = some (v, rest) := by
  obtain ⟨rest, hitem, -⟩ := decodeSequence_eq_cons.mp h
  exact ⟨rest, decodeFirst_eq_some.mpr hitem, hitem⟩

end EdhocLab.Cbor
