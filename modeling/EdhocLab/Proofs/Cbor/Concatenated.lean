import EdhocLab.Proofs.Cbor.Distinction

/-! # What a concatenation was made of

Well-formed items, and encodings of byte strings of whatever length, are told apart where they stand one
behind the other: bytes are put together from them in at most one way.
-/
namespace EdhocLab.Cbor

/-- A well-formed item, or a byte string that is longer than the format can tell. -/
inductive Piece : Bytes → Prop
  | item {bs : Bytes} (h : WellFormed bs) : Piece bs
  | overlong {b : Bytes} (h : ¬fitsHead b.length) : Piece (encodeBytes b)

section Pieces

variable {a b x y : Bytes}

theorem encodeBytes_of_not_fitsHead (h : ¬fitsHead b.length) :
    encodeBytes b = 0x5c :: (Bytes.zeros b.length ++ 1 :: b) := by
  rw [encodeBytes, Value.encode, head_of_not_fitsHead h]
  simp

theorem WellFormed.ne_overlong (h : WellFormed a) (hb : ¬fitsHead b.length) :
    a ++ x ≠ encodeBytes b ++ y := by
  obtain ⟨first, rest, rfl, -, hinfo⟩ := h.first
  rw [encodeBytes_of_not_fitsHead hb]
  intro heq
  rw [List.cons_append, List.cons_append, List.cons.injEq] at heq
  rw [heq.1] at hinfo
  exact hinfo rfl

theorem eq_of_encodeBytes_append (h : encodeBytes a ++ x = encodeBytes b ++ y) : a = b :=
  Value.bytes.inj (encode_append_inj (.bytes a) rfl rfl h).1

theorem Piece.ne_nil (h : Piece a) : a ≠ [] := by
  cases h with
  | item h => exact h.ne_nil
  | overlong h => simp [encodeBytes_of_not_fitsHead h]

theorem wellFormed_encodeBytes (h : fitsHead a.length) : WellFormed (encodeBytes a) :=
  wellFormed_encode (v := .bytes a) h

theorem piece_encodeBytes (b : Bytes) : Piece (encodeBytes b) := by
  by_cases h : fitsHead b.length
  · exact .item (wellFormed_encodeBytes h)
  · exact .overlong h

/-- No piece is a proper prefix of another one. -/
theorem Piece.eq_of_append (ha : Piece a) (hb : Piece b) (h : a ++ x = b ++ y) : a = b := by
  cases ha with
  | item ha =>
    cases hb with
    | item hb => exact ha.eq_of_append hb h
    | overlong hb => exact absurd h (ha.ne_overlong hb)
  | overlong ha =>
    cases hb with
    | item hb => exact absurd h.symm (hb.ne_overlong ha)
    | overlong hb => rw [eq_of_encodeBytes_append h]

/-- Bytes are put together from pieces in at most one way. -/
theorem flatten_inj {as bs : List Bytes} (has : ∀ a ∈ as, Piece a) (hbs : ∀ b ∈ bs, Piece b)
    (h : as.flatten = bs.flatten) : as = bs := by
  have hend : ∀ piece, Piece piece → ∀ more, piece ++ more ≠ [] := by
    intro piece hpiece more heq
    exact hpiece.ne_nil (List.append_eq_nil_iff.mp heq).1
  apply flatten_inj_of_end (P := Piece) (x := []) (y := [])
  · exact fun a ha b x y hb => (has a ha).eq_of_append hb
  · exact fun b hb => hend b (hbs b hb)
  · exact fun a ha => hend a (has a ha)
  · exact hbs
  · simpa using h

/-- The first and the last of several pieces are told apart from those between them. -/
theorem framed_inj {first first' last last' : Bytes} {middle middle' : List Bytes}
    (hfirst : Piece first) (hmiddle : ∀ piece ∈ middle, Piece piece) (hlast : Piece last)
    (hfirst' : Piece first') (hmiddle' : ∀ piece ∈ middle', Piece piece) (hlast' : Piece last')
    (h : first ++ middle.flatten ++ last = first' ++ middle'.flatten ++ last') :
    first = first' ∧ middle = middle' ∧ last = last' := by
  have hpieces : ∀ first middle last, Piece first → (∀ piece ∈ middle, Piece piece) → Piece last →
      ∀ piece ∈ first :: (middle ++ [last]), Piece piece := by
    intro first middle last hfirst hmiddle hlast piece hpiece
    simp only [List.mem_cons, List.mem_append, List.not_mem_nil, or_false] at hpiece
    rcases hpiece with rfl | hpiece | rfl
    · exact hfirst
    · exact hmiddle piece hpiece
    · exact hlast
  have hlist := flatten_inj (hpieces first middle last hfirst hmiddle hlast)
    (hpieces first' middle' last' hfirst' hmiddle' hlast') (by simpa using h)
  rw [List.cons.injEq] at hlist
  obtain ⟨rfl, hrest⟩ := hlist
  obtain ⟨rfl, hend⟩ := List.append_inj' hrest rfl
  exact ⟨rfl, rfl, (List.cons.inj hend).1⟩

theorem encodeBytes_injective : Function.Injective encodeBytes := by
  intro a b h
  exact eq_of_encodeBytes_append (congrArg (· ++ []) h)

/-- Proper values are as different as their encodings, up to tags. -/
theorem encode_inj {v w : Value} (hv : v.isProper) (hw : w.isProper) :
    v.encode = w.encode ↔ v.untagged = w.untagged := by
  rw [← v.encode_untagged, ← w.encode_untagged]
  exact encode_eq_iff (Value.isPlain_untagged v hv) (Value.isPlain_untagged w hw)

theorem map_encode_inj {vs ws : List Value} (hvs : Value.allProper vs) (hws : Value.allProper ws)
    (h : vs.map Value.encode = ws.map Value.encode) :
    vs.map Value.untagged = ws.map Value.untagged := by
  induction vs generalizing ws with
  | nil => rw [List.map_eq_nil_iff.mp h.symm]
  | cons v vs ih =>
    cases ws with
    | nil => simp at h
    | cons w ws =>
      simp only [Value.allProper, Bool.and_eq_true] at hvs hws
      simp only [List.map_cons, List.cons.injEq, encode_inj hvs.1 hws.1] at h
      rw [List.map_cons, List.map_cons, h.1, ih hvs.2 hws.2 h.2]

theorem encodeItems_eq_flatten (vs : List Value) :
    Value.encodeItems vs = (vs.map Value.encode).flatten := by
  induction vs with
  | nil => rfl
  | cons v vs ih => simp [Value.encodeItems, ih]

theorem piece_encode {v : Value} (h : v.isProper) : Piece v.encode :=
  .item (wellFormed_encode h)

theorem piece_of_mem_map_encode {vs : List Value} (h : Value.allProper vs) :
    ∀ piece ∈ vs.map Value.encode, Piece piece := by
  intro piece hpiece
  obtain ⟨v, hv, rfl⟩ := List.mem_map.mp hpiece
  exact piece_encode (Value.allProper_iff.mp h v hv)

end Pieces

end EdhocLab.Cbor
