import EdhocLab.Proofs.Cbor.Concatenated
import EdhocLab.Proofs.Handshake.Totality

/-! # Transcripts tell their parts apart

Credentials and plaintexts go into transcript hashes, MACs and signatures as raw bytes, with nothing
around them.  As long as each credential is one item and each plaintext a sequence of items, what is
hashed or authenticated comes from one choice of the parts only, up to tags, which are not written.
-/
namespace EdhocLab.Handshake.KeySchedule

open Cbor (Value WellFormed WellFormedSequence Piece encodeBytes flatten_inj framed_inj
  map_encode_inj encodeBytes_injective piece_encode piece_encodeBytes piece_of_mem_map_encode
  encodeItems_eq_flatten)

section Shapes

variable {gY hashMessage1 input th cred context : Bytes} {cR : Option Value} {idCred : Value}
  {ead : List Value}

theorem th2Input_eq_ok (h : th2Input gY cR hashMessage1 = .ok input) :
    Value.allProper cR.toList ∧ input =
      encodeBytes gY ++ (cR.toList.map Value.encode).flatten ++ encodeBytes hashMessage1 := by
  cases cR with
  | none =>
    cases h
    simp [Value.allProper]
  | some v =>
    obtain ⟨bytes, hv, h⟩ := bind_eq_ok.mp h
    obtain ⟨hproper, rfl⟩ := encodeItem_eq_ok.mp hv
    cases h
    simp [Value.allProper, hproper]

theorem macContext_eq_ok (h : macContext idCred th cred ead = .ok context) :
    idCred.isProper ∧ Value.allProper ead ∧ context =
      (idCred.encode :: encodeBytes th :: cred :: ead.map Value.encode).flatten := by
  obtain ⟨idBytes, hid, h⟩ := bind_eq_ok.mp h
  obtain ⟨eadBytes, head, h⟩ := bind_eq_ok.mp h
  obtain ⟨hproper, rfl⟩ := encodeItem_eq_ok.mp hid
  obtain ⟨hall, rfl⟩ := encodeItems_eq_ok.mp head
  cases h
  exact ⟨hproper, hall, by simp [encodeItems_eq_flatten]⟩

theorem externalData_eq_ok (h : externalData th cred ead = .ok input) :
    Value.allProper ead ∧ input = (encodeBytes th :: cred :: ead.map Value.encode).flatten := by
  obtain ⟨eadBytes, head, h⟩ := bind_eq_ok.mp h
  obtain ⟨hall, rfl⟩ := encodeItems_eq_ok.mp head
  cases h
  exact ⟨hall, by simp [encodeItems_eq_flatten]⟩

end Shapes

section Parts

variable {th th' cred cred' input : Bytes} {ead ead' : List Value}

theorem nextThInput_inj {plaintext plaintext' : Bytes} (hplaintext : WellFormedSequence plaintext)
    (hcred : WellFormed cred) (hplaintext' : WellFormedSequence plaintext')
    (hcred' : WellFormed cred')
    (h : nextThInput th plaintext (some cred) = nextThInput th' plaintext' (some cred')) :
    th = th' ∧ plaintext = plaintext' ∧ cred = cred' := by
  obtain ⟨items, hitems, rfl⟩ := hplaintext
  obtain ⟨items', hitems', rfl⟩ := hplaintext'
  have hparts := framed_inj (piece_encodeBytes th) (fun item hitem => .item (hitems item hitem))
    (.item hcred) (piece_encodeBytes th') (fun item hitem => .item (hitems' item hitem))
    (.item hcred') h
  rw [encodeBytes_injective.eq_iff] at hparts
  exact ⟨hparts.1, by rw [hparts.2.1], hparts.2.2⟩

theorem th2Input_inj {gY gY' hashMessage1 hashMessage1' : Bytes} {cR cR' : Option Value}
    (h : th2Input gY cR hashMessage1 = .ok input)
    (h' : th2Input gY' cR' hashMessage1' = .ok input) :
    gY = gY' ∧ cR.map Value.untagged = cR'.map Value.untagged ∧ hashMessage1 = hashMessage1' := by
  obtain ⟨hproper, rfl⟩ := th2Input_eq_ok h
  obtain ⟨hproper', heq⟩ := th2Input_eq_ok h'
  have hparts := framed_inj (piece_encodeBytes gY) (piece_of_mem_map_encode hproper)
    (piece_encodeBytes hashMessage1) (piece_encodeBytes gY') (piece_of_mem_map_encode hproper')
    (piece_encodeBytes hashMessage1') heq
  rw [encodeBytes_injective.eq_iff, encodeBytes_injective.eq_iff] at hparts
  have hid := map_encode_inj hproper hproper' hparts.2.1
  refine ⟨hparts.1, ?_, hparts.2.2⟩
  cases cR <;> cases cR' <;> simp_all

theorem pieces_of_authenticated (hcred : WellFormed cred) (head : Value.allProper ead) :
    ∀ piece ∈ encodeBytes th :: cred :: ead.map Value.encode, Piece piece := by
  simp only [List.forall_mem_cons]
  exact ⟨piece_encodeBytes th, .item hcred, piece_of_mem_map_encode head⟩

theorem macContext_inj {idCred idCred' : Value} (hcred : WellFormed cred) (hcred' : WellFormed cred')
    (h : macContext idCred th cred ead = .ok input)
    (h' : macContext idCred' th' cred' ead' = .ok input) :
    idCred.untagged = idCred'.untagged ∧ th = th' ∧ cred = cred' ∧
      ead.map Value.untagged = ead'.map Value.untagged := by
  obtain ⟨hid, head, rfl⟩ := macContext_eq_ok h
  obtain ⟨hid', head', heq⟩ := macContext_eq_ok h'
  have hlist := flatten_inj
    (List.forall_mem_cons.mpr ⟨piece_encode hid, pieces_of_authenticated hcred head⟩)
    (List.forall_mem_cons.mpr ⟨piece_encode hid', pieces_of_authenticated hcred' head'⟩) heq
  simp only [List.cons.injEq, encodeBytes_injective.eq_iff, Cbor.encode_inj hid hid'] at hlist
  exact ⟨hlist.1, hlist.2.1, hlist.2.2.1, map_encode_inj head head' hlist.2.2.2⟩

theorem externalData_inj (hcred : WellFormed cred) (hcred' : WellFormed cred')
    (h : externalData th cred ead = .ok input) (h' : externalData th' cred' ead' = .ok input) :
    th = th' ∧ cred = cred' ∧ ead.map Value.untagged = ead'.map Value.untagged := by
  obtain ⟨head, rfl⟩ := externalData_eq_ok h
  obtain ⟨head', heq⟩ := externalData_eq_ok h'
  have hlist := flatten_inj (pieces_of_authenticated hcred head)
    (pieces_of_authenticated hcred' head') heq
  simp only [List.cons.injEq, encodeBytes_injective.eq_iff] at hlist
  exact ⟨hlist.1, hlist.2.1, map_encode_inj head head' hlist.2.2⟩

end Parts

/-- Each transcript hash, each MAC and each external data covers one choice of its parts only, up to the
tags of values, where credentials are single items and plaintexts sequences of them.  The identifier of
the Responder is told apart from its absence, and nothing is asked of lengths and nesting.  Values that
are equal up to tags are the same, unless just one of them is tagged as a whole. -/
theorem transcript_unambiguous :
    (∀ th plaintext cred th' plaintext' cred',
      WellFormedSequence plaintext → WellFormed cred →
      WellFormedSequence plaintext' → WellFormed cred' →
      nextThInput th plaintext (some cred) = nextThInput th' plaintext' (some cred') →
      th = th' ∧ plaintext = plaintext' ∧ cred = cred') ∧
    (∀ gY cR hashMessage1 gY' cR' hashMessage1' input,
      th2Input gY cR hashMessage1 = .ok input → th2Input gY' cR' hashMessage1' = .ok input →
      gY = gY' ∧ cR.map Value.untagged = cR'.map Value.untagged ∧ hashMessage1 = hashMessage1') ∧
    (∀ idCred th cred ead idCred' th' cred' ead' context, WellFormed cred → WellFormed cred' →
      macContext idCred th cred ead = .ok context → macContext idCred' th' cred' ead' = .ok context →
      idCred.untagged = idCred'.untagged ∧ th = th' ∧ cred = cred' ∧
        ead.map Value.untagged = ead'.map Value.untagged) ∧
    (∀ th cred ead th' cred' ead' external, WellFormed cred → WellFormed cred' →
      externalData th cred ead = .ok external → externalData th' cred' ead' = .ok external →
      th = th' ∧ cred = cred' ∧ ead.map Value.untagged = ead'.map Value.untagged) ∧
    ∀ v w : Value, v.untagged = w.untagged → (v.isSame w ↔ v.isTag = w.isTag) := by
  refine ⟨?_, ?_, ?_, ?_, fun v w => Value.isSame_iff_of_untagged_eq⟩
  · intro th plaintext cred th' plaintext' cred' hplaintext hcred hplaintext' hcred' h
    exact nextThInput_inj hplaintext hcred hplaintext' hcred' h
  · intro gY cR hashMessage1 gY' cR' hashMessage1' input h h'
    exact th2Input_inj h h'
  · intro idCred th cred ead idCred' th' cred' ead' context hcred hcred' h h'
    exact macContext_inj hcred hcred' h h'
  · intro th cred ead th' cred' ead' external hcred hcred' h h'
    exact externalData_inj hcred hcred' h h'

/-- A credential of three bytes. -/
def smallCred : Bytes := [0xa1, 0x01, 0x02]

/-- The same credential, tagged and of unknown length. -/
def laxCred : Bytes := [0xc1, 0xbf, 0x01, 0x02, 0xff]

/-- An identity and a MAC of one byte, as they stand in a plaintext. -/
def smallPlaintext : Bytes := [0x2b, 0x41, 0x07]

/-- The context that a MAC over the credential and an item with a value covers. -/
def smallContext : Bytes :=
  [0xa1, 0x04, 0x41, 0x2b, 0x41, 0xaa, 0xa1, 0x01, 0x02, 0x05, 0x41, 0x09]

/-- A MAC that is moved from the plaintext to the credential leaves the input as it is, but no single
item as credential; all else that differs is hashed or authenticated differently. -/
theorem transcript_unambiguous_small :
    WellFormedSequence smallPlaintext ∧ WellFormed smallCred ∧ WellFormedSequence [0x2b] ∧
      nextThInput [0xaa] smallPlaintext (some smallCred) =
        nextThInput [0xaa] [0x2b] (some ([0x41, 0x07] ++ smallCred)) ∧
      ¬WellFormed ([0x41, 0x07] ++ smallCred) ∧
      th2Input [0xaa] none [0xbb] = .ok [0x41, 0xaa, 0x41, 0xbb] ∧
      th2Input [0xaa] (some (.bytes [0xbb])) [] ≠ .ok [0x41, 0xaa, 0x41, 0xbb] ∧
      WellFormed laxCred ∧
      macContext (Cose.kidMap [0x2b]) [0xaa] smallCred [.integer 5, .bytes [9]] = .ok smallContext ∧
      macContext (Cose.kidMap [0x2b]) [0xaa] laxCred [.integer 5, .bytes [9]] ≠ .ok smallContext ∧
      externalData [0xaa] smallCred [.integer 5] = .ok [0x41, 0xaa, 0xa1, 0x01, 0x02, 0x05] ∧
      externalData [0xaa] smallCred [.bytes [5]] ≠ .ok [0x41, 0xaa, 0xa1, 0x01, 0x02, 0x05] := by
  obtain ⟨hnext, hsecond, hmac, hexternal, -⟩ := transcript_unambiguous
  have hitems : Cbor.decodeSequence smallPlaintext = .ok [.integer (-12), .bytes [7]] := by rfl
  have hitem : Cbor.decodeSequence [0x2b] = .ok [.integer (-12)] := by rfl
  have hmap : Cbor.decodeSequence smallCred = .ok [.map [(.integer 1, .integer 2)]] := by rfl
  have hmap' : Cbor.decodeSequence laxCred = .ok [.map [(.integer 1, .integer 2)]] := by rfl
  have hplaintext := Cbor.wellFormedSequence_of_decodeSequence hitems
  have hfront := Cbor.wellFormedSequence_of_decodeSequence hitem
  have hsmall := Cbor.wellFormed_of_decodeSequence hmap
  have hlax := Cbor.wellFormed_of_decodeSequence hmap'
  have hsame : nextThInput [0xaa] smallPlaintext (some smallCred) =
      nextThInput [0xaa] [0x2b] (some ([0x41, 0x07] ++ smallCred)) := by rfl
  have hth2 : th2Input [0xaa] none [0xbb] = .ok [0x41, 0xaa, 0x41, 0xbb] := by rfl
  have hcontext : macContext (Cose.kidMap [0x2b]) [0xaa] smallCred [.integer 5, .bytes [9]] =
      .ok smallContext := by rfl
  have hdata : externalData [0xaa] smallCred [.integer 5] =
      .ok [0x41, 0xaa, 0xa1, 0x01, 0x02, 0x05] := by rfl
  refine ⟨hplaintext, hsmall, hfront, hsame, ?_, hth2, ?_, hlax, hcontext, ?_, hdata, ?_⟩
  · intro hmoved
    have hparts := hnext _ _ _ _ _ _ hplaintext hsmall hfront hmoved hsame
    exact absurd hparts.2.1 (by decide)
  · intro h
    exact absurd (hsecond _ _ _ _ _ _ _ hth2 h).2.1 (by simp)
  · intro h
    exact absurd (hmac _ _ _ _ _ _ _ _ _ hsmall hlax hcontext h).2.2.1 (by decide)
  · intro h
    exact absurd (hexternal _ _ _ _ _ _ _ hsmall hsmall hdata h).2.2 (by decide)

/-- The identifier 5 in a tag, and the header map of a key identifier in a tag. -/
def taggedId : Value := .tag 1 (.integer 5)

def taggedIdCred : Value := .tag 1 (Cose.kidMap [0x2b])

/-- Different values are hashed and authenticated alike if only a tag tells them apart. -/
theorem tags_not_authenticated :
    WellFormed smallCred ∧ ¬taggedId.isSame (.integer 5) ∧
      ¬taggedIdCred.isSame (Cose.kidMap [0x2b]) ∧
      th2Input [0xaa] (some taggedId) [0xbb] = .ok [0x41, 0xaa, 0x05, 0x41, 0xbb] ∧
      th2Input [0xaa] (some (.integer 5)) [0xbb] = .ok [0x41, 0xaa, 0x05, 0x41, 0xbb] ∧
      macContext taggedIdCred [0xaa] smallCred [.integer 5, .bytes [9]] = .ok smallContext ∧
      macContext (Cose.kidMap [0x2b]) [0xaa] smallCred [.integer 5, .bytes [9]] = .ok smallContext ∧
      externalData [0xaa] smallCred [taggedId] = .ok [0x41, 0xaa, 0xa1, 0x01, 0x02, 0x05] ∧
      externalData [0xaa] smallCred [.integer 5] = .ok [0x41, 0xaa, 0xa1, 0x01, 0x02, 0x05] := by
  have hmap : Cbor.decodeSequence smallCred = .ok [.map [(.integer 1, .integer 2)]] := by rfl
  exact ⟨Cbor.wellFormed_of_decodeSequence hmap, by decide, by decide, by rfl, by rfl, by rfl, by rfl,
    by rfl, by rfl⟩

end EdhocLab.Handshake.KeySchedule
