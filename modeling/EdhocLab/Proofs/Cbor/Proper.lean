import EdhocLab.Proofs.Cbor.Float

/-! # What is read is proper

Whatever bytes a value is read from, in whatever form of encoding, it is proper and has an encoding
of its own.
-/
namespace EdhocLab.Cbor

section Text

theorem toList_loop (bs : ByteArray) (i : Nat) (r : List UInt8) :
    ByteArray.toList.loop bs i r = r.reverse ++ bs.data.toList.drop i := by
  fun_induction ByteArray.toList.loop bs i r with
  | case1 i r hi ih =>
    have hi : i < bs.data.toList.length := hi
    rw [ih, List.drop_eq_getElem_cons hi]
    simp [ByteArray.get!, getElem!_pos bs.data i hi]
  | case2 i r hi =>
    have hi : ¬i < bs.data.toList.length := hi
    rw [List.drop_eq_nil_of_le (by omega), List.append_nil]

theorem toList_toByteArray (bs : ByteArray) : bs.toList.toByteArray = bs := by
  have h : bs.toList = bs.data.toList := by
    rw [ByteArray.toList, toList_loop]
    rfl
  rw [h]
  ext1
  simp

theorem toByteArray_toList (bs : List UInt8) : bs.toByteArray.toList = bs := by
  rw [ByteArray.toList, toList_loop]
  simp

theorem text?_ofText (s : String) : text? (Bytes.ofText s) = some s := by
  rw [text?, Bytes.ofText, toList_toByteArray, String.toUTF8_eq_toByteArray, String.fromUTF8?,
    dif_pos s.isValidUTF8]
  rfl

theorem ofText_of_text? {b : Bytes} {s : String} (h : text? b = some s) : Bytes.ofText s = b := by
  rw [text?, String.fromUTF8?] at h
  split at h
  · cases h
    exact toByteArray_toList b
  · cases h

end Text

section Lists

variable {α : Type} {read : Bytes → Option (α × Bytes)} {P : α → Prop}

theorem readMany_cons {bs rest rest' : Bytes} {x : α} {xs : List α} {count : Nat}
    (hx : read bs = some (x, rest)) (hxs : readMany read count rest = some (xs, rest')) :
    readMany read (count + 1) bs = some (x :: xs, rest') := by
  simp [readMany, hx, hxs]

theorem readMany_forall (hread : ∀ bs x rest, read bs = some (x, rest) → P x) {count : Nat}
    {bs rest : Bytes} {xs : List α} (h : readMany read count bs = some (xs, rest)) :
    (∀ x ∈ xs, P x) ∧ xs.length = count := by
  induction count generalizing bs rest xs with
  | zero => cases h; simp
  | succ count ih =>
    obtain ⟨⟨x, rest₁⟩, hx, h⟩ := Option.bind_eq_some_iff.mp h
    obtain ⟨⟨ys, rest₂⟩, hys, h⟩ := Option.bind_eq_some_iff.mp h
    cases h
    obtain ⟨hall, hlength⟩ := ih hys
    exact ⟨List.forall_mem_cons.mpr ⟨hread _ _ _ hx, hall⟩, by simp [hlength]⟩

theorem readUntilBreak_forall (hread : ∀ bs x rest, read bs = some (x, rest) → P x) {limit : Nat}
    {bs rest : Bytes} {xs : List α} (h : readUntilBreak read limit bs = some (xs, rest)) :
    ∀ x ∈ xs, P x := by
  induction limit generalizing bs rest xs with
  | zero => cases h
  | succ limit ih =>
    unfold readUntilBreak at h
    split at h
    · cases h; simp
    · obtain ⟨⟨x, rest₁⟩, hx, h⟩ := Option.bind_eq_some_iff.mp h
      obtain ⟨⟨ys, rest₂⟩, hys, h⟩ := Option.bind_eq_some_iff.mp h
      cases h
      exact List.forall_mem_cons.mpr ⟨hread _ _ _ hx, ih hys⟩

theorem readItems_forall (hread : ∀ bs x rest, read bs = some (x, rest) → P x) {argument : Argument}
    (hargument : ∀ n, argument = .definite n → fitsHead n) {bs rest : Bytes} {xs : List α}
    (h : readItems read argument bs = some (xs, rest)) : (∀ x ∈ xs, P x) ∧ fitsHead xs.length := by
  cases argument with
  | definite n =>
    obtain ⟨hall, hlength⟩ := readMany_forall hread h
    exact ⟨hall, hlength ▸ hargument n rfl⟩
  | indefinite =>
    obtain ⟨h, hlength⟩ := Option.filter_eq_some_iff.mp h
    exact ⟨readUntilBreak_forall hread h, hlength⟩

theorem readPair_forall {read : Bytes → Option (Value × Bytes)} {P : Value → Prop}
    (hread : ∀ bs v rest, read bs = some (v, rest) → P v) (bs : Bytes) (e : Value × Value)
    (rest : Bytes) (h : readPair read bs = some (e, rest)) : P e.1 ∧ P e.2 := by
  obtain ⟨⟨k, rest₁⟩, hk, h⟩ := Option.bind_eq_some_iff.mp h
  obtain ⟨⟨w, rest₂⟩, hw, h⟩ := Option.bind_eq_some_iff.mp h
  cases h
  exact ⟨hread _ _ _ hk, hread _ _ _ hw⟩

theorem fitsHead_of_readString {major : Nat} {argument : Argument}
    (hargument : ∀ n, argument = .definite n → fitsHead n) {bs content rest : Bytes}
    (h : readString major argument bs = some (content, rest)) : fitsHead content.length := by
  cases argument with
  | definite n => exact (splitExact_eq_some h).2 ▸ hargument n rfl
  | indefinite => exact (Option.filter_eq_some_iff.mp h).2

end Lists

namespace Value

theorem allProper_iff {vs : List Value} : allProper vs ↔ ∀ v ∈ vs, v.isProper := by
  induction vs with
  | nil => simp [allProper]
  | cons v vs ih => simp [allProper, ih]

theorem allEntriesProper_iff {entries : List (Value × Value)} :
    allEntriesProper entries ↔ ∀ e ∈ entries, e.1.isProper ∧ e.2.isProper := by
  induction entries with
  | nil => simp [allEntriesProper]
  | cons entry entries ih => simp [allEntriesProper, ih, and_assoc]

end Value

/-- What holds of each value that is read, with a given number of containers and tags that may still be
entered, if it is handed on from the inside of containers and tags to the outside. -/
structure ReadInvariant (P : Nat → Value → Prop) : Prop where
  integer : ∀ depth n, fitsHead n → P depth (.integer n) ∧ P depth (.integer (.negSucc n))
  bytes : ∀ depth b, fitsHead b.length → P depth (.bytes b)
  text : ∀ depth s, fitsHead (Bytes.ofText s).length → P depth (.text s)
  array : ∀ depth items, fitsHead items.length → (∀ v ∈ items, P depth v) →
    P (depth + 1) (.array items)
  map : ∀ depth entries, fitsHead entries.length → (∀ e ∈ entries, P depth e.1 ∧ P depth e.2) →
    P (depth + 1) (.map (Value.ofEntries entries))
  tagged : ∀ depth v, P depth v → P (depth + 1) v
  simple : ∀ depth info argument v, (∀ n, argument = .definite n → fitsHead n) →
    simple info argument = some v → P depth v

namespace ReadInvariant

variable {P : Nat → Value → Prop} (h : ReadInvariant P)
  {nested : Option (Bytes → Option (Value × Bytes))} {depth : Nat} {bs rest : Bytes} {v : Value}
include h

theorem readBody {major info : Nat} {argument : Argument}
    (hnested : ∀ read, nested = some read → ∃ inner, depth = inner + 1 ∧
      ∀ bs v rest, read bs = some (v, rest) → P inner v)
    (hargument : ∀ n, argument = .definite n → fitsHead n)
    (hread : Cbor.readBody nested major info argument bs = some (v, rest)) : P depth v := by
  unfold Cbor.readBody at hread
  split at hread
  · cases hread
    exact (h.integer depth _ (hargument _ rfl)).1
  · cases hread
    exact (h.integer depth _ (hargument _ rfl)).2
  · obtain ⟨⟨b, _⟩, hb, hv⟩ := Option.map_eq_some_iff.mp hread
    cases hv
    exact h.bytes depth b (fitsHead_of_readString hargument hb)
  · obtain ⟨⟨b, _⟩, hb, hread⟩ := Option.bind_eq_some_iff.mp hread
    obtain ⟨s, hs, hv⟩ := Option.bind_eq_some_iff.mp hread
    cases hv
    have hlength := fitsHead_of_readString hargument hb
    rw [← ofText_of_text? hs] at hlength
    exact h.text depth s hlength
  · obtain ⟨inner, rfl, hinner⟩ := hnested _ rfl
    obtain ⟨⟨items, _⟩, hitems, hv⟩ := Option.map_eq_some_iff.mp hread
    cases hv
    obtain ⟨hall, hlength⟩ := readItems_forall hinner hargument hitems
    exact h.array inner items hlength hall
  · obtain ⟨inner, rfl, hinner⟩ := hnested _ rfl
    obtain ⟨⟨entries, _⟩, hentries, hv⟩ := Option.map_eq_some_iff.mp hread
    cases hv
    obtain ⟨hall, hlength⟩ := readItems_forall (readPair_forall hinner) hargument hentries
    exact h.map inner entries hlength hall
  · obtain ⟨inner, rfl, hinner⟩ := hnested _ rfl
    exact h.tagged inner v (hinner _ _ _ hread)
  · obtain ⟨w, hw, hv⟩ := Option.map_eq_some_iff.mp hread
    cases hv
    exact h.simple depth info argument _ hargument hw
  · cases hread

theorem readWith
    (hnested : ∀ read, nested = some read → ∃ inner, depth = inner + 1 ∧
      ∀ bs v rest, read bs = some (v, rest) → P inner v)
    (hread : Cbor.readWith nested bs = some (v, rest)) : P depth v := by
  cases bs with
  | nil => cases hread
  | cons first bs =>
    obtain ⟨⟨argument, after⟩, hargument, hread⟩ := Option.bind_eq_some_iff.mp hread
    refine h.readBody hnested ?_ hread
    rintro n rfl
    exact fitsHead_of_readArgument hargument

/-- An invariant holds of whatever is read. -/
theorem readItem (hread : Cbor.readItem depth bs = some (v, rest)) : P depth v := by
  induction depth generalizing bs rest v with
  | zero =>
    refine h.readWith ?_ hread
    rintro read ⟨⟩
  | succ depth ih =>
    refine h.readWith ?_ hread
    rintro read ⟨⟩
    exact ⟨depth, rfl, fun _ _ _ hinner => ih hinner⟩

end ReadInvariant

section Proper

theorem isProper_simple {info : Nat} {argument : Argument} {v : Value}
    (hargument : ∀ n, argument = .definite n → fitsHead n) (h : simple info argument = some v) :
    v.isProper := by
  unfold simple at h
  split at h <;> cases h <;> try rfl
  · exact FloatFormat.isCanonical_widen_small (.inl rfl) _
  · exact FloatFormat.isCanonical_widen_small (.inr rfl) _
  · rename_i bits
    exact FloatFormat.isCanonical_widen_double (by simpa [fitsHead] using hargument bits rfl)

theorem isProper_ofEntries {entries : List (Value × Value)} (hlength : fitsHead entries.length)
    (h : ∀ e ∈ entries, e.1.isProper ∧ e.2.isProper) :
    (Value.map (Value.ofEntries entries)).isProper := by
  have hfits : fitsHead (Value.ofEntries entries).length := by
    simp only [fitsHead, decide_eq_true_eq] at hlength ⊢
    exact Nat.lt_of_le_of_lt Value.length_ofEntries_le hlength
  have hproper := Value.allEntriesProper_iff.mpr
    (Value.forall_ofEntries (P := fun v => v.isProper) h)
  simp only [Value.isProper, hfits, Value.keysAscend_ofEntries, hproper, Bool.and_self]

theorem readInvariant_isProper : ReadInvariant fun _ v => v.isProper where
  integer _ _ h := ⟨h, h⟩
  bytes _ _ h := h
  text _ _ h := h
  array _ items hlength h := by simp [Value.isProper, hlength, Value.allProper_iff.mpr h]
  map _ _ hlength h := isProper_ofEntries hlength h
  tagged _ _ h := h
  simple _ _ _ _ hargument h := isProper_simple hargument h

/-- Everything that is read is proper. -/
theorem isProper_readItem {depth : Nat} {bs rest : Bytes} {v : Value}
    (h : readItem depth bs = some (v, rest)) : v.isProper :=
  readInvariant_isProper.readItem h

theorem readSequence_forall {P : Value → Prop}
    (hread : ∀ bs v rest, readItem maxDepth bs = some (v, rest) → P v) {limit : Nat} {bs : Bytes}
    {vs : List Value} (h : readSequence limit bs = some vs) : ∀ v ∈ vs, P v := by
  induction limit generalizing bs vs with
  | zero =>
    cases bs with
    | nil => cases h; exact List.forall_mem_nil P
    | cons b bs => cases h
  | succ limit ih =>
    cases bs with
    | nil => cases h; exact List.forall_mem_nil P
    | cons b bs =>
      obtain ⟨⟨v, rest⟩, hv, h⟩ := Option.bind_eq_some_iff.mp h
      obtain ⟨ws, hws, h⟩ := Option.bind_eq_some_iff.mp h
      cases h
      exact List.forall_mem_cons.mpr ⟨hread _ _ _ hv, ih hws⟩

/-- What holds of every item that is read holds of the items of a sequence. -/
theorem decodeSequence_forall {P : Value → Prop}
    (hread : ∀ bs v rest, readItem maxDepth bs = some (v, rest) → P v) {bs : Bytes}
    {vs : List Value} (h : decodeSequence bs = .ok vs) : ∀ v ∈ vs, P v := by
  unfold decodeSequence at h
  split at h
  · rename_i hitems
    cases h
    exact readSequence_forall hread hitems
  · cases h

/-- The items of a sequence are proper. -/
theorem allProper_of_decodeSequence {bs : Bytes} {vs : List Value}
    (h : decodeSequence bs = .ok vs) : Value.allProper vs :=
  Value.allProper_iff.mpr (decodeSequence_forall (fun _ _ _ => isProper_readItem) h)

end Proper

end EdhocLab.Cbor
