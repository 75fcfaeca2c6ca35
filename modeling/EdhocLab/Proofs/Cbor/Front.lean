import EdhocLab.Proofs.Cbor.Head

/-! # What a reader takes

Every reader takes a front of the bytes and never looks behind it, which is kept by the ways in which
readers are put together.  Items take at least a byte, in whatever form they are encoded.
-/
namespace EdhocLab.Cbor

/-- The reader takes a front of `least` bytes or more, and does the same whatever follows it. -/
def TakesFront {α : Type} (least : Nat) (read : Bytes → Option (α × Bytes)) : Prop :=
  ∀ bs x rest, read bs = some (x, rest) → ∃ front, least ≤ front.length ∧ bs = front ++ rest ∧
    ∀ more, read (front ++ more) = some (x, more)

namespace TakesFront

variable {α β : Type} {m n : Nat} {read : Bytes → Option (α × Bytes)}

theorem mono (h : TakesFront n read) (hle : m ≤ n) : TakesFront m read := by
  intro bs x rest hread
  obtain ⟨front, hleast, hbs, hfront⟩ := h bs x rest hread
  exact ⟨front, Nat.le_trans hle hleast, hbs, hfront⟩

theorem pure (x : α) : TakesFront 0 fun bs => some (x, bs) := by
  rintro bs x rest ⟨⟩
  exact ⟨[], Nat.le_refl 0, rfl, fun _ => rfl⟩

theorem none : TakesFront n fun _ => (none : Option (α × Bytes)) := nofun

theorem bind {next : α → Bytes → Option (β × Bytes)} (h : TakesFront m read)
    (hnext : ∀ x, TakesFront n (next x)) :
    TakesFront (m + n) fun bs => read bs >>= fun found => next found.1 found.2 := by
  intro bs y rest hread
  obtain ⟨⟨x, middle⟩, hx, hy⟩ := Option.bind_eq_some_iff.mp hread
  obtain ⟨front, hm, rfl, hfront⟩ := h bs x middle hx
  obtain ⟨back, hn, rfl, hback⟩ := hnext x middle y rest hy
  refine ⟨front ++ back, by rw [List.length_append]; omega, (List.append_assoc ..).symm, ?_⟩
  intro more
  simp [hfront, hback]

theorem map (f : α → β) (h : TakesFront n read) :
    TakesFront n fun bs => (read bs).map fun found => (f found.1, found.2) := by
  intro bs y rest hread
  obtain ⟨⟨x, after⟩, hx, heq⟩ := Option.map_eq_some_iff.mp hread
  cases heq
  obtain ⟨front, hleast, hbs, hfront⟩ := h bs x after hx
  exact ⟨front, hleast, hbs, fun more => by simp [hfront]⟩

theorem filter (keep : α → Bool) (h : TakesFront n read) :
    TakesFront n fun bs => (read bs).filter fun found => keep found.1 := by
  intro bs x rest hread
  obtain ⟨hx, hkeep⟩ := Option.filter_eq_some_iff.mp hread
  obtain ⟨front, hleast, hbs, hfront⟩ := h bs x rest hx
  exact ⟨front, hleast, hbs, fun more => by simp [hfront, hkeep]⟩

/-- A reader that looks at the first byte and leaves the others to another one. -/
theorem of_cons (next : UInt8 → Bytes → Option (α × Bytes)) (hnil : read [] = Option.none)
    (hcons : ∀ first bs, read (first :: bs) = next first bs)
    (h : ∀ first, TakesFront 0 (next first)) : TakesFront 1 read := by
  intro bs x rest hread
  cases bs with
  | nil =>
    rw [hnil] at hread
    cases hread
  | cons first bs =>
    rw [hcons] at hread
    obtain ⟨front, -, rfl, hfront⟩ := h first bs x rest hread
    refine ⟨first :: front, by simp, rfl, fun more => ?_⟩
    rw [List.cons_append, hcons]
    exact hfront more

end TakesFront

section Readers

variable {α : Type} {read : Bytes → Option (α × Bytes)}

theorem splitExact_takesFront (n : Nat) : TakesFront n (splitExact n) := by
  intro bs taken rest h
  obtain ⟨rfl, hlength⟩ := splitExact_eq_some h
  exact ⟨taken, Nat.le_of_eq hlength.symm, rfl, fun _ => splitExact_append hlength⟩

theorem readArgument_takesFront (info : Nat) : TakesFront 0 (readArgument info) := by
  show TakesFront 0 fun bs => readArgument info bs
  simp only [readArgument]
  by_cases hsmall : info < 24
  · simp only [hsmall, if_true]
    exact .pure _
  by_cases hwide : info < 28
  · simp only [hsmall, hwide, if_true, if_false]
    have hdigits := (splitExact_takesFront (2 ^ (info - 24))).map fun digits =>
      Argument.definite (Bytes.natOfBE digits)
    exact hdigits.mono (Nat.zero_le _)
  simp only [hsmall, hwide, if_false]
  by_cases hindefinite : info = 31
  · simp only [hindefinite, if_true]
    exact .pure _
  · simp only [hindefinite, if_false]
    exact .none

theorem readMany_takesFront (h : TakesFront 0 read) (count : Nat) :
    TakesFront 0 (readMany read count) := by
  induction count with
  | zero => exact .pure []
  | succ count ih =>
    show TakesFront 0 fun bs => readMany read (count + 1) bs
    exact h.bind fun x => ih.bind fun xs => .pure (x :: xs)

theorem readUntilBreak_cons {limit : Nat} {first : UInt8} (hfirst : first ≠ 0xff) (bs : Bytes) :
    readUntilBreak read (limit + 1) (first :: bs) = (do
      let (x, rest) ← read (first :: bs)
      let (xs, rest) ← readUntilBreak read limit rest
      return (x :: xs, rest)) := by
  rw [readUntilBreak]
  intro rest heq
  cases heq
  exact hfirst rfl

/-- Items up to a break are the same for each limit that their bytes do not reach. -/
theorem readUntilBreak_front (h : TakesFront 1 read) {limit : Nat} {bs rest : Bytes} {xs : List α}
    (hread : readUntilBreak read limit bs = some (xs, rest)) :
    ∃ front, 1 ≤ front.length ∧ bs = front ++ rest ∧ ∀ limit', front.length ≤ limit' →
      ∀ more, readUntilBreak read limit' (front ++ more) = some (xs, more) := by
  induction limit generalizing bs xs with
  | zero => cases hread
  | succ limit ih =>
    unfold readUntilBreak at hread
    split at hread
    · cases hread
      refine ⟨[0xff], Nat.le_refl 1, rfl, ?_⟩
      rintro (_ | limit') hlimit more
      · cases hlimit
      · rfl
    · rename_i hbreak
      obtain ⟨⟨x, middle⟩, hx, hread⟩ := Option.bind_eq_some_iff.mp hread
      obtain ⟨⟨ys, _⟩, hys, hread⟩ := Option.bind_eq_some_iff.mp hread
      cases hread
      obtain ⟨_ | ⟨first, front⟩, hone, rfl, hfront⟩ := h _ x middle hx
      · cases hone
      obtain ⟨back, -, rfl, hback⟩ := ih hys
      have hfirst : first ≠ 0xff := by
        rintro rfl
        exact hbreak _ rfl
      refine ⟨first :: front ++ back, by simp, (List.append_assoc ..).symm, ?_⟩
      rintro (_ | limit') hlimit more
      · cases hlimit
      · have hx : read (first :: (front ++ (back ++ more))) = some (x, back ++ more) :=
          hfront (back ++ more)
        have hys := hback limit' (by simp at hlimit; omega) more
        rw [List.append_assoc, List.cons_append, readUntilBreak_cons hfirst, hx]
        simp [hys]

theorem readUntilBreak_takesFront (h : TakesFront 1 read) :
    TakesFront 1 fun bs => readUntilBreak read bs.length bs := by
  intro bs xs rest hread
  obtain ⟨front, hone, hbs, hfront⟩ := readUntilBreak_front h hread
  exact ⟨front, hone, hbs, fun more => hfront _ (by simp) more⟩

theorem readItems_takesFront (h : TakesFront 1 read) (argument : Argument) :
    TakesFront 0 (readItems read argument) := by
  cases argument with
  | definite n => exact readMany_takesFront (h.mono (Nat.zero_le 1)) n
  | indefinite =>
    exact ((readUntilBreak_takesFront h).filter fun items => fitsHead items.length).mono
      (Nat.zero_le 1)

theorem readChunk_cons (major : Nat) (first : UInt8) (bs : Bytes) :
    readChunk major (first :: bs) =
      if first.toNat / 32 = major then
        readArgument (first.toNat % 32) bs >>= fun found =>
          match found.1 with
          | .definite n => splitExact n found.2
          | .indefinite => none
      else none := by
  rw [readChunk]
  by_cases hmajor : first.toNat / 32 = major
  · rw [if_pos hmajor, if_neg (not_not_intro hmajor)]
    cases readArgument (first.toNat % 32) bs with
    | none => rfl
    | some found => obtain ⟨_ | _, rest⟩ := found <;> rfl
  · rw [if_neg hmajor, if_pos hmajor]
    rfl

theorem readChunk_takesFront (major : Nat) : TakesFront 1 (readChunk major) := by
  have hcontent : ∀ argument : Argument, TakesFront 0 fun bs =>
      match argument with
      | .definite n => splitExact n bs
      | .indefinite => none := by
    rintro (n | _)
    · exact (splitExact_takesFront n).mono (Nat.zero_le n)
    · exact .none
  apply TakesFront.of_cons _ rfl (readChunk_cons major)
  intro first
  by_cases hmajor : first.toNat / 32 = major
  · simp only [hmajor, if_true]
    exact (readArgument_takesFront _).bind hcontent
  · simp only [hmajor, if_false]
    exact .none

theorem readString_takesFront (major : Nat) (argument : Argument) :
    TakesFront 0 (readString major argument) := by
  cases argument with
  | definite n => exact (splitExact_takesFront n).mono (Nat.zero_le n)
  | indefinite =>
    exact (((readUntilBreak_takesFront (readChunk_takesFront major)).map List.flatten).filter
      fun content => fitsHead content.length).mono (Nat.zero_le 1)

theorem readPair_takesFront {read : Bytes → Option (Value × Bytes)} (h : TakesFront 1 read) :
    TakesFront 1 (readPair read) := by
  have hpair := h.bind fun k => h.bind fun v => .pure (k, v)
  exact hpair.mono (by decide)

variable {nested : Option (Bytes → Option (Value × Bytes))}

theorem simple_takesFront (info : Nat) (argument : Argument) :
    TakesFront 0 fun bs => (simple info argument).map fun v => (v, bs) := by
  cases simple info argument with
  | none => exact .none
  | some v => exact .pure v

theorem text_takesFront (content : Bytes) :
    TakesFront 0 fun bs => text? content >>= fun s => some (Value.text s, bs) := by
  cases text? content with
  | none => exact .none
  | some s => exact .pure (Value.text s)

/-- What stands behind a head is read up to its end, one case for each kind of item. -/
theorem readBody_takesFront (hnested : ∀ read, nested = some read → TakesFront 1 read)
    (major info : Nat) (argument : Argument) :
    TakesFront 0 (readBody nested major info argument) := by
  intro bs v rest h
  unfold readBody at h
  split at h
  case h_1 n => exact TakesFront.pure (Value.integer n) _ _ _ h
  case h_2 n => exact TakesFront.pure (Value.integer (Int.negSucc n)) _ _ _ h
  case h_3 => exact (readString_takesFront 2 argument).map Value.bytes _ _ _ h
  case h_4 => exact (readString_takesFront 3 argument).bind text_takesFront _ _ _ h
  case h_5 read => exact (readItems_takesFront (hnested read rfl) argument).map Value.array _ _ _ h
  case h_6 read =>
    exact (readItems_takesFront (readPair_takesFront (hnested read rfl)) argument).map
      (fun entries => Value.map (Value.ofEntries entries)) _ _ _ h
  case h_7 n read => exact (hnested read rfl).mono (Nat.zero_le 1) _ _ _ h
  case h_8 => exact simple_takesFront info argument _ _ _ h
  case h_9 => cases h

theorem readWith_takesFront (hnested : ∀ read, nested = some read → TakesFront 1 read) :
    TakesFront 1 (readWith nested) := by
  apply TakesFront.of_cons (fun first bs => readWith nested (first :: bs)) rfl fun _ _ => rfl
  intro first
  exact (readArgument_takesFront _).bind fun argument => readBody_takesFront hnested _ _ argument

/-- An item is read from a front of the bytes, whatever stands behind it. -/
theorem readItem_takesFront (depth : Nat) : TakesFront 1 (readItem depth) := by
  induction depth with
  | zero => exact readWith_takesFront (fun _ hread => by cases hread)
  | succ depth ih =>
    apply readWith_takesFront
    rintro read ⟨⟩
    exact ih

end Readers

end EdhocLab.Cbor
