import EdhocLab.Proofs.Cbor.Concatenation

/-! # Well-formed items

Which bytes are one item is settled by heads and lengths alone, whatever the texts, simple values and
nesting.  No well-formed item is a proper prefix of another one, so that bytes fall into such items in
at most one way.  All that is read is well-formed, and so is the encoding of each proper value.
-/
namespace EdhocLab.Cbor

/-- A head of the given major type that announces a number, in its first byte or behind it. -/
inductive Announces : (major n : Nat) → Bytes → Prop
  | short {first : UInt8} (hinfo : first.toNat % 32 < 24) :
      Announces (first.toNat / 32) (first.toNat % 32) [first]
  | long {first : UInt8} {digits : Bytes} (hinfo : 24 ≤ first.toNat % 32)
      (hinfo' : first.toNat % 32 < 28) (hdigits : digits.length = 2 ^ (first.toNat % 32 - 24)) :
      Announces (first.toNat / 32) (Bytes.natOfBE digits) (first :: digits)

/-- How many bytes follow a head before any items do. -/
def contentLength (major n : Nat) : Nat := if major = 2 ∨ major = 3 then n else 0

/-- How many items follow a head. -/
def itemCount : (major n : Nat) → Nat
  | 4, n => n
  | 5, n => 2 * n
  | 6, _ => 1
  | _, _ => 0

/-- A string of the given major type and of announced length. -/
inductive Chunk (major : Nat) : Bytes → Prop
  | mk {n : Nat} {head content : Bytes} (hhead : Announces major n head)
      (hcontent : content.length = n) : Chunk major (head ++ content)

/-- The bytes of exactly one item. -/
inductive WellFormed : Bytes → Prop
  | definite {major n : Nat} {head content : Bytes} {items : List Bytes}
      (hhead : Announces major n head) (hcontent : content.length = contentLength major n)
      (hcount : items.length = itemCount major n) (hitems : ∀ item ∈ items, WellFormed item) :
      WellFormed (head ++ content ++ items.flatten)
  | chunked {first : UInt8} {chunks : List Bytes}
      (hmajor : first.toNat / 32 = 2 ∨ first.toNat / 32 = 3) (hinfo : first.toNat % 32 = 31)
      (hchunks : ∀ chunk ∈ chunks, Chunk (first.toNat / 32) chunk) :
      WellFormed (first :: (chunks.flatten ++ [0xff]))
  | unbounded {first : UInt8} {items : List Bytes}
      (hmajor : first.toNat / 32 = 4 ∨ first.toNat / 32 = 5 ∧ items.length % 2 = 0)
      (hinfo : first.toNat % 32 = 31) (hitems : ∀ item ∈ items, WellFormed item) :
      WellFormed (first :: (items.flatten ++ [0xff]))

/-- Well-formed items one after the other. -/
def WellFormedSequence (bs : Bytes) : Prop :=
  ∃ items : List Bytes, (∀ item ∈ items, WellFormed item) ∧ bs = items.flatten

section Heads

variable {major major' n n' : Nat} {a b x y : Bytes}

theorem Announces.first (h : Announces major n a) :
    ∃ first digits, a = first :: digits ∧ first.toNat / 32 = major ∧ first.toNat % 32 < 28 := by
  cases h with
  | short hinfo => exact ⟨_, [], rfl, rfl, by omega⟩
  | long hinfo hinfo' hdigits => exact ⟨_, _, rfl, rfl, hinfo'⟩

/-- Of two heads neither is a proper prefix of the other. -/
theorem Announces.append_inj (ha : Announces major n a) (hb : Announces major' n' b)
    (h : a ++ x = b ++ y) : major = major' ∧ n = n' ∧ a = b ∧ x = y := by
  cases ha with
  | short hinfo =>
    cases hb with
    | short hinfo' =>
      simp at h
      simp [h]
    | long hlong hlong' hdigits =>
      simp at h
      rw [h.1] at hinfo
      omega
  | long hlong hlong' hdigits =>
    cases hb with
    | short hinfo =>
      simp at h
      rw [h.1] at hlong
      omega
    | long hlong₂ hlong₂' hdigits' =>
      simp only [List.cons_append, List.cons.injEq] at h
      obtain ⟨rfl, h⟩ := h
      obtain ⟨rfl, rfl⟩ := List.append_inj h (hdigits.trans hdigits'.symm)
      exact ⟨rfl, rfl, rfl, rfl⟩

theorem ne_break_of_info {first : UInt8} (h : first.toNat % 32 < 28) : first ≠ 0xff := by
  rintro rfl
  revert h
  decide

theorem Chunk.append_inj (ha : Chunk major a) (hb : Chunk major' b) (h : a ++ x = b ++ y) :
    a = b := by
  obtain ⟨hhead, hcontent⟩ := ha
  obtain ⟨hhead', hcontent'⟩ := hb
  rw [List.append_assoc, List.append_assoc] at h
  obtain ⟨-, rfl, rfl, hrest⟩ := hhead.append_inj hhead' h
  rw [(List.append_inj hrest (hcontent.trans hcontent'.symm)).1]

theorem Chunk.ne_break (ha : Chunk major a) : a ++ x ≠ 0xff :: y := by
  obtain ⟨hhead, -⟩ := ha
  obtain ⟨first, digits, rfl, -, hinfo⟩ := hhead.first
  simp [ne_break_of_info hinfo]

end Heads

section Lists

variable {P : Bytes → Prop} {as bs : List Bytes} {x y : Bytes}

/-- As many pieces in front of the same bytes are the same, if each is told apart from what follows. -/
theorem flatten_inj_of_length (has : ∀ a ∈ as, ∀ b x y, P b → a ++ x = b ++ y → a = b)
    (hbs : ∀ b ∈ bs, P b) (hlength : as.length = bs.length)
    (h : as.flatten ++ x = bs.flatten ++ y) : as = bs := by
  induction as generalizing bs with
  | nil => exact (List.length_eq_zero_iff.mp hlength.symm).symm
  | cons a as ih =>
    cases bs with
    | nil => simp at hlength
    | cons b bs =>
      rw [List.flatten_cons, List.flatten_cons, List.append_assoc, List.append_assoc] at h
      have hab := has a (by simp) b _ _ (hbs b (by simp)) h
      subst hab
      rw [ih (fun a ha => has a (by simp [ha])) (fun b hb => hbs b (by simp [hb]))
        (by simpa using hlength) (List.append_cancel_left h)]

/-- All pieces in front of the same bytes are the same, if no further one can stand behind them. -/
theorem flatten_inj_of_end (has : ∀ a ∈ as, ∀ b x y, P b → a ++ x = b ++ y → a = b)
    (hx : ∀ b ∈ bs, ∀ y, b ++ y ≠ x) (hy : ∀ a ∈ as, ∀ x, a ++ x ≠ y) (hbs : ∀ b ∈ bs, P b)
    (h : as.flatten ++ x = bs.flatten ++ y) : as = bs := by
  induction as generalizing bs with
  | nil =>
    cases bs with
    | nil => rfl
    | cons b bs =>
      rw [List.flatten_cons, List.append_assoc] at h
      exact absurd h.symm (hx b (by simp) _)
  | cons a as ih =>
    rw [List.flatten_cons, List.append_assoc] at h
    cases bs with
    | nil => exact absurd h (hy a (by simp) _)
    | cons b bs =>
      rw [List.flatten_cons, List.append_assoc] at h
      have hab := has a (by simp) b _ _ (hbs b (by simp)) h
      subst hab
      rw [ih (fun a ha => has a (by simp [ha])) (fun b hb => hx b (by simp [hb]))
        (fun a ha => hy a (by simp [ha])) (fun b hb => hbs b (by simp [hb]))
        (List.append_cancel_left h)]

end Lists

section Items

variable {a b x y : Bytes}

theorem WellFormed.first (h : WellFormed a) :
    ∃ first rest, a = first :: rest ∧ first ≠ 0xff ∧ first.toNat % 32 ≠ 28 := by
  cases h with
  | definite hhead hcontent hcount hitems =>
    obtain ⟨first, digits, rfl, -, hinfo⟩ := hhead.first
    exact ⟨first, _, rfl, ne_break_of_info hinfo, by omega⟩
  | @chunked first chunks hmajor hinfo hchunks =>
    refine ⟨first, _, rfl, ?_, by omega⟩
    rintro rfl
    revert hmajor
    decide
  | @unbounded first items hmajor hinfo hitems =>
    refine ⟨first, _, rfl, ?_, by omega⟩
    rintro rfl
    revert hmajor
    simp

theorem WellFormed.ne_break (h : WellFormed a) : a ++ x ≠ 0xff :: y := by
  obtain ⟨first, rest, rfl, hfirst, -⟩ := h.first
  simp [hfirst]

theorem WellFormed.ne_nil (h : WellFormed a) : a ≠ [] := by
  obtain ⟨first, rest, rfl, -⟩ := h.first
  exact List.cons_ne_nil first rest

/-- A head with a number is none of unknown length. -/
theorem Announces.ne_indefinite {major n : Nat} {first : UInt8} (h : Announces major n a)
    (hinfo : first.toNat % 32 = 31) : a ++ x ≠ first :: y := by
  obtain ⟨first', digits, rfl, -, hinfo'⟩ := h.first
  intro heq
  simp only [List.cons_append, List.cons.injEq] at heq
  rw [heq.1] at hinfo'
  omega

/-- No well-formed item is a proper prefix of another one. -/
theorem WellFormed.eq_of_append (ha : WellFormed a) (hb : WellFormed b) (h : a ++ x = b ++ y) :
    a = b := by
  -- The items inside are told apart by the induction on the first of the two, whose bytes they are.
  induction ha generalizing b x y with
  | definite hhead hcontent hcount hitems ih =>
    cases hb with
    | definite hhead' hcontent' hcount' hitems' =>
      simp only [List.append_assoc] at h
      obtain ⟨rfl, rfl, rfl, hbehind⟩ := hhead.append_inj hhead' h
      obtain ⟨rfl, hflatten⟩ := List.append_inj hbehind (hcontent.trans hcontent'.symm)
      rw [flatten_inj_of_length (fun a ha b x y hb h => ih a ha hb h) hitems'
        (hcount.trans hcount'.symm) hflatten]
    | chunked hmajor hinfo hchunks =>
      rw [List.append_assoc, List.append_assoc] at h
      exact absurd h (hhead.ne_indefinite hinfo)
    | unbounded hmajor hinfo hitems' =>
      rw [List.append_assoc, List.append_assoc] at h
      exact absurd h (hhead.ne_indefinite hinfo)
  | chunked hmajor hinfo hchunks =>
    cases hb with
    | definite hhead hcontent hcount hitems =>
      rw [List.append_assoc, List.append_assoc] at h
      exact absurd h.symm (hhead.ne_indefinite hinfo)
    | chunked hmajor' hinfo' hchunks' =>
      simp only [List.cons_append, List.append_assoc, List.cons.injEq] at h
      obtain ⟨rfl, h⟩ := h
      rw [flatten_inj_of_end (fun a ha b x y hb => (hchunks a ha).append_inj hb)
        (fun b hb y => (hchunks' b hb).ne_break) (fun a ha x => (hchunks a ha).ne_break) hchunks' h]
    | unbounded hmajor' hinfo' hitems =>
      simp only [List.cons_append, List.cons.injEq] at h
      rw [h.1] at hmajor
      omega
  | unbounded hmajor hinfo hitems ih =>
    cases hb with
    | definite hhead hcontent hcount hitems =>
      rw [List.append_assoc, List.append_assoc] at h
      exact absurd h.symm (hhead.ne_indefinite hinfo)
    | chunked hmajor' hinfo' hchunks =>
      simp only [List.cons_append, List.cons.injEq] at h
      rw [h.1] at hmajor
      omega
    | unbounded hmajor' hinfo' hitems' =>
      simp only [List.cons_append, List.append_assoc, List.cons.injEq] at h
      obtain ⟨rfl, h⟩ := h
      rw [flatten_inj_of_end (fun a ha b x y hb h => ih a ha hb h)
        (fun b hb y => (hitems' b hb).ne_break) (fun a ha x => (hitems a ha).ne_break) hitems' h]

end Items

/-- Whatever the reader reads, it takes bytes with the property from the front. -/
def Takes {α : Type} (P : Bytes → Prop) (read : Bytes → Option (α × Bytes)) : Prop :=
  ∀ bs x rest, read bs = some (x, rest) → ∃ front, P front ∧ bs = front ++ rest

section Readers

variable {α : Type} {P : Bytes → Prop} {read : Bytes → Option (α × Bytes)} {bs rest : Bytes}

theorem readMany_takes (h : Takes P read) (count : Nat) :
    Takes (fun front => ∃ items : List Bytes, items.length = count ∧ (∀ item ∈ items, P item) ∧
      front = items.flatten) (readMany read count) := by
  induction count with
  | zero =>
    rintro bs xs rest ⟨⟩
    exact ⟨[], ⟨[], by simp⟩, rfl⟩
  | succ count ih =>
    intro bs xs rest hread
    obtain ⟨⟨x, middle⟩, hx, hread⟩ := Option.bind_eq_some_iff.mp hread
    obtain ⟨⟨ys, _⟩, hys, hread⟩ := Option.bind_eq_some_iff.mp hread
    cases hread
    obtain ⟨item, hitem, rfl⟩ := h bs x middle hx
    obtain ⟨_, ⟨items, hlength, hitems, rfl⟩, rfl⟩ := ih middle ys rest hys
    exact ⟨item ++ items.flatten, ⟨item :: items, by simp [hlength],
      List.forall_mem_cons.mpr ⟨hitem, hitems⟩, rfl⟩, (List.append_assoc ..).symm⟩

theorem readUntilBreak_takes (h : Takes P read) (limit : Nat) :
    Takes (fun front => ∃ items : List Bytes, (∀ item ∈ items, P item) ∧
      front = items.flatten ++ [0xff]) (readUntilBreak read limit) := by
  induction limit with
  | zero => rintro bs xs rest ⟨⟩
  | succ limit ih =>
    intro bs xs rest hread
    unfold readUntilBreak at hread
    split at hread
    · cases hread
      exact ⟨[0xff], ⟨[], by simp⟩, rfl⟩
    · obtain ⟨⟨x, middle⟩, hx, hread⟩ := Option.bind_eq_some_iff.mp hread
      obtain ⟨⟨ys, _⟩, hys, hread⟩ := Option.bind_eq_some_iff.mp hread
      cases hread
      obtain ⟨item, hitem, rfl⟩ := h _ x middle hx
      obtain ⟨_, ⟨items, hitems, rfl⟩, rfl⟩ := ih middle ys rest hys
      exact ⟨item ++ (items.flatten ++ [0xff]), ⟨item :: items,
        List.forall_mem_cons.mpr ⟨hitem, hitems⟩, by simp⟩, (List.append_assoc ..).symm⟩

/-- A number in a head was announced by it. -/
theorem announces_of_readArgument {first : UInt8} {n : Nat}
    (h : readArgument (first.toNat % 32) bs = some (.definite n, rest)) :
    ∃ digits, bs = digits ++ rest ∧ Announces (first.toNat / 32) n (first :: digits) := by
  unfold readArgument at h
  split at h
  · rename_i hinfo
    cases h
    exact ⟨[], rfl, .short hinfo⟩
  · rename_i hlarge
    split at h
    · rename_i hinfo
      obtain ⟨⟨digits, after⟩, hsplit, heq⟩ := Option.map_eq_some_iff.mp h
      cases heq
      obtain ⟨hbs, hlength⟩ := splitExact_eq_some hsplit
      exact ⟨digits, hbs, .long (by omega) hinfo hlength⟩
    · split at h <;> cases h

theorem info_of_readArgument {info : Nat} (h : readArgument info bs = some (.indefinite, rest)) :
    info = 31 ∧ bs = rest := by
  unfold readArgument at h
  split at h
  · cases h
  · split at h
    · simp at h
    · split at h
      · cases h
        exact ⟨‹_›, rfl⟩
      · cases h

theorem readChunk_takes (major : Nat) : Takes (Chunk major) (readChunk major) := by
  intro bs content rest h
  cases bs with
  | nil => cases h
  | cons first bs =>
    rw [readChunk_cons] at h
    split at h
    · rename_i hmajor
      obtain ⟨⟨argument, behind⟩, hargument, hcontent⟩ := Option.bind_eq_some_iff.mp h
      cases argument with
      | definite n =>
        obtain ⟨digits, rfl, hhead⟩ := announces_of_readArgument hargument
        obtain ⟨rfl, hlength⟩ := splitExact_eq_some hcontent
        exact ⟨first :: digits ++ content, .mk (hmajor ▸ hhead) hlength, by simp⟩
      | indefinite => cases hcontent
    · cases h

theorem readString_chunks {major : Nat} {content : Bytes}
    (h : readString major .indefinite bs = some (content, rest)) :
    ∃ chunks : List Bytes, (∀ chunk ∈ chunks, Chunk major chunk) ∧
      bs = chunks.flatten ++ [0xff] ++ rest := by
  obtain ⟨hread, -⟩ := Option.filter_eq_some_iff.mp h
  obtain ⟨⟨contents, _⟩, hcontents, heq⟩ := Option.map_eq_some_iff.mp hread
  cases heq
  obtain ⟨_, ⟨chunks, hchunks, rfl⟩, rfl⟩ :=
    readUntilBreak_takes (readChunk_takes major) _ bs contents rest hcontents
  exact ⟨chunks, hchunks, rfl⟩

end Readers

section Decoder

variable {bs rest : Bytes} {v : Value}

/-- Pairs of items are twice as many items. -/
theorem exists_items_of_pairs {P : Bytes → Prop} {pairs : List Bytes}
    (h : ∀ pair ∈ pairs, ∃ key value, P key ∧ P value ∧ pair = key ++ value) :
    ∃ items : List Bytes, items.length = 2 * pairs.length ∧ (∀ item ∈ items, P item) ∧
      pairs.flatten = items.flatten := by
  induction pairs with
  | nil => exact ⟨[], by simp⟩
  | cons pair pairs ih =>
    obtain ⟨⟨key, value, hkey, hvalue, rfl⟩, hpairs⟩ := List.forall_mem_cons.mp h
    obtain ⟨items, hlength, hitems, hflatten⟩ := ih hpairs
    refine ⟨key :: value :: items, by simp [hlength]; omega, ?_, by simp [hflatten]⟩
    simp only [List.forall_mem_cons]
    exact ⟨hkey, hvalue, hitems⟩

theorem readPair_takes {P : Bytes → Prop} {read : Bytes → Option (Value × Bytes)}
    (h : Takes P read) :
    Takes (fun front => ∃ key value, P key ∧ P value ∧ front = key ++ value) (readPair read) := by
  intro bs entry rest hread
  obtain ⟨⟨k, middle⟩, hk, hread⟩ := Option.bind_eq_some_iff.mp hread
  obtain ⟨⟨w, _⟩, hw, hread⟩ := Option.bind_eq_some_iff.mp hread
  cases hread
  obtain ⟨key, hkey, rfl⟩ := h bs k middle hk
  obtain ⟨value, hvalue, rfl⟩ := h middle w rest hw
  exact ⟨key ++ value, ⟨key, value, hkey, hvalue, rfl⟩, (List.append_assoc ..).symm⟩

variable {nested : Option (Bytes → Option (Value × Bytes))} {major info n : Nat}

/-- Behind a head with a number stand as many bytes and items as it announces. -/
theorem readBody_definite (hnested : ∀ read, nested = some read → Takes WellFormed read)
    (h : readBody nested major info (.definite n) bs = some (v, rest)) :
    ∃ (content : Bytes) (items : List Bytes), content.length = contentLength major n ∧
      items.length = itemCount major n ∧ (∀ item ∈ items, WellFormed item) ∧
      bs = content ++ items.flatten ++ rest := by
  unfold readBody at h
  split at h
  case h_1 => cases h; exact ⟨[], [], by simp [contentLength, itemCount]⟩
  case h_2 => cases h; exact ⟨[], [], by simp [contentLength, itemCount]⟩
  case h_3 =>
    obtain ⟨⟨content, _⟩, hcontent, h⟩ := Option.map_eq_some_iff.mp h
    cases h
    obtain ⟨rfl, hlength⟩ := splitExact_eq_some hcontent
    exact ⟨content, [], by simp [contentLength, itemCount, hlength]⟩
  case h_4 =>
    obtain ⟨⟨content, _⟩, hcontent, h⟩ := Option.bind_eq_some_iff.mp h
    obtain ⟨_, -, h⟩ := Option.bind_eq_some_iff.mp h
    cases h
    obtain ⟨rfl, hlength⟩ := splitExact_eq_some hcontent
    exact ⟨content, [], by simp [contentLength, itemCount, hlength]⟩
  case h_5 read =>
    obtain ⟨⟨vs, _⟩, hitems, h⟩ := Option.map_eq_some_iff.mp h
    cases h
    obtain ⟨_, ⟨items, hlength, hwell, rfl⟩, rfl⟩ :=
      readMany_takes (hnested read rfl) n bs vs rest hitems
    exact ⟨[], items, rfl, hlength, hwell, rfl⟩
  case h_6 read =>
    obtain ⟨⟨entries, _⟩, hentries, h⟩ := Option.map_eq_some_iff.mp h
    cases h
    obtain ⟨_, ⟨pairs, hlength, hpairs, rfl⟩, rfl⟩ :=
      readMany_takes (readPair_takes (hnested read rfl)) n bs entries rest hentries
    obtain ⟨items, hcount, hitems, hflatten⟩ := exists_items_of_pairs hpairs
    exact ⟨[], items, rfl, by rw [hcount, hlength]; rfl, hitems, by rw [hflatten]; rfl⟩
  case h_7 _ read _ =>
    obtain ⟨item, hitem, rfl⟩ := hnested read rfl bs v rest h
    exact ⟨[], [item], rfl, rfl, by simpa using hitem, by simp⟩
  case h_8 =>
    obtain ⟨_, -, h⟩ := Option.map_eq_some_iff.mp h
    cases h
    exact ⟨[], [], by simp [contentLength, itemCount]⟩
  case h_9 => cases h

/-- Behind a head of unknown length stand chunks or items up to a break. -/
theorem readBody_indefinite (hnested : ∀ read, nested = some read → Takes WellFormed read)
    (h : readBody nested major 31 .indefinite bs = some (v, rest)) :
    ((major = 2 ∨ major = 3) ∧ ∃ chunks : List Bytes, (∀ chunk ∈ chunks, Chunk major chunk) ∧
      bs = chunks.flatten ++ [0xff] ++ rest) ∨
    ∃ items : List Bytes, (major = 4 ∨ major = 5 ∧ items.length % 2 = 0) ∧
      (∀ item ∈ items, WellFormed item) ∧ bs = items.flatten ++ [0xff] ++ rest := by
  unfold readBody at h
  split at h
  case h_1 heq => cases heq
  case h_2 heq => cases heq
  case h_3 =>
    obtain ⟨⟨content, _⟩, hcontent, h⟩ := Option.map_eq_some_iff.mp h
    cases h
    exact .inl ⟨.inl rfl, readString_chunks hcontent⟩
  case h_4 =>
    obtain ⟨⟨content, _⟩, hcontent, h⟩ := Option.bind_eq_some_iff.mp h
    obtain ⟨_, -, h⟩ := Option.bind_eq_some_iff.mp h
    cases h
    exact .inl ⟨.inr rfl, readString_chunks hcontent⟩
  case h_5 read =>
    obtain ⟨⟨vs, _⟩, hitems, h⟩ := Option.map_eq_some_iff.mp h
    cases h
    obtain ⟨hitems, -⟩ := Option.filter_eq_some_iff.mp hitems
    obtain ⟨_, ⟨items, hwell, rfl⟩, rfl⟩ :=
      readUntilBreak_takes (hnested read rfl) _ bs vs rest hitems
    exact .inr ⟨items, .inl rfl, hwell, rfl⟩
  case h_6 read =>
    obtain ⟨⟨entries, _⟩, hentries, h⟩ := Option.map_eq_some_iff.mp h
    cases h
    obtain ⟨hentries, -⟩ := Option.filter_eq_some_iff.mp hentries
    obtain ⟨_, ⟨pairs, hpairs, rfl⟩, rfl⟩ :=
      readUntilBreak_takes (readPair_takes (hnested read rfl)) _ bs entries rest hentries
    obtain ⟨items, hcount, hitems, hflatten⟩ := exists_items_of_pairs hpairs
    exact .inr ⟨items, .inr ⟨rfl, by omega⟩, hitems, by rw [hflatten]⟩
  case h_7 heq => cases heq
  case h_8 => cases h
  case h_9 => cases h

theorem readWith_takes (hnested : ∀ read, nested = some read → Takes WellFormed read) :
    Takes WellFormed (readWith nested) := by
  intro bs v rest h
  cases bs with
  | nil => cases h
  | cons first bs =>
    obtain ⟨⟨argument, behind⟩, hargument, hbody⟩ := Option.bind_eq_some_iff.mp h
    cases argument with
    | definite n =>
      obtain ⟨digits, rfl, hhead⟩ := announces_of_readArgument hargument
      obtain ⟨content, items, hcontent, hcount, hitems, rfl⟩ := readBody_definite hnested hbody
      exact ⟨first :: digits ++ content ++ items.flatten, .definite hhead hcontent hcount hitems,
        by simp⟩
    | indefinite =>
      obtain ⟨hinfo, rfl⟩ := info_of_readArgument hargument
      rw [hinfo] at hbody
      rcases readBody_indefinite hnested hbody with ⟨hmajor, chunks, hchunks, rfl⟩ |
        ⟨items, hmajor, hitems, rfl⟩
      · exact ⟨first :: (chunks.flatten ++ [0xff]), .chunked hmajor hinfo hchunks, rfl⟩
      · exact ⟨first :: (items.flatten ++ [0xff]), .unbounded hmajor hinfo hitems, rfl⟩

/-- Every item that is read is well-formed. -/
theorem readItem_takes (depth : Nat) : Takes WellFormed (readItem depth) := by
  induction depth with
  | zero => exact readWith_takes (fun _ hread => by cases hread)
  | succ depth ih =>
    apply readWith_takes
    rintro read ⟨⟩
    exact ih

/-- A decoded sequence consists of well-formed items. -/
theorem wellFormedSequence_of_decodeSequence {vs : List Value}
    (h : decodeSequence bs = .ok vs) : WellFormedSequence bs := by
  induction vs generalizing bs with
  | nil => exact ⟨[], by simp [decodeSequence_eq_nil.mp h]⟩
  | cons v vs ih =>
    obtain ⟨rest, hitem, hrest⟩ := decodeSequence_eq_cons.mp h
    obtain ⟨item, hwell, rfl⟩ := readItem_takes maxDepth bs v rest hitem
    obtain ⟨items, hitems, rfl⟩ := ih hrest
    exact ⟨item :: items, List.forall_mem_cons.mpr ⟨hwell, hitems⟩, rfl⟩

theorem wellFormed_of_decodeSequence (h : decodeSequence bs = .ok [v]) : WellFormed bs := by
  obtain ⟨front, hfront, heq⟩ := readItem_takes maxDepth bs v [] (decodeSequence_eq_singleton.mp h)
  rw [heq, List.append_nil]
  exact hfront

/-- The encoding of a proper value is one well-formed item, however deep. -/
theorem wellFormed_encode (hv : v.isProper) : WellFormed v.encode := by
  obtain ⟨front, hfront, heq⟩ := readItem_takes v.depth _ _ [] (readItem_encode_self hv)
  rw [heq, List.append_nil]
  exact hfront

end Decoder

end EdhocLab.Cbor
