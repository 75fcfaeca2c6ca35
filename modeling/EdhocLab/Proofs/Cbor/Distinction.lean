import EdhocLab.Proofs.Cbor.WellFormed

/-! # Encodings tell values apart

A head tells its major type and number, and what decides the order of a value tells its encoding.  So no
encoding stands in front of that of another value without tags, however large the numbers and however long
the strings inside them are.
-/
namespace EdhocLab.Cbor

section Heads

variable {major major' n n' : Nat} {a x y : Bytes}

theorem head_of_not_fitsHead (h : ¬fitsHead n) :
    head major n = UInt8.ofNat (32 * major + 28) :: (Bytes.zeros n ++ [1]) := by
  have hn : ¬n < 2 ^ 64 := by simpa [fitsHead] using h
  simp only [head]
  rw [if_neg (by omega), if_neg (by omega), if_neg (by omega), if_neg (by omega), if_neg h]

theorem zeros_append_inj (h : Bytes.zeros n ++ 1 :: x = Bytes.zeros n' ++ 1 :: y) :
    n = n' ∧ x = y := by
  induction n generalizing n' with
  | zero => cases n' <;> simp_all [Bytes.zeros, List.replicate_succ]
  | succ n ih =>
    cases n' with
    | zero => simp [Bytes.zeros, List.replicate_succ] at h
    | succ n' =>
      obtain ⟨hn, hxy⟩ := ih (List.cons.inj h).2
      exact ⟨by rw [hn], hxy⟩

theorem announces_head (hmajor : major < 8) (hn : fitsHead n) :
    Announces major n (head major n) := by
  obtain ⟨first, tail, hhead, hfirst, hread⟩ := head_read hmajor hn []
  obtain ⟨digits, hdigits, h⟩ := announces_of_readArgument hread
  rw [List.append_nil, List.append_nil] at hdigits
  rw [hhead, hdigits, ← hfirst]
  exact h

theorem Announces.ne_overlong (ha : Announces major n a) (hmajor' : major' < 8)
    (hn' : ¬fitsHead n') : a ++ x ≠ head major' n' ++ y := by
  obtain ⟨first, digits, rfl, -, hinfo⟩ := ha.first
  rw [head_of_not_fitsHead hn']
  intro heq
  rw [List.cons_append, List.cons_append, List.cons.injEq] at heq
  rw [heq.1, (first_split hmajor' (by decide)).2] at hinfo
  omega

/-- Heads of whatever numbers are told apart, whatever stands behind them. -/
theorem head_append_inj (hmajor : major < 8) (hmajor' : major' < 8)
    (h : head major n ++ x = head major' n' ++ y) : major = major' ∧ n = n' ∧ x = y := by
  by_cases hn : fitsHead n
  · have ha := announces_head hmajor hn
    by_cases hn' : fitsHead n'
    · obtain ⟨hmajors, hnumbers, -, hrest⟩ := ha.append_inj (announces_head hmajor' hn') h
      exact ⟨hmajors, hnumbers, hrest⟩
    · exact absurd h (ha.ne_overlong hmajor' hn')
  · by_cases hn' : fitsHead n'
    · exact absurd h.symm ((announces_head hmajor' hn').ne_overlong hmajor hn)
    · rw [head_of_not_fitsHead hn, head_of_not_fitsHead hn'] at h
      simp only [List.cons_append, List.append_assoc, List.cons.injEq] at h
      obtain ⟨hfirst, hrest⟩ := h
      have hmajors : major = major' := by
        rw [← (first_split hmajor (show 28 < 32 by decide)).1, hfirst,
          (first_split hmajor' (show 28 < 32 by decide)).1]
      obtain ⟨hnumbers, hbehind⟩ := zeros_append_inj hrest
      exact ⟨hmajors, hnumbers, hbehind⟩

/-- The first byte of a head holds the major type, also where the number does not fit. -/
theorem head_first (hmajor : major < 8) (n : Nat) :
    ∃ first tail, head major n = first :: tail ∧ first.toNat / 32 = major := by
  by_cases hn : fitsHead n
  · obtain ⟨first, tail, hhead, hfirst, -⟩ := head_read hmajor hn []
    exact ⟨first, tail, hhead, hfirst⟩
  · exact ⟨_, _, head_of_not_fitsHead hn, (first_split hmajor (by decide)).1⟩

end Heads

namespace Value

mutual

/-- Whether a value has no tags, and its floats are double precision patterns with the single NaN.
Nothing is asked of numbers, lengths and the order of keys. -/
def isPlain : Value → Bool
  | .float bits => FloatFormat.isCanonical bits
  | .array items => allPlain items
  | .map entries => entriesPlain entries
  | .tag _ _ => false
  | .integer _ | .bytes _ | .text _ | .bool _ | .null => true

def allPlain : List Value → Bool
  | [] => true
  | v :: vs => v.isPlain && allPlain vs

def entriesPlain : List (Value × Value) → Bool
  | [] => true
  | (k, v) :: es => k.isPlain && v.isPlain && entriesPlain es

end

mutual

/-- Without its tags a proper value is plain. -/
theorem isPlain_untagged (v : Value) (h : v.isProper) : v.untagged.isPlain := by
  cases v with
  | integer | bytes | text | bool | null => rfl
  | float bits => exact h
  | array items =>
    simp only [isProper, Bool.and_eq_true] at h
    exact allPlain_untagged items h.2
  | map entries =>
    simp only [isProper, Bool.and_eq_true] at h
    exact entriesPlain_untagged entries h.2
  | tag number content => exact isPlain_untagged content h

theorem allPlain_untagged (vs : List Value) (h : allProper vs) : allPlain (untaggedItems vs) := by
  cases vs with
  | nil => rfl
  | cons v vs =>
    simp only [allProper, Bool.and_eq_true] at h
    simp only [untaggedItems, allPlain, Bool.and_eq_true]
    exact ⟨isPlain_untagged v h.1, allPlain_untagged vs h.2⟩

theorem entriesPlain_untagged (es : List (Value × Value)) (h : allEntriesProper es) :
    entriesPlain (untaggedEntries es) := by
  cases es with
  | nil => rfl
  | cons e es =>
    simp only [allEntriesProper, Bool.and_eq_true] at h
    simp only [untaggedEntries, entriesPlain, Bool.and_eq_true]
    exact ⟨⟨isPlain_untagged e.1 h.1.1, isPlain_untagged e.2 h.1.2⟩, entriesPlain_untagged es h.2⟩

end

/-- Without tags, values have a head and something behind it, or are simple. -/
theorem major_sortKey_of_isPlain {v : Value} (h : v.isPlain) :
    v.sortKey.major < 6 ∨ v.sortKey.major = 7 := by
  cases v with
  | integer n => cases n <;> simp [sortKey]
  | bytes | text | array | map | bool | null | float => simp [sortKey]
  | tag => cases h

end Value

section Values

open Value (isPlain allPlain entriesPlain)

variable {v w : Value} {x y : Bytes}

theorem encodeFloat_first (bits : Nat) :
    ∃ first tail, encodeFloat bits = first :: tail ∧ first.toNat / 32 = 7 := by
  unfold encodeFloat
  repeat' split
  all_goals exact ⟨_, _, rfl, by decide⟩

/-- The first byte of an encoding holds the major type of the value. -/
theorem encode_first (hv : v.isPlain) :
    ∃ first tail, v.encode = first :: tail ∧ first.toNat / 32 = v.sortKey.major := by
  rcases Value.major_sortKey_of_isPlain hv with hlt | hsimple
  · obtain ⟨first, tail, hhead, hfirst⟩ :=
      head_first (Nat.lt_of_lt_of_le hlt (by decide)) v.sortKey.size
    refine ⟨first, tail ++ v.sortKey.bytes, ?_, hfirst⟩
    rw [v.encode_eq_sortKey, SortKey.encode, if_pos hlt, hhead, List.cons_append]
  · cases v with
    | integer n => cases n <;> simp [Value.sortKey] at hsimple
    | bytes | text | array | map => simp [Value.sortKey] at hsimple
    | bool b => cases b <;> exact ⟨_, [], rfl, by decide⟩
    | null => exact ⟨_, [], rfl, by decide⟩
    | float bits => exact encodeFloat_first bits
    | tag => cases hv

theorem major_eq_of_append (hv : v.isPlain) (hw : w.isPlain) (h : v.encode ++ x = w.encode ++ y) :
    v.sortKey.major = w.sortKey.major := by
  obtain ⟨first, tail, hv, hfirst⟩ := encode_first hv
  obtain ⟨first', tail', hw, hfirst'⟩ := encode_first hw
  rw [hv, hw, List.cons_append, List.cons_append, List.cons.injEq] at h
  rw [← hfirst, ← hfirst', h.1]

/-- Values with a head that start alike have equal keys up to what follows. -/
theorem key_eq_of_append (hlt : v.sortKey.major < 6)
    (hmajor : v.sortKey.major = w.sortKey.major) (h : v.encode ++ x = w.encode ++ y) :
    v.sortKey.size = w.sortKey.size ∧ v.sortKey.bytes ++ x = w.sortKey.bytes ++ y := by
  rw [v.encode_eq_sortKey, w.encode_eq_sortKey, SortKey.encode, SortKey.encode, if_pos hlt,
    if_pos (hmajor ▸ hlt), List.append_assoc, List.append_assoc] at h
  exact (head_append_inj (by omega) (by omega) h).2

theorem readItem_simple (hv : v.isPlain) (hsimple : v.sortKey.major = 7) (x : Bytes) :
    readItem 0 (v.encode ++ x) = some (v, x) := by
  cases v with
  | integer n => cases n <;> simp [Value.sortKey] at hsimple
  | bytes | text | array | map => simp [Value.sortKey] at hsimple
  | bool | null => exact readItem_encode _ rfl (Nat.le_refl 0) x
  | float bits => exact readItem_encode (.float bits) hv (Nat.le_refl 0) x
  | tag => cases hv

theorem simple_append_inj (hv : v.isPlain) (hw : w.isPlain) (hsimple : v.sortKey.major = 7)
    (h : v.encode ++ x = w.encode ++ y) : v = w ∧ x = y := by
  have hread := readItem_simple hv hsimple x
  rw [h, readItem_simple hw (by rw [← major_eq_of_append hv hw h, hsimple])] at hread
  cases hread
  exact ⟨rfl, rfl⟩

theorem ofText_injective : Function.Injective Bytes.ofText := by
  intro s t h
  have htext := text?_ofText s
  rw [h, text?_ofText] at htext
  exact (Option.some.inj htext).symm

mutual

/-- Different values are told apart by their encodings, whatever stands behind them. -/
theorem encode_append_inj (v : Value) {w : Value} {x y : Bytes} (hv : v.isPlain)
    (hw : w.isPlain) (h : v.encode ++ x = w.encode ++ y) : v = w ∧ x = y := by
  have hmajor := major_eq_of_append hv hw h
  -- The first bytes fix the major type.  Within major type 7 the values are told apart as a whole,
  -- within any other by the argument and what stands behind it.
  by_cases hsimple : v.sortKey.major = 7
  · exact simple_append_inj hv hw hsimple h
  have hlt := (Value.major_sortKey_of_isPlain hv).resolve_right hsimple
  obtain ⟨hsize, hbytes⟩ := key_eq_of_append hlt hmajor h
  cases v with
  | integer m =>
    cases w with
    | integer n =>
      cases m <;> cases n <;> simp_all [Value.sortKey]
    | bytes | text | array | map | bool | null | float | tag => cases m <;> cases hmajor
  | bytes b =>
    cases w with
    | bytes c =>
      obtain ⟨rfl, hxy⟩ := List.append_inj hbytes hsize
      exact ⟨rfl, hxy⟩
    | integer n => cases n <;> cases hmajor
    | text | array | map | bool | null | float | tag => cases hmajor
  | text s =>
    cases w with
    | text t =>
      obtain ⟨htext, hxy⟩ := List.append_inj hbytes hsize
      exact ⟨by rw [ofText_injective htext], hxy⟩
    | integer n => cases n <;> cases hmajor
    | bytes | array | map | bool | null | float | tag => cases hmajor
  | array items =>
    cases w with
    | array items' =>
      obtain ⟨rfl, hxy⟩ := encodeItems_append_inj items hv hw hsize hbytes
      exact ⟨rfl, hxy⟩
    | integer n => cases n <;> cases hmajor
    | bytes | text | map | bool | null | float | tag => cases hmajor
  | map entries =>
    cases w with
    | map entries' =>
      obtain ⟨rfl, hxy⟩ := encodeEntries_append_inj entries hv hw hsize hbytes
      exact ⟨rfl, hxy⟩
    | integer n => cases n <;> cases hmajor
    | bytes | text | array | bool | null | float | tag => cases hmajor
  | bool | null | float => exact absurd rfl hsimple
  | tag => cases hv

theorem encodeItems_append_inj (vs : List Value) {ws : List Value} {x y : Bytes}
    (hvs : allPlain vs) (hws : allPlain ws) (hlength : vs.length = ws.length)
    (h : Value.encodeItems vs ++ x = Value.encodeItems ws ++ y) : vs = ws ∧ x = y := by
  cases vs with
  | nil =>
    obtain rfl := List.length_eq_zero_iff.mp hlength.symm
    exact ⟨rfl, h⟩
  | cons v vs =>
    obtain ⟨w, ws, rfl⟩ := List.exists_cons_of_length_eq_add_one hlength.symm
    simp only [allPlain, Bool.and_eq_true] at hvs hws
    rw [Value.encodeItems, Value.encodeItems, List.append_assoc, List.append_assoc] at h
    obtain ⟨rfl, hrest⟩ := encode_append_inj v hvs.1 hws.1 h
    obtain ⟨rfl, hxy⟩ := encodeItems_append_inj vs hvs.2 hws.2 (Nat.succ.inj hlength) hrest
    exact ⟨rfl, hxy⟩

theorem encodeEntries_append_inj (es : List (Value × Value)) {fs : List (Value × Value)}
    {x y : Bytes} (hes : entriesPlain es) (hfs : entriesPlain fs)
    (hlength : es.length = fs.length)
    (h : Value.encodeEntries es ++ x = Value.encodeEntries fs ++ y) : es = fs ∧ x = y := by
  cases es with
  | nil =>
    obtain rfl := List.length_eq_zero_iff.mp hlength.symm
    exact ⟨rfl, h⟩
  | cons e es =>
    obtain ⟨k, v⟩ := e
    obtain ⟨⟨l, w⟩, fs, rfl⟩ := List.exists_cons_of_length_eq_add_one hlength.symm
    simp only [entriesPlain, Bool.and_eq_true] at hes hfs
    simp only [Value.encodeEntries, List.append_assoc] at h
    obtain ⟨rfl, hvalue⟩ := encode_append_inj k hes.1.1 hfs.1.1 h
    obtain ⟨rfl, hrest⟩ := encode_append_inj v hes.1.2 hfs.1.2 hvalue
    obtain ⟨rfl, hxy⟩ := encodeEntries_append_inj es hes.2 hfs.2 (Nat.succ.inj hlength) hrest
    exact ⟨rfl, hxy⟩

end

theorem encode_eq_iff (hv : v.isPlain) (hw : w.isPlain) :
    v.encode = w.encode ↔ v = w := by
  constructor
  · intro h
    exact (encode_append_inj v hv hw (congrArg (· ++ []) h)).1
  · intro h
    rw [h]

/-- Without tags, values are one key only if they are equal. -/
theorem isSame_iff_eq (hv : v.isPlain) (hw : w.isPlain) : v.isSame w ↔ v = w := by
  constructor
  · intro h
    exact (encode_eq_iff hv hw).mp (Value.encode_eq_of_isSame h)
  · rintro rfl
    exact v.isSame_self

/-- What is read of a value is the same value exactly if no tag stands around it, and its maps list
different keys in order without tags. -/
theorem isSame_received_iff (h : v.isProper) :
    v.received.isSame v ↔ ¬v.isTag ∧ v.untagged.isProper := by
  constructor
  · intro hsame
    have huntagged : v.received.untagged = v.received := isUntagged_received h
    have hplain : v.received.isPlain := huntagged ▸ Value.isPlain_untagged _ (isProper_received h)
    have hencode : v.received.encode = v.untagged.encode :=
      (Value.encode_eq_of_isSame hsame).trans v.encode_untagged.symm
    have heq : v.received = v.untagged :=
      (encode_eq_iff hplain (Value.isPlain_untagged v h)).mp hencode
    exact ⟨Value.isTag_eq_of_isSame hsame ▸ (isUntagged_received h).not_isTag,
      heq ▸ isProper_received h⟩
  · rintro ⟨htag, hproper⟩
    rw [v.received_eq_untagged hproper, Value.isSame_iff, Value.sortKey_untagged htag]

theorem encodeItems_eq_iff {vs ws : List Value} (hvs : allPlain vs)
    (hws : allPlain ws) (hlength : vs.length = ws.length) :
    Value.encodeItems vs = Value.encodeItems ws ↔ vs = ws := by
  constructor
  · intro h
    exact (encodeItems_append_inj vs hvs hws hlength (congrArg (· ++ []) h)).1
  · intro h
    rw [h]

end Values

end EdhocLab.Cbor
