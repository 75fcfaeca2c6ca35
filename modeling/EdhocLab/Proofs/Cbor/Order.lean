import EdhocLab.Cbor.Proper

/-! # Maps in key order

The comparison of values is oriented and transitive, and what it takes for the same is written as the
same.  Entries stay in order when one is added, and entries that are in order are not moved.
-/
namespace EdhocLab.Cbor

theorem compareBytes_swap (a b : Bytes) : (compareBytes a b).swap = compareBytes b a := by
  induction a generalizing b with
  | nil => cases b <;> rfl
  | cons x xs ih =>
    cases b with
    | nil => rfl
    | cons y ys => simp only [compareBytes, Ordering.swap_then, Nat.compare_swap, ih]

theorem compareBytes_eq_iff {a b : Bytes} : compareBytes a b = .eq ↔ a = b := by
  induction a generalizing b with
  | nil => cases b <;> simp [compareBytes]
  | cons x xs ih =>
    cases b with
    | nil => simp [compareBytes]
    | cons y ys =>
      rw [compareBytes, Ordering.then_eq_eq, Nat.compare_eq_eq, UInt8.toNat_inj, ih, List.cons.injEq]

theorem compareBytes_trans {a b c : Bytes} (hab : compareBytes a b = .lt)
    (hbc : compareBytes b c = .lt) : compareBytes a c = .lt := by
  induction a generalizing b c with
  | nil =>
    cases c with
    | nil => cases b <;> cases hbc
    | cons z zs => rfl
  | cons x xs ih =>
    cases b with
    | nil => cases hab
    | cons y ys =>
      cases c with
      | nil => cases hbc
      | cons z zs =>
        rw [compareBytes, Ordering.then_eq_lt, Nat.compare_eq_lt, Nat.compare_eq_eq] at *
        rcases hab with hxy | ⟨hxy, hab⟩
        · exact .inl (by omega)
        · rcases hbc with hyz | ⟨hyz, hbc⟩
          · exact .inl (by omega)
          · exact .inr ⟨hxy.trans hyz, ih hab hbc⟩

namespace SortKey

/-- The encoding of the value with the given key. -/
def encode (key : SortKey) : Bytes :=
  if key.major < 6 then head key.major key.size ++ key.bytes else key.bytes

theorem compare_swap (a b : SortKey) : (a.compare b).swap = b.compare a := by
  simp only [compare, Ordering.swap_then, Nat.compare_swap, compareBytes_swap]

theorem compare_eq_iff {a b : SortKey} : a.compare b = .eq ↔ a = b := by
  simp only [compare, Ordering.then_eq_eq, Nat.compare_eq_eq, compareBytes_eq_iff]
  cases a
  cases b
  simp

theorem compare_trans {a b c : SortKey} (hab : a.compare b = .lt) (hbc : b.compare c = .lt) :
    a.compare c = .lt := by
  simp only [compare, Ordering.then_eq_lt, Nat.compare_eq_lt, Nat.compare_eq_eq] at *
  rcases hab with hab | ⟨hab, hab' | ⟨hab', hab''⟩⟩ <;>
    rcases hbc with hbc | ⟨hbc, hbc' | ⟨hbc', hbc''⟩⟩
  case inr.inr.inr.inr =>
    exact .inr ⟨hab.trans hbc, .inr ⟨hab'.trans hbc', compareBytes_trans hab'' hbc''⟩⟩
  all_goals omega

end SortKey

namespace Value

theorem compare_swap (a b : Value) : (a.compare b).swap = b.compare a :=
  SortKey.compare_swap ..

theorem compare_gt_iff {a b : Value} : a.compare b = .gt ↔ b.compare a = .lt := by
  rw [← compare_swap b a, Ordering.swap_eq_gt]

theorem compare_trans {a b c : Value} (hab : a.compare b = .lt) (hbc : b.compare c = .lt) :
    a.compare c = .lt :=
  SortKey.compare_trans hab hbc

section Same

variable {a b c : Value}

theorem compare_eq_iff : a.compare b = .eq ↔ a.sortKey = b.sortKey :=
  SortKey.compare_eq_iff

theorem isSame_iff : a.isSame b ↔ a.sortKey = b.sortKey := by
  rw [isSame, Ordering.isEq_iff_eq_eq, compare_eq_iff]

@[simp] theorem isSame_self (v : Value) : v.isSame v :=
  isSame_iff.mpr rfl

theorem isSame_congr (h : a.isSame b) : c.isSame a = c.isSame b := by
  rw [Bool.eq_iff_iff, isSame_iff, isSame_iff, isSame_iff.mp h]

/-- What decides the order of a value also decides its encoding. -/
theorem encode_eq_sortKey (v : Value) : v.encode = v.sortKey.encode := by
  cases v with
  | integer n => cases n <;> simp [encode, sortKey, SortKey.encode]
  | bool b => cases b <;> rfl
  | bytes | text | array | map | null | float | tag => rfl

theorem encode_eq_of_isSame (h : a.isSame b) : a.encode = b.encode := by
  rw [encode_eq_sortKey, encode_eq_sortKey, isSame_iff.mp h]

end Same

section Entries

variable {key value : Value} {entries : List (Value × Value)}

theorem keysAscend_cons {k v : Value} : keysAscend ((k, v) :: entries) ↔
    (∀ l w, entries.head? = some (l, w) → k.compare l = .lt) ∧ keysAscend entries := by
  cases entries with
  | nil => simp [keysAscend]
  | cons entry rest => simp [keysAscend, Ordering.isLT_iff_eq_lt, Prod.ext_iff]

/-- In ascending entries the first key is below all others. -/
theorem lt_of_keysAscend {k v : Value} (h : keysAscend ((k, v) :: entries)) :
    ∀ entry ∈ entries, k.compare entry.1 = .lt := by
  induction entries generalizing k v with
  | nil => simp
  | cons entry rest ih =>
    obtain ⟨l, w⟩ := entry
    obtain ⟨hkl, hrest⟩ := keysAscend_cons.mp h
    have hlt := hkl l w rfl
    intro found hfound
    rcases List.mem_cons.mp hfound with rfl | hfound
    · exact hlt
    · exact compare_trans hlt (ih hrest found hfound)

theorem head?_insertEntry {l w : Value} (h : (insertEntry key value entries).head? = some (l, w)) :
    l = key ∨ ∃ v, entries.head? = some (l, v) := by
  cases entries with
  | nil => simp_all [insertEntry]
  | cons entry rest =>
    obtain ⟨k, v⟩ := entry
    rw [insertEntry] at h
    split at h <;> simp_all

/-- Adding an entry keeps entries in order. -/
theorem keysAscend_insertEntry (h : keysAscend entries) :
    keysAscend (insertEntry key value entries) := by
  induction entries with
  | nil => rfl
  | cons entry rest ih =>
    obtain ⟨k, v⟩ := entry
    obtain ⟨hhead, hrest⟩ := keysAscend_cons.mp h
    rw [insertEntry]
    split
    · rename_i hlt
      exact keysAscend_cons.mpr ⟨fun l w hl => by simp_all, h⟩
    · exact keysAscend_cons.mpr ⟨hhead, hrest⟩
    · rename_i hgt
      refine keysAscend_cons.mpr ⟨fun l w hl => ?_, ih hrest⟩
      rcases head?_insertEntry hl with rfl | ⟨v', hv'⟩
      · exact compare_gt_iff.mp hgt
      · exact hhead l v' hv'

theorem insertEntry_of_lt (h : ∀ entry ∈ entries, entry.1.compare key = .lt) :
    insertEntry key value entries = entries ++ [(key, value)] := by
  induction entries with
  | nil => rfl
  | cons entry rest ih =>
    have hgt := compare_gt_iff.mpr (h entry (by simp))
    rw [insertEntry, hgt, List.cons_append, ih fun e he => h e (by simp [he])]

theorem length_insertEntry_le : (insertEntry key value entries).length ≤ entries.length + 1 := by
  induction entries with
  | nil => simp [insertEntry]
  | cons entry rest ih =>
    rw [insertEntry]
    split <;> simp
    omega

/-- What holds of all keys and values holds of them after one more was added. -/
theorem forall_insertEntry {P : Value → Prop} (hkey : P key) (hvalue : P value)
    (h : ∀ e ∈ entries, P e.1 ∧ P e.2) : ∀ e ∈ insertEntry key value entries, P e.1 ∧ P e.2 := by
  induction entries with
  | nil => simp [insertEntry, hkey, hvalue]
  | cons entry rest ih =>
    obtain ⟨k, v⟩ := entry
    obtain ⟨hentry, hrest⟩ := List.forall_mem_cons.mp h
    rw [insertEntry]
    split
    · exact List.forall_mem_cons.mpr ⟨⟨hkey, hvalue⟩, h⟩
    · exact List.forall_mem_cons.mpr ⟨⟨hentry.1, hvalue⟩, hrest⟩
    · exact List.forall_mem_cons.mpr ⟨hentry, ih hrest⟩

end Entries

theorem foldl_insertEntry_of_keysAscend (sorted entries : List (Value × Value))
    (h : keysAscend (sorted ++ entries)) :
    entries.foldl (fun sorted (k, v) => insertEntry k v sorted) sorted = sorted ++ entries := by
  induction entries generalizing sorted with
  | nil => simp
  | cons entry rest ih =>
    obtain ⟨k, v⟩ := entry
    have hlt : ∀ e ∈ sorted, e.1.compare k = .lt := by
      clear ih
      induction sorted with
      | nil => simp
      | cons first sorted ih =>
        intro e he
        rcases List.mem_cons.mp he with rfl | he
        · exact lt_of_keysAscend h (k, v) (by simp)
        · exact ih (keysAscend_cons.mp h).2 e he
    simp only [List.foldl_cons]
    rw [insertEntry_of_lt hlt, ih (sorted ++ [(k, v)]) (by simpa using h)]
    simp

/-- Entries in order are taken as they are. -/
theorem ofEntries_of_keysAscend {entries : List (Value × Value)} (h : keysAscend entries) :
    ofEntries entries = entries :=
  foldl_insertEntry_of_keysAscend [] entries h

section OfEntries

variable {entries : List (Value × Value)}

theorem keysAscend_ofEntries : keysAscend (ofEntries entries) := by
  unfold ofEntries
  apply List.foldlRecOn (motive := fun sorted => keysAscend sorted)
  · rfl
  · exact fun _ hsorted _ _ => keysAscend_insertEntry hsorted

theorem length_foldl_insertEntry_le (entries sorted : List (Value × Value)) :
    (entries.foldl (fun sorted (k, v) => insertEntry k v sorted) sorted).length ≤
      sorted.length + entries.length := by
  induction entries generalizing sorted with
  | nil => exact Nat.le_refl _
  | cons entry rest ih =>
    refine Nat.le_trans (ih _) ?_
    rw [List.length_cons, Nat.add_comm rest.length, ← Nat.add_assoc]
    exact Nat.add_le_add_right length_insertEntry_le _

theorem length_ofEntries_le : (ofEntries entries).length ≤ entries.length := by
  have h := length_foldl_insertEntry_le entries []
  rwa [List.length_nil, Nat.zero_add] at h

theorem forall_ofEntries {P : Value → Prop} (h : ∀ e ∈ entries, P e.1 ∧ P e.2) :
    ∀ e ∈ ofEntries entries, P e.1 ∧ P e.2 := by
  unfold ofEntries
  apply List.foldlRecOn (motive := fun sorted : List (Value × Value) => ∀ e ∈ sorted, P e.1 ∧ P e.2)
  · exact List.forall_mem_nil _
  · exact fun _ hsorted e he => forall_insertEntry (h e he).1 (h e he).2 hsorted

end OfEntries

end Value

end EdhocLab.Cbor
