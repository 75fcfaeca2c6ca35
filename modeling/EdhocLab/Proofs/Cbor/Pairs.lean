import EdhocLab.Proofs.Cbor.Concatenated
import EdhocLab.Proofs.Cbor.Nesting

/-! # Arrays turned into maps

The items of an array of even length are the keys and values of a map in a row, so that a map is left
when the head is turned.  It need not list its keys in order: the reader brings them into order and
loses none of them if they are different without their tags.
-/
namespace EdhocLab.Cbor

/-- The consecutive pairs of a list. -/
def pairs {α : Type} : List α → List (α × α)
  | a :: b :: rest => (a, b) :: pairs rest
  | [] | [_] => []

section Pairs

variable {α : Type}

theorem length_pairs (xs : List α) : (pairs xs).length = xs.length / 2 := by
  fun_induction pairs xs with
  | case1 a b rest ih => simp [ih]; omega
  | case2 => simp
  | case3 => simp

theorem pairs_map {β : Type} (f : α → β) (xs : List α) :
    pairs (xs.map f) = (pairs xs).map (Prod.map f f) := by
  fun_induction pairs xs with
  | case1 a b rest ih => simp [pairs, ih]
  | case2 => rfl
  | case3 => rfl

theorem forall_mem_pairs {P : α → Prop} {xs : List α} (h : ∀ x ∈ xs, P x) :
    ∀ pair ∈ pairs xs, P pair.1 ∧ P pair.2 := by
  fun_induction pairs xs with
  | case1 a b rest ih =>
    simp only [List.forall_mem_cons] at h ⊢
    exact ⟨⟨h.1, h.2.1⟩, ih h.2.2⟩
  | case2 => simp
  | case3 => simp

theorem encodeEntries_pairs {items : List Value} (heven : items.length % 2 = 0) :
    Value.encodeEntries (pairs items) = Value.encodeItems items := by
  fun_induction pairs items with
  | case1 k v rest ih =>
    rw [List.length_cons, List.length_cons, Nat.add_assoc, Nat.add_mod_right] at heven
    simp [Value.encodeEntries, Value.encodeItems, ih heven]
  | case2 => rfl
  | case3 => simp at heven

end Pairs

/-- Turning the head of an array leaves the encoding of the map of its consecutive pairs. -/
theorem arrayToMap_encode {items : List Value} (heven : items.length % 2 = 0)
    (hshort : items.length ≤ 23) :
    arrayToMap (Value.array items).encode = .ok (Value.map (pairs items)).encode := by
  have hcount : (UInt8.ofNat (32 * 4 + items.length)).toNat % 32 = items.length :=
    (first_split (by decide) (by omega)).2
  rw [Value.encode, Value.encode, head_short (by omega), length_pairs, head_short (by omega),
    encodeEntries_pairs heven]
  simp only [List.singleton_append, arrayToMap, hcount]
  rw [if_neg (by omega)]

/-- Proper items of an even number encode as an array that can be turned. -/
theorem arrayToMap_of_allProper {items : List Value} (heven : items.length % 2 = 0)
    (hshort : items.length ≤ 23) (hproper : Value.allProper items) :
    (Value.array items).encode? >>= arrayToMap = .ok (Value.map (pairs items)).encode := by
  have hencode : (Value.array items).encode? = .ok (Value.array items).encode := by
    refine Value.encode?_eq_ok.mpr ⟨?_, rfl⟩
    simp only [Value.isProper, hproper, Bool.and_true, fitsHead, decide_eq_true_eq]
    omega
  rw [hencode, ok_bind, arrayToMap_encode heven hshort]

namespace Value

section Order

variable {v w key value : Value} {entries : List (Value × Value)}

/-- Only equal values are equal in the order of keys, if they have no tags. -/
theorem eq_of_compare_eq (hv : v.isProper ∧ v.IsUntagged) (hw : w.isProper ∧ w.IsUntagged)
    (h : v.compare w = .eq) : v = w := by
  have hencode : v.encode = w.encode := encode_eq_of_isSame (isSame_iff.mpr (compare_eq_iff.mp h))
  rw [encode_inj hv.1 hw.1] at hencode
  exact hv.2.symm.trans (hencode.trans hw.2)

theorem compare_eq_comm : v.compare w = .eq ↔ w.compare v = .eq := by
  rw [← compare_swap v w, Ordering.swap_eq_eq]

theorem insertEntry_perm (h : ∀ entry ∈ entries, key.compare entry.1 ≠ .eq) :
    (insertEntry key value entries).Perm ((key, value) :: entries) := by
  induction entries with
  | nil => exact .refl _
  | cons entry rest ih =>
    obtain ⟨hentry, hrest⟩ := List.forall_mem_cons.mp h
    rw [insertEntry]
    split
    · exact .refl _
    · rename_i heq
      exact absurd heq hentry
    · exact ((ih hrest).cons entry).trans (.swap ..)

/-- Entries that are added one after the other all stay, if their keys are different. -/
theorem foldl_insertEntry_perm (sorted entries : List (Value × Value))
    (h : (sorted ++ entries).Pairwise fun e f => e.1.compare f.1 ≠ .eq) :
    (entries.foldl (fun sorted (k, v) => insertEntry k v sorted) sorted).Perm (sorted ++ entries) := by
  induction entries generalizing sorted with
  | nil => simp
  | cons entry rest ih =>
    have hnew : ∀ e ∈ sorted, entry.1.compare e.1 ≠ .eq := by
      intro e he heq
      exact (List.pairwise_append.mp h).2.2 e he entry (by simp) (compare_eq_comm.mp heq)
    have hadded : (insertEntry entry.1 entry.2 sorted ++ rest).Perm (sorted ++ entry :: rest) :=
      ((insertEntry_perm hnew).append_right rest).trans List.perm_middle.symm
    have hpairwise := (hadded.pairwise_iff fun hne heq => hne (compare_eq_comm.mp heq)).mpr h
    exact (ih _ hpairwise).trans hadded

/-- No entry is lost when they are brought into order, if their keys are different. -/
theorem ofEntries_perm (h : ∀ e ∈ entries, e.1.isProper ∧ e.1.IsUntagged)
    (hkeys : (entries.map Prod.fst).Nodup) : (ofEntries entries).Perm entries := by
  apply foldl_insertEntry_perm []
  rw [List.Nodup, List.pairwise_map] at hkeys
  refine hkeys.imp_of_mem ?_
  intro e f he hf hne heq
  exact hne (eq_of_compare_eq (h e he) (h f hf) heq)

end Order

end Value

section Read

open Value (allProper allEntriesProper depthOfEntries ofEntries)

variable {entries : List (Value × Value)} {items : List Value} {depth : Nat}

/-- Entries in any order are read as the map that lists them in order. -/
theorem readItem_encode_map (hfits : fitsHead entries.length) (hproper : allEntriesProper entries)
    (hdepth : depthOfEntries entries ≤ depth) (rest : Bytes) :
    readItem (depth + 1) ((Value.map entries).encode ++ rest) =
      some ((Value.map entries).received, rest) := by
  exact readWith_map hfits (readMany_encodeEntries entries hproper hdepth rest)

theorem received_map_pairs (items : List Value) :
    (Value.map (pairs items)).received = .map (ofEntries (pairs (items.map Value.received))) := by
  rw [Value.received, Value.receivedEntries_eq_map, pairs_map]

/-- An array with a turned head is decoded to the map of its consecutive pairs without their tags, all of
which are kept if their keys are then different. -/
theorem decodeSequence_arrayToMap (heven : items.length % 2 = 0) (hshort : items.length ≤ 23)
    (hproper : allProper items) (hdepth : ∀ v ∈ items, v.depth < 127)
    (hkeys : ((pairs (items.map Value.received)).map Prod.fst).Nodup) :
    ∃ bytes entries, (Value.array items).encode? >>= arrayToMap = .ok bytes ∧
      decodeSequence bytes = .ok [.map entries] ∧
      entries.Perm (pairs (items.map Value.received)) := by
  have hitems := Value.allProper_iff.mp hproper
  have hentries : allEntriesProper (pairs items) :=
    Value.allEntriesProper_iff.mpr (forall_mem_pairs hitems)
  have hnested : depthOfEntries (pairs items) ≤ 126 :=
    Value.depthOfEntries_le.mpr (forall_mem_pairs fun v hv => Nat.le_of_lt_succ (hdepth v hv))
  have hfits : fitsHead (pairs items).length := by
    rw [length_pairs]
    simp only [fitsHead, decide_eq_true_eq]
    omega
  have hread := readItem_encode_map hfits hentries hnested []
  rw [List.append_nil, received_map_pairs] at hread
  have hreceived : ∀ v ∈ items.map Value.received, v.isProper ∧ v.IsUntagged := by
    intro v hv
    obtain ⟨item, hitem, rfl⟩ := List.mem_map.mp hv
    exact ⟨isProper_received (hitems item hitem), isUntagged_received (hitems item hitem)⟩
  exact ⟨(Value.map (pairs items)).encode, ofEntries (pairs (items.map Value.received)),
    arrayToMap_of_allProper heven hshort hproper, decodeSequence_eq_singleton.mpr hread,
    Value.ofEntries_perm (fun e he => (forall_mem_pairs hreceived e he).1) hkeys⟩

end Read

end EdhocLab.Cbor
