import EdhocLab.Proofs.Coap.Packet

/-! # Splitting and merging options

Options that are kept apart by number and put together again are the same options in the same
order, and never need less room apart than together.
-/
namespace EdhocLab.Coap

namespace Packet

variable {field : Field} {fields : List Field}

theorem insertField_perm (field : Field) (fields : List Field) :
    (insertField field fields).Perm (field :: fields) := by
  induction fields with
  | nil => exact List.Perm.refl [field]
  | cons f fields ih =>
    rw [insertField]
    split
    · exact (ih.cons f).trans (List.Perm.swap field f fields)
    · exact List.Perm.refl _

theorem mem_insertField {f : Field} : f ∈ insertField field fields ↔ f = field ∨ f ∈ fields := by
  rw [(insertField_perm field fields).mem_iff, List.mem_cons]

/-- Nothing moves if the option comes before all others. -/
theorem insertField_of_lt (h : ∀ f ∈ fields, field.number < f.number) :
    insertField field fields = field :: fields := by
  cases fields with
  | nil => rfl
  | cons f fields => rw [insertField, if_neg (Nat.not_le.mpr (h f List.mem_cons_self))]

/-- An option is placed in order. -/
theorem ascending_insertField (h : Ascending fields) : Ascending (insertField field fields) := by
  induction fields with
  | nil => exact List.pairwise_singleton ..
  | cons f fields ih =>
    obtain ⟨hle, hrest⟩ := List.pairwise_cons.mp h
    rw [insertField]
    split
    · rename_i hbehind
      refine List.pairwise_cons.mpr ⟨fun g hg => ?_, ih hrest⟩
      rcases mem_insertField.mp hg with rfl | hg
      · exact hbehind
      · exact hle g hg
    · rename_i hbefore
      refine List.pairwise_cons.mpr ⟨fun g hg => ?_, h⟩
      have hfirst : field.number ≤ f.number := Nat.le_of_not_le hbefore
      rcases List.mem_cons.mp hg with rfl | hg
      · exact hfirst
      · exact Nat.le_trans hfirst (hle g hg)

/-- Options of other kinds are not touched. -/
theorem filter_insertField {keep : Field → Bool} (h : keep field = false) :
    (insertField field fields).filter keep = fields.filter keep := by
  induction fields with
  | nil => simp [insertField, h]
  | cons f fields ih =>
    rw [insertField]
    split
    · rw [List.filter_cons, ih, List.filter_cons]
    · rw [List.filter_cons_of_neg (by simp [h])]

theorem isNone_option? {packet : Packet} {number : Nat} :
    (packet.option? number).isNone ↔ ∀ f ∈ packet.options, f.number ≠ number := by
  simp [option?]

/-- The only option of a kind is told from the others. -/
theorem filter_insertField_self {keep : Field → Bool} (hself : keep field)
    (hothers : ∀ f ∈ fields, keep f = false) : (insertField field fields).filter keep = [field] := by
  have hnone : fields.filter keep = [] :=
    List.filter_eq_nil_iff.mpr fun f hf => by simp [hothers f hf]
  have hperm := (insertField_perm field fields).filter keep
  rw [List.filter_cons_of_pos hself, hnone] at hperm
  exact List.perm_singleton.mp hperm

/-- The only option with a number is found. -/
theorem find?_insertField {wanted : Field → Bool} (hself : wanted field)
    (hothers : ∀ f ∈ fields, wanted f = false) :
    (insertField field fields).find? wanted = some field := by
  rw [← List.head?_filter, filter_insertField_self hself hothers, List.head?_cons]

theorem insertFields_cons {others : List Field} (h : ∀ f ∈ others, field.number ≤ f.number) :
    insertFields (field :: fields) others = field :: insertFields fields others := by
  induction others generalizing fields with
  | nil => rfl
  | cons f others ih =>
    have hle := h f List.mem_cons_self
    change insertFields (insertField f (field :: fields)) others = _
    rw [insertField, if_pos hle]
    exact ih fun g hg => h g (List.mem_cons_of_mem f hg)

/-- Options that were told apart by number are put together again. -/
theorem insertFields_filter (outer : Nat → Bool) (h : Ascending fields) :
    insertFields (fields.filter fun f => outer f.number)
      (fields.filter fun f => !outer f.number) = fields := by
  induction fields with
  | nil => rfl
  | cons f fields ih =>
    obtain ⟨hle, hrest⟩ := List.pairwise_cons.mp h
    have hinner : ∀ g ∈ fields.filter fun f => !outer f.number, f.number ≤ g.number :=
      fun g hg => hle g (List.mem_filter.mp hg).1
    cases houter : outer f.number with
    | true =>
      rw [List.filter_cons_of_pos (by exact houter), List.filter_cons_of_neg (by simp [houter]),
        insertFields_cons hinner, ih hrest]
    | false =>
      rw [List.filter_cons_of_neg (by simp [houter]), List.filter_cons_of_pos (by simp [houter])]
      -- Options of one number are on one side, so that `f` comes before all of the other side.
      have hbefore : ∀ g ∈ fields.filter fun f => outer f.number, f.number < g.number := by
        intro g hg
        obtain ⟨hmem, hg⟩ := List.mem_filter.mp hg
        apply Nat.lt_of_le_of_ne (hle g hmem)
        intro heq
        rw [heq, hg] at houter
        cases houter
      change insertFields (insertField f (fields.filter fun f => outer f.number)) _ = _
      rw [insertField_of_lt hbefore, insertFields_cons hinner, ih hrest]

end Packet

section Room

variable {number : Nat} {field : Field} {fields : List Field}

theorem length_writeField_anti {m n : Nat} (h : m ≤ n) (field : Field) :
    (writeField n field).length ≤ (writeField m field).length := by
  have hdelta := length_extension_mono (show field.number - n ≤ field.number - m by omega)
  rw [length_writeField, length_writeField]
  omega

/-- Options need no more room together than apart. -/
theorem length_writeFields_filter (outer : Field → Bool) {before before' : Nat}
    (h : Ascending fields) (hle : ∀ f ∈ fields, number ≤ f.number) (hbefore : before ≤ number)
    (hbefore' : before' ≤ number) : (writeFields number fields).length ≤
      (writeFields before (fields.filter outer)).length +
        (writeFields before' (fields.filter fun f => !outer f)).length := by
  induction fields generalizing number before before' with
  | nil => exact Nat.zero_le _
  | cons f fields ih =>
    obtain ⟨hnext, hrest⟩ := List.pairwise_cons.mp h
    have hfirst := hle f List.mem_cons_self
    cases houter : outer f with
    | true =>
      have htail := ih hrest hnext (Nat.le_refl f.number) (Nat.le_trans hbefore' hfirst)
      have hhead := length_writeField_anti hbefore f
      rw [List.filter_cons_of_pos houter, List.filter_cons_of_neg (by simp [houter])]
      simp only [writeFields, List.length_append]
      omega
    | false =>
      have htail := ih hrest hnext (Nat.le_trans hbefore hfirst) (Nat.le_refl f.number)
      have hhead := length_writeField_anti hbefore' f
      rw [List.filter_cons_of_neg (by simp [houter]), List.filter_cons_of_pos (by simp [houter])]
      simp only [writeFields, List.length_append]
      omega

/-- An additional option shortens the others by a byte at most. -/
theorem length_writeFields_insertField (number : Nat) (field : Field) (fields : List Field) :
    (writeFields number fields).length ≤
      (writeFields number (Packet.insertField field fields)).length + 1 := by
  induction fields generalizing number with
  | nil => exact Nat.zero_le _
  | cons f fields ih =>
    rw [Packet.insertField]
    split
    · have htail := ih f.number
      simp only [writeFields, List.length_append]
      omega
    · have hdelta := length_extension_le (f.number - number)
      simp only [writeFields, List.length_append, length_writeField]
      omega

end Room

end EdhocLab.Coap
