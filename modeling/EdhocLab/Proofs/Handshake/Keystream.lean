import EdhocLab.Proofs.Bytes
import EdhocLab.Proofs.Handshake.Totality

/-! # The key stream of the second message

The key stream is there for every length: whole expansions under labels that count downwards from that
of the key stream, and a last one for the rest.  No label is used twice or for anything else.
-/
namespace EdhocLab.Handshake.KeySchedule

open Digest.Hkdf (maxLength)

/-- The label of a part of the key stream. -/
def streamLabel (i : Nat) : Int := Label.keystream2.number - (i : Int)

theorem streamLabel_injective : Function.Injective streamLabel := by
  intro i j h
  simp only [streamLabel] at h
  omega

theorem number_eq_streamLabel_iff (label : Label) (i : Nat) :
    label.number = streamLabel i ↔ label = .keystream2 ∧ i = 0 := by
  cases label <;> simp [streamLabel, Label.number] <;> omega

theorem mapM_eq_ok {α β ε : Type} {f : α → Except ε β} {g : α → β} {xs : List α}
    (h : ∀ x ∈ xs, f x = .ok (g x)) : xs.mapM f = .ok (xs.map g) := by
  induction xs with
  | nil => rfl
  | cons x xs ih =>
    rw [List.mapM_cons, h x (by simp), ok_bind, ih fun x hx => h x (by simp [hx]), ok_bind]
    rfl

/-- How many whole parts stand in front of the last one. -/
def wholeParts (length : Nat) : Nat := (length - 1) / maxLength

section Parts

variable {prk2e th2 : Bytes} {length : Nat} {part : Nat → Bytes} {last : Bytes}

/-- Every part in front of the last one takes a whole expansion. -/
theorem mapM_wholeParts (length : Nat)
    (hpart : ∀ i, kdf prk2e (streamLabel i) th2 maxLength = .ok (part i)) :
    ((List.range (wholeParts length)).mapM fun i =>
      kdf prk2e (streamLabel i) th2 (min maxLength (length - maxLength * i))) =
      .ok ((List.range (wholeParts length)).map part) := by
  apply mapM_eq_ok
  intro i hi
  have hlt : i < (length - 1) / maxLength := List.mem_range.mp hi
  have hwhole : maxLength * (i + 1) ≤ length - 1 := by
    rw [Nat.mul_comm]
    exact (Nat.le_div_iff_mul_le (by decide)).mp hlt
  rw [Nat.mul_succ] at hwhole
  rw [Nat.min_eq_left (by omega), hpart i]

theorem keystream2_eq (hpart : ∀ i, kdf prk2e (streamLabel i) th2 maxLength = .ok (part i))
    (hlast : kdf prk2e (streamLabel (wholeParts length)) th2
      (length - maxLength * wholeParts length) = .ok last) :
    keystream2 prk2e th2 length =
      .ok ((List.range (wholeParts length)).flatMap part ++ last) := by
  have hmax : maxLength = 8160 := rfl
  by_cases hzero : length = 0
  · subst hzero
    have hnil : last = [] := List.length_eq_zero_iff.mp (by simpa using length_of_kdf hlast)
    rw [hnil]
    rfl
  · have hcount : (length + (maxLength - 1)) / maxLength = wholeParts length + 1 := by
      simp only [wholeParts, hmax]
      omega
    have hrest : min maxLength (length - maxLength * wholeParts length) =
        length - maxLength * wholeParts length := by
      simp only [wholeParts, hmax]
      omega
    have hfront := mapM_wholeParts length hpart
    have hparts : ((List.range (wholeParts length + 1)).mapM fun i =>
        kdf prk2e (streamLabel i) th2 (min maxLength (length - maxLength * i))) =
        .ok ((List.range (wholeParts length)).map part ++ [last]) := by
      rw [List.range_succ, List.mapM_append, hfront, ok_bind, List.mapM_cons, hrest, hlast, ok_bind]
      rfl
    have hstream : keystream2 prk2e th2 length = (((List.range (wholeParts length + 1)).mapM
        fun i => kdf prk2e (streamLabel i) th2 (min maxLength (length - maxLength * i))) >>=
        fun parts => .ok parts.flatten) := by
      rw [keystream2, hcount]
      rfl
    rw [hstream, hparts, ok_bind]
    simp [List.flatMap]

end Parts

/-- The key stream has the length that is asked for, whatever that is: whole expansions of 255 blocks in
front and one for the rest, each under a label of its own that no other derivation uses.  It comes off
again from each plaintext that it is put on. -/
theorem keystream2_of_parts (prk2e th2 : Bytes) :
    (∀ length, ∃ (part : Nat → Bytes) (last keystream : Bytes),
      (∀ i, kdf prk2e (streamLabel i) th2 maxLength = .ok (part i) ∧ (part i).length = 8160) ∧
      kdf prk2e (streamLabel (wholeParts length)) th2 (length - maxLength * wholeParts length) =
        .ok last ∧
      keystream2 prk2e th2 length = .ok keystream ∧ keystream.length = length ∧
      keystream = (List.range (wholeParts length)).flatMap part ++ last) ∧
    Function.Injective streamLabel ∧
    (∀ label i, Label.number label = streamLabel i ↔ label = .keystream2 ∧ i = 0) ∧
    ∀ plaintext, ∃ keystream, keystream2 prk2e th2 plaintext.length = .ok keystream ∧
      Bytes.xor (Bytes.xor plaintext keystream) keystream = plaintext := by
  refine ⟨?_, streamLabel_injective, number_eq_streamLabel_iff, ?_⟩
  · intro length
    have hparts : ∀ i, ∃ output, kdf prk2e (streamLabel i) th2 maxLength = .ok output ∧
        output.length = maxLength := fun i => kdf_eq_ok (Nat.le_refl maxLength) ..
    obtain ⟨part, hpart⟩ := Classical.skolem.mp hparts
    have hmax : maxLength = 8160 := rfl
    have hrest : length - maxLength * wholeParts length ≤ maxLength := by
      simp only [wholeParts, hmax]
      omega
    obtain ⟨last, hlast, -⟩ := kdf_eq_ok hrest prk2e (streamLabel (wholeParts length)) th2
    have hstream := keystream2_eq (fun i => (hpart i).1) hlast
    exact ⟨part, last, _, hpart, hlast, hstream, length_of_keystream2 hstream, rfl⟩
  · intro plaintext
    obtain ⟨keystream, hstream⟩ := isOk_iff.mp (keystream2_isOk prk2e th2 plaintext.length)
    have hlength := length_of_keystream2 hstream
    exact ⟨keystream, hstream, Bytes.xor_xor_cancel (Nat.le_of_eq hlength.symm)⟩

end EdhocLab.Handshake.KeySchedule
