import EdhocLab.Cbor.Decode
import EdhocLab.Proofs.Bytes
import EdhocLab.Proofs.Cbor.Order

/-! # Heads of items

A head is read back as the number it was written for, and no head stands for more than 64 bits.
-/
namespace EdhocLab.Cbor

theorem splitExact_append {n : Nat} {bs rest : Bytes} (h : bs.length = n) :
    splitExact n (bs ++ rest) = some (bs, rest) := by
  subst h
  simp [splitExact]

theorem splitExact_eq_some {n : Nat} {bs taken rest : Bytes}
    (h : splitExact n bs = some (taken, rest)) : bs = taken ++ rest ∧ taken.length = n := by
  unfold splitExact at h
  split at h
  · cases h
    exact ⟨(List.take_append_drop n bs).symm, by simp; omega⟩
  · cases h

/-- The first byte of a head holds major type and additional information. -/
theorem first_split {major info : Nat} (hmajor : major < 8) (hinfo : info < 32) :
    (UInt8.ofNat (32 * major + info)).toNat / 32 = major ∧
      (UInt8.ofNat (32 * major + info)).toNat % 32 = info := by
  have h : (UInt8.ofNat (32 * major + info)).toNat = 32 * major + info := by
    rw [UInt8.toNat_ofNat']
    omega
  omega

theorem readArgument_wide {width info n : Nat} (hinfo : 24 ≤ info) (hinfo' : info < 28)
    (hwidth : 2 ^ (info - 24) = width) (hn : n < 256 ^ width) (rest : Bytes) :
    readArgument info (Bytes.ofNatBE width n ++ rest) = some (.definite n, rest) := by
  rw [readArgument, if_neg (by omega), if_pos hinfo', hwidth,
    splitExact_append (Bytes.length_ofNatBE width n)]
  simp [Bytes.natOfBE_ofNatBE, Nat.mod_eq_of_lt hn]

/-- A head starts with a byte of its major type and is read back as its number. -/
theorem head_read {major n : Nat} (hmajor : major < 8) (hn : fitsHead n) (rest : Bytes) :
    ∃ first tail, head major n = first :: tail ∧ first.toNat / 32 = major ∧
      readArgument (first.toNat % 32) (tail ++ rest) = some (.definite n, rest) := by
  have hn : n < 2 ^ 64 := by simpa [fitsHead] using hn
  unfold head
  dsimp only
  by_cases h24 : n < 24
  · obtain ⟨hd, hm⟩ := first_split hmajor (show n < 32 by omega)
    rw [if_pos h24]
    exact ⟨_, _, rfl, hd, by rw [hm, readArgument, if_pos h24]; rfl⟩
  rw [if_neg h24]
  by_cases h8 : n < 2 ^ 8
  · obtain ⟨hd, hm⟩ := first_split hmajor (show 24 < 32 by decide)
    rw [if_pos h8]
    exact ⟨_, _, rfl, hd, by rw [hm]; exact readArgument_wide (by decide) (by decide) rfl h8 rest⟩
  rw [if_neg h8]
  by_cases h16 : n < 2 ^ 16
  · obtain ⟨hd, hm⟩ := first_split hmajor (show 25 < 32 by decide)
    rw [if_pos h16]
    exact ⟨_, _, rfl, hd, by rw [hm]; exact readArgument_wide (by decide) (by decide) rfl h16 rest⟩
  rw [if_neg h16]
  by_cases h32 : n < 2 ^ 32
  · obtain ⟨hd, hm⟩ := first_split hmajor (show 26 < 32 by decide)
    rw [if_pos h32]
    exact ⟨_, _, rfl, hd, by rw [hm]; exact readArgument_wide (by decide) (by decide) rfl h32 rest⟩
  · obtain ⟨hd, hm⟩ := first_split hmajor (show 27 < 32 by decide)
    rw [if_neg h32, if_pos (by simpa [fitsHead] using hn)]
    exact ⟨_, _, rfl, hd, by rw [hm]; exact readArgument_wide (by decide) (by decide) rfl hn rest⟩

theorem head_short {n : Nat} (hn : n < 24) (major : Nat) :
    head major n = [UInt8.ofNat (32 * major + n)] := by
  simp [head, hn]

theorem length_head_pos (major n : Nat) : 0 < (head major n).length := by
  unfold head
  dsimp only
  repeat' split
  all_goals simp

theorem length_head_le {major n : Nat} (hn : fitsHead n) : (head major n).length ≤ 9 := by
  unfold head
  dsimp only
  split
  · simp
  · repeat' split
    all_goals simp_all

theorem fitsHead_of_readArgument {info n : Nat} {bs rest : Bytes}
    (h : readArgument info bs = some (.definite n, rest)) : fitsHead n := by
  unfold readArgument at h
  split at h
  · cases h
    simp only [fitsHead, decide_eq_true_eq]
    omega
  · split at h
    · rename_i hinfo
      obtain ⟨⟨digits, after⟩, hs, heq⟩ := Option.map_eq_some_iff.mp h
      cases heq
      have hlength := (splitExact_eq_some hs).2
      have hlt := Bytes.natOfBE_lt digits
      have hle : 256 ^ digits.length ≤ 256 ^ 8 := by
        refine Nat.pow_le_pow_right (by decide) ?_
        rw [hlength]
        exact Nat.pow_le_pow_right (by decide) (show info - 24 ≤ 3 by omega)
      simp only [fitsHead, decide_eq_true_eq]
      omega
    · split at h <;> cases h

end EdhocLab.Cbor
