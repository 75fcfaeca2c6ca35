import EdhocLab.Oscore.Nonce
import EdhocLab.Proofs.Bytes

/-! # Sequence numbers as partial IVs

A sequence number is read back from its partial IV, which has a byte for each of its digits.  Under
one common IV, a nonce tells the identifier and the number that it was made of.
-/
namespace EdhocLab.Oscore

theorem formatPiv_ne_nil (n : Nat) : formatPiv n ≠ [] := by
  unfold formatPiv
  split
  · exact List.cons_ne_nil 0 []
  · assumption

/-- A partial IV has no more bytes than the number needs, but at least one. -/
theorem length_formatPiv_le {n width : Nat} (hpos : 0 < width) (h : n < 256 ^ width) :
    (formatPiv n).length ≤ width := by
  unfold formatPiv
  split
  · exact hpos
  · apply Bytes.length_dropWhile_zero_le
    rw [Bytes.natOfBE_ofNatBE]
    exact Nat.lt_of_le_of_lt (Nat.mod_le ..) h

theorem natOfBE_formatPiv (n : Nat) : Bytes.natOfBE (formatPiv n) = n % 2 ^ 64 := by
  have hdigits := Bytes.natOfBE_dropWhile_zero (Bytes.ofNatBE 8 n)
  rw [Bytes.natOfBE_ofNatBE] at hdigits
  unfold formatPiv
  split
  · rename_i hzero
    rw [hzero] at hdigits
    exact hdigits
  · exact hdigits

/-- Any other form of a sequence number is its partial IV behind some zeros. -/
theorem eq_padLeft_formatPiv {n : Nat} {bs : Bytes} (hn : n < 2 ^ 64) (hbs : bs ≠ [])
    (h : Bytes.natOfBE bs = n) :
    (formatPiv n).length ≤ bs.length ∧ bs = Bytes.padLeft bs.length (formatPiv n) := by
  have hlength : (formatPiv n).length ≤ bs.length :=
    length_formatPiv_le (List.length_pos_iff.mpr hbs) (h ▸ Bytes.natOfBE_lt bs)
  refine ⟨hlength, Bytes.eq_of_natOfBE_eq (length_padLeft hlength).symm ?_⟩
  rw [Bytes.natOfBE_padLeft, natOfBE_formatPiv, Nat.mod_eq_of_lt hn, h]

/-- A sequence number is read back from its partial IV. -/
theorem pivNumber_formatPiv {n : Nat} (h : n < 2 ^ 64) : pivNumber (formatPiv n) = n := by
  rw [pivNumber, Bytes.natOfBE_takeLast, natOfBE_formatPiv]
  omega

theorem length_nonce (piv id commonIv : Bytes) : (nonce piv id commonIv).length = nonceLength := by
  rw [nonce, Bytes.length_xor, length_nonceInput, List.length_append, Bytes.zeros,
    List.length_replicate]
  omega

section Nonce

variable {piv piv' id id' : Bytes}

/-- The input of a nonce tells the last bytes of the identifier and the number of the partial IV. -/
theorem nonceInput_eq_iff : nonceInput piv id = nonceInput piv' id' ↔
    Bytes.takeLast 7 id = Bytes.takeLast 7 id' ∧
      Bytes.natOfBE piv % 2 ^ 40 = Bytes.natOfBE piv' % 2 ^ 40 := by
  have hid : (Bytes.takeLast 7 id).length ≤ 7 := by rw [length_takeLast]; omega
  have hid' : (Bytes.takeLast 7 id').length ≤ 7 := by rw [length_takeLast]; omega
  have hpiv : (Bytes.padLeft 5 (Bytes.takeLast 5 piv)).length = 5 :=
    length_padLeft (by rw [length_takeLast]; omega)
  have hpiv' : (Bytes.padLeft 5 (Bytes.takeLast 5 piv')).length = 5 :=
    length_padLeft (by rw [length_takeLast]; omega)
  have hnumber (bs : Bytes) :
      Bytes.natOfBE (Bytes.padLeft 5 (Bytes.takeLast 5 bs)) = Bytes.natOfBE bs % 2 ^ 40 := by
    rw [Bytes.natOfBE_padLeft, Bytes.natOfBE_takeLast]
  constructor
  · intro h
    obtain ⟨hsize, hrest⟩ := List.cons.inj h
    have hsize : (Bytes.takeLast 7 id).length = (Bytes.takeLast 7 id').length := by
      have htoNat := congrArg UInt8.toNat hsize
      rwa [UInt8.toNat_ofNat', UInt8.toNat_ofNat', Nat.mod_eq_of_lt (by omega),
        Nat.mod_eq_of_lt (by omega)] at htoNat
    obtain ⟨hids, hpivs⟩ := List.append_inj hrest
      ((length_padLeft hid).trans (length_padLeft hid').symm)
    refine ⟨(Bytes.padLeft_inj hsize).mp hids, ?_⟩
    rw [← hnumber, hpivs, hnumber]
  · rintro ⟨hids, hnumbers⟩
    have hpivs : Bytes.padLeft 5 (Bytes.takeLast 5 piv) = Bytes.padLeft 5 (Bytes.takeLast 5 piv') := by
      apply Bytes.eq_of_natOfBE_eq (hpiv.trans hpiv'.symm)
      rw [hnumber, hnumber, hnumbers]
    rw [nonceInput, nonceInput, hids, hpivs]

/-- Under one common IV, nonces are as different as what they are made of. -/
theorem nonce_eq_iff (commonIv : Bytes) : nonce piv id commonIv = nonce piv' id' commonIv ↔
    Bytes.takeLast 7 id = Bytes.takeLast 7 id' ∧
      Bytes.natOfBE piv % 2 ^ 40 = Bytes.natOfBE piv' % 2 ^ 40 := by
  have hmask (piv id : Bytes) :
      (nonceInput piv id).length ≤ (commonIv ++ Bytes.zeros nonceLength).length := by
    rw [length_nonceInput, List.length_append, Bytes.zeros, List.length_replicate]
    exact Nat.le_add_left ..
  rw [nonce, nonce, Bytes.xor_left_inj (hmask piv id) (hmask piv' id')]
  exact nonceInput_eq_iff

/-- Different sequence numbers give different nonces. -/
theorem nonce_formatPiv_ne {m n : Nat} (hm : m < 2 ^ 40) (hn : n < 2 ^ 40) (h : m ≠ n)
    (id commonIv : Bytes) :
    nonce (formatPiv m) id commonIv ≠ nonce (formatPiv n) id commonIv := by
  intro heq
  obtain ⟨-, hnumbers⟩ := (nonce_eq_iff commonIv).mp heq
  rw [natOfBE_formatPiv, natOfBE_formatPiv] at hnumbers
  apply h
  omega

end Nonce

/-- A sequence number of 64 bits is read back from its partial IV, the only one of its big-endian forms
of one byte or more that is as short.  Whatever is masked, nonces under one common IV are equal exactly
if the last five bytes of the partial IVs are one number and the last seven of the identifiers the same
bytes. -/
theorem sequence_number_forms :
    (∀ n < 2 ^ 64, pivNumber (formatPiv n) = n ∧ Bytes.natOfBE (formatPiv n) = n ∧
      formatPiv n ≠ [] ∧ ∀ bs, bs ≠ [] → Bytes.natOfBE bs = n →
        (formatPiv n).length ≤ bs.length ∧
          (bs.length = (formatPiv n).length → bs = formatPiv n)) ∧
    ∀ commonIv piv id piv' id', nonce piv id commonIv = nonce piv' id' commonIv ↔
      Bytes.natOfBE (Bytes.takeLast 5 piv) = Bytes.natOfBE (Bytes.takeLast 5 piv') ∧
        Bytes.takeLast 7 id = Bytes.takeLast 7 id' := by
  constructor
  · intro n hn
    refine ⟨pivNumber_formatPiv hn, ?_, formatPiv_ne_nil n, ?_⟩
    · rw [natOfBE_formatPiv, Nat.mod_eq_of_lt hn]
    · intro bs hbs hnumber
      obtain ⟨hlength, hpadded⟩ := eq_padLeft_formatPiv hn hbs hnumber
      refine ⟨hlength, fun hshortest => ?_⟩
      rw [hpadded, Bytes.padLeft, hshortest, Nat.sub_self]
      rfl
  · intro commonIv piv id piv' id'
    rw [nonce_eq_iff, Bytes.natOfBE_takeLast, Bytes.natOfBE_takeLast]
    exact and_comm

/-- The common IV of a context. -/
def sampleIv : Bytes :=
  [0x46, 0x22, 0xd4, 0xdd, 0x6d, 0x94, 0x41, 0x68, 0xee, 0xfb, 0x54, 0x98, 0x7c]

/-- The first number that is too large for a nonce has the nonce of zero, even under an identifier that
differs in front of its last seven bytes.  The identifier of one zero byte is told from the empty one. -/
theorem sequence_number_forms_overflow :
    formatPiv (2 ^ 40) = [1, 0, 0, 0, 0, 0] ∧ pivNumber (formatPiv (2 ^ 40)) = 2 ^ 40 ∧
      nonce (formatPiv (2 ^ 40)) [8, 1, 2, 3, 4, 5, 6, 7] sampleIv =
        nonce [0] [9, 1, 2, 3, 4, 5, 6, 7] sampleIv ∧
      nonce [0] [0] sampleIv ≠ nonce [0] [] sampleIv := by
  obtain ⟨hnumbers, hnonces⟩ := sequence_number_forms
  obtain ⟨hread, -⟩ := hnumbers (2 ^ 40) (by decide)
  have hform : formatPiv (2 ^ 40) = [1, 0, 0, 0, 0, 0] := by decide
  refine ⟨hform, hread, ?_, ?_⟩
  · rw [hnonces, hform]
    decide
  · rw [ne_eq, hnonces]
    decide

end EdhocLab.Oscore
