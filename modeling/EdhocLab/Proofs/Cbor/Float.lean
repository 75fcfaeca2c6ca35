import EdhocLab.Proofs.Cbor.Head

/-! # Floats

Widening comes to a canonical pattern, and the encoding of a canonical pattern is read back as that
pattern.
-/
namespace EdhocLab.Cbor

namespace FloatFormat

theorem sign_lt (f : FloatFormat) (bits : Nat) : f.sign bits < 2 := Nat.mod_lt _ (by decide)

theorem exponent_lt (f : FloatFormat) (bits : Nat) : f.exponent bits < 2 ^ f.exponentBits :=
  Nat.mod_lt _ (Nat.two_pow_pos _)

theorem fraction_lt (f : FloatFormat) (bits : Nat) : f.fraction bits < 2 ^ f.fractionBits :=
  Nat.mod_lt _ (Nat.two_pow_pos _)

theorem double_fields {s e m : Nat} (hs : s < 2) (he : e < 2 ^ 11) (hm : m < 2 ^ 52) :
    double.pack s e m < 2 ^ 64 ∧ double.exponent (double.pack s e m) = e ∧
      double.fraction (double.pack s e m) = m := by
  simp only [double, pack, exponent, fraction]
  omega

theorem isCanonical_pack {s e m : Nat} (hs : s < 2) (he : e < 2 ^ 11) (hm : m < 2 ^ 52)
    (h : e ≠ double.special ∨ m = 0) : isCanonical (double.pack s e m) := by
  obtain ⟨hlt, hexponent, hfraction⟩ := double_fields hs he hm
  rw [isCanonical, hexponent, hfraction, decide_eq_true hlt, Bool.true_and]
  rcases h with h | h <;> simp [h]

theorem isCanonical_nan : isCanonical nan := by decide

/-- The leading bit of a subnormal fraction and the bits behind it, moved to the front. -/
theorem shifted_lt {m : Nat} (hlog : m.log2 < 52) :
    (m - 2 ^ m.log2) * 2 ^ (52 - m.log2) < 2 ^ 52 := by
  have hlt : m < 2 ^ (m.log2 + 1) := Nat.lt_log2_self
  have hpow : 2 ^ m.log2 * 2 ^ (52 - m.log2) = 2 ^ 52 := by
    rw [← Nat.pow_add]
    congr 1
    omega
  calc (m - 2 ^ m.log2) * 2 ^ (52 - m.log2)
      < 2 ^ m.log2 * 2 ^ (52 - m.log2) := by
        refine Nat.mul_lt_mul_of_pos_right ?_ (Nat.two_pow_pos _)
        rw [Nat.pow_succ] at hlt
        omega
    _ = 2 ^ 52 := hpow

/-- A pattern of a smaller format widens to a canonical one. -/
theorem isCanonical_widen_small {f : FloatFormat} (hf : f = half ∨ f = single) (bits : Nat) :
    isCanonical (f.widen bits) := by
  have hs := f.sign_lt bits
  have he := f.exponent_lt bits
  have hm := f.fraction_lt bits
  unfold widen
  dsimp only
  by_cases hspecial : f.exponent bits = f.special
  · rw [if_pos hspecial]
    by_cases hzero : f.fraction bits = 0
    · rw [if_pos hzero]
      exact isCanonical_pack hs (by decide) (by decide) (.inr rfl)
    · rw [if_neg hzero]
      exact isCanonical_nan
  rw [if_neg hspecial]
  have hfraction : f.fractionBits ≤ 23 := by rcases hf with rfl | rfl <;> decide
  by_cases hexponent : f.exponent bits = 0
  · rw [if_pos hexponent]
    by_cases hzero : f.fraction bits = 0
    · rw [if_pos hzero]
      exact isCanonical_pack hs (by decide) (by decide) (.inr rfl)
    -- A subnormal number of a smaller format is a normal one of the largest.
    · have hdouble : ¬f = double := by rcases hf with rfl | rfl <;> decide
      rw [if_neg hzero, if_neg hdouble]
      have hlog : (f.fraction bits).log2 < f.fractionBits := (Nat.log2_lt hzero).mpr hm
      have hexp : (f.fraction bits).log2 + 1 + double.bias - f.bias - f.fractionBits <
          double.special := by
        simp only [double, special, bias]
        omega
      exact isCanonical_pack hs (Nat.lt_of_lt_of_le hexp (by decide))
        (shifted_lt (by omega)) (.inl (Nat.ne_of_lt hexp))
  · rw [if_neg hexponent]
    have hexp : f.exponent bits + double.bias - f.bias < double.special := by
      rcases hf with rfl | rfl <;> simp only [double, half, single, special, bias] at * <;> omega
    have hfrac : f.fraction bits * 2 ^ (52 - f.fractionBits) < 2 ^ 52 := by
      calc f.fraction bits * 2 ^ (52 - f.fractionBits)
          < 2 ^ f.fractionBits * 2 ^ (52 - f.fractionBits) :=
            Nat.mul_lt_mul_of_pos_right hm (Nat.two_pow_pos _)
        _ = 2 ^ 52 := by rw [← Nat.pow_add]; congr 1; omega
    exact isCanonical_pack hs (Nat.lt_of_lt_of_le hexp (by decide)) hfrac
      (.inl (Nat.ne_of_lt hexp))

theorem pack_double_fields {bits : Nat} (h : bits < 2 ^ 64) :
    double.pack (double.sign bits) (double.exponent bits) (double.fraction bits) = bits := by
  simp only [double, pack, sign, exponent, fraction]
  omega

/-- Patterns of double precision only change if they are a NaN. -/
theorem widen_double {bits : Nat} (h : bits < 2 ^ 64) : double.widen bits =
    if double.exponent bits = double.special ∧ double.fraction bits ≠ 0 then nan else bits := by
  have hpack := pack_double_fields h
  unfold widen
  dsimp only
  by_cases hspecial : double.exponent bits = double.special
  · by_cases hzero : double.fraction bits = 0
    · simp_all
    · simp_all
  · have hnan : ¬(double.exponent bits = double.special ∧ double.fraction bits ≠ 0) :=
      fun h => hspecial h.1
    rw [if_neg hspecial, if_neg hnan]
    by_cases hexponent : double.exponent bits = 0
    · by_cases hzero : double.fraction bits = 0
      · simp_all
      · simp [hexponent, hzero]
    · rw [if_neg hexponent, Nat.add_sub_cancel]
      simpa [double] using hpack

theorem isCanonical_widen_double {bits : Nat} (h : bits < 2 ^ 64) :
    isCanonical (double.widen bits) := by
  rw [widen_double h]
  split
  · exact isCanonical_nan
  · rename_i hn
    simp only [isCanonical, Bool.and_eq_true, Bool.or_eq_true, decide_eq_true_eq]
    refine ⟨h, .inl ?_⟩
    simp only [not_and, Decidable.not_not] at hn
    by_cases hspecial : double.exponent bits = double.special
    · exact .inr (by simp [hn hspecial])
    · exact .inl (by simp [hspecial])

/-- A canonical pattern of double precision is its own widening. -/
theorem widen_double_of_isCanonical {bits : Nat} (h : isCanonical bits) :
    double.widen bits = bits := by
  simp only [isCanonical, Bool.and_eq_true, Bool.or_eq_true, decide_eq_true_eq] at h
  obtain ⟨hlt, hfields⟩ := h
  rw [widen_double hlt]
  split
  · rename_i hnan
    rcases hfields with (hexponent | hfraction) | hbits
    · exact absurd hnan.1 (by simpa using hexponent)
    · exact absurd (by simpa using hfraction) hnan.2
    · exact (by simpa using hbits : bits = nan).symm
  · rfl

theorem half_widen_mod (bits : Nat) : half.widen (bits % 2 ^ 16) = half.widen bits := by
  have hs : half.sign (bits % 2 ^ 16) = half.sign bits := by simp only [half, sign]; omega
  have he : half.exponent (bits % 2 ^ 16) = half.exponent bits := by
    simp only [half, exponent]; omega
  have hm : half.fraction (bits % 2 ^ 16) = half.fraction bits := by
    simp only [half, fraction]; omega
  have hdouble : ¬half = double := by decide
  unfold widen
  simp only [hs, he, hm, hdouble, if_false]

theorem single_widen_mod (bits : Nat) : single.widen (bits % 2 ^ 32) = single.widen bits := by
  have hs : single.sign (bits % 2 ^ 32) = single.sign bits := by simp only [single, sign]; omega
  have he : single.exponent (bits % 2 ^ 32) = single.exponent bits := by
    simp only [single, exponent]; omega
  have hm : single.fraction (bits % 2 ^ 32) = single.fraction bits := by
    simp only [single, fraction]; omega
  have hdouble : ¬single = double := by decide
  unfold widen
  simp only [hs, he, hm, hdouble, if_false]

end FloatFormat

open FloatFormat

/-- The bytes of a float are read back as the same float. -/
theorem encodeFloat_read {bits : Nat} (h : isCanonical bits) (rest : Bytes) :
    ∃ first tail argument, encodeFloat bits = first :: tail ∧ first.toNat / 32 = 7 ∧
      readArgument (first.toNat % 32) (tail ++ rest) = some (argument, rest) ∧
      simple (first.toNat % 32) argument = some (.float bits) := by
  have hread : ∀ info width small, 24 ≤ info → info < 28 → 2 ^ (info - 24) = width →
      readArgument info (Bytes.ofNatBE width small ++ rest) =
        some (.definite (small % 256 ^ width), rest) := by
    intro info width small hinfo hinfo' hwidth
    rw [readArgument, if_neg (by omega), if_pos hinfo', hwidth,
      splitExact_append (Bytes.length_ofNatBE width small)]
    simp [Bytes.natOfBE_ofNatBE]
  unfold encodeFloat
  by_cases hnan : bits = nan
  · rw [if_pos hnan]
    exact ⟨_, _, _, rfl, rfl, hread 25 2 _ (by decide) (by decide) rfl, by rw [hnan]; rfl⟩
  rw [if_neg hnan]
  cases hhalf : half.narrow? bits with
  | some small =>
    refine ⟨_, _, _, rfl, rfl, hread 25 2 _ (by decide) (by decide) rfl, ?_⟩
    change some (Value.float (half.widen (small % 2 ^ 16))) = _
    rw [half_widen_mod, widen_of_narrow? hhalf]
  | none =>
    cases hsingle : single.narrow? bits with
    | some small =>
      refine ⟨_, _, _, rfl, rfl, hread 26 4 _ (by decide) (by decide) rfl, ?_⟩
      change some (Value.float (single.widen (small % 2 ^ 32))) = _
      rw [single_widen_mod, widen_of_narrow? hsingle]
    | none =>
      refine ⟨_, _, _, rfl, rfl, hread 27 8 _ (by decide) (by decide) rfl, ?_⟩
      have hlt : bits < 256 ^ 8 := by
        simp only [isCanonical, Bool.and_eq_true, decide_eq_true_eq] at h
        exact h.1
      change some (Value.float (double.widen (bits % 256 ^ 8))) = _
      rw [Nat.mod_eq_of_lt hlt, widen_double_of_isCanonical h]

end EdhocLab.Cbor
