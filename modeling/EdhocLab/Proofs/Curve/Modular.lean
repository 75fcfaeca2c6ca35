import EdhocLab.Curve.Modular
import Mathlib.FieldTheory.Finite.Basic

/-! # Laws of modular arithmetic

Repeated squaring computes powers, the inverse is that of the prime field, and a fold over the bits of
a number follows its prefixes.
-/
namespace EdhocLab.Curve

theorem powMod_eq {m : ℕ} (bits b e : ℕ) (he : e < 2 ^ bits) : powMod m bits b e = b ^ e % m := by
  induction bits generalizing b e with
  | zero =>
    obtain rfl : e = 0 := by simpa using he
    rfl
  | succ bits ih =>
    have hhalf : e / 2 < 2 ^ bits := by
      rw [Nat.pow_succ] at he
      omega
    have hrest : powMod m bits (b * b % m) (e / 2) = b ^ (2 * (e / 2)) % m := by
      rw [ih _ _ hhalf, ← Nat.pow_mod, ← pow_two, ← pow_mul]
    have hparity := Nat.div_add_mod e 2
    rw [powMod, hrest]
    split
    · rename_i hodd
      rw [hodd] at hparity
      conv_rhs => rw [← hparity, pow_succ, Nat.mul_comm]
      exact Nat.mul_mod_mod ..
    · rename_i heven
      rw [show 2 * (e / 2) = e by omega]

section Cast

variable {p : ℕ}

theorem natCast_ne_zero {n : ℕ} (hpos : 0 < n) (hlt : n < p) : (n : ZMod p) ≠ 0 := by
  intro h
  exact Nat.not_le_of_lt hlt (Nat.le_of_dvd hpos ((ZMod.natCast_eq_zero_iff n p).mp h))

/-- Residues are determined by their classes. -/
theorem eq_of_cast {a b : ℕ} (ha : a < p) (hb : b < p) (h : (a : ZMod p) = b) : a = b := by
  rwa [ZMod.natCast_eq_natCast_iff', Nat.mod_eq_of_lt ha, Nat.mod_eq_of_lt hb] at h

theorem eq_zero_of_cast {a : ℕ} (ha : a < p) (h : (a : ZMod p) = 0) : a = 0 :=
  eq_of_cast ha (Nat.zero_lt_of_lt ha) (h.trans Nat.cast_zero.symm)

end Cast

section Field

variable {p : ℕ} [Fact p.Prime]

theorem cast_powMod (bits b e : ℕ) (he : e < 2 ^ bits) :
    (powMod p bits b e : ZMod p) = (b : ZMod p) ^ e := by
  rw [powMod_eq bits b e he, ZMod.natCast_mod, Nat.cast_pow]

/-- The inverse is that of the field, also of zero. -/
theorem cast_invMod (htwo : 2 < p) (hp : p < 2 ^ 256) (a : ℕ) :
    (invMod p a : ZMod p) = (a : ZMod p)⁻¹ := by
  rw [invMod, cast_powMod _ _ _ (by omega)]
  by_cases ha : (a : ZMod p) = 0
  · rw [ha, inv_zero, zero_pow (by omega)]
  · refine eq_inv_of_mul_eq_one_left ?_
    rw [← pow_succ, show p - 2 + 1 = p - 1 by omega, ZMod.pow_card_sub_one_eq_one ha]

theorem cast_subMod {a b : ℕ} (hb : b ≤ p) : (subMod p a b : ZMod p) = (a : ZMod p) - b := by
  rw [subMod, ZMod.natCast_mod, Nat.cast_add, Nat.cast_sub hb, ZMod.natCast_self]
  ring

end Field

theorem bitsDown_succ (count n : ℕ) :
    bitsDown (count + 1) n = n.testBit count :: bitsDown count n := by
  rw [bitsDown, List.range_succ_eq_map, List.map_cons, List.map_map, bitsDown]
  congr 1
  refine List.map_congr_left fun i _ => ?_
  rw [Function.comp_apply, show count + 1 - 1 - (i + 1) = count - 1 - i by omega]

/-- A fold over the bits of a number keeps a property of the prefix that was read. -/
theorem foldl_bitsDown {α : Type} {f : α → Bool → α} {P : ℕ → α → Prop}
    (hf : ∀ n a bit, P n a → P (2 * n + bit.toNat) (f a bit)) (count n : ℕ) {k : ℕ} {a : α}
    (ha : P k a) : P (k * 2 ^ count + n % 2 ^ count) ((bitsDown count n).foldl f a) := by
  induction count generalizing k a with
  | zero => simpa [bitsDown, Nat.mod_one] using ha
  | succ count ih =>
    rw [bitsDown_succ, List.foldl_cons]
    have hstep := ih (hf k a (n.testBit count) ha)
    have hread : k * 2 ^ (count + 1) + n % 2 ^ (count + 1) =
        (2 * k + (n.testBit count).toNat) * 2 ^ count + n % 2 ^ count := by
      rw [Nat.mod_pow_succ, Nat.toNat_testBit]
      ring
    rw [hread]
    exact hstep

end EdhocLab.Curve
