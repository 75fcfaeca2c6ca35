import EdhocLab.Proofs.Curve.Edwards

/-! # The group of Ed25519

Extended coordinates stand for points of the Edwards curve, and their addition and scaling compute sums
and multiples in its group.
-/
namespace EdhocLab.Curve.Ed25519

open WeierstrassCurve
open X25519 (F curve)

theorem p_eq : p = X25519.p := rfl

theorem cast_mul (a b : ℕ) : (mul a b : F) = a * b := by
  rw [mul, p_eq, ZMod.natCast_mod, Nat.cast_mul]

theorem cast_add (a b : ℕ) : (add a b : F) = a + b := by
  rw [add, p_eq, ZMod.natCast_mod, Nat.cast_add]

theorem cast_sub {a b : ℕ} (hb : b < p) : (sub a b : F) = a - b :=
  cast_subMod (p := X25519.p) hb.le

theorem mul_lt (a b : ℕ) : mul a b < p := Nat.mod_lt _ (by decide)

theorem sub_lt (a b : ℕ) : sub a b < p := Nat.mod_lt _ (by decide)

namespace Point

/-- The coordinates stand for the point of the curve. -/
structure Represents (a : Point) (P : curve.Point) : Prop where
  x_lt : a.x < p
  t_lt : a.t < p
  z_ne_zero : (a.z : F) ≠ 0
  x_eq : (a.x : F) = (edwards P).1 * a.z
  y_eq : (a.y : F) = (edwards P).2 * a.z
  t_eq : (a.t : F) = (edwards P).1 * (edwards P).2 * a.z

theorem zero_represents : zero.Represents 0 where
  x_lt := by decide
  t_lt := by decide
  z_ne_zero := by simp [zero]
  x_eq := by simp [zero, edwards]
  y_eq := by simp [zero, edwards]
  t_eq := by simp [zero, edwards]

theorem ofAffine_represents {x y : ℕ} {P : curve.Point} (hlt : x < p) (hx : (x : F) = (edwards P).1)
    (hy : (y : F) = (edwards P).2) : (ofAffine x y).Represents P where
  x_lt := hlt
  t_lt := mul_lt _ _
  z_ne_zero := by simp [ofAffine]
  x_eq := by simp [ofAffine, hx]
  y_eq := by simp [ofAffine, hy]
  t_eq := by simp [ofAffine, cast_mul, hx, hy]

namespace Represents

variable {a b : Point} {P Q : curve.Point}

theorem neg (h : a.Represents P) : a.neg.Represents (-P) where
  x_lt := sub_lt _ _
  t_lt := sub_lt _ _
  z_ne_zero := h.z_ne_zero
  x_eq := by
    rw [Point.neg, cast_sub h.x_lt, h.x_eq, edwards_neg, Nat.cast_zero]
    ring
  y_eq := by
    rw [Point.neg, h.y_eq, edwards_neg]
  t_eq := by
    rw [Point.neg, cast_sub h.t_lt, h.t_eq, edwards_neg, Nat.cast_zero]
    ring

/-- The factors of the sum, with the denominators of the addition law. -/
theorem factors (ha : a.Represents P) (hb : b.Represents Q) :
    (sub (mul (Ed25519.add a.y a.x) (Ed25519.add b.y b.x)) (mul (sub a.y a.x) (sub b.y b.x)) : F) =
        2 * a.z * b.z * ((edwards P).1 * (edwards Q).2 + (edwards Q).1 * (edwards P).2) ∧
      (Ed25519.add (mul (Ed25519.add a.y a.x) (Ed25519.add b.y b.x))
        (mul (sub a.y a.x) (sub b.y b.x)) : F) =
        2 * a.z * b.z * ((edwards P).2 * (edwards Q).2 + (edwards P).1 * (edwards Q).1) ∧
      (sub (mul (2 * a.z) b.z) (mul (mul a.t (2 * d % p)) b.t) : F) = 2 * a.z * b.z *
        (1 - d * ((edwards P).1 * (edwards Q).1 * ((edwards P).2 * (edwards Q).2))) ∧
      (Ed25519.add (mul (2 * a.z) b.z) (mul (mul a.t (2 * d % p)) b.t) : F) = 2 * a.z * b.z *
        (1 + d * ((edwards P).1 * (edwards Q).1 * ((edwards P).2 * (edwards Q).2))) := by
  have hd : ((2 * d % p : ℕ) : F) = 2 * d := by
    rw [p_eq, ZMod.natCast_mod, Nat.cast_mul, Nat.cast_two]
  simp only [cast_mul, cast_add, cast_sub ha.x_lt, cast_sub hb.x_lt, cast_sub (mul_lt _ _),
    Nat.cast_mul, Nat.cast_two, hd, ha.x_eq, ha.y_eq, ha.t_eq, hb.x_eq, hb.y_eq, hb.t_eq]
  refine ⟨?_, ?_, ?_, ?_⟩ <;> ring

theorem add (ha : a.Represents P) (hb : b.Represents Q) : (a.add b).Represents (P + Q) := by
  obtain ⟨hplus, hminus⟩ := denominators_ne_zero P Q
  obtain ⟨he, hh, hf, hg⟩ := ha.factors hb
  have hx : (edwards (P + Q)).1 *
      (1 + d * ((edwards P).1 * (edwards Q).1 * ((edwards P).2 * (edwards Q).2))) =
      (edwards P).1 * (edwards Q).2 + (edwards Q).1 * (edwards P).2 := by
    rw [edwards_add]
    exact div_mul_cancel₀ _ hplus
  have hy : (edwards (P + Q)).2 *
      (1 - d * ((edwards P).1 * (edwards Q).1 * ((edwards P).2 * (edwards Q).2))) =
      (edwards P).2 * (edwards Q).2 + (edwards P).1 * (edwards Q).1 := by
    rw [edwards_add]
    exact div_mul_cancel₀ _ hminus
  have hscale : 2 * (a.z : F) * b.z ≠ 0 :=
    mul_ne_zero (mul_ne_zero two_ne_zero ha.z_ne_zero) hb.z_ne_zero
  rw [← hx] at he
  rw [← hy] at hh
  refine ⟨mul_lt _ _, mul_lt _ _, ?_, ?_, ?_, ?_⟩
  · rw [Point.add, cast_mul, hf, hg]
    exact mul_ne_zero (mul_ne_zero hscale hminus) (mul_ne_zero hscale hplus)
  · rw [Point.add, cast_mul, cast_mul, he, hf, hg]
    ring
  · rw [Point.add, cast_mul, cast_mul, hh, hf, hg]
    ring
  · rw [Point.add, cast_mul, cast_mul, he, hh, hf, hg]
    ring

/-- The scaling of a point computes its multiples. -/
theorem scale (ha : a.Represents P) {k : ℕ} (hk : k < 2 ^ 256) :
    (a.scale k).Represents (k • P) := by
  have hstep (n : ℕ) (sum : Point) (bit : Bool) (h : sum.Represents (n • P)) :
      (if bit then (sum.add sum).add a else sum.add sum).Represents ((2 * n + bit.toNat) • P) := by
    have hdouble : (sum.add sum).Represents ((2 * n) • P) := by
      rw [two_mul, add_nsmul]
      exact h.add h
    cases bit with
    | false => exact hdouble
    | true =>
      rw [Bool.toNat_true, succ_nsmul]
      exact hdouble.add ha
  have hstart : zero.Represents (0 • P) := by
    rw [zero_nsmul]
    exact zero_represents
  have hfold := foldl_bitsDown hstep 256 k hstart
  rwa [Nat.zero_mul, Nat.zero_add, Nat.mod_eq_of_lt hk] at hfold

end Represents

end Point

/-- The base is that of the Montgomery form. -/
theorem base_represents : base.Represents X25519.base := by
  refine Point.ofAffine_represents (by decide) ?_ ?_
  · have hv : (X25519.baseV : F) ≠ 0 := natCast_ne_zero (by decide) (by decide)
    have hmod : base.x * X25519.baseV ≡ ratioValue * 9 [MOD X25519.p] := by decide
    have hcast := (ZMod.natCast_eq_natCast_iff ..).mpr hmod
    push_cast at hcast
    exact (eq_div_iff hv).mpr hcast
  · have hten : (9 + 1 : F) ≠ 0 := u_add_one_ne_zero X25519.base_nonsingular.1
    have hmod : base.y * (9 + 1) ≡ 8 [MOD X25519.p] := by decide
    have hcast := (ZMod.natCast_eq_natCast_iff ..).mpr hmod
    push_cast at hcast
    refine (eq_div_iff hten).mpr ?_
    exact hcast.trans (by norm_num)

end EdhocLab.Curve.Ed25519
