import EdhocLab.Proofs.Curve.Prime
import Mathlib.AlgebraicGeometry.EllipticCurve.Affine.Point
import Mathlib.Tactic.FieldSimp
import Mathlib.Tactic.LinearCombination

/-! # The group of P-256

The formulas for Jacobian coordinates compute the sum in the group of the curve, so that the scaling
of a point computes its multiples.
-/
namespace EdhocLab.Curve.P256

open WeierstrassCurve

instance : Fact p.Prime := ⟨prime_p256⟩

/-- The field of the coordinates. -/
abbrev F := ZMod p

theorem cast_mul (a b : ℕ) : (mul a b : F) = a * b := by
  rw [mul, ZMod.natCast_mod, Nat.cast_mul]

theorem cast_add (a b : ℕ) : (add a b : F) = a + b := by
  rw [add, ZMod.natCast_mod, Nat.cast_add]

theorem cast_sub {a b : ℕ} (hb : b < p) : (sub a b : F) = a - b := cast_subMod hb.le

theorem mul_lt (a b : ℕ) : mul a b < p := Nat.mod_lt _ (by decide)

theorem add_lt (a b : ℕ) : add a b < p := Nat.mod_lt _ (by decide)

theorem sub_lt (a b : ℕ) : sub a b < p := Nat.mod_lt _ (by decide)

instance : NeZero (2 : F) := ⟨by simpa using natCast_ne_zero (show 0 < 2 by decide) (by decide)⟩

/-- The curve of the group. -/
def curve : Affine F := { a₁ := 0, a₂ := 0, a₃ := 0, a₄ := -3, a₆ := b }

theorem equation_iff {x y : F} : curve.Equation x y ↔ y ^ 2 = x ^ 3 - 3 * x + b := by
  rw [Affine.equation_iff]
  simp [curve, sub_eq_add_neg]

theorem negY_eq (x y : F) : curve.negY x y = -y := by
  simp [Affine.negY, curve]

theorem nonsingular_iff {x y : F} : curve.Nonsingular x y ↔ y ^ 2 = x ^ 3 - 3 * x + b := by
  rw [← equation_iff, Affine.equation_iff_nonsingular_of_Δ_ne_zero]
  have hdiscriminant : curve.Δ = 1728 - 432 * (b : F) ^ 2 := by
    simp only [WeierstrassCurve.Δ, WeierstrassCurve.b₂, WeierstrassCurve.b₄, WeierstrassCurve.b₆,
      WeierstrassCurve.b₈, curve]
    ring
  have hval : ((1728 + (p - 432) * b ^ 2 : ℕ) : F) ≠ 0 := by
    rw [Ne, ZMod.natCast_eq_zero_iff]
    decide
  rw [hdiscriminant]
  rw [Nat.cast_add, Nat.cast_mul, Nat.cast_sub (by decide), ZMod.natCast_self] at hval
  push_cast at hval
  convert hval using 1
  ring

theorem odd_p : Odd p := prime_p256.odd_of_ne_two (by decide)

/-- The coordinates stand for the point of the curve. -/
def Jacobian.Represents (c : Jacobian) : curve.Point → Prop
  | .zero => (c.z : F) = 0
  | .some x y _ => (c.z : F) ≠ 0 ∧ (c.x : F) = x * c.z ^ 2 ∧ (c.y : F) = y * c.z ^ 3

namespace Jacobian

theorem z_double_lt (c : Jacobian) : c.double.z < p := mul_lt _ _

theorem cast_double_x (c : Jacobian) : (c.double.x : F) =
    9 * ((c.x : F) ^ 2 - c.z ^ 4) ^ 2 - 8 * (c.x * c.y ^ 2) := by
  simp only [double, cast_mul, cast_add, cast_sub (mul_lt _ _), cast_sub (add_lt _ _)]
  push_cast
  ring

theorem cast_double_y (c : Jacobian) : (c.double.y : F) =
    3 * ((c.x : F) ^ 2 - c.z ^ 4) * (4 * (c.x * c.y ^ 2) - c.double.x) - 8 * c.y ^ 4 := by
  rw [show c.double.y = sub (mul (mul 3 (mul (sub c.x (mul c.z c.z)) (P256.add c.x (mul c.z c.z))))
    (sub (mul 4 (mul c.x (mul c.y c.y))) c.double.x)) (mul 8 (mul (mul c.y c.y) (mul c.y c.y)))
    from rfl]
  simp only [cast_mul, cast_add, cast_sub (mul_lt _ _), cast_sub (show c.double.x < p from sub_lt _ _)]
  push_cast
  ring

theorem cast_double_z (c : Jacobian) : (c.double.z : F) = 2 * (c.y * c.z) := by
  simp only [double, cast_mul]
  push_cast
  ring

theorem double_represents {c : Jacobian} {P : curve.Point} (h : c.Represents P) :
    c.double.Represents (P + P) := by
  rcases P with _ | ⟨x, y, hpoint⟩
  · change (c.z : F) = 0 at h
    change (c.double.z : F) = 0
    rw [cast_double_z, h, mul_zero, mul_zero]
  · obtain ⟨hz, hx, hy⟩ := h
    by_cases hzero : y = 0
    · rw [Affine.Point.add_self_of_Y_eq (by rw [negY_eq, hzero, neg_zero])]
      change (c.double.z : F) = 0
      rw [cast_double_z, hy, hzero]
      ring
    · have hne : y ≠ curve.negY x y := negY_eq x y ▸ ZMod.ne_neg_self odd_p hzero
      rw [Affine.Point.add_self_of_Y_ne hne]
      have hslope : curve.slope x x y y = 3 * (x ^ 2 - 1) / (2 * y) := by
        rw [Affine.slope_of_Y_ne rfl hne, negY_eq]
        simp only [curve]
        ring
      have hdz : (c.double.z : F) = 2 * y * c.z ^ 4 := by
        rw [cast_double_z, hy]
        ring
      have hdx : (c.double.x : F) = curve.addX x x (curve.slope x x y y) * c.double.z ^ 2 := by
        rw [cast_double_x, hdz, hslope, hx, hy]
        simp only [Affine.addX, curve]
        field_simp
        ring
      refine ⟨?_, hdx, ?_⟩
      · rw [hdz]
        exact mul_ne_zero (mul_ne_zero two_ne_zero hzero) (pow_ne_zero 4 hz)
      · rw [cast_double_y, hdx, hdz, hslope, hx, hy]
        simp only [Affine.addY, Affine.negAddY, Affine.negY, Affine.addX, curve]
        field_simp
        ring

section Add

/-- The difference of the `x` coordinates, over a common denominator. -/
def run (a b : Jacobian) : ℕ := sub (mul b.x (mul a.z a.z)) (mul a.x (mul b.z b.z))

/-- The difference of the `y` coordinates, over a common denominator. -/
def rise (a b : Jacobian) : ℕ :=
  sub (mul b.y (mul a.z (mul a.z a.z))) (mul a.y (mul b.z (mul b.z b.z)))

variable {a b : Jacobian}

theorem cast_run : (run a b : F) = b.x * a.z ^ 2 - a.x * b.z ^ 2 := by
  simp only [run, cast_mul, cast_sub (mul_lt _ _)]
  ring

theorem cast_rise : (rise a b : F) = b.y * a.z ^ 3 - a.y * b.z ^ 3 := by
  simp only [rise, cast_mul, cast_sub (mul_lt _ _)]
  ring

variable (ha : a.z ≠ 0) (hb : b.z ≠ 0)
include ha hb

theorem add_of_run_eq (hrun : run a b = 0) :
    a.add b = if rise a b = 0 then a.double else zero :=
  (if_neg ha).trans ((if_neg hb).trans (if_pos hrun))

section Distinct

variable (hrun : run a b ≠ 0)
include hrun

theorem add_of_run_ne :
    a.add b =
      let hh := mul (run a b) (run a b)
      let v := mul (mul a.x (mul b.z b.z)) hh
      let x := sub (sub (mul (rise a b) (rise a b)) (mul (run a b) hh)) (P256.add v v)
      { x
        y := sub (mul (rise a b) (sub v x)) (mul (mul a.y (mul b.z (mul b.z b.z)))
          (mul (run a b) hh))
        z := mul (run a b) (mul a.z b.z) } :=
  (if_neg ha).trans ((if_neg hb).trans (if_neg hrun))

theorem cast_add_x : ((a.add b).x : F) =
    (rise a b : F) ^ 2 - run a b ^ 3 - 2 * (a.x * b.z ^ 2 * run a b ^ 2) := by
  rw [add_of_run_ne ha hb hrun]
  simp only [cast_mul, cast_add, cast_sub (mul_lt _ _), cast_sub (add_lt _ _)]
  ring

theorem cast_add_y : ((a.add b).y : F) =
    rise a b * (a.x * b.z ^ 2 * run a b ^ 2 - (a.add b).x) - a.y * b.z ^ 3 * run a b ^ 3 := by
  rw [cast_add_x ha hb hrun, add_of_run_ne ha hb hrun]
  simp only [cast_mul, cast_add, cast_sub (mul_lt _ _), cast_sub (add_lt _ _),
    cast_sub (sub_lt _ _)]
  ring

theorem cast_add_z : ((a.add b).z : F) = run a b * (a.z * b.z) := by
  rw [add_of_run_ne ha hb hrun]
  simp only [cast_mul]

end Distinct

end Add

section Sum

variable {a b : Jacobian} (ha : a.z < p) (hb : b.z < p)
include ha hb

theorem z_add_lt : (a.add b).z < p := by
  by_cases hza : a.z = 0
  · rwa [show a.add b = b from if_pos hza]
  · by_cases hzb : b.z = 0
    · rwa [show a.add b = a from (if_neg hza).trans (if_pos hzb)]
    · by_cases hrun : run a b = 0
      · rw [add_of_run_eq hza hzb hrun]
        split
        · exact z_double_lt a
        · decide
      · rw [add_of_run_ne hza hzb hrun]
        exact mul_lt _ _

omit ha hb in
/-- The sum of two affine points. -/
theorem add_represents_some {x₁ y₁ x₂ y₂ : F} {h₁ : curve.Nonsingular x₁ y₁}
    {h₂ : curve.Nonsingular x₂ y₂} (hP : a.Represents (.some x₁ y₁ h₁))
    (hQ : b.Represents (.some x₂ y₂ h₂)) :
    (a.add b).Represents (.some x₁ y₁ h₁ + .some x₂ y₂ h₂) := by
  have hdouble := double_represents hP
  obtain ⟨hz, hx, hy⟩ := hP
  obtain ⟨hz', hx', hy'⟩ := hQ
  have hza : a.z ≠ 0 := fun h => hz (by rw [h, Nat.cast_zero])
  have hzb : b.z ≠ 0 := fun h => hz' (by rw [h, Nat.cast_zero])
  have hrun : (run a b : F) = (x₂ - x₁) * (a.z * b.z) ^ 2 := by
    rw [cast_run, hx, hx']
    ring
  have hrise : (rise a b : F) = (y₂ - y₁) * (a.z * b.z) ^ 3 := by
    rw [cast_rise, hy, hy']
    ring
  have hscale : (a.z : F) * b.z ≠ 0 := mul_ne_zero hz hz'
  by_cases hne : x₁ = x₂
  · subst hne
    -- The program compares reduced numbers, so that equal classes have to become equal numbers.
    have hzero : run a b = 0 := eq_zero_of_cast (sub_lt _ _) (by rw [hrun]; ring)
    rw [add_of_run_eq hza hzb hzero]
    split
    · rename_i hr
      have hyy : y₁ = y₂ := by
        rw [hr, Nat.cast_zero, zero_eq_mul] at hrise
        exact (sub_eq_zero.mp (hrise.resolve_right (pow_ne_zero 3 hscale))).symm
      subst hyy
      exact hdouble
    · rename_i hr
      -- Two points with one abscissa that are not equal are opposite.
      have hneg : y₁ = curve.negY x₁ y₂ := by
        refine (Affine.Y_eq_of_X_eq h₁.1 h₂.1 rfl).resolve_left fun heq => hr ?_
        exact eq_zero_of_cast (sub_lt _ _) (by rw [hrise, heq]; ring)
      rw [Affine.Point.add_of_Y_eq rfl hneg]
      exact Nat.cast_zero
  · have hsub : x₂ - x₁ ≠ 0 := sub_ne_zero.mpr (Ne.symm hne)
    have hrun' : run a b ≠ 0 := by
      intro h
      rw [h, Nat.cast_zero, zero_eq_mul] at hrun
      exact hrun.elim hsub (pow_ne_zero 2 hscale)
    have hslope : curve.slope x₁ x₂ y₁ y₂ = (y₂ - y₁) / (x₂ - x₁) := by
      rw [Affine.slope_of_X_ne hne, ← neg_sub x₂ x₁, ← neg_sub y₂ y₁, neg_div_neg_eq]
    have hsz : ((a.add b).z : F) = (x₂ - x₁) * (a.z * b.z) ^ 3 := by
      rw [cast_add_z hza hzb hrun', hrun]
      ring
    have hsx : ((a.add b).x : F) =
        curve.addX x₁ x₂ (curve.slope x₁ x₂ y₁ y₂) * (a.add b).z ^ 2 := by
      rw [cast_add_x hza hzb hrun', hsz, hslope, hrun, hrise, hx]
      simp only [Affine.addX, curve]
      field_simp
      ring
    rw [Affine.Point.add_of_X_ne hne]
    refine ⟨?_, hsx, ?_⟩
    · rw [hsz]
      exact mul_ne_zero hsub (pow_ne_zero 3 hscale)
    · rw [cast_add_y hza hzb hrun', hsx, hsz, hslope, hrun, hrise, hx, hy]
      simp only [Affine.addY, Affine.negAddY, Affine.negY, Affine.addX, curve]
      field_simp
      ring

theorem add_represents {P Q : curve.Point} (hP : a.Represents P) (hQ : b.Represents Q) :
    (a.add b).Represents (P + Q) := by
  rcases P with _ | ⟨x₁, y₁, h₁⟩
  · have hza : a.z = 0 := eq_zero_of_cast ha hP
    rw [show a.add b = b from if_pos hza]
    exact hQ
  · rcases Q with _ | ⟨x₂, y₂, h₂⟩
    · have hza : a.z ≠ 0 := fun h => hP.1 (by rw [h, Nat.cast_zero])
      have hzb : b.z = 0 := eq_zero_of_cast hb hQ
      rw [show a.add b = a from (if_neg hza).trans (if_pos hzb)]
      exact hP
    · exact add_represents_some hP hQ

end Sum

section Scale

variable {a : Jacobian} {P : curve.Point} (ha : a.z < p) (hP : a.Represents P)
include ha hP

theorem foldl_represents (k : ℕ) :
    let sum := (bitsDown 256 k).foldl
      (fun sum bit => if bit then sum.double.add a else sum.double) zero
    sum.z < p ∧ sum.Represents ((k % 2 ^ 256) • P) := by
  have hstep (n : ℕ) (sum : Jacobian) (bit : Bool) (h : sum.z < p ∧ sum.Represents (n • P)) :
      (if bit then sum.double.add a else sum.double).z < p ∧
        (if bit then sum.double.add a else sum.double).Represents ((2 * n + bit.toNat) • P) := by
    have hdouble : sum.double.Represents ((2 * n) • P) := by
      rw [two_mul, add_nsmul]
      exact double_represents h.2
    cases bit with
    | false => exact ⟨z_double_lt sum, hdouble⟩
    | true =>
      refine ⟨z_add_lt (z_double_lt sum) ha, ?_⟩
      rw [Bool.toNat_true, succ_nsmul]
      exact add_represents (z_double_lt sum) ha hdouble hP
  have hstart : zero.z < p ∧ zero.Represents (0 • P) := by
    rw [zero_nsmul]
    exact ⟨by decide, Nat.cast_zero⟩
  have hfold := foldl_bitsDown hstep 256 k hstart
  rwa [Nat.zero_mul, Nat.zero_add] at hfold

theorem z_scale_lt (k : ℕ) : (a.scale k).z < p := (foldl_represents ha hP k).1

/-- The scaling of a point computes its multiples. -/
theorem scale_represents {k : ℕ} (hk : k < 2 ^ 256) : (a.scale k).Represents (k • P) := by
  have hfold := (foldl_represents ha hP k).2
  rwa [Nat.mod_eq_of_lt hk] at hfold

end Scale

end Jacobian

end EdhocLab.Curve.P256
