import EdhocLab.Proofs.Curve.Prime
import Mathlib.AlgebraicGeometry.EllipticCurve.Affine.Point
import Mathlib.Tactic.FieldSimp
import Mathlib.Tactic.LinearCombination

/-! # Agreement on Curve25519

The ladder computes the `u` coordinate of a multiple in the group of the Montgomery curve
`y² = x³ + 486662 x² + x`, with zero for the neutral point.  As multiples commute, two owners of secrets
come to the same value.
-/
namespace EdhocLab.Curve.X25519

open WeierstrassCurve

instance : Fact p.Prime := ⟨prime_p25519⟩

/-- The field of the coordinates. -/
abbrev F := ZMod p

theorem cast_mul (a b : ℕ) : (mul a b : F) = a * b := by
  rw [mul, ZMod.natCast_mod, Nat.cast_mul]

theorem cast_add (a b : ℕ) : (add a b : F) = a + b := by
  rw [add, ZMod.natCast_mod, Nat.cast_add]

theorem cast_sub {a b : ℕ} (hb : b < p) : (sub a b : F) = a - b := cast_subMod hb.le

theorem mul_lt (a b : ℕ) : mul a b < p := Nat.mod_lt _ (by decide)

/-- The Montgomery curve. -/
def curve : Affine F := { a₁ := 0, a₂ := 486662, a₃ := 0, a₄ := 1, a₆ := 0 }

theorem equation_iff {x y : F} : curve.Equation x y ↔ y ^ 2 = x ^ 3 + 486662 * x ^ 2 + x := by
  rw [Affine.equation_iff]
  simp [curve]

theorem negY_eq (x y : F) : curve.negY x y = -y := by
  simp [Affine.negY, curve]

instance : NeZero (2 : F) := ⟨by simpa using natCast_ne_zero (show 0 < 2 by decide) (by decide)⟩

instance : NeZero (4 : F) := ⟨by simpa using natCast_ne_zero (show 0 < 4 by decide) (by decide)⟩

section Formulas

variable {x y x₁ y₁ x₂ y₂ : F}

theorem addX_eq (x₁ x₂ l : F) : curve.addX x₁ x₂ l = l ^ 2 - 486662 - x₁ - x₂ := by
  simp [Affine.addX, curve]

/-- The product of the coordinates of a sum and a difference. -/
theorem addX_mul_addX (h₁ : curve.Equation x₁ y₁) (h₂ : curve.Equation x₂ y₂) (hne : x₁ ≠ x₂) :
    curve.addX x₁ x₂ ((y₁ - y₂) / (x₁ - x₂)) * curve.addX x₂ x₁ ((y₂ + y₁) / (x₂ - x₁)) *
      (x₁ - x₂) ^ 2 = (x₁ * x₂ - 1) ^ 2 := by
  rw [equation_iff] at h₁ h₂
  have hsub : x₁ - x₂ ≠ 0 := sub_ne_zero.mpr hne
  have hsub' : x₂ - x₁ ≠ 0 := sub_ne_zero.mpr hne.symm
  have hslope : (y₂ + y₁) / (x₂ - x₁) = -((y₁ + y₂) / (x₁ - x₂)) := by
    rw [← neg_sub x₁ x₂, div_neg, add_comm]
  rw [addX_eq, addX_eq, hslope]
  field_simp
  linear_combination (y₁ ^ 2 + (x₁ ^ 3 + 486662 * x₁ ^ 2 + x₁) - 2 * y₂ ^ 2 -
      2 * ((486662 + x₁ + x₂) * (x₁ - x₂) ^ 2)) * h₁ +
    (y₂ ^ 2 + (x₂ ^ 3 + 486662 * x₂ ^ 2 + x₂) - 2 * (x₁ ^ 3 + 486662 * x₁ ^ 2 + x₁) -
      2 * ((486662 + x₁ + x₂) * (x₁ - x₂) ^ 2)) * h₂

theorem odd_p : Odd p := prime_p25519.odd_of_ne_two (by decide)

/-- The coordinate of a double. -/
theorem addX_double (h : curve.Equation x y) (hy : y ≠ 0) :
    curve.addX x x (curve.slope x x y y) * (4 * y ^ 2) = (x ^ 2 - 1) ^ 2 := by
  have hslope : curve.slope x x y y = (3 * x ^ 2 + 2 * 486662 * x + 1) / (2 * y) := by
    rw [Affine.slope_of_Y_ne rfl (negY_eq x y ▸ ZMod.ne_neg_self odd_p hy), negY_eq]
    simp only [curve]
    ring
  rw [equation_iff] at h
  rw [addX_eq, hslope]
  field_simp
  linear_combination (-16 * (486662 + 2 * x)) * h

/-- A point whose coordinate is one or minus one is not its own inverse. -/
theorem sq_sub_one_ne_zero (h : curve.Equation x y) (hy : y = 0) : x ^ 2 - 1 ≠ 0 := by
  intro hx
  rw [equation_iff, hy] at h
  have hcases : (x - 1) * (x + 1) = 0 := by linear_combination hx
  rcases mul_eq_zero.mp hcases with hone | hone
  · have hval : ((486664 : ℕ) : F) = 0 := by
      push_cast
      obtain rfl : x = 1 := by linear_combination hone
      linear_combination -h
    exact natCast_ne_zero (by decide) (by decide) hval
  · have hval : ((486660 : ℕ) : F) = 0 := by
      push_cast
      obtain rfl : x = -1 := by linear_combination hone
      linear_combination -h
    exact natCast_ne_zero (by decide) (by decide) hval

end Formulas

/-- The coordinate stands for the point of the curve. -/
def Coordinate.Represents (c : Coordinate) : curve.Point → Prop
  | .zero => (c.x : F) ≠ 0 ∧ (c.z : F) = 0
  | .some x _ _ => (c.z : F) ≠ 0 ∧ (c.x : F) = x * c.z

section Double

variable {c : Coordinate} (hc : c.z < p)
include hc

theorem double_x : ((double c).x : F) = ((c.x : F) ^ 2 - (c.z : F) ^ 2) ^ 2 := by
  simp only [double, cast_mul, cast_add, cast_sub hc]
  ring

theorem double_z : ((double c).z : F) =
    4 * c.x * c.z * ((c.x : F) ^ 2 + 486662 * c.x * c.z + (c.z : F) ^ 2) := by
  simp only [double, cast_mul, cast_add, cast_sub hc, cast_sub (mul_lt _ _)]
  push_cast
  ring

theorem double_represents {P : curve.Point} (h : c.Represents P) :
    (double c).Represents (P + P) := by
  rcases P with _ | ⟨x, y, hpoint⟩
  · obtain ⟨hx, hz⟩ := h
    change (double c).Represents .zero
    refine ⟨?_, ?_⟩
    · rw [double_x hc, hz]
      simpa using hx
    · rw [double_z hc, hz]
      ring
  · obtain ⟨hz, hx⟩ := h
    have hcurve := equation_iff.mp hpoint.1
    have hdouble : ((double c).z : F) = 4 * y ^ 2 * (c.z : F) ^ 4 := by
      rw [double_z hc, hx]
      linear_combination (-4 * (c.z : F) ^ 4) * hcurve
    have hsquare : ((double c).x : F) = (x ^ 2 - 1) ^ 2 * (c.z : F) ^ 4 := by
      rw [double_x hc, hx]
      ring
    by_cases hy : y = 0
    · rw [Affine.Point.add_self_of_Y_eq (by rw [negY_eq, hy, neg_zero])]
      refine ⟨?_, ?_⟩
      · rw [hsquare]
        exact mul_ne_zero (pow_ne_zero 2 (sq_sub_one_ne_zero hpoint.1 hy)) (pow_ne_zero 4 hz)
      · rw [hdouble, hy]
        ring
    · rw [Affine.Point.add_self_of_Y_ne (negY_eq x y ▸ ZMod.ne_neg_self odd_p hy)]
      refine ⟨?_, ?_⟩
      · rw [hdouble]
        exact mul_ne_zero (mul_ne_zero four_ne_zero (pow_ne_zero 2 hy)) (pow_ne_zero 4 hz)
      · rw [hsquare, hdouble, ← addX_double hpoint.1 hy]
        ring

end Double

section AddDifference

variable {u : ℕ} {a b : Coordinate} (ha : a.z < p) (hb : b.z < p)
include ha hb

theorem addDifference_x :
    ((addDifference u a b).x : F) = 4 * ((a.x : F) * b.x - a.z * b.z) ^ 2 := by
  simp only [addDifference, cast_mul, cast_add, cast_sub ha, cast_sub hb]
  ring

theorem addDifference_z :
    ((addDifference u a b).z : F) = u * (4 * ((b.x : F) * a.z - a.x * b.z) ^ 2) := by
  simp only [addDifference, cast_mul, cast_add, cast_sub ha, cast_sub hb, cast_sub (mul_lt _ _)]
  ring

variable {v : F} {hpoint : curve.Nonsingular u v} (hu : (u : F) ≠ 0)
include hu

/-- The sum of two affine points whose difference is not its own inverse. -/
theorem addDifference_represents_some {x₁ y₁ x₂ y₂ : F} {h₁ : curve.Nonsingular x₁ y₁}
    {h₂ : curve.Nonsingular x₂ y₂} (hP : a.Represents (.some x₁ y₁ h₁))
    (hQ : b.Represents (.some x₂ y₂ h₂))
    (hD : Affine.Point.some x₂ y₂ h₂ - .some x₁ y₁ h₁ = .some (u : F) v hpoint) :
    (addDifference u a b).Represents (.some x₁ y₁ h₁ + .some x₂ y₂ h₂) := by
  obtain ⟨hz, hx⟩ := hP
  obtain ⟨hz', hx'⟩ := hQ
  have hsum : ((addDifference u a b).x : F) =
      4 * ((x₁ * x₂ - 1) ^ 2 * ((a.z : F) * b.z) ^ 2) := by
    rw [addDifference_x ha hb, hx, hx']
    ring
  have hdiff : ((addDifference u a b).z : F) =
      u * (4 * ((x₁ - x₂) ^ 2 * ((a.z : F) * b.z) ^ 2)) := by
    rw [addDifference_z ha hb, hx, hx']
    ring
  have hscale : ((a.z : F) * b.z) ^ 2 ≠ 0 := pow_ne_zero 2 (mul_ne_zero hz hz')
  by_cases hne : x₁ = x₂
  · subst hne
    -- The difference has coordinates, so that the points are not equal, but opposite.
    have hneg : Affine.Point.some x₁ y₁ h₁ = -.some x₁ y₂ h₂ := by
      refine (Affine.Point.X_eq_iff.mp rfl).resolve_left fun heq => ?_
      rw [heq, sub_self] at hD
      exact Affine.Point.some_ne_zero hpoint hD.symm
    rw [hneg, neg_add_cancel]
    refine ⟨?_, ?_⟩
    · rw [hsum, ← pow_two]
      refine mul_ne_zero four_ne_zero (mul_ne_zero (pow_ne_zero 2 ?_) hscale)
      rw [hneg, sub_neg_eq_add] at hD
      -- The difference is twice the second point, and the numerator its `u` times a factor, neither
      -- of which is zero.
      by_cases hy : y₂ = 0
      · exact sq_sub_one_ne_zero h₂.1 hy
      · rw [Affine.Point.add_self_of_Y_ne (negY_eq x₁ y₂ ▸ ZMod.ne_neg_self odd_p hy)] at hD
        have hu' := (Affine.Point.some.inj hD).1
        have hsquare := addX_double h₂.1 hy
        rw [hu'] at hsquare
        have hne : (x₁ ^ 2 - 1) ^ 2 ≠ 0 := by
          rw [← hsquare]
          exact mul_ne_zero hu (mul_ne_zero four_ne_zero (pow_ne_zero 2 hy))
        exact (pow_ne_zero_iff two_ne_zero).mp hne
    · rw [hdiff]
      ring
  · have hsub : x₂ - x₁ ≠ 0 := sub_ne_zero.mpr (Ne.symm hne)
    have hu' : curve.addX x₂ x₁ ((y₂ + y₁) / (x₂ - x₁)) = u := by
      rw [sub_eq_add_neg, Affine.Point.neg_some, Affine.Point.add_of_X_ne (Ne.symm hne)] at hD
      rw [← (Affine.Point.some.inj hD).1, Affine.slope_of_X_ne (Ne.symm hne), negY_eq, sub_neg_eq_add]
    rw [Affine.Point.add_of_X_ne hne]
    -- Without ordinates there is a formula for the product of the two `u` only, not for each.
    have hproduct := addX_mul_addX h₁.1 h₂.1 hne
    rw [hu', ← Affine.slope_of_X_ne hne] at hproduct
    refine ⟨?_, ?_⟩
    · rw [hdiff]
      exact mul_ne_zero hu (mul_ne_zero four_ne_zero (mul_ne_zero
        (pow_ne_zero 2 (sub_ne_zero.mpr hne)) hscale))
    · rw [hsum, hdiff, ← hproduct]
      ring

/-- The sum of two points whose difference is not its own inverse. -/
theorem addDifference_represents {P Q : curve.Point} (hP : a.Represents P) (hQ : b.Represents Q)
    (hD : Q - P = .some (u : F) v hpoint) : (addDifference u a b).Represents (P + Q) := by
  rcases P with _ | ⟨x₁, y₁, h₁⟩
  · obtain ⟨hx, hz⟩ := hP
    obtain rfl : Q = .some (u : F) v hpoint := by
      rw [← hD]
      exact (sub_zero Q).symm
    obtain ⟨hz', hx'⟩ := hQ
    change (addDifference u a b).Represents (.some (u : F) v hpoint)
    refine ⟨?_, ?_⟩
    · rw [addDifference_z ha hb, hz]
      simpa using ⟨hu, four_ne_zero, hx, hz'⟩
    · rw [addDifference_z ha hb, addDifference_x ha hb, hz, hx']
      ring
  · rcases Q with _ | ⟨x₂, y₂, h₂⟩
    · obtain ⟨hz, hx⟩ := hP
      obtain ⟨hx', hz'⟩ := hQ
      have hneg : -Affine.Point.some x₁ y₁ h₁ = .some (u : F) v hpoint := by
        rw [← hD]
        exact (zero_sub _).symm
      obtain rfl : x₁ = u := (Affine.Point.some.inj hneg).1
      change (addDifference u a b).Represents (.some (u : F) y₁ h₁)
      refine ⟨?_, ?_⟩
      · rw [addDifference_z ha hb, hz']
        simpa using ⟨hu, four_ne_zero, hx', hz⟩
      · rw [addDifference_z ha hb, addDifference_x ha hb, hz', hx]
        ring
    · exact addDifference_represents_some ha hb hu hP hQ hD

end AddDifference

/-- The coordinate of a point, zero for the neutral one. -/
def uOf : curve.Point → F
  | .zero => 0
  | .some x _ _ => x

/-- Two coordinates stand for the successive multiples `n` and `n + 1` of a point. -/
structure Successive (D : curve.Point) (n : ℕ) (low : Coordinate × Coordinate) : Prop where
  lower_lt : low.1.z < p
  upper_lt : low.2.z < p
  lower : low.1.Represents (n • D)
  upper : low.2.Represents ((n + 1) • D)

theorem Successive.step {D : curve.Point} {u : ℕ} {v : F} {hpoint : curve.Nonsingular u v}
    (hD : D = .some (u : F) v hpoint) (hu : (u : F) ≠ 0) {n : ℕ} {low : Coordinate × Coordinate}
    (bit : Bool) (h : Successive D n low) :
    Successive D (2 * n + bit.toNat) (step u low bit) := by
  have hdiff : (n + 1) • D - n • D = .some (u : F) v hpoint := by
    rw [succ_nsmul, add_sub_cancel_left, hD]
  have hsum : (addDifference u low.1 low.2).Represents ((2 * n + 1) • D) := by
    rw [show 2 * n + 1 = n + (n + 1) by omega, add_nsmul]
    exact addDifference_represents h.lower_lt h.upper_lt hu h.lower h.upper hdiff
  cases bit with
  | false =>
    refine ⟨mul_lt _ _, mul_lt _ _, ?_, hsum⟩
    rw [Bool.toNat_false, add_zero, two_mul, add_nsmul]
    exact double_represents h.lower_lt h.lower
  | true =>
    refine ⟨mul_lt _ _, mul_lt _ _, hsum, ?_⟩
    rw [Bool.toNat_true, show 2 * n + 1 + 1 = (n + 1) + (n + 1) by omega, add_nsmul]
    exact double_represents h.upper_lt h.upper

theorem Coordinate.Represents.cast_quotient {c : Coordinate} {P : curve.Point}
    (h : c.Represents P) : (mul c.x (invMod p c.z) : F) = uOf P := by
  rw [cast_mul, cast_invMod (by decide) (by decide)]
  rcases P with _ | ⟨x, y, hpoint⟩
  · obtain ⟨-, hz⟩ := h
    rw [hz, inv_zero, mul_zero]
    rfl
  · obtain ⟨hz, hx⟩ := h
    rw [hx, mul_inv_cancel_right₀ hz]
    rfl

/-- The ladder stays at zero for the coordinate zero. -/
theorem ladder_zero (k : ℕ) : ladder k 0 = 0 := by
  have hstep (n : ℕ) (low : Coordinate × Coordinate) (bit : Bool) (h : low.1.z = 0) :
      (step 0 low bit).1.z = 0 := by
    cases bit with
    | false =>
      refine eq_zero_of_cast (mul_lt _ _) ?_
      change ((double low.1).z : F) = 0
      rw [double_z (h ▸ by decide), h]
      ring
    | true => simp [step, addDifference, mul]
  have hfold : ((bitsDown 255 k).foldl (step 0) ({ x := 1, z := 0 }, { x := 0, z := 1 })).1.z = 0 :=
    foldl_bitsDown hstep 255 k (k := 0) rfl
  refine eq_zero_of_cast (mul_lt _ _) ?_
  change ((mul _ (invMod p _) : ℕ) : F) = 0
  rw [cast_mul, cast_invMod (by decide) (by decide), hfold, Nat.cast_zero, inv_zero, mul_zero]

theorem ladder_lt (k u : ℕ) : ladder k u < p := mul_lt _ _

/-- A point with coordinate zero is its own inverse. -/
theorem even_nsmul_eq_zero {D : curve.Point} (h : uOf D = 0) {k : ℕ} (hk : Even k) : k • D = 0 := by
  obtain ⟨m, rfl⟩ := hk
  rw [add_nsmul, ← nsmul_add]
  rcases D with _ | ⟨x, y, hpoint⟩
  · exact nsmul_zero m
  · obtain rfl : x = 0 := h
    have hy : y = 0 := by
      simpa using equation_iff.mp hpoint.1
    rw [Affine.Point.add_self_of_Y_eq (by rw [negY_eq, hy, neg_zero]), nsmul_zero]

/-- The ladder computes the coordinate of the even multiples of a point. -/
theorem cast_ladder {D : curve.Point} {u k : ℕ} (hu : u < p) (hD : (u : F) = uOf D) (heven : Even k)
    (hk : k < 2 ^ 255) : (ladder k u : F) = uOf (k • D) := by
  by_cases hzero : (u : F) = 0
  · obtain rfl : u = 0 := eq_zero_of_cast hu hzero
    rw [ladder_zero, even_nsmul_eq_zero (hD ▸ hzero) heven]
    exact Nat.cast_zero
  · rcases D with _ | ⟨x, v, hpoint⟩
    · exact absurd hD hzero
    · obtain rfl : (u : F) = x := hD
      have hstart : Successive (.some (u : F) v hpoint) 0
          ({ x := 1, z := 0 }, { x := u, z := 1 }) := by
        refine ⟨Nat.zero_lt_of_lt hu, show 1 < p by decide, ?_, ?_⟩
        · rw [zero_nsmul]
          exact ⟨by simp, by simp⟩
        · rw [zero_add, one_nsmul]
          exact ⟨by simp, by simp⟩
      have hfold := foldl_bitsDown (fun _ _ bit h => h.step rfl hzero bit) 255 k hstart
      rw [Nat.zero_mul, Nat.zero_add, Nat.mod_eq_of_lt hk] at hfold
      exact hfold.lower.cast_quotient

def baseV : ℕ := 14781619447589544791020593568409986887264606134616475288964881837755586237401

theorem base_nonsingular : curve.Nonsingular 9 (baseV : F) := by
  rw [Affine.nonsingular_iff, equation_iff]
  refine ⟨?_, Or.inr ?_⟩
  · have hmod : baseV ^ 2 ≡ 9 ^ 3 + 486662 * 9 ^ 2 + 9 [MOD p] := by decide
    exact_mod_cast (ZMod.natCast_eq_natCast_iff ..).mpr hmod
  · change _ ≠ curve.negY _ _
    rw [negY_eq]
    exact ZMod.ne_neg_self odd_p (natCast_ne_zero (by decide) (by decide))

/-- A point with the coordinate nine. -/
def base : curve.Point := .some 9 baseV base_nonsingular

theorem clamp_even (secret : Bytes) : Even (clamp secret) := by
  rw [Nat.even_iff, clamp]
  omega

theorem clamp_lt (secret : Bytes) : clamp secret < 2 ^ 255 := by
  rw [clamp]
  omega

theorem coordinate_ofNatLE {n : ℕ} (h : n < p) : coordinate (Bytes.ofNatLE 32 n) = n := by
  have hp : p < 2 ^ 255 := by decide
  rw [coordinate, Bytes.natOfLE_ofNatLE, Nat.mod_eq_of_lt (h.trans (by decide)),
    Nat.mod_eq_of_lt (h.trans hp), Nat.mod_eq_of_lt h]

theorem cast_publicKey (secret : Bytes) :
    (coordinate (publicKey secret) : F) = uOf (clamp secret • base) := by
  rw [publicKey, coordinate_ofNatLE (ladder_lt _ _)]
  exact cast_ladder (by decide) (by simp [base, uOf]) (clamp_even secret) (clamp_lt secret)

/-- The two owners of secrets come to the same value. -/
theorem exchange_comm (a b : Bytes) : exchange a (publicKey b) = exchange b (publicKey a) := by
  have hcast (a b : Bytes) : (ladder (clamp a) (coordinate (publicKey b)) : F) =
      uOf (clamp a • clamp b • base) :=
    cast_ladder (Nat.mod_lt _ (by decide)) (cast_publicKey b) (clamp_even a) (clamp_lt a)
  have heq : (ladder (clamp a) (coordinate (publicKey b)) : F) =
      ladder (clamp b) (coordinate (publicKey a)) := by
    rw [hcast, hcast, smul_comm]
  rw [exchange, exchange, eq_of_cast (ladder_lt _ _) (ladder_lt _ _) heq]

end EdhocLab.Curve.X25519
