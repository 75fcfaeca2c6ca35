import EdhocLab.Curve.Ed25519
import EdhocLab.Proofs.Curve.X25519

/-! # The Edwards form of Curve25519

The points of the Montgomery curve are those of the twisted Edwards curve `-x² + y² = 1 + d x² y²`, and
the complete addition law of the latter computes the sum in the group of the former.
-/
namespace EdhocLab.Curve

section Identities

variable {K : Type} [Field K] {A u v u₁ v₁ u₂ v₂ u₃ v₃ l : K}

/-- The coordinates of a sum, from the chord through two points of a Montgomery curve. -/
structure Chord (A u₁ v₁ u₂ v₂ u₃ v₃ : K) : Prop where
  left : v₁ ^ 2 = u₁ ^ 3 + A * u₁ ^ 2 + u₁
  right : v₂ ^ 2 = u₂ ^ 3 + A * u₂ ^ 2 + u₂
  ne : u₂ - u₁ ≠ 0
  sum_u : u₃ * (u₂ - u₁) ^ 2 = (v₂ - v₁) ^ 2 - (A + u₁ + u₂) * (u₂ - u₁) ^ 2
  sum_v : v₃ * (u₂ - u₁) = -(v₁ * (u₂ - u₁) + (v₂ - v₁) * (u₃ - u₁))

/-- What the second coordinate of the sum satisfies on the Edwards curve, without denominators. -/
theorem Chord.second (h : Chord A u₁ v₁ u₂ v₂ u₃ v₃) :
    (u₃ - 1) * (v₁ * v₂ * (u₁ + 1) * (u₂ + 1) - (A - 2) * u₁ * u₂ * (u₁ - 1) * (u₂ - 1)) =
      (u₃ + 1) * (v₁ * v₂ * (u₁ - 1) * (u₂ - 1) - (A + 2) * u₁ * u₂ * (u₁ + 1) * (u₂ + 1)) := by
  refine mul_right_cancel₀ (pow_ne_zero 2 h.ne) ?_
  linear_combination
    (v₁ * v₂ * (u₁ + 1) * (u₂ + 1) - (A - 2) * u₁ * u₂ * (u₁ - 1) * (u₂ - 1) -
      (v₁ * v₂ * (u₁ - 1) * (u₂ - 1) - (A + 2) * u₁ * u₂ * (u₁ + 1) * (u₂ + 1))) * h.sum_u +
    (2 * A * u₁ ^ 2 * u₂ + 2 * A * u₁ * u₂ ^ 2 + 4 * u₁ ^ 2 * u₂ ^ 2 + 4 * u₁ * u₂ +
      2 * u₁ * v₁ * v₂ - 4 * u₁ * v₂ ^ 2 + 2 * u₂ * v₁ * v₂ - 4 * u₂ * v₂ ^ 2) * h.left +
    (-4 * A * u₁ ^ 3 - 2 * A * u₁ ^ 2 * u₂ + 2 * A * u₁ * u₂ ^ 2 - 4 * u₁ ^ 4 - 4 * u₁ ^ 3 * u₂ +
      4 * u₁ ^ 2 * u₂ ^ 2 - 4 * u₁ ^ 2 + 2 * u₁ * v₁ * v₂ + 2 * u₂ * v₁ * v₂) * h.right

/-- What the first coordinate of the sum satisfies on the Edwards curve, without denominators. -/
theorem Chord.first (h : Chord A u₁ v₁ u₂ v₂ u₃ v₃) :
    (u₁ * v₂ * (u₂ - 1) * (u₁ + 1) + u₂ * v₁ * (u₁ - 1) * (u₂ + 1)) * v₃ =
      u₃ * (v₁ * v₂ * (u₁ + 1) * (u₂ + 1) + (A - 2) * u₁ * u₂ * (u₁ - 1) * (u₂ - 1)) := by
  have hproduct : (v₁ * v₂) ^ 2 = (u₁ ^ 3 + A * u₁ ^ 2 + u₁) * (u₂ ^ 3 + A * u₂ ^ 2 + u₂) := by
    rw [mul_pow, h.left, h.right]
  have hu : u₃ * (u₂ - u₁) ^ 2 =
      (u₁ + u₂) * (u₁ * u₂ + 1) + 2 * A * u₁ * u₂ - 2 * (v₁ * v₂) := by
    linear_combination h.sum_u + h.left + h.right
  have hv : (u₁ * v₂ * (u₂ - 1) * (u₁ + 1) + u₂ * v₁ * (u₁ - 1) * (u₂ + 1)) * (v₃ * (u₂ - u₁)) =
      -(u₁ * (u₂ - 1) * (u₁ + 1) * (u₂ ^ 3 + A * u₂ ^ 2 + u₂) -
          u₂ * (u₁ - 1) * (u₂ + 1) * (u₁ ^ 3 + A * u₁ ^ 2 + u₁) +
          (u₂ * (u₁ - 1) * (u₂ + 1) - u₁ * (u₂ - 1) * (u₁ + 1)) * (v₁ * v₂)) * u₃ -
        (u₂ * (u₂ * (u₁ - 1) * (u₂ + 1)) * (u₁ ^ 3 + A * u₁ ^ 2 + u₁) -
          u₁ * (u₁ * (u₂ - 1) * (u₁ + 1)) * (u₂ ^ 3 + A * u₂ ^ 2 + u₂) +
          (u₂ * (u₁ * (u₂ - 1) * (u₁ + 1)) - u₁ * (u₂ * (u₁ - 1) * (u₂ + 1))) * (v₁ * v₂)) := by
    linear_combination
      (u₁ * v₂ * (u₂ - 1) * (u₁ + 1) + u₂ * v₁ * (u₁ - 1) * (u₂ + 1)) * h.sum_v +
      (u₂ * (u₁ - 1) * (u₂ + 1) * (u₃ - u₂)) * h.left -
      (u₁ * (u₂ - 1) * (u₁ + 1) * (u₃ - u₁)) * h.right
  refine mul_right_cancel₀ (pow_ne_zero 3 h.ne) ?_
  linear_combination (u₂ - u₁) ^ 2 * hv -
    (u₁ * (u₂ - 1) * (u₁ + 1) * (u₂ ^ 3 + A * u₂ ^ 2 + u₂) -
      u₂ * (u₁ - 1) * (u₂ + 1) * (u₁ ^ 3 + A * u₁ ^ 2 + u₁) +
      (u₂ * (u₁ - 1) * (u₂ + 1) - u₁ * (u₂ - 1) * (u₁ + 1)) * (v₁ * v₂) +
      (u₂ - u₁) * (v₁ * v₂ * (u₁ + 1) * (u₂ + 1) +
        (A - 2) * u₁ * u₂ * (u₁ - 1) * (u₂ - 1))) * hu +
    2 * (u₂ * (u₁ - 1) * (u₂ + 1) - u₁ * (u₂ - 1) * (u₁ + 1) +
      (u₂ - u₁) * (u₁ + 1) * (u₂ + 1)) * hproduct

/-- The coordinates of a double, from the tangent of a Montgomery curve. -/
structure Tangent (A u v u₃ v₃ l : K) : Prop where
  point : v ^ 2 = u ^ 3 + A * u ^ 2 + u
  ne : 2 * v ≠ 0
  slope : l * (2 * v) = 3 * u ^ 2 + 2 * A * u + 1
  double_u : u₃ = l ^ 2 - A - 2 * u
  double_v : v₃ = -(v + l * (u₃ - u))

theorem Tangent.coordinate (h : Tangent A u v u₃ v₃ l) : u₃ * (2 * v) ^ 2 = (u ^ 2 - 1) ^ 2 := by
  rw [h.double_u]
  linear_combination (l * (2 * v) + (3 * u ^ 2 + 2 * A * u + 1)) * h.slope -
    4 * (A + 2 * u) * h.point

theorem Tangent.second (h : Tangent A u v u₃ v₃ l) :
    (u₃ - 1) * (v ^ 2 * (u + 1) ^ 2 - (A - 2) * u ^ 2 * (u - 1) ^ 2) =
      (u₃ + 1) * (v ^ 2 * (u - 1) ^ 2 - (A + 2) * u ^ 2 * (u + 1) ^ 2) := by
  refine mul_right_cancel₀ (pow_ne_zero 2 h.ne) ?_
  linear_combination
    (v ^ 2 * (u + 1) ^ 2 - (A - 2) * u ^ 2 * (u - 1) ^ 2 -
      (v ^ 2 * (u - 1) ^ 2 - (A + 2) * u ^ 2 * (u + 1) ^ 2)) * h.coordinate +
    (-4 * u ^ 5 + 8 * u ^ 3 - 8 * u ^ 2 * v ^ 2 - 4 * u - 8 * v ^ 2) * h.point

theorem Tangent.first (h : Tangent A u v u₃ v₃ l) :
    2 * u * (u ^ 2 - 1) * v * v₃ =
      u₃ * (v ^ 2 * (u + 1) ^ 2 + (A - 2) * u ^ 2 * (u - 1) ^ 2) := by
  have hv : v₃ * (8 * v ^ 3) = -(8 * v ^ 4 +
      (3 * u ^ 2 + 2 * A * u + 1) * ((u ^ 2 - 1) ^ 2 - 4 * v ^ 2 * u)) := by
    linear_combination 8 * v ^ 3 * h.double_v - (u₃ - u) * (2 * v) ^ 2 * h.slope -
      (3 * u ^ 2 + 2 * A * u + 1) * h.coordinate
  refine mul_right_cancel₀ (pow_ne_zero 2 h.ne) ?_
  linear_combination u * (u ^ 2 - 1) * hv -
    (v ^ 2 * (u + 1) ^ 2 + (A - 2) * u ^ 2 * (u - 1) ^ 2) * h.coordinate +
    (u ^ 2 - 1) * (3 * u ^ 4 - 2 * u ^ 3 - 4 * u ^ 2 - 8 * u * v ^ 2 + 2 * u + 1) * h.point

/-- The point of the Edwards curve with the given coordinates on the Montgomery curve. -/
def toEdwards (c u v : K) : K × K := (c * u / v, (u - 1) / (u + 1))

/-- The addition law of the Edwards curve. -/
def edwardsAdd (d : K) (a b : K × K) : K × K :=
  ((a.1 * b.2 + b.1 * a.2) / (1 + d * (a.1 * b.1 * (a.2 * b.2))),
    (a.2 * b.2 + a.1 * b.1) / (1 - d * (a.1 * b.1 * (a.2 * b.2))))

section Law

variable {c d : K} (hc : c ^ 2 = -(A + 2)) (hd : d * c ^ 2 = A - 2) (hv₁ : v₁ ≠ 0) (hv₂ : v₂ ≠ 0)
  (hu₁ : u₁ + 1 ≠ 0) (hu₂ : u₂ + 1 ≠ 0)
include hc hd hv₁ hv₂ hu₁ hu₂

/-- The addition law gives what the chord through two points gives. -/
theorem Chord.law (h : Chord A u₁ v₁ u₂ v₂ u₃ v₃) {a b : K × K} (ha : a = toEdwards c u₁ v₁)
    (hb : b = toEdwards c u₂ v₂) :
    (a.1 * b.2 + b.1 * a.2) * v₃ = c * u₃ * (1 + d * (a.1 * b.1 * (a.2 * b.2))) ∧
      (a.2 * b.2 + a.1 * b.1) * (u₃ + 1) = (u₃ - 1) * (1 - d * (a.1 * b.1 * (a.2 * b.2))) := by
  subst ha hb
  have hfirst := h.first
  have hsecond := h.second
  constructor
  · simp only [toEdwards]
    field_simp
    linear_combination c * hfirst - c * u₃ * u₁ * u₂ * (u₁ - 1) * (u₂ - 1) * hd
  · simp only [toEdwards]
    field_simp
    linear_combination u₁ * u₂ * (u₁ + 1) * (u₂ + 1) * (u₃ + 1) * hc - hsecond +
      (u₃ - 1) * u₁ * u₂ * (u₁ - 1) * (u₂ - 1) * hd

omit hv₂ hu₂ in
/-- The addition law gives what the tangent gives. -/
theorem Tangent.law (h : Tangent A u₁ v₁ u₃ v₃ l) {a : K × K} (ha : a = toEdwards c u₁ v₁) :
    (a.1 * a.2 + a.1 * a.2) * v₃ = c * u₃ * (1 + d * (a.1 * a.1 * (a.2 * a.2))) ∧
      (a.2 * a.2 + a.1 * a.1) * (u₃ + 1) = (u₃ - 1) * (1 - d * (a.1 * a.1 * (a.2 * a.2))) := by
  subst ha
  have hfirst := h.first
  have hsecond := h.second
  constructor
  · simp only [toEdwards]
    field_simp
    linear_combination c * hfirst - c * u₃ * u₁ ^ 2 * (u₁ - 1) ^ 2 * hd
  · simp only [toEdwards]
    field_simp
    linear_combination u₁ ^ 2 * (u₁ + 1) ^ 2 * (u₃ + 1) * hc - hsecond +
      (u₃ - 1) * u₁ ^ 2 * (u₁ - 1) ^ 2 * hd

end Law

section Complete

variable {d i : K} (hi : i ^ 2 = -1) (hd : ∀ s t : K, s ^ 2 = d * t ^ 2 → t = 0) (htwo : (2 : K) ≠ 0)
include hi hd htwo

/-- The Edwards curve. -/
def OnEdwards (d : K) (a : K × K) : Prop := -a.1 ^ 2 + a.2 ^ 2 = 1 + d * (a.1 ^ 2 * a.2 ^ 2)

/-- The addition law is complete if minus one is a square and the coefficient is none. -/
theorem OnEdwards.ne {a b : K × K} (ha : OnEdwards d a) (hb : OnEdwards d b) {e : K} (he : e ^ 2 = 1) :
    d * (a.1 * b.1 * (a.2 * b.2)) ≠ e := by
  intro h
  unfold OnEdwards at ha hb
  have hne : d * (a.1 * b.1 * (a.2 * b.2)) ≠ 0 := by
    rw [h]
    rintro rfl
    exact zero_ne_one ((zero_pow two_ne_zero).symm.trans he)
  have hsquare : (d * (a.1 * b.1 * (a.2 * b.2))) ^ 2 = 1 := by rw [h, he]
  have hplus : (i * a.1 + e * a.2) ^ 2 = d * (a.1 * a.2 * (i * b.1 + b.2)) ^ 2 := by
    rw [← h]
    linear_combination (a.1 ^ 2 - d * a.1 ^ 2 * a.2 ^ 2 * b.1 ^ 2) * hi + ha + a.2 ^ 2 * hsquare -
      d * a.1 ^ 2 * a.2 ^ 2 * hb - hsquare
  have hminus : (i * a.1 - e * a.2) ^ 2 = d * (a.1 * a.2 * (i * b.1 - b.2)) ^ 2 := by
    rw [← h]
    linear_combination (a.1 ^ 2 - d * a.1 ^ 2 * a.2 ^ 2 * b.1 ^ 2) * hi + ha + a.2 ^ 2 * hsquare -
      d * a.1 ^ 2 * a.2 ^ 2 * hb - hsquare
  have hfactor : a.1 * a.2 ≠ 0 := fun hzero => hne (by linear_combination d * b.1 * b.2 * hzero)
  have hsum := (mul_eq_zero.mp (hd _ _ hplus)).resolve_left hfactor
  have hdiff := (mul_eq_zero.mp (hd _ _ hminus)).resolve_left hfactor
  have hdouble : 2 * b.2 = 0 := by linear_combination hsum - hdiff
  have hzero := (mul_eq_zero.mp hdouble).resolve_left htwo
  exact hne (by linear_combination d * a.1 * b.1 * a.2 * hzero)

end Complete

end Identities

namespace Ed25519

open X25519 (F curve)
open WeierstrassCurve

def ratioValue : ℕ :=
  51042569399160536130206135233146329284152202253034631822681833788666877215207

/-- The ratio of the coordinates of the two forms. -/
def ratio : F := ratioValue

theorem ratio_sq : ratio ^ 2 = -(486662 + 2) := by
  have hmod : ratioValue ^ 2 + 486664 ≡ 0 [MOD X25519.p] := by decide
  have hcast := (ZMod.natCast_eq_natCast_iff ..).mpr hmod
  push_cast at hcast
  rw [ratio]
  linear_combination hcast

theorem ratio_ne_zero : ratio ≠ 0 := by
  intro h
  have hsquare := ratio_sq
  rw [h] at hsquare
  have hval : ((486664 : ℕ) : F) = 0 := by
    push_cast
    linear_combination hsquare
  exact natCast_ne_zero (by decide) (by decide) hval

theorem d_mul_ratio_sq : (d : F) * ratio ^ 2 = 486662 - 2 := by
  have hmod : d * 486664 + 486660 ≡ 0 [MOD X25519.p] := by decide
  have hcast := (ZMod.natCast_eq_natCast_iff ..).mpr hmod
  push_cast at hcast
  rw [ratio_sq]
  linear_combination -hcast

theorem sqrtMinusOne_sq : (sqrtMinusOne : F) ^ 2 = -1 := by
  have hmod : sqrtMinusOne ^ 2 + 1 ≡ 0 [MOD X25519.p] := by decide
  have hcast := (ZMod.natCast_eq_natCast_iff ..).mpr hmod
  push_cast at hcast
  linear_combination hcast

theorem d_not_square (s t : F) (h : s ^ 2 = d * t ^ 2) : t = 0 := by
  by_contra ht
  have hpow : (d : F) ^ (X25519.p / 2) = 1 := by
    have hd : (d : F) = (s / t) ^ 2 := by
      field_simp
      rw [h]
    have hne : s / t ≠ 0 := by
      intro hzero
      rw [hzero, zero_pow two_ne_zero] at hd
      exact natCast_ne_zero (show 0 < d by decide) (by decide) hd
    rw [hd, ← pow_mul]
    exact ZMod.pow_card_sub_one_eq_one hne
  have hval : powMod X25519.p 256 d (X25519.p / 2) = X25519.p - 1 := by decide +kernel
  rw [← cast_powMod 256 d _ (by decide), hval, ← Nat.cast_one] at hpow
  exact absurd (eq_of_cast (by decide) (by decide) hpow) (by decide)

/-- The only point with `v` zero is the origin. -/
theorem u_eq_zero {u v : F} (h : curve.Equation u v) (hv : v = 0) : u = 0 := by
  rw [X25519.equation_iff, hv] at h
  by_contra hu
  have hquadratic : u ^ 2 + 486662 * u + 1 = 0 := by
    refine (mul_eq_zero.mp ?_).resolve_left hu
    linear_combination -h
  have hcube : ratio ^ 3 = 0 := by
    refine d_not_square (sqrtMinusOne * ratio * (2 * u + 486662)) _ ?_
    linear_combination ratio ^ 2 * (2 * u + 486662) ^ 2 * sqrtMinusOne_sq -
      ratio ^ 2 * (4 * hquadratic + ratio ^ 2 * d_mul_ratio_sq + 486660 * ratio_sq)
  exact pow_ne_zero 3 ratio_ne_zero hcube

theorem u_add_one_ne_zero {u v : F} (h : curve.Equation u v) : u + 1 ≠ 0 := by
  intro hu
  rw [X25519.equation_iff] at h
  obtain rfl : u = -1 := by linear_combination hu
  exact ratio_ne_zero (d_not_square v ratio (by linear_combination h - d_mul_ratio_sq))

/-- The coordinates of a point on the Edwards curve. -/
def edwards : curve.Point → F × F
  | .zero => (0, 1)
  | .some u v _ => toEdwards ratio u v

theorem edwards_onEdwards (P : curve.Point) : OnEdwards (d : F) (edwards P) := by
  rcases P with _ | ⟨u, v, hpoint⟩
  · simp [edwards, OnEdwards]
  · have hcurve := X25519.equation_iff.mp hpoint.1
    have hu := u_add_one_ne_zero hpoint.1
    by_cases hv : v = 0
    · simp [edwards, toEdwards, OnEdwards, hv, u_eq_zero hpoint.1 hv]
    · simp only [edwards, toEdwards, OnEdwards]
      field_simp
      linear_combination -u ^ 2 * (u + 1) ^ 2 * ratio_sq - u ^ 2 * (u - 1) ^ 2 * d_mul_ratio_sq -
        4 * u * hcurve

@[simp] theorem edwards_neg (P : curve.Point) : edwards (-P) = (-(edwards P).1, (edwards P).2) := by
  rcases P with _ | ⟨u, v, hpoint⟩
  · simp [edwards, ← Affine.Point.zero_def]
  · change toEdwards ratio u (curve.negY u v) = _
    rw [X25519.negY_eq, toEdwards, div_neg]
    rfl

/-- The denominators of the addition law. -/
theorem denominators_ne_zero (P Q : curve.Point) :
    1 + d * ((edwards P).1 * (edwards Q).1 * ((edwards P).2 * (edwards Q).2)) ≠ 0 ∧
      1 - d * ((edwards P).1 * (edwards Q).1 * ((edwards P).2 * (edwards Q).2)) ≠ 0 := by
  have hne (e : F) (he : e ^ 2 = 1) := OnEdwards.ne sqrtMinusOne_sq d_not_square two_ne_zero
    (edwards_onEdwards P) (edwards_onEdwards Q) he
  constructor
  · intro h
    exact hne (-1) (by ring) (by linear_combination h)
  · intro h
    exact hne 1 (by ring) (by linear_combination -h)

theorem nonsingular_zero : curve.Nonsingular 0 0 := by
  rw [Affine.nonsingular_zero]
  exact ⟨rfl, Or.inr one_ne_zero⟩

/-- The point of order two. -/
def torsion : curve.Point := .some 0 0 nonsingular_zero

theorem eq_torsion {u v : F} (hpoint : curve.Nonsingular u v) (hv : v = 0) :
    Affine.Point.some u v hpoint = torsion := by
  obtain rfl := u_eq_zero hpoint.1 hv
  subst hv
  rfl

theorem edwards_torsion_add (P : curve.Point) :
    edwards (torsion + P) = (-(edwards P).1, -(edwards P).2) := by
  rcases P with _ | ⟨u, v, hpoint⟩
  · change edwards (torsion + 0) = _
    rw [add_zero]
    simp [edwards, torsion, toEdwards]
  · by_cases hv : v = 0
    · rw [eq_torsion hpoint hv, torsion, Affine.Point.add_self_of_Y_eq (by rw [X25519.negY_eq, neg_zero])]
      simp [edwards, toEdwards]
    · have hcurve := X25519.equation_iff.mp hpoint.1
      have hu : u ≠ 0 := by
        rintro rfl
        exact hv (pow_eq_zero_iff two_ne_zero |>.mp (by linear_combination hcurve))
      have hx : curve.addX 0 u (curve.slope 0 u 0 v) = 1 / u := by
        rw [Affine.slope_of_X_ne (Ne.symm hu), X25519.addX_eq]
        field_simp
        linear_combination u * hcurve
      have hy : curve.addY 0 u 0 (curve.slope 0 u 0 v) = -v / u ^ 2 := by
        rw [Affine.addY, X25519.negY_eq, Affine.negAddY, hx, Affine.slope_of_X_ne (Ne.symm hu)]
        field_simp
        ring
      rw [torsion, Affine.Point.add_of_X_ne (Ne.symm hu)]
      change toEdwards ratio (curve.addX 0 u _) (curve.addY 0 u 0 _) = _
      rw [hx, hy]
      have hsucc := u_add_one_ne_zero hpoint.1
      have hinv : 1 / u + 1 ≠ 0 := by
        rw [div_add_one hu, add_comm]
        exact div_ne_zero hsucc hu
      refine Prod.ext ?_ ?_
      · change ratio * (1 / u) / (-v / u ^ 2) = -(ratio * u / v)
        field_simp
      · change (1 / u - 1) / (1 / u + 1) = -((u - 1) / (u + 1))
        rw [div_eq_iff hinv]
        field_simp
        ring

theorem edwardsAdd_comm {K : Type} [Field K] (d : K) (a b : K × K) :
    edwardsAdd d a b = edwardsAdd d b a := by
  simp only [edwardsAdd]
  rw [add_comm (a.1 * b.2), mul_comm a.2, mul_comm a.1 b.1]

/-- The addition law from the equations of a sum that is not the point of order two. -/
theorem edwards_of_law {P Q : curve.Point} {u v : F} {hpoint : curve.Nonsingular u v}
    (hsum : P + Q = .some u v hpoint) (hv : v ≠ 0)
    (h : ((edwards P).1 * (edwards Q).2 + (edwards Q).1 * (edwards P).2) * v = ratio * u *
        (1 + d * ((edwards P).1 * (edwards Q).1 * ((edwards P).2 * (edwards Q).2))) ∧
      ((edwards P).2 * (edwards Q).2 + (edwards P).1 * (edwards Q).1) * (u + 1) = (u - 1) *
        (1 - d * ((edwards P).1 * (edwards Q).1 * ((edwards P).2 * (edwards Q).2)))) :
    edwards (P + Q) = edwardsAdd (d : F) (edwards P) (edwards Q) := by
  obtain ⟨hplus, hminus⟩ := denominators_ne_zero P Q
  have hu := u_add_one_ne_zero hpoint.1
  rw [hsum]
  refine Prod.ext ?_ ?_
  · exact (div_eq_div_iff hv hplus).mpr h.1.symm
  · exact (div_eq_div_iff hu hminus).mpr h.2.symm

/-- The addition law for points of which one is zero or of order two, or which are opposite. -/
theorem edwards_torsion_law (Q : curve.Point) :
    edwards (torsion + Q) = edwardsAdd (d : F) (edwards torsion) (edwards Q) := by
  rw [edwards_torsion_add]
  simp [edwardsAdd, edwards, torsion, toEdwards]

theorem edwards_neg_law (P : curve.Point) :
    edwards (P + -P) = edwardsAdd (d : F) (edwards P) (edwards (-P)) := by
  have hne := (denominators_ne_zero P (-P)).2
  have hcurve := edwards_onEdwards P
  rw [OnEdwards] at hcurve
  rw [edwards_neg] at hne ⊢
  rw [add_neg_cancel]
  have hnum : (edwards P).1 * (edwards P).2 + -(edwards P).1 * (edwards P).2 = 0 := by ring
  refine Prod.ext ?_ ?_
  · exact (div_eq_zero_iff.mpr (Or.inl hnum)).symm
  · refine ((div_eq_one_iff_eq hne).mpr ?_).symm
    linear_combination hcurve

theorem edwardsAdd_neg {K : Type} [Field K] (d : K) (a b : K × K) :
    edwardsAdd d a (-b.1, -b.2) = (-(edwardsAdd d a b).1, -(edwardsAdd d a b).2) := by
  have hproduct : a.1 * -b.1 * (a.2 * -b.2) = a.1 * b.1 * (a.2 * b.2) := by ring
  simp only [edwardsAdd, hproduct, ← neg_div]
  congr 2 <;> ring

theorem edwards_law_of_torsion {P Q : curve.Point} (h : P + Q = torsion) :
    edwards (P + Q) = edwardsAdd (d : F) (edwards P) (edwards Q) := by
  obtain rfl : Q = torsion + -P := by rw [← h, add_comm P, add_neg_cancel_right]
  have hsum : P + (torsion + -P) = torsion + (P + -P) := add_left_comm P torsion (-P)
  rw [hsum, edwards_torsion_add, edwards_neg_law, edwards_torsion_add, edwardsAdd_neg]

section Law

variable {u₁ v₁ u₂ v₂ : F} (h₁ : curve.Equation u₁ v₁)
include h₁

theorem chord_of_ne (h₂ : curve.Equation u₂ v₂) (hne : u₁ ≠ u₂) :
    Chord 486662 u₁ v₁ u₂ v₂ (curve.addX u₁ u₂ (curve.slope u₁ u₂ v₁ v₂))
      (curve.addY u₁ u₂ v₁ (curve.slope u₁ u₂ v₁ v₂)) where
  left := X25519.equation_iff.mp h₁
  right := X25519.equation_iff.mp h₂
  ne := sub_ne_zero.mpr (Ne.symm hne)
  sum_u := by
    have hsub := sub_ne_zero.mpr hne
    rw [X25519.addX_eq, Affine.slope_of_X_ne hne]
    field_simp
    ring
  sum_v := by
    have hsub := sub_ne_zero.mpr hne
    rw [Affine.addY, X25519.negY_eq, Affine.negAddY, Affine.slope_of_X_ne hne]
    field_simp
    ring

theorem tangent_of_ne (hv : v₁ ≠ 0) :
    Tangent 486662 u₁ v₁ (curve.addX u₁ u₁ (curve.slope u₁ u₁ v₁ v₁))
      (curve.addY u₁ u₁ v₁ (curve.slope u₁ u₁ v₁ v₁)) (curve.slope u₁ u₁ v₁ v₁) where
  point := X25519.equation_iff.mp h₁
  ne := mul_ne_zero two_ne_zero hv
  slope := by
    rw [Affine.slope_of_Y_ne rfl (X25519.negY_eq u₁ v₁ ▸ ZMod.ne_neg_self X25519.odd_p hv),
      X25519.negY_eq, sub_neg_eq_add, ← two_mul, div_mul_cancel₀ _ (mul_ne_zero two_ne_zero hv)]
    simp only [curve]
    ring
  double_u := by
    rw [X25519.addX_eq]
    ring
  double_v := by
    rw [Affine.addY, X25519.negY_eq, Affine.negAddY]
    ring

end Law

theorem edwards_add_some {u₁ v₁ u₂ v₂ : F} {h₁ : curve.Nonsingular u₁ v₁}
    {h₂ : curve.Nonsingular u₂ v₂} (hv₁ : v₁ ≠ 0) (hv₂ : v₂ ≠ 0) :
    edwards (.some u₁ v₁ h₁ + .some u₂ v₂ h₂) =
      edwardsAdd (d : F) (edwards (.some u₁ v₁ h₁)) (edwards (.some u₂ v₂ h₂)) := by
  have hu₁ := u_add_one_ne_zero h₁.1
  have hu₂ := u_add_one_ne_zero h₂.1
  by_cases hneg : u₁ = u₂ ∧ v₁ = curve.negY u₂ v₂
  · obtain ⟨rfl, rfl⟩ := hneg
    have hopposite : Affine.Point.some u₁ v₂ h₂ = -.some u₁ (curve.negY u₁ v₂) h₁ :=
      (neg_neg _).symm
    rw [hopposite]
    exact edwards_neg_law _
  · by_cases hv : curve.addY u₁ u₂ v₁ (curve.slope u₁ u₂ v₁ v₂) = 0
    · refine edwards_law_of_torsion ?_
      rw [Affine.Point.add_some hneg]
      exact eq_torsion _ hv
    · refine edwards_of_law (Affine.Point.add_some hneg) hv ?_
      by_cases hne : u₁ = u₂
      · subst hne
        obtain rfl : v₁ = v₂ :=
          (Affine.Y_eq_of_X_eq h₁.1 h₂.1 rfl).resolve_right fun h => hneg ⟨rfl, h⟩
        exact (tangent_of_ne h₁.1 hv₁).law ratio_sq d_mul_ratio_sq hv₁ hu₁ rfl
      · exact (chord_of_ne h₁.1 h₂.1 hne).law ratio_sq d_mul_ratio_sq hv₁ hv₂ hu₁ hu₂ rfl rfl

/-- The sum in the group is computed by the addition law of the Edwards curve. -/
theorem edwards_add (P Q : curve.Point) :
    edwards (P + Q) = edwardsAdd (d : F) (edwards P) (edwards Q) := by
  rcases P with _ | ⟨u₁, v₁, h₁⟩
  · rw [← Affine.Point.zero_def, zero_add]
    simp [edwards, edwardsAdd]
  · rcases Q with _ | ⟨u₂, v₂, h₂⟩
    · rw [← Affine.Point.zero_def, add_zero]
      simp [edwards, edwardsAdd]
    · by_cases hv₁ : v₁ = 0
      · rw [eq_torsion h₁ hv₁]
        exact edwards_torsion_law _
      · by_cases hv₂ : v₂ = 0
        · rw [eq_torsion h₂ hv₂, add_comm, edwardsAdd_comm]
          exact edwards_torsion_law _
        · exact edwards_add_some hv₁ hv₂

end Ed25519

end EdhocLab.Curve
