import EdhocLab.Proofs.Curve.P256.Group

/-! # Agreement on P-256

A public point is the multiple of the base by the secret, and a received `x` coordinate determines the
point of its sender up to sign.  The shared secret depends on neither sign nor order.
-/
namespace EdhocLab.Curve.P256

open WeierstrassCurve

/-- The `x` coordinate, zero for the neutral point. -/
def xOf : curve.Point → F
  | .zero => 0
  | .some x _ _ => x

/-- The `y` coordinate, zero for the neutral point. -/
def yOf : curve.Point → F
  | .zero => 0
  | .some _ y _ => y

@[simp] theorem xOf_neg (P : curve.Point) : xOf (-P) = xOf P := by
  rcases P with _ | _ <;> rfl

theorem Jacobian.Represents.cast_affine {c : Jacobian} {P : curve.Point} (h : c.Represents P) :
    (c.affine.1 : F) = xOf P ∧ (c.affine.2 : F) = yOf P := by
  simp only [affine, cast_mul, cast_invMod (show 2 < p by decide) (show p < 2 ^ 256 by decide)]
  rcases P with _ | ⟨x, y, hpoint⟩
  · change (c.z : F) = 0 at h
    rw [h, inv_zero, mul_zero, mul_zero, mul_zero, mul_zero]
    exact ⟨rfl, rfl⟩
  · obtain ⟨hz, hx, hy⟩ := h
    rw [hx, hy]
    change _ = x ∧ _ = y
    constructor <;> field_simp

theorem Jacobian.affine_fst_lt (c : Jacobian) : c.affine.1 < p := mul_lt _ _

theorem cast_cubic (x : ℕ) : (cubic x : F) = (x : F) ^ 3 - 3 * x + b := by
  rw [cubic, cast_add, cast_sub (mul_lt _ _), cast_mul, cast_mul, cast_mul]
  push_cast
  ring

namespace Point

theorem equation (a : Point) : (a.y : F) ^ 2 = (a.x : F) ^ 3 - 3 * a.x + b := by
  rw [← cast_cubic, ← a.on_curve, cast_mul, pow_two]

/-- The point as one of the group. -/
def toGroup (a : Point) : curve.Point := .some a.x a.y (nonsingular_iff.mpr a.equation)

theorem ofPoint_represents (a : Point) : (Jacobian.ofPoint a).Represents a.toGroup :=
  ⟨by simp [Jacobian.ofPoint], by simp [Jacobian.ofPoint], by simp [Jacobian.ofPoint]⟩

theorem z_ofPoint_lt (a : Point) : (Jacobian.ofPoint a).z < p := show 1 < p by decide

/-- Points with one `x` coordinate differ in sign at most. -/
theorem toGroup_of_x_eq {a b : Point} (h : a.x = b.x) :
    a.toGroup = b.toGroup ∨ a.toGroup = -b.toGroup :=
  Affine.Point.X_eq_iff.mp (congrArg Nat.cast h)

end Point

theorem point?_eq_some {x y : ℕ} {a : Point} (h : point? x y = some a) : a.x = x ∧ a.y = y := by
  unfold point? at h
  split at h
  · cases h
    exact ⟨rfl, rfl⟩
  · cases h

theorem exists_point? {x y : ℕ} (hx : x < p) (hy : y < p)
    (h : (y : F) ^ 2 = (x : F) ^ 3 - 3 * x + b) : ∃ a, point? x y = some a := by
  have hcurve : mul y y = cubic x := by
    refine eq_of_cast (mul_lt _ _) (add_lt _ _) ?_
    rw [cast_mul, cast_cubic, ← pow_two, h]
  exact ⟨_, dif_pos ⟨hx, hy, hcurve⟩⟩

theorem root_lt (n : ℕ) : powMod p 256 n ((p + 1) / 4) < p := by
  rw [powMod_eq _ _ _ (by decide)]
  exact Nat.mod_lt _ (by decide)

/-- The power is a square root of every square. -/
theorem root_pow_two {n : ℕ} {y : F} (h : y ^ 2 = n) :
    (powMod p 256 n ((p + 1) / 4) : F) ^ 2 = n := by
  have hexponent : 2 * ((p + 1) / 4 * 2) = p + 1 := by decide
  rw [cast_powMod _ _ _ (by decide), ← h, ← pow_mul, ← pow_mul, hexponent, pow_succ, ZMod.pow_card,
    pow_two]

theorem exists_ofRoot {x r : ℕ} (hx : x < p) (hr : r < p)
    (h : (r : F) ^ 2 = (x : F) ^ 3 - 3 * x + b) :
    ∃ points, ofRoot x r = some points ∧ points.1.x = x := by
  have hother : (sub 0 r : F) ^ 2 = (x : F) ^ 3 - 3 * x + b := by
    rw [cast_sub hr, Nat.cast_zero, zero_sub, neg_sq, h]
  obtain ⟨first, hfirst⟩ := exists_point? hx hr h
  obtain ⟨second, hsecond⟩ := exists_point? hx (sub_lt _ _) hother
  by_cases hparity : r % 2 = 0
  · refine ⟨(first, second), ?_, (point?_eq_some hfirst).1⟩
    simp only [ofRoot, hparity, if_true, hfirst, hsecond]
  · refine ⟨(second, first), ?_, (point?_eq_some hsecond).1⟩
    simp only [ofRoot, hparity, if_false, hfirst, hsecond]

/-- There are two points with the `x` coordinate of a point. -/
theorem exists_lift (a : Point) : ∃ points, lift a.x = some points ∧ points.1.x = a.x := by
  refine exists_ofRoot a.x_lt (root_lt (cubic a.x)) ?_
  rw [← cast_cubic]
  exact root_pow_two (a.equation.trans (cast_cubic a.x).symm)

/-- A point is decoded from its `x` coordinate up to sign. -/
theorem exists_decode (a : Point) :
    ∃ received, decode (2 :: Bytes.ofNatBE 32 a.x) = some received ∧ received.x = a.x := by
  obtain ⟨points, hlift, hx⟩ := exists_lift a
  have hnat : Bytes.natOfBE (Bytes.ofNatBE 32 a.x) = a.x := by
    rw [Bytes.natOfBE_ofNatBE, Nat.mod_eq_of_lt (a.x_lt.trans (by decide))]
  refine ⟨points.1, ?_, hx⟩
  rw [decode, List.take_of_length_le (by simp), hnat, if_pos ⟨by simp, rfl⟩, hlift, Option.map_some]

/-- The base as a point of the group. -/
def baseGroup : curve.Point :=
  .some base.x base.y <| by
    rw [nonsingular_iff, ← cast_cubic, ← Nat.cast_pow, ZMod.natCast_eq_natCast_iff]
    decide

theorem base_represents : base.Represents baseGroup :=
  ⟨by simp [base], by simp [base], by simp [base]⟩

theorem z_base_lt : base.z < p := show 1 < p by decide

theorem scale_base_represents {k : ℕ} (hk : k < 2 ^ 256) :
    (base.scale k).Represents (k • baseGroup) :=
  Jacobian.scale_represents z_base_lt base_represents hk

theorem Scalar.val_lt (secret : Scalar) : secret.val < 2 ^ 256 := secret.lt.trans (by decide)

theorem publicPoint_toGroup {secret : Scalar} {a : Point} (h : publicPoint secret = some a) :
    a.toGroup = secret.val • baseGroup := by
  obtain ⟨hx, hy⟩ : a.x = (base.scale secret.val).affine.1 ∧ a.y = (base.scale secret.val).affine.2 :=
    point?_eq_some h
  obtain ⟨hxOf, hyOf⟩ := (scale_base_represents secret.val_lt).cast_affine
  rw [← hx] at hxOf
  rw [← hy] at hyOf
  rcases hmul : secret.val • baseGroup with _ | ⟨x, y, hpoint⟩
  · rw [hmul] at hxOf hyOf
    change (a.x : F) = 0 at hxOf
    change (a.y : F) = 0 at hyOf
    have hzero := a.equation
    rw [hxOf, hyOf] at hzero
    refine absurd ?_ (natCast_ne_zero (p := p) (show 0 < b by decide) (by decide))
    linear_combination -hzero
  · rw [hmul] at hxOf hyOf
    change (a.x : F) = x at hxOf
    change (a.y : F) = y at hyOf
    subst hxOf hyOf
    rfl

theorem cast_exchange (secret : Scalar) (a : Point) :
    (((Jacobian.ofPoint a).scale secret.val).affine.1 : F) = xOf (secret.val • a.toGroup) :=
  (Jacobian.scale_represents a.z_ofPoint_lt a.ofPoint_represents secret.val_lt).cast_affine.1

/-- The shared secret does not depend on the sign of the peer's point. -/
theorem exchange_congr (secret : Scalar) {a b : Point} (h : a.x = b.x) :
    exchange secret a = exchange secret b := by
  have hcast : xOf (secret.val • a.toGroup) = xOf (secret.val • b.toGroup) := by
    rcases Point.toGroup_of_x_eq h with heq | hneg
    · rw [heq]
    · rw [hneg, neg_nsmul, xOf_neg]
  rw [← cast_exchange, ← cast_exchange] at hcast
  rw [exchange, exchange, eq_of_cast (Jacobian.affine_fst_lt _) (Jacobian.affine_fst_lt _) hcast]

/-- The two owners of secrets come to the same value. -/
theorem exchange_comm {s t : Scalar} {a b : Point} (ha : publicPoint s = some a)
    (hb : publicPoint t = some b) : exchange s b = exchange t a := by
  have hcast : xOf (s.val • b.toGroup) = xOf (t.val • a.toGroup) := by
    rw [publicPoint_toGroup ha, publicPoint_toGroup hb, smul_comm]
  rw [← cast_exchange, ← cast_exchange] at hcast
  rw [exchange, exchange, eq_of_cast (Jacobian.affine_fst_lt _) (Jacobian.affine_fst_lt _) hcast]

end EdhocLab.Curve.P256
