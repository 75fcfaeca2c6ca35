import EdhocLab.Proofs.Curve.Ed25519.Group

/-! # Signatures on Ed25519

The encoding of a point determines it, and the base has the order that scalars are reduced by.  So what
is signed with a seed is verified with its public key.
-/
namespace EdhocLab.Curve.Ed25519

open WeierstrassCurve
open X25519 (F curve)

section Root

variable {u v r : ℕ} {x : F}

theorem sub_zero_eq (hpos : 0 < r) (hr : r < p) : sub 0 r = p - r := by
  rw [sub, subMod, Nat.zero_add, Nat.mod_eq_of_lt (Nat.sub_lt (Nat.zero_lt_of_lt hr) hpos)]

theorem p_odd : p % 2 = 1 := by decide

/-- Of a root and its negative one is even. -/
theorem even_root (hr : r < p) :
    (if r % 2 = 0 then r else sub 0 r) < p ∧ (if r % 2 = 0 then r else sub 0 r) % 2 = 0 ∧
      ((if r % 2 = 0 then r else sub 0 r : ℕ) : F) ^ 2 = r ^ 2 := by
  by_cases hparity : r % 2 = 0
  · rw [if_pos hparity]
    exact ⟨hr, hparity, rfl⟩
  · rw [if_neg hparity]
    refine ⟨sub_lt _ _, ?_, ?_⟩
    · have hp := p_odd
      rw [sub_zero_eq (by omega) hr]
      omega
    · rw [cast_sub hr, Nat.cast_zero, zero_sub, neg_sq]

theorem rootOf_eq_some (hu : u < p) (hr : r < p) (h : (v : F) * r ^ 2 = u ∨ (v : F) * r ^ 2 = -u) :
    ∃ root, rootOf u v r = some root ∧ root < p ∧ root % 2 = 0 ∧ (v : F) * root ^ 2 = u := by
  have hcheck : (mul v (mul r r) : F) = v * r ^ 2 := by
    rw [cast_mul, cast_mul, pow_two]
  by_cases hdirect : mul v (mul r r) = u
  · obtain ⟨hlt, heven, hsquare⟩ := even_root hr
    refine ⟨_, ?_, hlt, heven, ?_⟩
    · simp only [rootOf, hdirect, if_true, Option.map_some]
    · rw [hsquare, ← hcheck, hdirect]
  · have hneg : (v : F) * r ^ 2 = -u :=
      h.resolve_left fun heq => hdirect (eq_of_cast (mul_lt _ _) hu (hcheck.trans heq))
    have hother : mul v (mul r r) = sub 0 u := by
      refine eq_of_cast (p := X25519.p) (mul_lt _ _) (sub_lt _ _) ?_
      rw [hcheck, hneg, cast_sub hu, Nat.cast_zero, zero_sub]
    obtain ⟨hlt, heven, hsquare⟩ := even_root (mul_lt r sqrtMinusOne)
    refine ⟨_, ?_, hlt, heven, ?_⟩
    · simp only [rootOf, hother ▸ hdirect, hother, if_true, if_false, Option.map_some]
    · rw [hsquare, cast_mul]
      linear_combination (v * r ^ 2 : F) * sqrtMinusOne_sq - hneg

/-- A quotient that is a square has the candidate for its root, up to a root of minus one. -/
theorem candidate_spec (hv : (v : F) ≠ 0) (h : (u : F) = v * x ^ 2) :
    let candidate := mul (mul u (mul (mul v v) v)) (powMod p 256
      (mul u (mul (mul (mul (mul v v) v) (mul (mul v v) v)) v)) ((p - 5) / 8))
    (v : F) * candidate ^ 2 = u ∨ (v : F) * candidate ^ 2 = -u := by
  intro candidate
  have hcandidate : (candidate : F) =
      u * v ^ 3 * (u * v ^ 7) ^ ((p - 5) / 8) := by
    simp only [candidate, cast_mul, p_eq, cast_powMod _ _ _ (show (X25519.p - 5) / 8 < 2 ^ 256 by decide)]
    ring
  have hsquare : (v : F) * candidate ^ 2 = u * (v ^ 4 * x) ^ (X25519.p / 2) := by
    have hexponent : X25519.p / 2 = 2 * (1 + (p - 5) / 8 * 2) := by decide
    have hbase : (u * v ^ 7 : F) = (v ^ 4 * x) ^ 2 := by
      rw [h]
      ring
    rw [hexponent, pow_mul, ← hbase, pow_add, pow_mul, hcandidate]
    ring
  rw [hsquare]
  by_cases hx : x = 0
  · have hzero : (u : F) = 0 := by
      rw [h, hx]
      ring
    left
    rw [hzero, zero_mul]
  · have hone : ((v : F) ^ 4 * x) ^ (X25519.p / 2) * (v ^ 4 * x) ^ (X25519.p / 2) = 1 := by
      rw [← pow_add]
      exact ZMod.pow_card_sub_one_eq_one (mul_ne_zero (pow_ne_zero 4 hv) hx)
    rcases mul_self_eq_one_iff.mp hone with h | h
    · left
      rw [h, mul_one]
    · right
      rw [h, mul_neg_one]

theorem exists_sqrtRatio (hu : u < p) (hv : (v : F) ≠ 0) (h : (u : F) = v * x ^ 2) :
    ∃ root, sqrtRatio u v = some root ∧ root < p ∧ root % 2 = 0 ∧ (root : F) ^ 2 = x ^ 2 := by
  obtain ⟨root, hroot, hlt, heven, hsquare⟩ := rootOf_eq_some hu (mul_lt _ _) (candidate_spec hv h)
  refine ⟨root, hroot, hlt, heven, mul_left_cancel₀ hv ?_⟩
  rw [hsquare, h]

/-- The root with the parity of a number is that number. -/
theorem root_of_parity {n root : ℕ} (hn : n < p) (hlt : root < p) (heven : root % 2 = 0)
    (h : (root : F) ^ 2 = n ^ 2) : (if n % 2 = 1 then sub 0 root else root) = n := by
  rcases sq_eq_sq_iff_eq_or_eq_neg.mp h with heq | hneg
  · obtain rfl : root = n := eq_of_cast (p := X25519.p) hlt hn heq
    rw [if_neg (by omega)]
  · have hother : (root : F) = sub 0 n := by
      rw [cast_sub hn, Nat.cast_zero, zero_sub, hneg]
    have hroot : root = sub 0 n := eq_of_cast (p := X25519.p) hlt (sub_lt _ _) hother
    rcases Nat.eq_zero_or_pos n with rfl | hpos
    · exact hroot
    · have hp := p_odd
      rw [sub_zero_eq hpos hn] at hroot
      rw [if_pos (by omega), sub_zero_eq (by omega) hlt]
      omega

end Root

namespace Point.Represents

variable {a b : Point} {P : curve.Point}

theorem cast_affine (h : a.Represents P) :
    (mul a.x (invMod p a.z) : F) = (edwards P).1 ∧ (mul a.y (invMod p a.z) : F) = (edwards P).2 := by
  have hz := h.z_ne_zero
  rw [cast_mul, cast_mul, p_eq, cast_invMod (by decide) (by decide), h.x_eq, h.y_eq]
  constructor <;> field_simp

/-- Coordinates of one point are encoded as the same bytes. -/
theorem encode_eq (ha : a.Represents P) (hb : b.Represents P) : a.encode = b.encode := by
  have hx := eq_of_cast (mul_lt _ _) (mul_lt _ _) (ha.cast_affine.1.trans hb.cast_affine.1.symm)
  have hy := eq_of_cast (mul_lt _ _) (mul_lt _ _) (ha.cast_affine.2.trans hb.cast_affine.2.symm)
  rw [encode, encode, hx, hy]

/-- The encoding of a point is decoded to coordinates of it. -/
theorem exists_decode (h : a.Represents P) :
    ∃ received, decode a.encode = some received ∧ received.Represents P := by
  obtain ⟨hx, hy⟩ := h.cast_affine
  obtain ⟨x, hxdef⟩ : ∃ x, mul a.x (invMod p a.z) = x := ⟨_, rfl⟩
  obtain ⟨y, hydef⟩ : ∃ y, mul a.y (invMod p a.z) = y := ⟨_, rfl⟩
  have hxlt : x < p := hxdef ▸ mul_lt _ _
  have hylt : y < p := hydef ▸ mul_lt _ _
  rw [hxdef] at hx
  rw [hydef] at hy
  have hp : p < 2 ^ 255 := by decide
  have hnumber : Bytes.natOfLE a.encode = y + x % 2 * 2 ^ 255 := by
    rw [encode, hxdef, hydef, Bytes.natOfLE_ofNatLE]
    exact Nat.mod_eq_of_lt (by omega)
  have hcoordinate : Bytes.natOfLE a.encode % 2 ^ 255 % p = y := by
    rw [hnumber, Nat.add_mul_mod_self_right, Nat.mod_eq_of_lt (hylt.trans hp), Nat.mod_eq_of_lt hylt]
  have hsign : (Bytes.natOfLE a.encode).testBit 255 = decide (x % 2 = 1) := by
    rw [hnumber, Nat.testBit_eq_decide_div_mod_eq, Nat.add_mul_div_right _ _ (by decide),
      Nat.div_eq_of_lt (hylt.trans hp), Nat.zero_add, Nat.mod_mod]
  have hcurve := edwards_onEdwards P
  rw [OnEdwards, ← hx, ← hy] at hcurve
  have hv : ((Ed25519.add (mul d (mul y y)) 1 : ℕ) : F) ≠ 0 := by
    intro hzero
    simp only [cast_add, cast_mul, Nat.cast_one] at hzero
    -- A zero would make the square of `y` one, and so `d` minus one, which is a square.
    have hd : (sqrtMinusOne : F) ^ 2 = d * 1 ^ 2 := by
      linear_combination sqrtMinusOne_sq + (d * x ^ 2 - 1) * hzero + d * hcurve
    exact one_ne_zero (d_not_square _ _ hd)
  have hu : ((sub (mul y y) 1 : ℕ) : F) =
      (Ed25519.add (mul d (mul y y)) 1 : ℕ) * (x : F) ^ 2 := by
    simp only [cast_sub (show 1 < p by decide), cast_add, cast_mul, Nat.cast_one]
    linear_combination hcurve
  obtain ⟨root, hroot, hlt, heven, hsquare⟩ := exists_sqrtRatio (sub_lt _ _) hv hu
  refine ⟨_, ?_, ofAffine_represents hxlt hx hy⟩
  simp only [decode, hcoordinate, hroot, hsign, Option.map_some, decide_eq_true_eq,
    root_of_parity hxlt hlt heven hsquare]

end Point.Represents

theorem nsmul_base_eq_zero {k : ℕ} (hk : k < 2 ^ 256)
    (hy : mul (base.scale k).y (invMod p (base.scale k).z) = 1) : k • X25519.base = 0 := by
  have hscale := (base_represents.scale hk).cast_affine.2
  rw [hy, Nat.cast_one] at hscale
  rcases hmul : k • X25519.base with _ | ⟨u, v, hpoint⟩
  · rfl
  · rw [hmul] at hscale
    have hne := u_add_one_ne_zero hpoint.1
    have hfalse := (eq_div_iff hne).mp hscale
    refine absurd ?_ (two_ne_zero (α := F))
    linear_combination hfalse

theorem order_nsmul_base : order • X25519.base = 0 :=
  nsmul_base_eq_zero (by decide) (by decide +kernel)

theorem mod_nsmul_base (k : ℕ) : (k % order) • X25519.base = k • X25519.base := by
  conv_rhs => rw [← Nat.mod_add_div k order, add_nsmul, mul_nsmul, order_nsmul_base, nsmul_zero,
    add_zero]

theorem order_lt : order < 2 ^ 256 := by decide

theorem digestScalar_lt (input : Bytes) : digestScalar input < 2 ^ 256 :=
  (Nat.mod_lt _ (by decide)).trans order_lt

theorem expandSeed_lt (seed : Bytes) : (expandSeed seed).1 < 2 ^ 256 := by
  simp only [expandSeed]
  omega

/-- What is signed with a seed is verified with its public key. -/
theorem verify_sign (seed message : Bytes) :
    verify (publicKey seed) message (sign seed (publicKey seed) message) = true := by
  have hpublic := base_represents.scale (expandSeed_lt seed)
  obtain ⟨received, hdecode, hreceived⟩ := hpublic.exists_decode
  obtain ⟨r, hr⟩ : ∃ r, digestScalar ((expandSeed seed).2 ++ message) = r := ⟨_, rfl⟩
  obtain ⟨k, hk⟩ : ∃ k, digestScalar ((base.scale r).encode ++ publicKey seed ++ message) = k :=
    ⟨_, rfl⟩
  have hsign : sign seed (publicKey seed) message =
      (base.scale r).encode ++ Bytes.ofNatLE 32 ((r + k * (expandSeed seed).1) % order) := by
    rw [← hk, ← hr]
    rfl
  have hcommitment : (sign seed (publicKey seed) message).take 32 = (base.scale r).encode := by
    rw [hsign, List.take_left' (by simp)]
  have hs : Bytes.natOfLE ((sign seed (publicKey seed) message).drop 32) =
      (r + k * (expandSeed seed).1) % order := by
    rw [hsign, List.drop_left' (by simp), Bytes.natOfLE_ofNatLE]
    exact Nat.mod_eq_of_lt ((Nat.mod_lt _ (by decide)).trans (by decide))
  have hslt : (r + k * (expandSeed seed).1) % order < order := Nat.mod_lt _ (by decide)
  have hsum := (base_represents.scale (hslt.trans order_lt)).add
    (hreceived.neg.scale (k := k) (hk ▸ digestScalar_lt _))
  have hpoint : ((r + k * (expandSeed seed).1) % order) • X25519.base +
      k • -((expandSeed seed).1 • X25519.base) = r • X25519.base := by
    rw [mod_nsmul_base, add_nsmul, mul_nsmul', neg_nsmul, add_neg_cancel_right]
  rw [hpoint] at hsum
  have hr256 : r < 2 ^ 256 := hr ▸ digestScalar_lt _
  have hencode := hsum.encode_eq (base_represents.scale hr256)
  rw [verify, hcommitment, hs, hk, show decode (publicKey seed) = some received from hdecode,
    Option.any_some, length_sign, hencode]
  simpa using hslt

end EdhocLab.Curve.Ed25519
