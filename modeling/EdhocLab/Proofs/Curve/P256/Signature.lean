import EdhocLab.Proofs.Curve.P256.Exchange

/-! # Signatures on P-256

The base has the prime order that scalars are reduced by, so that the equation of a signature holds for
multiples of the base.  Every secret signs every message, and the signature is verified.
-/
namespace EdhocLab.Curve.P256

open WeierstrassCurve

instance : Fact order.Prime := ⟨prime_order⟩

theorem Jacobian.Represents.eq_zero {c : Jacobian} {P : curve.Point} (h : c.Represents P)
    (hz : c.z = 0) : P = 0 := by
  rcases P with _ | _
  · rfl
  · exact absurd (by rw [hz, Nat.cast_zero]) h.1

theorem Jacobian.Represents.z_ne_zero {c : Jacobian} {P : curve.Point} (h : c.Represents P)
    (hP : P ≠ 0) : c.z ≠ 0 := fun hz => hP (h.eq_zero hz)

/-- The affine coordinate is that of the point. -/
theorem Jacobian.Represents.affine_fst_eq {c c' : Jacobian} {P : curve.Point} (h : c.Represents P)
    (h' : c'.Represents P) : c.affine.1 = c'.affine.1 :=
  eq_of_cast c.affine_fst_lt c'.affine_fst_lt (h.cast_affine.1.trans h'.cast_affine.1.symm)

theorem Jacobian.Represents.affine_fst_eq_zero {c : Jacobian} (h : c.Represents 0) :
    c.affine.1 = 0 :=
  eq_zero_of_cast c.affine_fst_lt h.cast_affine.1

theorem nsmul_base_eq_zero {k : ℕ} (hk : k < 2 ^ 256) (hz : (base.scale k).z = 0) :
    k • baseGroup = 0 :=
  (scale_base_represents hk).eq_zero hz

theorem order_nsmul_base : order • baseGroup = 0 :=
  nsmul_base_eq_zero (by decide) (by decide +kernel)

/-- Multiples of the base depend on the residue of the scalar only. -/
theorem nsmul_base_congr {k l : ℕ} (h : (k : ZMod order) = l) : k • baseGroup = l • baseGroup := by
  have hmod (n : ℕ) : (n % order) • baseGroup = n • baseGroup := by
    conv_rhs => rw [← Nat.mod_add_div n order, add_nsmul, mul_nsmul, order_nsmul_base, nsmul_zero,
      add_zero]
  rw [← hmod k, ← hmod l, (ZMod.natCast_eq_natCast_iff' k l order).mp h]

theorem signWith_eq_some {secret z nonce : ℕ} {signature : ℕ × ℕ}
    (h : signWith secret z nonce = some signature) :
    0 < nonce ∧ nonce < order ∧ signature.1 ≠ 0 ∧ signature.2 ≠ 0 ∧
      signature.1 = (base.scale nonce).affine.1 % order ∧
      signature.2 = invMod order nonce * (z + signature.1 * secret) % order := by
  rw [signWith] at h
  split at h
  · rename_i hvalid
    obtain ⟨hpos, hlt, hr, hs⟩ := hvalid
    rw [Option.some.injEq] at h
    subst h
    exact ⟨hpos, hlt, hr, hs, rfl, rfl⟩
  · cases h

theorem cast_inv (a : ℕ) : (invMod order a : ZMod order) = (a : ZMod order)⁻¹ :=
  cast_invMod (by decide) (by decide) a

theorem order_lt : order < 2 ^ 256 := by decide

/-- The point that a verification computes, as a multiple of the base. -/
theorem sum_represents {secret : Scalar} {key : Point} (hkey : publicPoint secret = some key) {u v : ℕ}
    (hu : u < order) (hv : v < order) :
    ((base.scale u).add ((Jacobian.ofPoint key).scale v)).Represents
      ((u + v * secret.val) • baseGroup) := by
  have hbase := scale_base_represents (hu.trans order_lt)
  have hpoint := Jacobian.scale_represents key.z_ofPoint_lt key.ofPoint_represents (hv.trans order_lt)
  rw [publicPoint_toGroup hkey, ← mul_nsmul'] at hpoint
  rw [add_nsmul]
  exact Jacobian.add_represents (Jacobian.z_scale_lt z_base_lt base_represents u)
    (Jacobian.z_scale_lt key.z_ofPoint_lt key.ofPoint_represents v) hbase hpoint

/-- The equation of a signature gives back the nonce. -/
theorem nonce_of_equation {k s z r d : ZMod order} (hk : k ≠ 0) (hs : s ≠ 0)
    (h : s = k⁻¹ * (z + r * d)) : z * s⁻¹ + r * s⁻¹ * d = k := by
  have hproduct : k * s = z + r * d := by
    rw [h, mul_inv_cancel_left₀ hk]
  field_simp
  rw [← hproduct, mul_comm]

/-- What is signed with a nonce is verified. -/
theorem verify_of_signWith {secret : Scalar} {key : Point} (hkey : publicPoint secret = some key)
    {message : Bytes} {nonce : ℕ} {signature : ℕ × ℕ}
    (h : signWith secret.val (digestScalar (Digest.Sha256.digest message)) nonce = some signature) :
    verify key message (encodeSignature signature) = true := by
  obtain ⟨hpos, hlt, hr, hs, hrdef, hsdef⟩ := signWith_eq_some h
  have hrlt : signature.1 < order := hrdef ▸ Nat.mod_lt _ (by decide)
  have hslt : signature.2 < order := hsdef ▸ Nat.mod_lt _ (by decide)
  have hfst : Bytes.natOfBE ((encodeSignature signature).take 32) = signature.1 := by
    rw [encodeSignature, List.take_left' (by simp), Bytes.natOfBE_ofNatBE,
      Nat.mod_eq_of_lt (hrlt.trans (by decide))]
  have hsnd : Bytes.natOfBE ((encodeSignature signature).drop 32) = signature.2 := by
    rw [encodeSignature, List.drop_left' (by simp), Bytes.natOfBE_ofNatBE,
      Nat.mod_eq_of_lt (hslt.trans (by decide))]
  obtain ⟨z, hz⟩ : ∃ z, digestScalar (Digest.Sha256.digest message) = z := ⟨_, rfl⟩
  rw [hz] at hsdef
  have hequation : (signature.2 : ZMod order) =
      (nonce : ZMod order)⁻¹ * (z + signature.1 * secret.val) := by
    rw [hsdef, ZMod.natCast_mod, Nat.cast_mul, cast_inv, Nat.cast_add, Nat.cast_mul]
  -- Modulo the order, the factors that the verifier scales by add up to the nonce.
  have hnonce : ((z * invMod order signature.2 % order +
      signature.1 * invMod order signature.2 % order * secret.val : ℕ) : ZMod order) = nonce := by
    rw [Nat.cast_add, Nat.cast_mul, ZMod.natCast_mod, ZMod.natCast_mod, Nat.cast_mul, Nat.cast_mul,
      cast_inv]
    exact nonce_of_equation (natCast_ne_zero hpos hlt)
      (natCast_ne_zero (Nat.pos_of_ne_zero hs) hslt) hequation
  have hsum := sum_represents hkey (u := z * invMod order signature.2 % order)
    (v := signature.1 * invMod order signature.2 % order) (Nat.mod_lt _ (by decide))
    (Nat.mod_lt _ (by decide))
  rw [nsmul_base_congr hnonce] at hsum
  have hbase := scale_base_represents (hlt.trans order_lt)
  have hx := hsum.affine_fst_eq hbase
  have hne := hsum.z_ne_zero fun hzero => hr (by
    rw [hzero] at hbase
    rw [hrdef, hbase.affine_fst_eq_zero, Nat.zero_mod])
  simp only [verify, hfst, hsnd, hz, length_encodeSignature, Bool.and_eq_true, decide_eq_true_eq,
    bne_iff_ne, beq_iff_eq]
  exact ⟨⟨⟨trivial, Nat.pos_of_ne_zero hr, hrlt, Nat.pos_of_ne_zero hs, hslt⟩, hne⟩, by
    rw [hx, ← hrdef]⟩

/-- What a signature keeps of the multiple by its nonce. -/
def nonceX (nonce : ℕ) : ℕ := (base.scale nonce).affine.1 % order

theorem equation_of_signWith_eq_none {secret z nonce : ℕ} (hpos : 0 < nonce) (hlt : nonce < order)
    (hr : nonceX nonce ≠ 0) (h : signWith secret z nonce = none) :
    (z + nonceX nonce * secret : ZMod order) = 0 := by
  have hs : invMod order nonce * (z + nonceX nonce * secret) % order = 0 := by
    by_contra hs
    rw [signWith] at h
    exact absurd ((if_pos ⟨hpos, hlt, hr, hs⟩).symm.trans h) nofun
  have hcast : ((invMod order nonce * (z + nonceX nonce * secret) : ℕ) : ZMod order) = 0 := by
    rw [← ZMod.natCast_mod, hs, Nat.cast_zero]
  rw [Nat.cast_mul, cast_inv] at hcast
  have hinv := inv_ne_zero (natCast_ne_zero hpos hlt)
  exact_mod_cast (mul_eq_zero.mp hcast).resolve_left hinv

/-- One of the last nonces serves. -/
theorem exists_signWith (secret : Scalar) (z : ℕ) :
    ∃ nonce ∈ lastNonces, (signWith secret.val z nonce).isSome := by
  by_contra hall
  have hnone (nonce : ℕ) (hmem : nonce ∈ lastNonces) : signWith secret.val z nonce = none := by
    by_contra hsome
    exact hall ⟨nonce, hmem, Option.isSome_iff_ne_none.mpr hsome⟩
  have h₁ := equation_of_signWith_eq_none (by decide) (by decide) (by decide +kernel)
    (hnone 1 (by decide))
  have h₂ := equation_of_signWith_eq_none (by decide) (by decide) (by decide +kernel)
    (hnone 2 (by decide))
  have hproduct : ((nonceX 1 : ZMod order) - nonceX 2) * secret.val = 0 := by
    linear_combination h₁ - h₂
  have hsub := (mul_eq_zero.mp hproduct).resolve_right (natCast_ne_zero secret.pos secret.lt)
  have hne : nonceX 1 % order ≠ nonceX 2 % order := by decide +kernel
  exact hne ((ZMod.natCast_eq_natCast_iff' ..).mp (sub_eq_zero.mp hsub))

theorem verify_sign {secret : Scalar} {key : Point} (hkey : publicPoint secret = some key)
    (message : Bytes) : verify key message (sign secret message) = true := by
  obtain ⟨nonce, hmem, hsome⟩ := exists_signWith secret
    (digestScalar (Digest.Sha256.digest message))
  have hsignature : (signature? secret (Digest.Sha256.digest message)).isSome :=
    List.findSome?_isSome_iff.mpr ⟨nonce, List.mem_append_right _ hmem, hsome⟩
  obtain ⟨signature, hsignature⟩ := Option.isSome_iff_exists.mp hsignature
  obtain ⟨nonce, -, hwith⟩ := List.exists_of_findSome?_eq_some hsignature
  rw [sign, hsignature]
  exact verify_of_signWith hkey hwith

end EdhocLab.Curve.P256
