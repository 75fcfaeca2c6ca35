import EdhocLab.Proofs.Curve.Ed25519.Signature
import EdhocLab.Proofs.Curve.P256.Signature
import EdhocLab.Proofs.Key

/-! # Agreement of key pairs

Two owners of keys on one curve come to the same secret, and a signature is verified with the public
key of its maker.
-/
namespace EdhocLab

namespace PublicKey

/-- Keys on one curve that are sent as the same bytes. -/
structure Same (a b : PublicKey) : Prop where
  curve_eq : a.curve = b.curve
  toBytes_eq : a.toBytes = b.toBytes

/-- On P-256 the same bytes are those of one `x` coordinate. -/
theorem Same.x_eq {a b : Curve.P256.Point} (h : (p256 a).Same (p256 b)) : a.x = b.x := by
  have hlt (point : Curve.P256.Point) :
      Bytes.natOfBE (Bytes.ofNatBE Key.byteLength point.x) = point.x := by
    rw [Bytes.natOfBE_ofNatBE]
    exact Nat.mod_eq_of_lt (point.x_lt.trans (by decide))
  rw [← hlt a, ← hlt b]
  exact congrArg Bytes.natOfBE h.toBytes_eq

theorem Same.refl (a : PublicKey) : a.Same a := ⟨rfl, rfl⟩

theorem ofEphemeral_p256 {bytes : Bytes} {point : Curve.P256.Point}
    (hlength : bytes.length = Key.byteLength) (h : Curve.P256.decode (2 :: bytes) = some point) :
    ofEphemeral .p256 bytes = .ok (.p256 point) := by
  simp only [ofEphemeral, hlength, h, dite_true]

theorem verify_ed25519 {encoded message signature : Bytes}
    {hlength : encoded.length = Key.byteLength}
    (h : Curve.Ed25519.verify encoded message signature = true) :
    (ed25519 encoded hlength).verify message signature = .ok () := by
  rw [verify, if_pos h]

theorem verify_p256 {point : Curve.P256.Point} {message signature : Bytes}
    (h : Curve.P256.verify point message signature = true) :
    (p256 point).verify message signature = .ok () := by
  rw [verify, if_pos h]

/-- A key for key agreement is received up to what is not sent of it. -/
theorem ofEphemeral_toBytes {key : PublicKey} (h : key.curve ≠ .ed25519) :
    ∃ received, ofEphemeral key.curve key.toBytes = .ok received ∧ received.Same key := by
  cases key with
  | x25519 u hu => exact ⟨.x25519 u hu, dif_pos hu, Same.refl _⟩
  | ed25519 => exact absurd rfl h
  | p256 point =>
    obtain ⟨received, hdecode, hx⟩ := Curve.P256.exists_decode point
    exact ⟨.p256 received, ofEphemeral_p256 (length_toBytes (.p256 point)) hdecode, rfl,
      congrArg (Bytes.ofNatBE Key.byteLength) hx⟩

end PublicKey

namespace KeyPair

theorem publicKey_of_x25519 {pair : KeyPair} {secret : Bytes} (h : pair.secret = .x25519 secret) :
    pair.publicKey = .x25519 (Curve.X25519.publicKey secret)
      (Curve.X25519.length_publicKey secret) := by
  have hderived := pair.derived
  rw [h] at hderived
  exact (Option.some.inj hderived).symm

theorem publicKey_of_ed25519 {pair : KeyPair} {seed : Bytes} (h : pair.secret = .ed25519 seed) :
    pair.publicKey = .ed25519 (Curve.Ed25519.publicKey seed)
      (Curve.Ed25519.length_publicKey seed) := by
  have hderived := pair.derived
  rw [h] at hderived
  exact (Option.some.inj hderived).symm

theorem publicKey_of_p256 {pair : KeyPair} {scalar : Curve.P256.Scalar}
    (h : pair.secret = .p256 scalar) :
    ∃ point, Curve.P256.publicPoint scalar = some point ∧ pair.publicKey = .p256 point := by
  have hderived := pair.derived
  rw [h, SecretKey.publicKey?] at hderived
  obtain ⟨point, hpoint, hkey⟩ := Option.map_eq_some_iff.mp hderived
  exact ⟨point, hpoint, hkey.symm⟩

/-- The shared secret depends on what is sent of the public key only. -/
theorem exchange_congr (pair : KeyPair) {a b : PublicKey} (h : a.Same b) :
    pair.exchange a = pair.exchange b := by
  cases a with
  | x25519 u hu =>
    cases b with
    | x25519 u' hu' =>
      obtain rfl : u = u' := h.toBytes_eq
      rfl
    | ed25519 | p256 => cases h.curve_eq
  | ed25519 encoded he =>
    cases b with
    | ed25519 encoded' he' =>
      obtain rfl : encoded = encoded' := h.toBytes_eq
      rfl
    | x25519 | p256 => cases h.curve_eq
  | p256 point =>
    cases b with
    | p256 point' =>
      unfold exchange
      cases pair.secret with
      | p256 scalar => exact congrArg Except.ok (Curve.P256.exchange_congr scalar h.x_eq)
      | x25519 | ed25519 => rfl
    | x25519 | ed25519 => cases h.curve_eq

/-- Two owners of key pairs on one curve come to the same secret. -/
theorem exchange_comm {a b : KeyPair} (h : a.curve = b.curve) :
    a.exchange b.publicKey = b.exchange a.publicKey := by
  have hcurves : a.secret.curve = b.secret.curve := by rw [a.secret_curve, b.secret_curve, h]
  unfold exchange
  cases ha : a.secret with
  | x25519 secret =>
    cases hb : b.secret with
    | x25519 secret' =>
      rw [publicKey_of_x25519 ha, publicKey_of_x25519 hb]
      exact congrArg Except.ok (Curve.X25519.exchange_comm secret secret')
    | ed25519 | p256 => rw [ha, hb] at hcurves; cases hcurves
  | ed25519 seed =>
    cases hb : b.secret with
    | ed25519 seed' => rfl
    | x25519 | p256 => rw [ha, hb] at hcurves; cases hcurves
  | p256 scalar =>
    cases hb : b.secret with
    | p256 scalar' =>
      obtain ⟨point, hpoint, hkey⟩ := publicKey_of_p256 ha
      obtain ⟨point', hpoint', hkey'⟩ := publicKey_of_p256 hb
      rw [hkey, hkey']
      exact congrArg Except.ok (Curve.P256.exchange_comm hpoint hpoint')
    | x25519 | ed25519 => rw [ha, hb] at hcurves; cases hcurves

/-- What is signed with a key pair is verified with its public key. -/
theorem verify_sign {pair : KeyPair} {message signature : Bytes}
    (h : pair.sign message = .ok signature) : pair.publicKey.verify message signature = .ok () := by
  unfold sign at h
  cases hs : pair.secret with
  | x25519 secret =>
    rw [hs] at h
    cases h
  | ed25519 seed =>
    rw [hs, publicKey_of_ed25519 hs] at h
    rw [publicKey_of_ed25519 hs, ← Except.ok.inj h]
    exact PublicKey.verify_ed25519 (Curve.Ed25519.verify_sign seed message)
  | p256 scalar =>
    obtain ⟨point, hpoint, hkey⟩ := publicKey_of_p256 hs
    rw [hs] at h
    rw [hkey, ← Except.ok.inj h]
    exact PublicKey.verify_p256 (Curve.P256.verify_sign hpoint message)

end KeyPair

end EdhocLab
