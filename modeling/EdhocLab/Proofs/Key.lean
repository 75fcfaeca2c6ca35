import EdhocLab.Key.Generate
import EdhocLab.Proofs.Check

/-! # Curves of keys

The two halves of a key pair lie on one curve, generated pairs on the curve that was asked for, and
the curve decides which operations there are.
-/
namespace EdhocLab

namespace SecretKey

def curve : SecretKey → Curve
  | x25519 _ => .x25519
  | ed25519 _ => .ed25519
  | p256 _ => .p256

theorem publicKey?_curve {secret : SecretKey} {key : PublicKey}
    (h : secret.publicKey? = some key) : key.curve = secret.curve := by
  cases secret with
  | x25519 secret => cases h; rfl
  | ed25519 seed => cases h; rfl
  | p256 scalar =>
    rw [publicKey?] at h
    obtain ⟨point, -, rfl⟩ := Option.map_eq_some_iff.mp h
    rfl

theorem ofBytes?_curve {curve : Curve} {bytes : Bytes} {secret : SecretKey}
    (h : ofBytes? curve bytes = some secret) : secret.curve = curve := by
  unfold ofBytes? at h
  split at h
  · cases h
  · cases curve with
    | x25519 => cases h; rfl
    | ed25519 => cases h; rfl
    | p256 =>
      obtain ⟨scalar, -, rfl⟩ := Option.map_eq_some_iff.mp h
      rfl

end SecretKey

namespace KeyPair

theorem secret_curve (pair : KeyPair) : pair.secret.curve = pair.curve :=
  (SecretKey.publicKey?_curve pair.derived).symm

theorem ofSecret?_secret {secret : SecretKey} {pair : KeyPair} (h : ofSecret? secret = some pair) :
    pair.secret = secret := by
  unfold ofSecret? at h
  split at h
  · cases h; rfl
  · cases h

theorem ofPrivate?_curve {curve : Curve} {bytes : Bytes} {pair : KeyPair}
    (h : ofPrivate? curve bytes = some pair) : pair.curve = curve := by
  obtain ⟨secret, hsecret, hpair⟩ := Option.bind_eq_some_iff.mp h
  rw [← pair.secret_curve, ofSecret?_secret hpair, SecretKey.ofBytes?_curve hsecret]

theorem firstValid_curve {curve : Curve} {tries : Nat} {source : Entropy}
    {found : KeyPair × Entropy} (h : firstValid curve tries source = some found) :
    found.1.curve = curve := by
  induction tries generalizing source with
  | zero => cases h
  | succ tries ih =>
    rw [firstValid] at h
    cases hp : ofPrivate? curve source.next.1 with
    | some pair =>
      simp only [hp, Option.some.injEq] at h
      exact h ▸ ofPrivate?_curve hp
    | none => exact ih (by simpa only [hp] using h)

@[simp] theorem last_curve (curve : Curve) : (last curve).curve = curve := by
  cases curve <;> rfl

@[simp] theorem generate_curve (curve : Curve) (source : Entropy) :
    (generate curve source).1.curve = curve := by
  unfold generate
  cases h : firstValid curve (source.blocks.length + maxTries) source with
  | none => exact last_curve curve
  | some found => exact firstValid_curve h

/-- Two keys on one curve for key agreement have a shared secret. -/
theorem exchange_isOk {pair : KeyPair} {peer : PublicKey} (hpeer : peer.curve = pair.curve)
    (hcurve : pair.curve ≠ .ed25519) : (pair.exchange peer).isOk := by
  have hsecret := pair.secret_curve
  unfold exchange
  cases hs : pair.secret with
  | x25519 secret =>
    rw [hs] at hsecret
    cases peer with
    | x25519 u hu => rfl
    | ed25519 | p256 => exact absurd (hpeer.trans hsecret.symm) nofun
  | ed25519 seed => exact absurd (hsecret.symm.trans (by rw [hs]; rfl)) hcurve
  | p256 scalar =>
    rw [hs] at hsecret
    cases peer with
    | p256 point => rfl
    | x25519 | ed25519 => exact absurd (hpeer.trans hsecret.symm) nofun

/-- A key on a curve for signatures signs everything, with as many bytes on each curve. -/
theorem sign_eq_ok {pair : KeyPair} (hcurve : pair.curve ≠ .x25519) (message : Bytes) :
    ∃ signature, pair.sign message = .ok signature ∧ signature.length = 64 := by
  have hsecret := pair.secret_curve
  unfold sign
  cases hs : pair.secret with
  | x25519 secret => exact absurd (hsecret.symm.trans (by rw [hs]; rfl)) hcurve
  | ed25519 seed => exact ⟨_, rfl, Curve.Ed25519.length_sign ..⟩
  | p256 scalar => exact ⟨_, rfl, Curve.P256.length_sign ..⟩

end KeyPair

namespace Suite

theorem dhCurve_ne_ed25519 (suite : Suite) : suite.dhCurve ≠ .ed25519 := by
  cases suite <;> decide

theorem signatureCurve_ne_x25519 (suite : Suite) : suite.signatureCurve ≠ .x25519 := by
  cases suite <;> decide

end Suite

end EdhocLab
