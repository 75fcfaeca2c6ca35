import EdhocLab.Proofs.Aead.Ccm
import EdhocLab.Proofs.Handshake.Expansion
import EdhocLab.Proofs.Key

/-! # Totality of the key schedule

The key schedule only asks for short outputs, so that nothing in it fails but the encoding of
improper values, a signature key on a wrong curve and a text too long to encrypt.
-/
namespace EdhocLab.Handshake.KeySchedule

open Cbor (Value)

theorem kdf_eq_ok {length : Nat} (h : length ≤ Digest.Hkdf.maxLength) (prk : Bytes) (label : Int)
    (context : Bytes) : ∃ output, kdf prk label context length = .ok output ∧
      output.length = length :=
  ⟨_, expand_of_le h, Digest.Hkdf.length_expand (Digest.Hkdf.expand_eq_take h)⟩

theorem kdf_isOk {length : Nat} (h : length ≤ Digest.Hkdf.maxLength) (prk : Bytes) (label : Int)
    (context : Bytes) : (kdf prk label context length).isOk := by
  obtain ⟨output, hk, -⟩ := kdf_eq_ok h prk label context
  rw [hk]
  rfl

theorem length_of_kdf {prk context output : Bytes} {label : Int} {length : Nat}
    (h : kdf prk label context length = .ok output) : output.length = length := by
  rw [kdf, expand] at h
  cases he : Digest.Hkdf.expand prk (info label context length) length with
  | none => simp [he] at h
  | some bytes =>
    simp only [he, Except.ok.injEq] at h
    exact h ▸ Digest.Hkdf.length_expand he

theorem hashLength_le : hashLength ≤ Digest.Hkdf.maxLength := by decide

theorem macLength_le (signs : Bool) (suite : Suite) :
    macLength signs suite ≤ Digest.Hkdf.maxLength := by
  cases signs <;> cases suite <;> decide

theorem keyLength_le (algorithm : Aead.Algorithm) :
    algorithm.keyLength ≤ Digest.Hkdf.maxLength := by
  cases algorithm <;> decide

theorem nonceLength_le (algorithm : Aead.Algorithm) :
    algorithm.nonceLength ≤ Digest.Hkdf.maxLength := by
  cases algorithm <;> decide

theorem mix_isOk (label : Label) (prk th : Bytes) (secret : Option Bytes) :
    (mix label prk th secret).isOk := by
  cases secret with
  | none => rfl
  | some secret =>
    obtain ⟨salt, hsalt, -⟩ := kdf_eq_ok hashLength_le prk label.number th
    rw [mix, hsalt]
    rfl

theorem prkOut_isOk (prk4e3m th4 : Bytes) : (prkOut prk4e3m th4).isOk :=
  kdf_isOk hashLength_le ..

theorem prkExporter_isOk (prkOut : Bytes) : (prkExporter prkOut).isOk :=
  kdf_isOk hashLength_le ..

theorem exporter_isOk {label length : Int} (hlabel : 0 ≤ label) (hlength : 0 ≤ length)
    (hmax : length.toNat ≤ Digest.Hkdf.maxLength) (prk context : Bytes) :
    (exporter prk label context length).isOk := by
  rw [exporter, if_neg (by omega)]
  exact kdf_isOk hmax ..

theorem encodeItem_isOk {v : Value} : (encodeItem v).isOk ↔ v.isProper := by
  rw [encodeItem, isOk_mapError, Value.encode?]
  split <;> simp_all

theorem encodeItems_isOk {vs : List Value} : (encodeItems vs).isOk ↔ Value.allProper vs := by
  rw [encodeItems, isOk_mapError, Cbor.encodeSequence]
  split <;> simp_all

theorem encodeItem_eq_ok {v : Value} {output : Bytes} :
    encodeItem v = .ok output ↔ v.isProper ∧ v.encode = output := by
  rw [encodeItem, mapError_eq_ok, Value.encode?_eq_ok]

theorem encodeItems_eq_ok {vs : List Value} {output : Bytes} :
    encodeItems vs = .ok output ↔ Value.allProper vs ∧ Value.encodeItems vs = output := by
  rw [encodeItems, mapError_eq_ok, Cbor.encodeSequence_eq_ok]

theorem th2_isOk {cR : Option Value} (h : ∀ v, cR = some v → v.isProper) (gY hashMessage1 : Bytes) :
    (th2 gY cR hashMessage1).isOk := by
  rw [th2, isOk_map]
  cases cR with
  | none => rfl
  | some v =>
    obtain ⟨output, hv⟩ := isOk_iff.mp (encodeItem_isOk.mpr (h v rfl))
    simp [th2Input, hv]

section Proofs

variable {idCred : Value} {ead : List Value} (hid : idCred.isProper) (head : Value.allProper ead)

include hid head in
theorem mac_isOk {length : Nat} (hlength : length ≤ Digest.Hkdf.maxLength) (prk : Bytes)
    (label : Int) (th cred : Bytes) : (mac prk label idCred th cred ead length).isOk := by
  obtain ⟨i, hi⟩ := isOk_iff.mp (encodeItem_isOk.mpr hid)
  obtain ⟨d, hd⟩ := isOk_iff.mp (encodeItems_isOk.mpr head)
  simp only [mac, macContext, hi, hd, ok_bind, pure_eq_ok]
  exact kdf_isOk hlength ..

include head in
theorem externalData_isOk (th cred : Bytes) : (externalData th cred ead).isOk := by
  obtain ⟨d, hd⟩ := isOk_iff.mp (encodeItems_isOk.mpr head)
  rw [externalData, hd]
  rfl

include hid in
theorem signatureOrMac_isOk {signs : Bool} {suite : Suite} {mac external : Bytes} {key : KeyPair} :
    (signatureOrMac signs suite mac idCred external key).isOk ↔
      (signs → key.curve = suite.signatureCurve) := by
  unfold signatureOrMac
  cases signs with
  | false => simp
  | true =>
    by_cases hcurve : key.curve = suite.signatureCurve
    · obtain ⟨i, hi⟩ := isOk_iff.mp (encodeItem_isOk.mpr hid)
      obtain ⟨signature, hs, -⟩ := KeyPair.sign_eq_ok
        (hcurve ▸ suite.signatureCurve_ne_x25519) (Cose.sigStructure i external mac)
      simp [hcurve, hi, Cose.sign, hs]
    · simp [hcurve]

end Proofs

theorem length_signatureOrMac_le {signs : Bool} {suite : Suite} {mac external output : Bytes}
    {idCred : Value} {key : KeyPair} (hmac : mac.length ≤ 64)
    (h : signatureOrMac signs suite mac idCred external key = .ok output) : output.length ≤ 64 := by
  unfold signatureOrMac at h
  split at h
  · cases h; exact hmac
  · split at h
    · cases h
    · rename_i hcurve
      obtain ⟨i, -, hs⟩ := bind_eq_ok.mp h
      obtain ⟨signature, hsign, hlength⟩ := KeyPair.sign_eq_ok
        (Decidable.not_not.mp hcurve ▸ suite.signatureCurve_ne_x25519) (Cose.sigStructure i external mac)
      rw [mapError_eq_ok, Cose.sign, hsign] at hs
      cases hs
      exact Nat.le_of_eq hlength

theorem length_mac_le {prk th cred output : Bytes} {label : Int} {idCred : Value}
    {ead : List Value} {signs : Bool} {suite : Suite}
    (h : mac prk label idCred th cred ead (macLength signs suite) = .ok output) :
    output.length ≤ 64 := by
  obtain ⟨context, -, hk⟩ := bind_eq_ok.mp h
  rw [length_of_kdf hk]
  cases signs <;> cases suite <;> decide

theorem mapM_isOk {α β ε : Type} {f : α → Except ε β} {xs : List α} (h : ∀ x ∈ xs, (f x).isOk) :
    (xs.mapM f).isOk := by
  induction xs with
  | nil => rfl
  | cons x xs ih =>
    obtain ⟨y, hy⟩ := isOk_iff.mp (h x (by simp))
    obtain ⟨ys, hys⟩ := isOk_iff.mp (ih fun x hx => h x (by simp [hx]))
    rw [List.mapM_cons, hy, ok_bind, hys]
    rfl

theorem keystream2_isOk (prk2e th2 : Bytes) (length : Nat) :
    (keystream2 prk2e th2 length).isOk := by
  rw [keystream2, isOk_bind_of_isOk (q := True)]
  · trivial
  · exact mapM_isOk fun i _ => kdf_isOk (Nat.min_le_left ..) ..
  · intro parts _
    simp

/-- Parts of equal length, the last of which may be shorter, make up the whole. -/
theorem length_flatten_of_mapM {ε : Type} {f : Nat → Except ε Bytes} {part length n : Nat}
    (hf : ∀ i output, f i = .ok output → output.length = min part (length - part * i))
    {parts : List Bytes} (h : (List.range n).mapM f = .ok parts) :
    parts.flatten.length = min (part * n) length := by
  induction n generalizing parts with
  | zero =>
    cases h
    simp
  | succ n ih =>
    rw [List.range_succ, List.mapM_append, List.mapM_cons, List.mapM_nil] at h
    obtain ⟨front, hfront, h⟩ := bind_eq_ok.mp h
    obtain ⟨last, hlast, h⟩ := bind_eq_ok.mp h
    obtain ⟨output, houtput, hlast⟩ := bind_eq_ok.mp hlast
    cases hlast
    cases h
    rw [List.flatten_append, List.length_append, ih hfront, List.flatten_singleton, hf n output houtput,
      Nat.mul_succ]
    omega

/-- The key stream is as long as the text that it masks. -/
theorem length_of_keystream2 {prk2e th2 keystream : Bytes} {length : Nat}
    (h : keystream2 prk2e th2 length = .ok keystream) : keystream.length = length := by
  obtain ⟨parts, hparts, h⟩ := bind_eq_ok.mp h
  cases h
  rw [length_flatten_of_mapM (fun _ _ hk => length_of_kdf hk) hparts,
    show Digest.Hkdf.maxLength = 8160 from rfl]
  omega

theorem keyAndIv_eq_ok (suite : Suite) (prk : Bytes) (keyLabel ivLabel : Int) (th : Bytes) :
    ∃ key iv, keyAndIv suite prk keyLabel ivLabel th = .ok (key, iv) ∧
      key.length = suite.aead.keyLength ∧ iv.length = suite.aead.nonceLength := by
  obtain ⟨key, hkey, hk⟩ := kdf_eq_ok (keyLength_le suite.aead) prk keyLabel th
  obtain ⟨iv, hiv, hi⟩ := kdf_eq_ok (nonceLength_le suite.aead) prk ivLabel th
  refine ⟨key, iv, ?_, hk, hi⟩
  rw [keyAndIv, hkey, ok_bind, hiv]
  rfl

theorem encrypt_isOk {suite : Suite} {key iv plaintext : Bytes}
    (hkey : key.length = suite.aead.keyLength) (hiv : iv.length = suite.aead.nonceLength)
    (th : Bytes) : (encrypt suite key iv th plaintext).isOk ↔
      plaintext.length ≤ Aead.Algorithm.maxTextLength := by
  rw [encrypt, isOk_mapError, Aead.Algorithm.encrypt, Aead.Algorithm.accepts]
  simp only [hkey, hiv, beq_self_eq_true, Bool.true_and, decide_eq_true_eq]
  split <;> simp_all

theorem length_of_encrypt {suite : Suite} {key iv th plaintext ciphertext : Bytes}
    (h : encrypt suite key iv th plaintext = .ok ciphertext) :
    ciphertext.length = plaintext.length + suite.aead.tagLength :=
  Aead.Algorithm.length_of_encrypt (mapError_eq_ok.mp h)

/-- What was encrypted is decrypted under the same keys and transcript. -/
theorem decrypt_of_encrypt {suite : Suite} {key iv th plaintext ciphertext : Bytes}
    (h : encrypt suite key iv th plaintext = .ok ciphertext) :
    decrypt suite key iv th ciphertext = .ok plaintext :=
  mapError_eq_ok.mpr (Aead.Algorithm.decrypt_of_encrypt (mapError_eq_ok.mp h))

end EdhocLab.Handshake.KeySchedule
