import EdhocLab.Aead.Aes
import EdhocLab.Proofs.Bytes
import Mathlib.Data.Nat.Bitwise
import Mathlib.Dynamics.PeriodicPts.Defs
import Mathlib.Tactic.Simproc.Divisors

/-! # Blocks under AES

Every step of a round maps different blocks to different blocks: the substitution because inverting
twice gives a byte back, since all bytes but zero are powers of one byte, and the multiplication of
columns because only the zero column is mapped to zero.
-/
namespace EdhocLab.Aead.Aes

section Byte

/-- The affine part of the substitution. -/
def affine (i : UInt8) : UInt8 :=
  i ^^^ rotl i 1 ^^^ rotl i 2 ^^^ rotl i 3 ^^^ rotl i 4 ^^^ 0x63

/-- The way back from the affine part. -/
def unaffine (b : UInt8) : UInt8 := rotl b 1 ^^^ rotl b 3 ^^^ rotl b 6 ^^^ 0x05

theorem forall_byte {p : UInt8 → Prop} (h : ∀ n < 256, p (UInt8.ofNat n)) (b : UInt8) : p b := by
  have hb := h b.toNat b.toNat_lt
  rwa [UInt8.ofNat_toNat] at hb

/-- What is checked for each byte on its own. -/
theorem one_mul_and_unaffine (b : UInt8) : mul 1 b = b ∧ unaffine (affine b) = b := by
  revert b
  apply forall_byte
  decide +kernel

theorem one_mul (b : UInt8) : mul 1 b = b := (one_mul_and_unaffine b).1

theorem unaffine_affine (b : UInt8) : unaffine (affine b) = b := (one_mul_and_unaffine b).2

theorem and_high (b : UInt8) : b &&& 0x80 = 0 ∨ b &&& 0x80 = 0x80 := by
  have hbit : (b &&& 0x80).toNat = (b.toNat.testBit 7).toNat * 2 ^ 7 :=
    (UInt8.toNat_and b 0x80).trans (Nat.and_two_pow b.toNat 7)
  cases hb : b.toNat.testBit 7 with
  | false => exact .inl (UInt8.toNat_inj.mp (by rw [hbit, hb]; rfl))
  | true => exact .inr (UInt8.toNat_inj.mp (by rw [hbit, hb]; rfl))

theorem xor_and (a b c : UInt8) : (a ^^^ b) &&& c = (a &&& c) ^^^ (b &&& c) := by
  apply UInt8.toBitVec_inj.mp
  ext i
  simp [Bool.and_xor_distrib_right]

/-- Multiplication by `x` respects differences. -/
theorem xtime_xor (a b : UInt8) : xtime (a ^^^ b) = xtime a ^^^ xtime b := by
  have hswap (p q r s : UInt8) : p ^^^ q ^^^ (r ^^^ s) = p ^^^ r ^^^ (q ^^^ s) := by ac_rfl
  unfold xtime
  rw [xor_and, UInt8.shiftLeft_xor, hswap]
  congr 1
  rcases and_high a with ha | ha <;> rcases and_high b with hb | hb <;> rw [ha, hb] <;> rfl

theorem mulBits_xor (n : Nat) (a a' b : UInt8) :
    mulBits n (a ^^^ a') b = mulBits n a b ^^^ mulBits n a' b := by
  induction n generalizing a a' b with
  | zero => simp only [mulBits, UInt8.xor_self]
  | succ n ih =>
    rw [mulBits, mulBits, mulBits, xtime_xor, ih]
    split
    · simp only [UInt8.zero_xor]
    · ac_rfl

theorem mulBits_xtime (n : Nat) (a b : UInt8) : mulBits n (xtime a) b = xtime (mulBits n a b) := by
  induction n generalizing a b with
  | zero =>
    rw [mulBits, mulBits]
    rfl
  | succ n ih =>
    rw [mulBits, mulBits, xtime_xor, ← ih]
    split <;> rfl

theorem mulBits_zero (n : Nat) (b : UInt8) : mulBits n 0 b = 0 := by
  have hzero := mulBits_xor n 0 0 b
  rwa [UInt8.xor_self, UInt8.xor_self] at hzero

/-- Multiplication by three, from which all bytes but zero are reached. -/
def times3 (b : UInt8) : UInt8 := xtime b ^^^ b

/-- The powers of three. -/
def power : Nat → UInt8
  | 0 => 1
  | i + 1 => times3 (power i)

theorem mul_times3 (a b : UInt8) : mul (times3 a) b = times3 (mul a b) := by
  rw [mul, times3, mulBits_xor, mulBits_xtime]
  rfl

theorem mul_power (i j : Nat) : mul (power i) (power j) = power (i + j) := by
  induction i with
  | zero => rw [power, one_mul, Nat.zero_add]
  | succ i ih => rw [power, mul_times3, ih, Nat.succ_add, power]

theorem inverse_power (i : Nat) : inverse (power i) = power (254 * i) := by
  simp only [inverse, mul_power]
  congr 1
  omega

theorem inverse_zero : inverse 0 = 0 := by
  simp only [inverse, mul, mulBits_zero]

theorem power_eq_iterate (i : Nat) : power i = times3^[i] 1 := by
  induction i with
  | zero => rfl
  | succ i ih => rw [power, ih, Function.iterate_succ_apply']

theorem power_eq_one_iff (i : Nat) : power i = 1 ↔ Function.minimalPeriod times3 1 ∣ i := by
  rw [power_eq_iterate, ← Function.isPeriodicPt_iff_minimalPeriod_dvd]
  rfl

/-- The powers repeat after 255 and not before, for none of its largest divisors is a period. -/
theorem minimalPeriod_times3 : Function.minimalPeriod times3 1 = 255 := by
  have hperiod : power (85 + 85 + 85) = 1 := by
    rw [← mul_power, ← mul_power]
    cbv
  have h85 := (power_eq_one_iff 85).not.mp (by cbv)
  have h51 := (power_eq_one_iff 51).not.mp (by cbv)
  have h15 := (power_eq_one_iff 15).not.mp (by cbv)
  have hmem : Function.minimalPeriod times3 1 ∈ Nat.divisors 255 :=
    Nat.mem_divisors.mpr ⟨(power_eq_one_iff 255).mp hperiod, by decide⟩
  simp only [Nat.divisors_ofNat, Finset.mem_insert, Finset.mem_singleton] at hmem
  rcases hmem with h | h | h | h | h | h | h | h <;> rw [h] at h85 h51 h15 ⊢ <;> omega

theorem power_add_period (i k : Nat) : power (i + 255 * k) = power i := by
  have hone : power (255 * k) = 1 := by
    rw [power_eq_one_iff, minimalPeriod_times3]
    exact Nat.dvd_mul_right 255 k
  rw [Nat.add_comm, ← mul_power, hone, one_mul]

theorem power_ne_zero (i : Nat) : power i ≠ 0 := by
  intro hzero
  have hone : mul (power i) (power (254 * i)) = power 0 := by
    rw [mul_power, show i + 254 * i = 0 + 255 * i by omega, power_add_period]
  rw [hzero, mul, mulBits_zero] at hone
  cases hone

/-- There are as many powers as bytes other than zero. -/
theorem exists_power {b : UInt8} (hb : b ≠ 0) : ∃ i, power i = b := by
  have hinj : Set.InjOn (fun i => (power i).toNat) (Finset.range 255) := by
    intro i hi j hj h
    rw [Finset.coe_range, ← minimalPeriod_times3] at hi hj
    have hpowers := UInt8.toNat_inj.mp h
    rw [power_eq_iterate, power_eq_iterate] at hpowers
    exact Function.iterate_injOn_Iio_minimalPeriod hi hj hpowers
  have hpositive {c : UInt8} (hc : c ≠ 0) : c.toNat ∈ Finset.Icc 1 255 := by
    rw [Finset.mem_Icc, Nat.one_le_iff_ne_zero]
    exact ⟨fun h => hc (UInt8.toNat_inj.mp h), Nat.le_of_lt_succ c.toNat_lt⟩
  have himage : (Finset.range 255).image (fun i => (power i).toNat) = Finset.Icc 1 255 := by
    apply Finset.eq_of_subset_of_card_le
    · rw [Finset.image_subset_iff]
      exact fun i _ => hpositive (power_ne_zero i)
    · rw [Finset.card_image_of_injOn hinj, Finset.card_range, Nat.card_Icc]
  have hmem := hpositive hb
  rw [← himage] at hmem
  obtain ⟨i, -, hi⟩ := Finset.mem_image.mp hmem
  exact ⟨i, UInt8.toNat_inj.mp hi⟩

/-- Inverting twice gives the byte back, zero included: `254 * 254` is one more than a multiple of the
period. -/
theorem inverse_inverse (b : UInt8) : inverse (inverse b) = b := by
  by_cases hb : b = 0
  · rw [hb, inverse_zero, inverse_zero]
  · obtain ⟨i, rfl⟩ := exists_power hb
    have htwice : 254 * (254 * i) = i + 255 * (253 * i) := by omega
    rw [inverse_power, inverse_power, htwice, power_add_period]

theorem sub_eq (b : UInt8) : sub b = affine (inverse b) := by
  have hb : b.toNat < 256 := b.toNat_lt
  simp only [sub, sbox, Array.getD_eq_getD_getElem?, Array.getElem?_map, Array.getElem?_range, hb,
    if_true, Option.map_some, Option.getD_some, UInt8.ofNat_toNat]
  rfl

theorem sub_injective {a b : UInt8} (h : sub a = sub b) : a = b := by
  rw [sub_eq, sub_eq] at h
  have hinverse : inverse a = inverse b := by rw [← unaffine_affine (inverse a), h, unaffine_affine]
  rw [← inverse_inverse a, hinverse, inverse_inverse]

end Byte

section Column

theorem xor_left_comm (a b c : UInt8) : a ^^^ (b ^^^ c) = b ^^^ (a ^^^ c) := by ac_rfl

theorem xor_xor_self (a b : UInt8) : a ^^^ (a ^^^ b) = b := by
  rw [← UInt8.xor_assoc, UInt8.xor_self, UInt8.zero_xor]

/-- One byte of a column that is multiplied, from that byte on. -/
def mixed (a b c d : UInt8) : UInt8 := xtime a ^^^ xtime b ^^^ b ^^^ c ^^^ d

theorem mixed_xor (a b c d a' b' c' d' : UInt8) :
    mixed (a ^^^ a') (b ^^^ b') (c ^^^ c') (d ^^^ d') = mixed a b c d ^^^ mixed a' b' c' d' := by
  simp only [mixed, xtime_xor]
  ac_rfl

/-- Up to a byte and the sum of the column, multiplication leaves a difference times `x`. -/
theorem xor_mixed (a b c d : UInt8) :
    a ^^^ (a ^^^ b ^^^ c ^^^ d) ^^^ mixed a b c d = xtime (a ^^^ b) := by
  simp only [mixed, xtime_xor, UInt8.xor_assoc, UInt8.xor_comm, xor_left_comm, xor_xor_self]

/-- Multiplication keeps the sum of a column. -/
theorem sum_mixed (a b c d : UInt8) :
    mixed a b c d ^^^ mixed b c d a ^^^ mixed c d a b ^^^ mixed d a b c = a ^^^ b ^^^ c ^^^ d := by
  simp only [mixed, UInt8.xor_assoc, UInt8.xor_comm, xor_left_comm, UInt8.xor_self,
    xor_xor_self, UInt8.xor_zero]

/-- Only the zero column is mapped to zero. -/
theorem eq_zero_of_mixed {a b c d : UInt8} (h0 : mixed a b c d = 0) (h1 : mixed b c d a = 0)
    (h2 : mixed c d a b = 0) (h3 : mixed d a b c = 0) : a = 0 ∧ b = 0 ∧ c = 0 ∧ d = 0 := by
  have hsum : a ^^^ b ^^^ c ^^^ d = 0 := by
    rw [← sum_mixed, h0, h1, h2, h3]
    rfl
  have hbyte {p q r s : UInt8} (hp : mixed p q r s = 0) (hzero : p ^^^ q ^^^ r ^^^ s = 0) :
      p = xtime (p ^^^ q) := by
    rw [← xor_mixed p q r s, hp, hzero, UInt8.xor_zero, UInt8.xor_zero]
  -- Each byte comes from its difference to the next one, and opposite differences are the same.
  have ha := hbyte h0 hsum
  have hb := hbyte h1 (by rw [← hsum]; ac_rfl)
  have hc := hbyte h2 (by rw [← hsum]; ac_rfl)
  have hd := hbyte h3 (by rw [← hsum]; ac_rfl)
  have hfirst : a ^^^ b = c ^^^ d := by
    rw [← UInt8.xor_eq_zero_iff, ← hsum]
    ac_rfl
  obtain rfl : a = c := by rw [ha, hfirst, ← hc]
  have hsecond : b ^^^ a = d ^^^ a := by rw [UInt8.xor_comm b, hfirst, UInt8.xor_comm]
  obtain rfl : b = d := by rw [hb, hsecond, ← hd]
  obtain rfl : a = b := by rw [ha, UInt8.xor_comm, ← hb]
  rw [UInt8.xor_self] at ha
  have hzero : a = 0 := ha.trans rfl
  exact ⟨hzero, hzero, hzero, hzero⟩

end Column

section Block

/-- States of sixteen bytes are told apart by their bytes. -/
theorem ext_getD {s t : Array UInt8} (hs : s.size = 16) (ht : t.size = 16)
    (h : ∀ i < 16, s.getD i 0 = t.getD i 0) : s = t := by
  apply Array.ext (hs.trans ht.symm)
  intro i hi hi'
  have hbyte := h i (hs ▸ hi)
  rwa [Array.getD_eq_getD_getElem?, Array.getD_eq_getD_getElem?, Array.getElem?_eq_getElem hi,
    Array.getElem?_eq_getElem hi'] at hbyte

theorem apply_of_ofFn_eq {f g : Fin 16 → UInt8} (h : Array.ofFn f = Array.ofFn g) (i : Fin 16) :
    f i = g i := by
  have hbyte := congrArg (fun s => s[i.val]?) h
  simpa using hbyte

variable {keys s t : Array UInt8} {round : Nat}

@[simp] theorem size_addRoundKey : (addRoundKey keys round s).size = 16 := Array.size_ofFn
@[simp] theorem size_subShift : (subShift s).size = 16 := Array.size_ofFn
@[simp] theorem size_mixColumns : (mixColumns s).size = 16 := Array.size_ofFn

theorem addRoundKey_injective (hs : s.size = 16) (ht : t.size = 16)
    (h : addRoundKey keys round s = addRoundKey keys round t) : s = t := by
  apply ext_getD hs ht
  intro i hi
  exact (UInt8.xor_left_inj _).mp (apply_of_ofFn_eq h ⟨i, hi⟩)

/-- The rotation takes byte `5 * i` to the place `i`, so that byte `i` is found at `13 * i`. -/
theorem subShift_injective (hs : s.size = 16) (ht : t.size = 16) (h : subShift s = subShift t) :
    s = t := by
  apply ext_getD hs ht
  intro i hi
  have hbyte := sub_injective (apply_of_ofFn_eq h ⟨13 * i % 16, Nat.mod_lt _ (by decide)⟩)
  have hindex : 5 * (13 * i % 16) % 16 = i := by omega
  rwa [hindex] at hbyte

/-- The difference of two columns with one image is a column that is mapped to zero. -/
theorem mixColumns_injective (hs : s.size = 16) (ht : t.size = 16)
    (h : mixColumns s = mixColumns t) : s = t := by
  have hcolumn : ∀ q < 4, ∀ r < 4, s.getD (4 * q + r) 0 = t.getD (4 * q + r) 0 := by
    intro q hq
    let a (r : Nat) : UInt8 := s.getD (4 * q + r) 0 ^^^ t.getD (4 * q + r) 0
    have hbyte : ∀ r < 4, mixed (a r) (a ((r + 1) % 4)) (a ((r + 2) % 4)) (a ((r + 3) % 4)) = 0 := by
      intro r hr
      have hmixed := apply_of_ofFn_eq h ⟨4 * q + r, by omega⟩
      have hstart : (4 * q + r) / 4 * 4 = 4 * q := by omega
      have hindex (k : Nat) : (4 * q + r + k) % 4 = (r + k) % 4 := by omega
      simp only [hstart, hindex, Nat.add_zero, Nat.mul_add_mod, Nat.mod_eq_of_lt hr] at hmixed
      rw [mixed_xor]
      exact UInt8.xor_eq_zero_iff.mpr hmixed
    obtain ⟨h0, h1, h2, h3⟩ := eq_zero_of_mixed (hbyte 0 (by decide)) (hbyte 1 (by decide))
      (hbyte 2 (by decide)) (hbyte 3 (by decide))
    intro r hr
    apply UInt8.xor_eq_zero_iff.mp
    match r, hr with
    | 0, _ => exact h0
    | 1, _ => exact h1
    | 2, _ => exact h2
    | 3, _ => exact h3
  apply ext_getD hs ht
  intro i hi
  have hi := hcolumn (i / 4) (by omega) (i % 4) (by omega)
  rwa [Nat.div_add_mod] at hi

theorem rounds_injective (rounds : List Nat) (hs : s.size = 16) (ht : t.size = 16)
    (h : rounds.foldl (fun s i => addRoundKey keys (i + 1) (mixColumns (subShift s))) s =
      rounds.foldl (fun s i => addRoundKey keys (i + 1) (mixColumns (subShift s))) t) : s = t := by
  induction rounds generalizing s t with
  | nil => exact h
  | cons i rounds ih =>
    rw [List.foldl_cons, List.foldl_cons] at h
    have hround := ih size_addRoundKey size_addRoundKey h
    have hmixed := addRoundKey_injective size_mixColumns size_mixColumns hround
    exact subShift_injective hs ht (mixColumns_injective size_subShift size_subShift hmixed)

theorem size_rounds (rounds : List Nat) (hs : s.size = 16) :
    (rounds.foldl (fun s i => addRoundKey keys (i + 1) (mixColumns (subShift s))) s).size = 16 := by
  induction rounds generalizing s with
  | nil => exact hs
  | cons i rounds ih =>
    rw [List.foldl_cons]
    exact ih size_addRoundKey

/-- Different blocks are encrypted to different blocks, under whatever round keys. -/
theorem encrypt_injective {block block' : Bytes} (hlength : block.length = 16)
    (hlength' : block'.length = 16) (h : encrypt keys block = encrypt keys block') :
    block = block' := by
  have hlast := addRoundKey_injective size_subShift size_subShift (Array.toList_inj.mp h)
  have hinner := subShift_injective (size_rounds _ size_addRoundKey)
    (size_rounds _ size_addRoundKey) hlast
  have hstart := rounds_injective _ size_addRoundKey size_addRoundKey hinner
  have hblock := addRoundKey_injective hlength hlength' hstart
  exact congrArg Array.toList hblock

end Block

end EdhocLab.Aead.Aes
