import EdhocLab.Curve.P256
import EdhocLab.Curve.X25519
import EdhocLab.Proofs.Curve.Modular
import Mathlib.Tactic.NormNum.Prime

/-! # Primes of the curves

The primes of both fields and the order of the base point of P-256 have certificates: enough prime
factors of their predecessors, with powers of two that show that these divide the predecessor of every
prime divisor.
-/
namespace EdhocLab.Curve

section Divisor

/-- An order is a multiple of each prime factor of an exponent for one, unless the exponent can do
without it. -/
theorem dvd_orderOf {M : Type} [Monoid M] {x : M} {m q : ℕ} (hq : q.Prime) (hm : q ∣ m)
    (hone : x ^ m = 1) (hne : x ^ (m / q) ≠ 1) : q ∣ orderOf x := by
  obtain ⟨k, hk⟩ := orderOf_dvd_of_pow_eq_one hone
  refine (hq.dvd_mul.mp (hk ▸ hm)).resolve_right ?_
  rintro ⟨j, rfl⟩
  apply hne
  rw [hk, Nat.mul_left_comm, Nat.mul_div_cancel_left _ hq.pos, pow_mul, pow_orderOf_eq_one, one_pow]

/-- Whether the powers of two show that `q` divides the predecessor of every prime divisor of `n`. -/
def certifies (n q : ℕ) : Bool :=
  powMod n 256 2 (n - 1) == 1 && (powMod n 256 2 ((n - 1) / q) + (n - 1)).gcd n == 1

theorem dvd_pred_of_certifies {n q r : ℕ} (hn : 1 < n) (hlt : n < 2 ^ 256) (hq : q.Prime)
    (hdvd : q ∣ n - 1) (h : certifies n q) (hr : r.Prime) (hrn : r ∣ n) : q ∣ r - 1 := by
  have : Fact r.Prime := ⟨hr⟩
  simp only [certifies, Bool.and_eq_true, beq_iff_eq] at h
  have hcast (k : ℕ) (hk : k ≤ n - 1) : (powMod n 256 2 k : ZMod r) = 2 ^ k := by
    have htwo : (2 : ZMod r) ^ k = (2 ^ k : ℕ) := by push_cast; rfl
    rw [powMod_eq _ _ _ (by omega), htwo, ZMod.natCast_eq_natCast_iff]
    exact (Nat.mod_modEq _ _).of_dvd hrn
  have hone : (2 : ZMod r) ^ (n - 1) = 1 := by
    rw [← hcast _ le_rfl, h.1, Nat.cast_one]
  have hne : (2 : ZMod r) ^ ((n - 1) / q) ≠ 1 := by
    intro hpow
    rw [← hcast _ (Nat.div_le_self ..)] at hpow
    have hzero : ((powMod n 256 2 ((n - 1) / q) + (n - 1) : ℕ) : ZMod r) = 0 := by
      rw [Nat.cast_add, hpow, ← Nat.cast_one, ← Nat.cast_add, Nat.add_sub_cancel' hn.le]
      exact (ZMod.natCast_eq_zero_iff n r).mpr hrn
    have hgcd := Nat.dvd_gcd ((ZMod.natCast_eq_zero_iff _ r).mp hzero) hrn
    rw [h.2] at hgcd
    exact hr.one_lt.ne' (Nat.dvd_one.mp hgcd)
  have htwo : (2 : ZMod r) ≠ 0 := by
    intro hzero
    rw [hzero, zero_pow (by omega)] at hone
    exact zero_ne_one hone
  exact (dvd_orderOf hq hdvd hone hne).trans (ZMod.orderOf_dvd_card_sub_one htwo)

end Divisor

/-- A number with prime factors of its predecessor. -/
structure Certificate where
  number : ℕ
  factors : List ℕ

namespace Certificate

/-- Whether the factors are certified and their product is beyond the square root of the number. -/
def valid (c : Certificate) : Bool :=
  decide (1 < c.number ∧ c.number < 2 ^ 256 ∧ c.factors.Nodup ∧ c.number < c.factors.prod ^ 2 ∧
    ∀ q ∈ c.factors, q ∣ c.number - 1 ∧ certifies c.number q)

theorem prime_of_valid {c : Certificate} (hprime : ∀ q ∈ c.factors, q.Prime) (h : c.valid) :
    c.number.Prime := by
  obtain ⟨hn, hlt, hnodup, hlarge, hcertified⟩ := of_decide_eq_true h
  by_contra hnot
  have hr := Nat.minFac_prime hn.ne'
  have hsquare := Nat.minFac_sq_le_self (by omega) hnot
  have hpred : c.factors.prod ∣ c.number.minFac - 1 := by
    rw [← List.map_id c.factors, ← List.prod_toFinset id hnodup]
    refine Finset.prod_primes_dvd _ (fun q hq => (hprime q (List.mem_toFinset.mp hq)).prime)
      fun q hq => ?_
    obtain ⟨hdvd, hq'⟩ := hcertified q (List.mem_toFinset.mp hq)
    exact dvd_pred_of_certifies hn hlt (hprime q (List.mem_toFinset.mp hq)) hdvd hq' hr
      (Nat.minFac_dvd _)
  have hle := Nat.le_of_dvd (by have := hr.two_le; omega) hpred
  have hpow : c.factors.prod ^ 2 ≤ c.number.minFac ^ 2 := Nat.pow_le_pow_left (by omega) 2
  omega

/-- Whether each certificate is valid and rests on known primes and those certified before. -/
def allValid : (known : List ℕ) → List Certificate → Bool
  | _, [] => true
  | known, c :: cs => c.factors.all known.contains && c.valid && allValid (c.number :: known) cs

theorem prime_of_allValid {known : List ℕ} {cs : List Certificate} (hknown : ∀ q ∈ known, q.Prime)
    (h : allValid known cs) : ∀ c ∈ cs, c.number.Prime := by
  induction cs generalizing known with
  | nil => nofun
  | cons c cs ih =>
    simp only [allValid, Bool.and_eq_true, List.all_eq_true, List.contains_iff_mem] at h
    obtain ⟨⟨hfactors, hvalid⟩, hrest⟩ := h
    have hc := prime_of_valid (fun q hq => hknown q (hfactors q hq)) hvalid
    exact List.forall_mem_cons.mpr ⟨hc, ih (List.forall_mem_cons.mpr ⟨hc, hknown⟩) hrest⟩

/-- The primes that certificates start from. -/
def small : List ℕ :=
  [127, 197, 3023, 3677, 18169, 38189, 57467, 75707, 78283, 8574133, 187019741, 191039911]

theorem prime_of_mem_small : ∀ q ∈ small, q.Prime := by
  simp only [small, List.forall_mem_cons, List.not_mem_nil, false_imp_iff, implies_true, and_true]
  norm_num

/-- The certificates for the three numbers, each after those that it rests on. -/
def certificates : List Certificate :=
  [{ number := 1919519569386763, factors := [8574133, 127] },
    { number := 75445702479781427272750846543864801, factors := [1919519569386763, 75707] },
    { number := 74058212732561358302231226437062788676166966415465897661863160754340907
      factors := [75445702479781427272750846543864801, 57467] },
    { number := X25519.p
      factors := [74058212732561358302231226437062788676166966415465897661863160754340907] },
    { number := 46076956964474543, factors := [78283, 18169] },
    { number := 66417393611, factors := [3677, 197] },
    { number := 11290956913871, factors := [66417393611] },
    { number := 774023187263532362759620327192479577272145303
      factors := [46076956964474543, 11290956913871] },
    { number := 835945042244614951780389953367877943453916927241
      factors := [774023187263532362759620327192479577272145303] },
    { number := P256.p, factors := [835945042244614951780389953367877943453916927241] },
    { number := 208150935158385979, factors := [191039911, 3023] },
    { number := 2624747550333869278416773953, factors := [208150935158385979] },
    { number := P256.order, factors := [2624747550333869278416773953, 187019741, 38189] }]

theorem certificates_valid : allValid small certificates := by decide +kernel

theorem prime_of_mem {c : Certificate} (h : c ∈ certificates) : c.number.Prime :=
  prime_of_allValid prime_of_mem_small certificates_valid c h

end Certificate

theorem prime_p25519 : Nat.Prime X25519.p :=
  Certificate.prime_of_mem (c := Certificate.certificates[3]) (List.getElem_mem _)

theorem prime_p256 : Nat.Prime P256.p :=
  Certificate.prime_of_mem (c := Certificate.certificates[9]) (List.getElem_mem _)

theorem prime_order : Nat.Prime P256.order :=
  Certificate.prime_of_mem (c := Certificate.certificates[12]) (List.getElem_mem _)

end EdhocLab.Curve
