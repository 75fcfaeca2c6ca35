import EdhocLab.Bytes

/-! # Numbers and masks of byte strings

A string of bytes is a number with as many digits: strings of one length are as different as their
numbers, and zeros in front do not count.  A mask that is long enough comes off again.
-/
namespace EdhocLab.Bytes

section Numbers

theorem natOfLE_append (as bs : Bytes) :
    natOfLE (as ++ bs) = natOfLE as + 256 ^ as.length * natOfLE bs := by
  induction as with
  | nil => simp [natOfLE]
  | cons a as ih =>
    rw [List.cons_append, natOfLE, ih, natOfLE, List.length_cons, Nat.pow_succ', Nat.mul_add,
      Nat.mul_assoc, Nat.add_assoc]

theorem natOfBE_append (as bs : Bytes) :
    natOfBE (as ++ bs) = natOfBE bs + 256 ^ bs.length * natOfBE as := by
  rw [natOfBE, List.reverse_append, natOfLE_append, List.length_reverse]
  rfl

theorem natOfBE_cons (b : UInt8) (bs : Bytes) :
    natOfBE (b :: bs) = natOfBE bs + 256 ^ bs.length * b.toNat := by
  rw [← List.singleton_append, natOfBE_append]
  rfl

theorem natOfBE_zeros (n : Nat) : natOfBE (zeros n) = 0 := by
  induction n with
  | zero => rfl
  | succ n ih =>
    rw [zeros, List.replicate_succ, natOfBE_cons]
    change natOfBE (zeros n) + _ = 0
    rw [ih]
    simp

theorem natOfLE_lt (bs : Bytes) : natOfLE bs < 256 ^ bs.length := by
  induction bs with
  | nil => simp [natOfLE]
  | cons b bs ih =>
    have hb := b.toNat_lt
    simp only [natOfLE, List.length_cons, Nat.pow_succ]
    omega

theorem natOfBE_lt (bs : Bytes) : natOfBE bs < 256 ^ bs.length := by
  simpa [natOfBE] using natOfLE_lt bs.reverse

theorem eq_of_natOfLE_eq {as bs : Bytes} (hlength : as.length = bs.length)
    (h : natOfLE as = natOfLE bs) : as = bs := by
  induction as generalizing bs with
  | nil => exact (List.length_eq_zero_iff.mp hlength.symm).symm
  | cons a as ih =>
    cases bs with
    | nil => cases hlength
    | cons b bs =>
      have ha := a.toNat_lt
      have hb := b.toNat_lt
      simp only [natOfLE] at h
      have hdigit : a.toNat = b.toNat := by omega
      have hrest : natOfLE as = natOfLE bs := by omega
      rw [UInt8.toNat_inj.mp hdigit, ih (Nat.succ.inj hlength) hrest]

/-- Strings of one length are as different as their numbers. -/
theorem eq_of_natOfBE_eq {as bs : Bytes} (hlength : as.length = bs.length)
    (h : natOfBE as = natOfBE bs) : as = bs := by
  apply List.reverse_inj.mp
  apply eq_of_natOfLE_eq
  · rw [List.length_reverse, List.length_reverse, hlength]
  · exact h

/-- Leading zeros do not count. -/
theorem natOfBE_dropWhile_zero (bs : Bytes) : natOfBE (bs.dropWhile (· == 0)) = natOfBE bs := by
  induction bs with
  | nil => rfl
  | cons b bs ih =>
    rw [List.dropWhile_cons]
    split
    · rename_i hb
      rw [ih, natOfBE_cons, show b = 0 by simpa using hb]
      simp
    · rfl

/-- A number without leading zeros is as long as its size asks for. -/
theorem length_dropWhile_zero_le {bs : Bytes} {width : Nat} (h : natOfBE bs < 256 ^ width) :
    (bs.dropWhile (· == 0)).length ≤ width := by
  rw [← natOfBE_dropWhile_zero] at h
  cases hdigits : bs.dropWhile (· == 0) with
  | nil => exact Nat.zero_le width
  | cons b rest =>
    have hb : 1 ≤ b.toNat := by
      have hhead := List.head_dropWhile_not (· == 0) (l := bs) (by simp [hdigits])
      simp only [hdigits, List.head_cons, beq_eq_false_iff_ne] at hhead
      rw [Nat.one_le_iff_ne_zero]
      exact fun hzero => hhead (UInt8.toNat_inj.mp hzero)
    rw [hdigits, natOfBE_cons] at h
    have hpow : 256 ^ rest.length < 256 ^ width :=
      Nat.lt_of_le_of_lt (Nat.le_trans (Nat.le_mul_of_pos_right _ hb) (Nat.le_add_left ..)) h
    exact (Nat.pow_lt_pow_iff_right (by decide)).mp hpow

/-- The last bytes hold the low digits. -/
theorem natOfBE_takeLast (n : Nat) (bs : Bytes) :
    natOfBE (takeLast n bs) = natOfBE bs % 256 ^ n := by
  by_cases hshort : bs.length ≤ n
  · have hlt : natOfBE bs < 256 ^ n :=
      Nat.lt_of_lt_of_le (natOfBE_lt bs) (Nat.pow_le_pow_right (by decide) hshort)
    rw [takeLast, Nat.sub_eq_zero_of_le hshort, List.drop_zero, Nat.mod_eq_of_lt hlt]
  · have hlength : (takeLast n bs).length = n := by
      rw [takeLast, List.length_drop]
      omega
    have hvalue : natOfBE bs = _ := congrArg natOfBE
      (List.take_append_drop (bs.length - n) bs).symm
    have hlt := natOfBE_lt (takeLast n bs)
    rw [natOfBE_append, ← takeLast, hlength] at hvalue
    rw [hlength] at hlt
    rw [hvalue, Nat.add_mul_mod_self_left, Nat.mod_eq_of_lt hlt]

/-- Filling up with zeros keeps the number. -/
theorem natOfBE_padLeft (width : Nat) (bs : Bytes) : natOfBE (padLeft width bs) = natOfBE bs := by
  rw [padLeft, natOfBE_append, natOfBE_zeros, Nat.mul_zero, Nat.add_zero]

/-- Strings of one length are as different as they are once filled up. -/
theorem padLeft_inj {width : Nat} {as bs : Bytes} (hlength : as.length = bs.length) :
    padLeft width as = padLeft width bs ↔ as = bs := by
  constructor
  · intro h
    apply eq_of_natOfBE_eq hlength
    rw [← natOfBE_padLeft width as, h, natOfBE_padLeft]
  · intro h
    rw [h]

end Numbers

section Masks

@[simp] theorem length_xor (a b : Bytes) : (xor a b).length = min a.length b.length := by
  simp [xor]

/-- The exclusive or with a mask that is long enough undoes itself. -/
theorem xor_xor_cancel {a b : Bytes} (h : a.length ≤ b.length) : xor (xor a b) b = a := by
  induction a generalizing b with
  | nil => rfl
  | cons x xs ih =>
    cases b with
    | nil => simp at h
    | cons y ys =>
      have hxs : xor (xor xs ys) ys = xs := ih (by simpa using h)
      simp only [xor, List.zipWith_cons_cons] at hxs ⊢
      rw [hxs, UInt8.xor_assoc, UInt8.xor_self, UInt8.xor_zero]

/-- A mask that is long enough hides no difference. -/
theorem xor_left_inj {as bs mask : Bytes} (has : as.length ≤ mask.length)
    (hbs : bs.length ≤ mask.length) : xor as mask = xor bs mask ↔ as = bs := by
  constructor
  · intro h
    rw [← xor_xor_cancel has, h, xor_xor_cancel hbs]
  · intro h
    rw [h]

theorem xor_comm (a b : Bytes) : xor a b = xor b a :=
  List.zipWith_comm_of_comm UInt8.xor_comm

theorem xor_right_inj {as bs mask : Bytes} (has : as.length ≤ mask.length)
    (hbs : bs.length ≤ mask.length) : xor mask as = xor mask bs ↔ as = bs := by
  rw [xor_comm mask, xor_comm mask, xor_left_inj has hbs]

end Masks

end EdhocLab.Bytes
