import EdhocLab.Oscore.ReplayWindow

/-! # What a replay window remembers

The mask of a window stands for the accepted numbers from the highest one downwards, so that a
number is refused exactly if it was accepted before or fell out of the window.
-/
namespace EdhocLab.Oscore.ReplayWindow

/-- A window after some numbers were accepted. -/
structure Remembers (window : ReplayWindow) (accepted : List Nat) : Prop where
  size_le : window.size ≤ maxSize
  nil_of_none : window.highest = none → accepted = []
  highest_mem : ∀ highest, window.highest = some highest → highest ∈ accepted
  le_highest : ∀ highest, window.highest = some highest → ∀ n ∈ accepted, n ≤ highest
  seen_iff : ∀ highest, window.highest = some highest → ∀ n ≤ highest, highest - n < maxSize →
    (window.seen.getLsbD (highest - n) ↔ n ∈ accepted)

theorem ofSize_remembers (size : Nat) : (ofSize size).Remembers [] where
  size_le := Nat.min_le_right ..
  nil_of_none _ := rfl
  highest_mem _ h := by cases h
  le_highest _ h := by cases h
  seen_iff _ h := by cases h

theorem getLsbD_lowest (i : Nat) : (1 : BitVec 64).getLsbD i = decide (i = 0) := by
  rw [show (1 : BitVec 64) = 1#64 from rfl, BitVec.getLsbD_one]
  simp

theorem getLsbD_mark {age i : Nat} (hi : i < maxSize) :
    ((1 <<< age : Nat) : BitVec 64).getLsbD i = decide (i = age) := by
  rw [BitVec.natCast_eq_ofNat, BitVec.getLsbD_ofNat, Nat.one_shiftLeft, Nat.testBit_two_pow]
  simp [show i < 64 from hi, eq_comm]

variable {window window' : ReplayWindow} {accepted : List Nat} {n : Nat}

/-- The bits move up by the distance. -/
theorem getLsbD_slide {distance i : Nat} (hi : i < maxSize) : (window.slide distance).getLsbD i =
    (decide (distance ≤ i) && window.seen.getLsbD (i - distance)) := by
  unfold slide
  split
  · rename_i hall
    have hlt : ¬distance ≤ i := by omega
    simp [hlt]
  · rw [BitVec.getLsbD_shiftLeft]
    simp only [show i < 64 from hi, decide_true, Bool.true_and, ← Nat.not_lt, decide_not]

namespace Remembers

variable {highest : Nat}

/-- The first number is accepted without a look at the mask. -/
theorem first (h : window.Remembers accepted) (hhighest : window.highest = none) :
    ({ window with highest := some n, seen := 1 } : ReplayWindow).Remembers (n :: accepted) := by
  obtain rfl := h.nil_of_none hhighest
  refine ⟨h.size_le, nofun, ?_, ?_, ?_⟩
  · rintro _ ⟨⟩
    exact List.mem_singleton_self n
  · rintro _ ⟨⟩ m hm
    exact Nat.le_of_eq (List.mem_singleton.mp hm)
  · rintro _ ⟨⟩ m hle hage
    rw [getLsbD_lowest, decide_eq_true_eq, List.mem_singleton]
    omega

/-- A new highest number slides the mask. -/
theorem ahead (h : window.Remembers accepted) (hhighest : window.highest = some highest)
    (hlt : highest < n) : ({ window with
      highest := some n, seen := window.slide (n - highest) ||| 1 } : ReplayWindow).Remembers
        (n :: accepted) := by
  have hle := h.le_highest highest hhighest
  refine ⟨h.size_le, nofun, ?_, ?_, ?_⟩
  · rintro _ ⟨⟩
    exact List.mem_cons_self
  · rintro _ ⟨⟩ m hm
    rcases List.mem_cons.mp hm with rfl | hm
    · exact Nat.le_refl m
    · exact Nat.le_trans (hle m hm) (Nat.le_of_lt hlt)
  · rintro _ ⟨⟩ m hm hage
    dsimp only at hm hage ⊢
    rw [BitVec.getLsbD_or, getLsbD_slide hage, getLsbD_lowest, Bool.or_eq_true, Bool.and_eq_true,
      decide_eq_true_eq, decide_eq_true_eq, List.mem_cons, Or.comm]
    by_cases hold : m ≤ highest
    · have hdistance : n - m - (n - highest) = highest - m := by omega
      have hne : n - m ≠ 0 := by omega
      have hge : n - highest ≤ n - m := by omega
      rw [hdistance, h.seen_iff highest hhighest m hold (by omega)]
      simp [hne, hge, show m ≠ n by omega]
    · have hfresh : m ∉ accepted := fun hmem => hold (hle m hmem)
      have hge : ¬n - highest ≤ n - m := by omega
      simp only [hge, false_and, or_false, hfresh]
      omega

/-- A number within the window only sets its bit. -/
theorem behind (h : window.Remembers accepted) (hhighest : window.highest = some highest)
    (hn : n ≤ highest) (hopen : highest - n < window.size) :
    ({ window with seen := window.seen ||| (1 <<< (highest - n)) } : ReplayWindow).Remembers
      (n :: accepted) := by
  have hsize := h.size_le
  refine ⟨hsize, fun hnone => ?_, fun top htop => ?_, fun top htop m hm => ?_,
    fun top htop m hm hage => ?_⟩
  · cases hhighest.symm.trans hnone
  · exact List.mem_cons_of_mem n (h.highest_mem top htop)
  · obtain rfl : highest = top := Option.some.inj (hhighest.symm.trans htop)
    rcases List.mem_cons.mp hm with rfl | hm
    · exact hn
    · exact h.le_highest highest hhighest m hm
  · obtain rfl : highest = top := Option.some.inj (hhighest.symm.trans htop)
    rw [BitVec.getLsbD_or, Bool.or_eq_true, getLsbD_mark hage,
      h.seen_iff highest hhighest m hm hage, decide_eq_true_eq, List.mem_cons, Or.comm]
    refine or_congr ?_ Iff.rfl
    omega

end Remembers

theorem accept?_eq_some (h : window.Remembers accepted) (hnew : window.accept? n = some window') :
    window'.Remembers (n :: accepted) ∧ window'.size = window.size := by
  unfold accept? at hnew
  split at hnew
  case h_1 hhighest =>
    cases hnew
    exact ⟨h.first hhighest, rfl⟩
  case h_2 highest hhighest =>
    by_cases hlt : highest < n
    · rw [if_pos hlt, Option.some.injEq] at hnew
      exact hnew ▸ ⟨h.ahead hhighest hlt, rfl⟩
    · rw [if_neg hlt] at hnew
      dsimp only at hnew
      split at hnew
      · cases hnew
      · rename_i hopen
        cases hnew
        rw [not_or] at hopen
        exact ⟨h.behind hhighest (Nat.not_lt.mp hlt) (Nat.not_le.mp hopen.1), rfl⟩

/-- A number is accepted exactly if it is new and no accepted one is ahead of it by the size of the
window. -/
theorem accept?_isSome (h : window.Remembers accepted) :
    (window.accept? n).isSome ↔ n ∉ accepted ∧ ∀ m ∈ accepted, m < n + window.size := by
  have hsize := h.size_le
  unfold accept?
  cases hhighest : window.highest with
  | none => simp [h.nil_of_none hhighest]
  | some highest =>
    have hmem := h.highest_mem highest hhighest
    have hle := h.le_highest highest hhighest
    dsimp only
    by_cases hlt : highest < n
    · simp only [hlt, if_true, Option.isSome_some, true_iff]
      refine ⟨fun hn => ?_, fun m hm => ?_⟩
      · have := hle n hn
        omega
      · have := hle m hm
        omega
    · simp only [hlt, if_false]
      have hwindow : (∀ m ∈ accepted, m < n + window.size) ↔ highest < n + window.size :=
        ⟨fun hall => hall highest hmem, fun hall m hm => Nat.lt_of_le_of_lt (hle m hm) hall⟩
      rw [hwindow]
      by_cases hold : window.size ≤ highest - n
      · simp only [hold, true_or, if_true, Option.isSome_none, Bool.false_eq_true, false_iff, not_and]
        omega
      · rw [← h.seen_iff highest hhighest n (Nat.not_lt.mp hlt) (by omega)]
        have hbehind : highest < n + window.size := by omega
        cases window.seen.getLsbD (highest - n) <;> simp [hold, hbehind]

end EdhocLab.Oscore.ReplayWindow
