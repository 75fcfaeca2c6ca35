import EdhocLab.Proofs.Oscore.ReplayWindow

/-! # The window as a set of numbers

Whatever numbers are put to a new window, it answers as the set of those that it accepted would.  Its
steps are also taken with every shift of 64 bits spelled out, and none of them goes as far as the mask
is wide.
-/
namespace EdhocLab.Oscore.ReplayWindow

variable {window : ReplayWindow} {accepted : List Nat} {size n : Nat}

section Shifts

/-- Bits that are moved up, by a distance below their number. -/
def shiftLeft? (bits : BitVec 64) (distance : Nat) : Option (BitVec 64) :=
  if distance < maxSize then some (bits <<< distance) else none

/-- The mask after the highest number grew.  It is not shifted once it grew by the width of the mask. -/
def slide? (window : ReplayWindow) (distance : Nat) : Option (BitVec 64) :=
  if maxSize ≤ distance then some 0 else shiftLeft? window.seen distance

/-- The answer to a number together with the shifts that lead to it, `none` if one of them is by the
width of the mask or more. -/
def acceptShifting? (window : ReplayWindow) (n : Nat) : Option (Option ReplayWindow) :=
  match window.highest with
  | none => some (some { window with highest := some n, seen := 1 })
  | some highest =>
    if highest < n then do
      let seen ← window.slide? (n - highest)
      return some { window with highest := some n, seen := seen ||| 1 }
    else
      let age := highest - n
      -- A number that is too old is refused without a look at its place in the mask.
      if window.size ≤ age then some none
      else do
        let mark ← shiftLeft? 1 age
        if window.seen &&& mark = 0 then return some { window with seen := window.seen ||| mark }
        else return none

variable {bits : BitVec 64} {age : Nat}

theorem slide?_eq (distance : Nat) : window.slide? distance = some (window.slide distance) := by
  unfold slide? slide
  split
  · rfl
  · rename_i hnear
    exact if_pos (Nat.not_le.mp hnear)

/-- A single mark is the lowest bit, moved up. -/
theorem shiftLeft?_one (h : age < maxSize) :
    shiftLeft? 1 age = some ((1 <<< age : Nat) : BitVec 64) := by
  rw [shiftLeft?, if_pos h]
  rfl

/-- What a mask has in common with a single mark tells the bit in its place. -/
theorem and_mark_eq_zero (h : age < maxSize) :
    bits &&& ((1 <<< age : Nat) : BitVec 64) = 0 ↔ ¬bits.getLsbD age := by
  constructor
  · intro hzero
    have hbit := congrArg (BitVec.getLsbD · age) hzero
    rw [BitVec.getLsbD_and, getLsbD_mark h, decide_eq_true rfl, Bool.and_true] at hbit
    simp [hbit]
  · intro hbit
    apply BitVec.eq_of_getLsbD_eq
    intro i hi
    rw [BitVec.getLsbD_and, getLsbD_mark hi]
    by_cases hage : i = age
    · simp [hage, hbit]
    · simp [hage]

/-- Every shift of a step is by less than the width of the mask. -/
theorem acceptShifting?_eq (h : window.size ≤ maxSize) (n : Nat) :
    window.acceptShifting? n = some (window.accept? n) := by
  unfold acceptShifting? accept?
  cases window.highest with
  | none => rfl
  | some highest =>
    dsimp only
    by_cases hahead : highest < n
    · rw [if_pos hahead, if_pos hahead, slide?_eq]
      rfl
    · rw [if_neg hahead, if_neg hahead]
      by_cases hold : window.size ≤ highest - n
      · rw [if_pos hold, if_pos (.inl hold)]
      · have hage : highest - n < maxSize := by omega
        simp only [hold, if_false, false_or, shiftLeft?_one hage, Option.bind_eq_bind,
          Option.bind_some, and_mark_eq_zero hage, Option.pure_def]
        cases window.seen.getLsbD (highest - n) <;> rfl

end Shifts

/-- Whether a number is accepted on a set of accepted ones: it is new, and it is the first one, ahead of
all of them, or behind the largest by less than the size of the window and the width of the mask. -/
def Admits (size : Nat) (accepted : List Nat) (n : Nat) : Prop :=
  n ∉ accepted ∧ (accepted = [] ∨ (∀ m ∈ accepted, m < n) ∨
    ∃ m ∈ accepted.max?, n < m ∧ m - n < min size 64)

/-- A number is admitted if it is new and no accepted one is ahead of it by the size of the window. -/
theorem admits_iff (size : Nat) (accepted : List Nat) (n : Nat) :
    Admits size accepted n ↔ n ∉ accepted ∧ ∀ m ∈ accepted, m < n + min size maxSize := by
  refine and_congr_right fun hnew => ?_
  cases hlargest : accepted.max? with
  | none => simp [List.max?_eq_none_iff.mp hlargest]
  | some largest =>
    obtain ⟨hmem, hle⟩ := List.max?_eq_some_iff.mp hlargest
    have hne : largest ≠ n := fun heq => hnew (heq ▸ hmem)
    have hbound (bound : Nat) : (∀ m ∈ accepted, m < bound) ↔ largest < bound :=
      ⟨fun h => h largest hmem, fun h m hm => Nat.lt_of_le_of_lt (hle m hm) h⟩
    rw [hbound, hbound]
    simp only [List.ne_nil_of_mem hmem, false_or, Option.mem_some_iff, exists_eq_left']
    have hmax : maxSize = 64 := rfl
    omega

/-- A window together with the numbers that it accepted, the latest first. -/
structure History where
  window : ReplayWindow
  accepted : List Nat
  deriving DecidableEq

namespace History

/-- A number is put to the window, which stays as it was if it refuses the number. -/
def put (history : History) (n : Nat) : History :=
  match history.window.accept? n with
  | none => history
  | some window => { window, accepted := n :: history.accepted }

/-- What becomes of a new window to which numbers are put one after the other. -/
def ofNumbers (size : Nat) (numbers : List Nat) : History :=
  numbers.foldl put { window := ofSize size, accepted := [] }

/-- The window stands for the numbers that it accepted, in the size that it was made with. -/
structure Faithful (history : History) (size : Nat) : Prop where
  remembers : history.window.Remembers history.accepted
  size_eq : history.window.size = min size maxSize

theorem Faithful.put {history : History} (h : history.Faithful size) (n : Nat) :
    (history.put n).Faithful size := by
  unfold History.put
  cases hanswer : history.window.accept? n with
  | none => exact h
  | some window =>
    obtain ⟨hremembers, hsize⟩ := accept?_eq_some h.remembers hanswer
    exact ⟨hremembers, hsize.trans h.size_eq⟩

theorem faithful_ofNumbers (size : Nat) (numbers : List Nat) :
    (ofNumbers size numbers).Faithful size := by
  apply List.foldlRecOn (motive := (Faithful · size))
  · exact ⟨ofSize_remembers size, rfl⟩
  · intro history h n _
    exact h.put n

end History

/-- After any numbers, a new window accepts the next one exactly if the set of the accepted ones admits
it, and no shift on the way is by the width of the mask or more. -/
theorem accepts_iff_admits (size : Nat) (numbers : List Nat) (n : Nat) :
    (((History.ofNumbers size numbers).window.accept? n).isSome ↔
      Admits size (History.ofNumbers size numbers).accepted n) ∧
    (History.ofNumbers size numbers).window.acceptShifting? n =
      some ((History.ofNumbers size numbers).window.accept? n) := by
  have h := History.faithful_ofNumbers size numbers
  constructor
  · rw [accept?_isSome h.remembers, admits_iff, h.size_eq]
  · exact acceptShifting?_eq h.remembers.size_le n

/-- A window of four: 7 comes twice, 6 is too old after 10, and so is 10 after 100. -/
example : (History.ofNumbers 4 [10, 7, 7, 6, 100, 10, 99]).accepted = [99, 100, 7, 10] := by decide

end EdhocLab.Oscore.ReplayWindow
