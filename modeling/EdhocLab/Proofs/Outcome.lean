/-! # Results that may be errors

When a chain of steps that may fail comes to a result, and to which one.
-/
namespace EdhocLab

variable {ε ε' α β : Type}

@[simp] theorem ok_bind (a : α) (f : α → Except ε β) : (Except.ok a >>= f) = f a := rfl

@[simp] theorem error_bind (e : ε) (f : α → Except ε β) : (Except.error e >>= f) = .error e := rfl

@[simp] theorem pure_eq_ok (a : α) : (pure a : Except ε α) = .ok a := rfl

@[simp] theorem throw_eq_error (e : ε) : (throw e : Except ε α) = .error e := rfl

theorem bind_eq_ok {x : Except ε α} {f : α → Except ε β} {b : β} :
    (x >>= f) = .ok b ↔ ∃ a, x = .ok a ∧ f a = .ok b := by
  cases x with
  | ok a => simp
  | error e => simp

theorem ite_error_eq_ok {p : Prop} [Decidable p] {e : ε} {x : Except ε α} {a : α} :
    (if p then .error e else x) = .ok a ↔ ¬p ∧ x = .ok a := by
  split <;> simp_all

theorem map_eq_ok {x : Except ε α} {f : α → β} {b : β} :
    x.map f = .ok b ↔ ∃ a, x = .ok a ∧ f a = b := by
  cases x with
  | ok a => simp [Except.map]
  | error e => simp [Except.map]

@[simp] theorem mapError_ok (a : α) (f : ε → ε') : (Except.ok a : Except ε α).mapError f = .ok a :=
  rfl

@[simp] theorem mapError_error (e : ε) (f : ε → ε') :
    (Except.error e : Except ε α).mapError f = .error (f e) :=
  rfl

theorem mapError_eq_ok {x : Except ε α} {f : ε → ε'} {a : α} :
    x.mapError f = .ok a ↔ x = .ok a := by
  cases x with
  | ok b => simp
  | error e => simp

theorem toOption_eq_some {x : Except ε α} {a : α} : x.toOption = some a ↔ x = .ok a := by
  cases x with
  | ok b => simp [Except.toOption]
  | error e => simp [Except.toOption]

theorem isOk_iff {x : Except ε α} : x.isOk ↔ ∃ a, x = .ok a := by
  cases x with
  | ok a => simp [Except.isOk, Except.toBool]
  | error e => simp [Except.isOk, Except.toBool]

@[simp] theorem isOk_ok (a : α) : (Except.ok a : Except ε α).isOk := rfl

@[simp] theorem not_isOk_error (e : ε) : ¬(Except.error e : Except ε α).isOk := nofun

@[simp] theorem isOk_mapError {x : Except ε α} {f : ε → ε'} : (x.mapError f).isOk = x.isOk := by
  cases x <;> rfl

@[simp] theorem isOk_map {x : Except ε α} {f : α → β} : (x.map f).isOk = x.isOk := by
  cases x <;> rfl

/-- A step that only rearranges a result never fails. -/
@[simp] theorem isOk_bind_ok {x : Except ε α} {f : α → β} :
    (x >>= fun a => Except.ok (f a)).isOk = x.isOk := by
  cases x <;> rfl

theorem toOption_isSome {x : Except ε α} : x.toOption.isSome = x.isOk := by
  cases x <;> rfl

/-- Two steps in a row succeed if both do, where the second may depend on the first. -/
theorem isOk_bind {x : Except ε α} {f : α → Except ε β} {p q : Prop} (hx : x.isOk ↔ p)
    (hf : ∀ a, x = .ok a → ((f a).isOk ↔ q)) : (x >>= f).isOk ↔ p ∧ q := by
  cases x with
  | ok a => simpa [← hx] using hf a rfl
  | error e => simp [← hx]

/-- A step that always succeeds does not decide whether the whole does. -/
theorem isOk_bind_of_isOk {x : Except ε α} {f : α → Except ε β} {q : Prop} (hx : x.isOk)
    (hf : ∀ a, x = .ok a → ((f a).isOk ↔ q)) : (x >>= f).isOk ↔ q := by
  simpa using isOk_bind (iff_true_intro hx) hf

/-- What only succeeds with another result fails with it. -/
theorem error_of_error {x : Except ε α} {y : Except ε' β} {e : ε} (h : x = .error e)
    (hok : ∀ b, y = .ok b → ∃ a, x = .ok a) : ∃ e', y = .error e' := by
  cases y with
  | error e' => exact ⟨e', rfl⟩
  | ok b =>
    obtain ⟨a, ha⟩ := hok b rfl
    rw [h] at ha
    cases ha

end EdhocLab
