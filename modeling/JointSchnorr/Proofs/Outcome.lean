import Mathlib

/-!
# Outcomes of steps that may fail

What the parts of a computation gave, from what the whole gave.
-/

namespace JointSchnorr

variable {α β ε δ : Type} {x : Except ε α}

theorem bind_eq_ok_iff {g : α → Except ε β} {b : β} :
    x >>= g = .ok b ↔ ∃ a, x = .ok a ∧ g a = .ok b := by
  cases x with
  | error e => simp [bind, Except.bind]
  | ok a => simp [bind, Except.bind]

theorem exists_of_map_eq_ok {g : α → β} {b : β} (h : x.map g = .ok b) :
    ∃ a, x = .ok a ∧ b = g a := by
  cases x with
  | error e => exact absurd h (by simp [Except.map])
  | ok a => exact ⟨a, rfl, (Except.ok.inj h).symm⟩

theorem map_eq_error_iff {g : α → β} {e : ε} : x.map g = .error e ↔ x = .error e := by
  cases x <;> simp [Except.map]

theorem map_equiv_eq_ok_iff {f : α ≃ β} {b : β} : x.map f = .ok b ↔ x = .ok (f.symm b) := by
  cases x <;> simp [Except.map, Equiv.eq_symm_apply]

theorem mapError_eq_ok_iff {g : ε → δ} {a : α} : x.mapError g = .ok a ↔ x = .ok a := by
  cases x <;> simp [Except.mapError]

theorem mapError_eq_error {g : ε → δ} {d : δ} (h : x.mapError g = .error d) :
    ∃ e, x = .error e ∧ d = g e := by
  cases x with
  | error e => exact ⟨e, rfl, (Except.error.inj h).symm⟩
  | ok a => exact absurd h (by simp [Except.mapError])

end JointSchnorr
