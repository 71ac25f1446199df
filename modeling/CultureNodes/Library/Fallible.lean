import Mathlib.Logic.Basic

/-!
Computations that return a value or an error.
-/

namespace CultureNodes

variable {ε α β : Type} {result : Except ε α}

theorem toOption_some {value : α} (found : result.toOption = some value) : result = .ok value := by
  cases result with
  | ok other => exact congrArg Except.ok (Option.some.inj found)
  | error error => contradiction

theorem isOk_iff : result.isOk = true ↔ ∃ value, result = .ok value := by
  cases result <;> simp [Except.isOk, Except.toBool]

theorem isOk_map (result : Except ε α) (f : α → β) : (result.map f).isOk = result.isOk := by
  cases result <;> rfl

theorem map_eq_ok {f : α → β} {value : β} (mapped : result.map f = .ok value) :
    ∃ before, result = .ok before ∧ f before = value := by
  cases result with
  | error error => contradiction
  | ok before => exact ⟨before, rfl, Except.ok.inj mapped⟩

/-- Results that are related stay related under maps that keep the relation. -/
theorem rel_map {r : α → α → Prop} {s : β → β → Prop} {f g : α → β} {other : Except ε α}
    (rel : Option.Rel r result.toOption other.toOption) (kept : ∀ here there, r here there → s (f here) (g there)) :
    Option.Rel s (result.map f).toOption (other.map g).toOption := by
  cases result with
  | error _ =>
      cases other with
      | error _ => exact .none
      | ok _ => cases rel
  | ok here =>
      cases other with
      | error _ => cases rel
      | ok there =>
          cases rel with
          | some related => exact .some (kept here there related)

end CultureNodes
