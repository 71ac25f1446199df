import Mathlib.Logic.Basic

/-!
Runs of a step relation. Every step may have to meet a condition on the state it leaves and the
action it takes; a run under the condition that always holds is an arbitrary run.
-/

namespace CultureNodes

variable {σ α : Type}

/-- The states reached from `s` by steps that all meet `allowed`. -/
inductive Steps (step : σ → α → σ → Prop) (allowed : σ → α → Prop) (s : σ) : σ → Prop where
  | refl : Steps step allowed s s
  | tail {t u : σ} {action : α} : Steps step allowed s t → allowed t action → step t action u →
      Steps step allowed s u

/-- The condition every step meets. -/
def anyAction : σ → α → Prop := fun _ _ => True

namespace Steps

variable {step : σ → α → σ → Prop} {allowed : σ → α → Prop} {s t u : σ}

theorem trans (first : Steps step allowed s t) (second : Steps step allowed t u) :
    Steps step allowed s u := by
  induction second with
  | refl => exact first
  | tail _ permitted taken ih => exact .tail ih permitted taken

/-- What holds at the start and is kept by every allowed step holds in every state of the run. -/
theorem invariant (inv : σ → Prop) (initial : inv s)
    (preserved : ∀ t action u, inv t → allowed t action → step t action u → inv u)
    (run : Steps step allowed s t) : inv t := by
  induction run with
  | refl => exact initial
  | tail _ permitted taken ih => exact preserved _ _ _ ih permitted taken

/-- A reflexive and transitive relation that every allowed step from an invariant state meets
relates the ends of every run. -/
theorem related (inv : σ → Prop) (rel : σ → σ → Prop) (initial : inv s)
    (preserved : ∀ t action u, inv t → allowed t action → step t action u → inv u)
    (reflexive : ∀ t, rel t t) (transitive : ∀ t u v, rel t u → rel u v → rel t v)
    (stepwise : ∀ t action u, inv t → allowed t action → step t action u → rel t u)
    (run : Steps step allowed s t) : rel s t := by
  have both : inv t ∧ rel s t := by
    induction run with
    | refl => exact ⟨initial, reflexive s⟩
    | tail _ permitted taken ih =>
        exact ⟨preserved _ _ _ ih.1 permitted taken,
          transitive _ _ _ ih.2 (stepwise _ _ _ ih.1 permitted taken)⟩
  exact both.2

theorem mono {wider : σ → α → Prop} (weaker : ∀ t action, allowed t action → wider t action)
    (run : Steps step allowed s t) : Steps step wider s t := by
  induction run with
  | refl => exact .refl
  | tail _ permitted taken ih => exact .tail ih (weaker _ _ permitted) taken

/-- Run a list of actions of a partial step function, each checked where it is taken; it fails where
an action is not enabled or does not pass. -/
def ofList (act : σ → α → Option σ) (check : σ → α → Bool) : σ → List α → Option σ
  | s, [] => some s
  | s, action :: rest =>
      if check s action then (act s action).bind fun t => ofList act check t rest else none

theorem of_ofList {act : σ → α → Option σ} {check : σ → α → Bool} {actions : List α}
    (sound : ∀ s action, check s action = true → allowed s action)
    (ran : ofList act check s actions = some t) :
    Steps (fun s action t => act s action = some t) allowed s t := by
  induction actions generalizing s with
  | nil =>
      rw [← Option.some.inj ran]
      exact .refl
  | cons action rest ih =>
      unfold ofList at ran
      split at ran
      · rename_i passes
        obtain ⟨middle, taken, onward⟩ := Option.bind_eq_some_iff.mp ran
        have first : Steps (fun s action t => act s action = some t) allowed s middle :=
          .tail .refl (sound s action passes) taken
        exact first.trans (ih onward)
      · contradiction

theorem reaches_of_ofList {τ : Type} {act : σ → α → Option σ} {check : σ → α → Bool}
    {actions : List α} {view : σ → τ} {value : τ}
    (sound : ∀ s action, check s action = true → allowed s action)
    (ran : (ofList act check s actions).map view = some value) :
    ∃ t, Steps (fun s action t => act s action = some t) allowed s t ∧ view t = value := by
  obtain ⟨t, ended, seen⟩ := Option.map_eq_some_iff.mp ran
  exact ⟨t, of_ofList sound ended, seen⟩

end Steps
end CultureNodes
