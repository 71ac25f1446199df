import Mathlib.Data.List.Nodup
import CultureNodes.Library.Fallible

/-!
Parts of a computation that share one state and run one after another until one fails. Where each part
reads only what belongs to its key and leaves what belongs to the other keys, a part does in the run of
them all what it does alone.
-/

namespace CultureNodes

variable {π κ σ ε ω θ μ : Type}

/-- Run the parts in order and collect what they put out; the first error ends the run. -/
def runParts (part : π → σ → Except ε (σ × List ω)) (s : σ) : List π → Except ε (σ × List ω)
  | [] => .ok (s, [])
  | p :: rest =>
      match part p s with
      | .error error => .error error
      | .ok (next, outs) =>
          (runParts part next rest).map fun (last, others) => (last, outs ++ others)

/-- What is seen of an answer: whether there is one, and of its outputs what `observe` tells. -/
def seen (observe : ω → θ) (answer : Except ε (σ × List ω)) : Option (List θ) :=
  answer.toOption.map fun (_, outs) => outs.map observe

/-- In the states that meet `inv`, a part keeps to its key: `same key` says that two states agree on
what belongs to the key. Every output carries the mark of the part that put it out. -/
structure Confined (part : π → σ → Except ε (σ × List ω)) (key : π → κ) (inv : σ → Prop)
    (same : κ → σ → σ → Prop) (observe : ω → θ) (mark : π → μ) (markOf : ω → μ) : Prop where
  kept : ∀ {p s t outs}, inv s → part p s = .ok (t, outs) → inv t
  spares : ∀ {p s t outs k}, inv s → part p s = .ok (t, outs) → k ≠ key p → same k s t
  answers : ∀ {p s t}, inv s → inv t → same (key p) s t →
    seen observe (part p s) = seen observe (part p t)
  marked : ∀ {p s t outs}, inv s → part p s = .ok (t, outs) → ∀ out ∈ outs, markOf out = mark p

theorem seen_isSome (observe : ω → θ) (answer : Except ε (σ × List ω)) :
    (seen observe answer).isSome = answer.isOk := by
  cases answer <;> rfl

theorem runParts_cons {part : π → σ → Except ε (σ × List ω)} {s t : σ} {p : π} {rest : List π}
    {outs : List ω} (ran : runParts part s (p :: rest) = .ok (t, outs)) :
    ∃ next first others, part p s = .ok (next, first) ∧ runParts part next rest = .ok (t, others) ∧
      outs = first ++ others := by
  unfold runParts at ran
  split at ran
  · contradiction
  · rename_i next first here
    obtain ⟨⟨last, others⟩, onward, whole⟩ := map_eq_ok ran
    obtain ⟨rfl, rfl⟩ := Prod.mk.inj whole
    exact ⟨next, first, others, here, onward, rfl⟩

namespace Confined

variable {part : π → σ → Except ε (σ × List ω)} {key : π → κ} {inv : σ → Prop}
  {same : κ → σ → σ → Prop} {observe : ω → θ} {mark : π → μ} {markOf : ω → μ}

theorem later (confined : Confined part key inv same observe mark markOf) {p q : π} {s t : σ}
    {outs : List ω} (sound : inv s) (ran : part p s = .ok (t, outs)) (different : key q ≠ key p) :
    seen observe (part q s) = seen observe (part q t) :=
  confined.answers sound (confined.kept sound ran) (confined.spares sound ran different)

/-- The run goes through exactly when every part goes through alone. -/
theorem runParts_isOk (confined : Confined part key inv same observe mark markOf) {s : σ}
    {parts : List π} (sound : inv s) (distinct : (parts.map key).Nodup) :
    (runParts part s parts).isOk = true ↔ ∀ p ∈ parts, (part p s).isOk = true := by
  induction parts generalizing s with
  | nil => simp [runParts, Except.isOk, Except.toBool]
  | cons p rest ih =>
      obtain ⟨alone, others⟩ := List.nodup_cons.mp distinct
      rw [List.forall_mem_cons]
      unfold runParts
      cases here : part p s with
      | error error => simp [Except.isOk, Except.toBool]
      | ok result =>
          obtain ⟨next, outs⟩ := result
          have agrees : ∀ q ∈ rest, (part q next).isOk = (part q s).isOk := by
            intro q member
            have different : key q ≠ key p := by
              intro clash
              exact alone (clash ▸ List.mem_map_of_mem member)
            rw [← seen_isSome observe (part q next), ← seen_isSome observe (part q s),
              confined.later sound here different]
          rw [isOk_map, ih (confined.kept sound here) others]
          constructor
          · intro onward
            exact ⟨rfl, fun q member => (agrees q member) ▸ onward q member⟩
          · rintro ⟨_, onward⟩ q member
            exact (agrees q member).symm ▸ onward q member

theorem runParts_marked (confined : Confined part key inv same observe mark markOf) {s t : σ}
    {parts : List π} {outs : List ω} (sound : inv s) (ran : runParts part s parts = .ok (t, outs))
    {out : ω} (member : out ∈ outs) : markOf out ∈ parts.map mark := by
  induction parts generalizing s outs with
  | nil =>
      obtain ⟨rfl, rfl⟩ := Prod.mk.inj (Except.ok.inj ran)
      exact absurd member List.not_mem_nil
  | cons head rest ih =>
      obtain ⟨next, first, others, here, onward, rfl⟩ := runParts_cons ran
      rw [List.map_cons, List.mem_cons]
      rcases List.mem_append.mp member with inFirst | inOthers
      · exact Or.inl (confined.marked sound here out inFirst)
      · exact Or.inr (ih (confined.kept sound here) onward inOthers)

theorem runParts_seen [DecidableEq μ] (confined : Confined part key inv same observe mark markOf)
    {s t : σ} {parts : List π} {outs : List ω} (sound : inv s) (distinct : (parts.map key).Nodup)
    (marks : (parts.map mark).Nodup) (ran : runParts part s parts = .ok (t, outs)) {p : π}
    (member : p ∈ parts) :
    seen observe (part p s) = some ((outs.filter (markOf · = mark p)).map observe) := by
  induction parts generalizing s outs with
  | nil => exact absurd member List.not_mem_nil
  | cons head rest ih =>
      obtain ⟨alone, distinctRest⟩ := List.nodup_cons.mp distinct
      obtain ⟨unmarked, otherMarks⟩ := List.nodup_cons.mp marks
      obtain ⟨next, first, others, here, onward, rfl⟩ := runParts_cons ran
      rw [List.filter_append]
      rcases List.mem_cons.mp member with rfl | inRest
      · have own : first.filter (markOf · = mark p) = first := by
          rw [List.filter_eq_self]
          intro out inFirst
          exact decide_eq_true (confined.marked sound here out inFirst)
        have none : others.filter (markOf · = mark p) = [] := by
          rw [List.filter_eq_nil_iff]
          intro out inOthers clash
          exact unmarked (of_decide_eq_true clash ▸
            confined.runParts_marked (confined.kept sound here) onward inOthers)
        rw [own, none, List.append_nil, here]
        rfl
      · have different : key p ≠ key head := by
          intro clash
          exact alone (clash ▸ List.mem_map_of_mem inRest)
        have none : first.filter (markOf · = mark p) = [] := by
          rw [List.filter_eq_nil_iff]
          intro out inFirst clash
          rw [confined.marked sound here out inFirst] at clash
          exact unmarked (of_decide_eq_true clash ▸ List.mem_map_of_mem inRest)
        rw [none, List.nil_append, confined.later sound here different]
        exact ih (confined.kept sound here) distinctRest otherMarks onward inRest

end Confined
end CultureNodes
