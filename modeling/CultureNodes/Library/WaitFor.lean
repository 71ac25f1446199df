import Mathlib.Logic.Relation
import Mathlib.Order.Basic

/-!
Waiting for locks. A transaction waits for the holder of the lock its next statement asks for. Where every
lock that is waited for ranks above all that its waiter holds, nobody waits for himself, however long the
chain.
-/

namespace CultureNodes.WaitFor

variable {τ κ ρ : Type} [Preorder ρ]

/-- The next statement of `waiter` asks for a lock that `owner` holds. -/
def Waits (asks : τ → Option κ) (holder : κ → Option τ) (waiter owner : τ) : Prop :=
  ∃ key, asks waiter = some key ∧ holder key = some owner ∧ owner ≠ waiter

/-- A cycle of transactions, each waiting for the next. -/
def Deadlocked (asks : τ → Option κ) (holder : κ → Option τ) : Prop :=
  ∃ waiter, Relation.TransGen (Waits asks holder) waiter waiter

variable {asks : τ → Option κ} {holder : κ → Option τ} {rank : κ → ρ}

/-- Who waits for a lock holds only locks that rank below it. -/
def Ranked (asks : τ → Option κ) (holder : κ → Option τ) (rank : κ → ρ) : Prop :=
  ∀ waiter owner key, asks waiter = some key → holder key = some owner → owner ≠ waiter →
    ∀ held, holder held = some waiter → rank held < rank key

theorem Ranked.chain (ranked : Ranked asks holder rank) {first last : τ}
    (chain : Relation.TransGen (Waits asks holder) first last) :
    ∃ key owner held, asks first = some key ∧ holder key = some owner ∧ owner ≠ first ∧
      holder held = some last ∧ rank key ≤ rank held := by
  induction chain with
  | single waits =>
      obtain ⟨key, asked, owned, other⟩ := waits
      exact ⟨key, _, key, asked, owned, other, owned, le_refl _⟩
  | tail _ waits ih =>
      obtain ⟨key, owner, held, asked, owned, other, heldThere, order⟩ := ih
      obtain ⟨next, nextAsked, nextOwned, nextOther⟩ := waits
      have above := ranked _ _ next nextAsked nextOwned nextOther held heldThere
      exact ⟨key, owner, next, asked, owned, other, nextOwned, order.trans above.le⟩

theorem Ranked.not_deadlocked (ranked : Ranked asks holder rank) : ¬Deadlocked asks holder := by
  rintro ⟨waiter, cycle⟩
  obtain ⟨key, owner, held, asked, owned, other, heldHere, order⟩ := ranked.chain cycle
  have below := ranked waiter owner key asked owned other held heldHere
  exact absurd order (not_le_of_gt below)

end CultureNodes.WaitFor
