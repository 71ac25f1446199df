import Mathlib.Logic.Function.Basic

/-!
Transactions under read-committed isolation with exclusive locks. A transaction in flight carries
the writes it has made and reads the committed database with its own writes applied; its locks are
held until it ends. Nothing it wrote is visible to others before it commits.
-/

namespace CultureNodes

/-- A transaction in flight: its writes so far, oldest first, and where its program stands. -/
structure Txn (ω β : Type) where
  writes : List ω
  body : β

/-- The committed database, the transactions in flight and the holder of each lock. -/
structure World (σ ω κ β : Type) where
  db : σ
  txns : Nat → Option (Txn ω β)
  holder : κ → Option Nat

namespace World

variable {σ ω κ β : Type} [DecidableEq κ]

/-- What a transaction reads. -/
def view (apply : σ → ω → σ) (world : World σ ω κ β) (txn : Txn ω β) : σ :=
  txn.writes.foldl apply world.db

def setTxn (world : World σ ω κ β) (id : Nat) (txn : Txn ω β) : World σ ω κ β :=
  { world with txns := Function.update world.txns id (some txn) }

/-- Take a lock that is free or already one's own. -/
def acquire (world : World σ ω κ β) (id : Nat) (key : κ) : Option (World σ ω κ β) :=
  if world.holder key = none ∨ world.holder key = some id then
    some { world with holder := Function.update world.holder key (some id) }
  else none

/-- End a transaction: it leaves, and its locks are free again. -/
def finish (world : World σ ω κ β) (id : Nat) : World σ ω κ β :=
  { world with
    txns := Function.update world.txns id none
    holder := fun key => if world.holder key = some id then none else world.holder key }

def commit (apply : σ → ω → σ) (world : World σ ω κ β) (id : Nat) (txn : Txn ω β) :
    World σ ω κ β :=
  { world.finish id with db := world.view apply txn }

theorem acquire_eq_some {world next : World σ ω κ β} {id : Nat} {key : κ}
    (taken : world.acquire id key = some next) :
    (world.holder key = none ∨ world.holder key = some id) ∧
      next = { world with holder := Function.update world.holder key (some id) } := by
  unfold acquire at taken
  split at taken
  · rename_i free
    exact ⟨free, (Option.some.inj taken).symm⟩
  · contradiction

/-- Taking a lock changes no lock another transaction holds. -/
theorem acquire_other {world next : World σ ω κ β} {id other : Nat} {key : κ}
    (taken : world.acquire id key = some next) (different : other ≠ id) (any : κ) :
    next.holder any = some other ↔ world.holder any = some other := by
  obtain ⟨free, rfl⟩ := acquire_eq_some taken
  dsimp only
  by_cases same : any = key
  · subst same
    rw [Function.update_self]
    rcases free with none | own
    · simp [none, different.symm]
    · simp [own]
  · rw [Function.update_of_ne same]

/-- A transaction keeps the locks it holds while it takes another. -/
theorem acquire_keeps {world next : World σ ω κ β} {id : Nat} {key any : κ}
    (taken : world.acquire id key = some next) (held : world.holder any = some id) :
    next.holder any = some id := by
  obtain ⟨_, rfl⟩ := acquire_eq_some taken
  dsimp only
  by_cases same : any = key
  · subst same
    rw [Function.update_self]
  · rw [Function.update_of_ne same]
    exact held

theorem acquire_holds {world next : World σ ω κ β} {id : Nat} {key : κ}
    (taken : world.acquire id key = some next) : next.holder key = some id := by
  obtain ⟨_, rfl⟩ := acquire_eq_some taken
  exact Function.update_self ..

omit [DecidableEq κ] in
theorem finish_other {world : World σ ω κ β} {id other : Nat} (different : other ≠ id) (any : κ) :
    (world.finish id).holder any = some other ↔ world.holder any = some other := by
  simp only [finish]
  split
  · rename_i mine
    simp [mine, different.symm]
  · rfl

omit [DecidableEq κ] in
theorem finish_self {world : World σ ω κ β} {id : Nat} (any : κ) :
    (world.finish id).holder any ≠ some id := by
  simp only [finish]
  split
  · simp
  · assumption

theorem inFlight_update {txns : Nat → Option (Txn ω β)} {id other : Nat} {txn rival : Txn ω β}
    (inFlight : Function.update txns id (some txn) other = some rival) :
    other = id ∧ rival = txn ∨ other ≠ id ∧ txns other = some rival := by
  by_cases same : other = id
  · subst same
    rw [Function.update_self] at inFlight
    exact Or.inl ⟨rfl, (Option.some.inj inFlight).symm⟩
  · rw [Function.update_of_ne same] at inFlight
    exact Or.inr ⟨same, inFlight⟩

theorem inFlight_ended {txns : Nat → Option (Txn ω β)} {id other : Nat} {rival : Txn ω β}
    (inFlight : Function.update txns id none other = some rival) :
    other ≠ id ∧ txns other = some rival := by
  by_cases same : other = id
  · rw [same, Function.update_self] at inFlight
    contradiction
  · rw [Function.update_of_ne same] at inFlight
    exact ⟨same, inFlight⟩

end World
end CultureNodes
