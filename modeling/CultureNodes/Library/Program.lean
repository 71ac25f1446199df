import Mathlib.Logic.Basic

/-!
Programs that call the statements of a shared store one at a time, and go on with what each call
answers. A program runs alone, or as one of many whose calls interleave; what it does along every path
is a property of its text.
-/

namespace CultureNodes

/-- A program over statements, each with the type of its answers. -/
inductive Program (Statement : Type) (Answer : Statement → Type) (ρ : Type) : Type where
  | done (result : ρ)
  | call (statement : Statement) (next : Answer statement → Program Statement Answer ρ)

namespace Program

variable {Statement : Type} {Answer : Statement → Type} {ρ τ γ σ : Type}

def bind : Program Statement Answer ρ → (ρ → Program Statement Answer τ) → Program Statement Answer τ
  | .done result, next => next result
  | .call statement onward, next => .call statement fun answer => (onward answer).bind next

instance : Monad (Program Statement Answer) where
  pure := .done
  bind := bind

def ask (statement : Statement) : Program Statement Answer (Answer statement) :=
  .call statement .done

@[simp] theorem pure_eq (result : ρ) :
    (pure result : Program Statement Answer ρ) = .done result := rfl

@[simp] theorem done_bind (result : ρ) (next : ρ → Program Statement Answer τ) :
    (Program.done result : Program Statement Answer ρ) >>= next = next result := rfl

@[simp] theorem ask_bind (statement : Statement)
    (next : Answer statement → Program Statement Answer τ) :
    ask statement >>= next = .call statement next := rfl

section

variable (execute : σ → (statement : Statement) → σ × Answer statement)

def alone : σ → Program Statement Answer ρ → σ × ρ
  | store, .done result => (store, result)
  | store, .call statement next =>
      let answered := execute store statement
      alone answered.1 (next answered.2)

end

variable {execute : σ → (statement : Statement) → σ × Answer statement} {store : σ}

@[simp] theorem alone_done (result : ρ) :
    alone execute store (.done result : Program Statement Answer ρ) = (store, result) := rfl

@[simp] theorem alone_call (statement : Statement)
    (next : Answer statement → Program Statement Answer ρ) :
    alone execute store (.call statement next) =
      alone execute (execute store statement).1 (next (execute store statement).2) := rfl

@[simp] theorem alone_bind (program : Program Statement Answer ρ)
    (next : ρ → Program Statement Answer τ) :
    alone execute store (program >>= next) =
      alone execute (alone execute store program).1 (next (alone execute store program).2) := by
  induction program generalizing store with
  | done result => rfl
  | call statement onward ih => exact ih _

/-- Every call along every path is among the given ones. -/
def Calls (among : Statement → Prop) : Program Statement Answer ρ → Prop
  | .done _ => True
  | .call statement next => among statement ∧ ∀ answer, Calls among (next answer)

namespace Calls

variable {among : Statement → Prop} {program : Program Statement Answer ρ}

theorem ask {statement : Statement} (isAmong : among statement) :
    Calls among (ask statement : Program Statement Answer _) :=
  ⟨isAmong, fun _ => trivial⟩

theorem bind {next : ρ → Program Statement Answer τ} (first : Calls among program)
    (later : ∀ result, Calls among (next result)) : Calls among (program >>= next) := by
  induction program with
  | done result => exact later result
  | call statement onward ih => exact ⟨first.1, fun answer => ih answer (first.2 answer)⟩

theorem mono {wider : Statement → Prop} (calls : Calls among program)
    (weaker : ∀ statement, among statement → wider statement) : Calls wider program := by
  induction program with
  | done result => exact trivial
  | call statement next ih =>
      exact ⟨weaker statement calls.1, fun answer => ih answer (calls.2 answer)⟩

theorem alone_kept {τ : Type} (view : σ → τ) (calls : Calls among program)
    (kept : ∀ store statement, among statement → view (execute store statement).1 = view store) :
    view (alone execute store program).1 = view store := by
  induction program generalizing store with
  | done result => rfl
  | call statement next ih => exact (ih _ (calls.2 _)).trans (kept store statement calls.1)

end Calls

section

variable (allowed : γ → Statement → Prop)
  (after : γ → (statement : Statement) → Answer statement → γ)

/-- Along every path each call is allowed by what the calls before it were and answered, and the result
fits them all. -/
def Follows (ends : γ → ρ → Prop) : γ → Program Statement Answer ρ → Prop
  | past, .done result => ends past result
  | past, .call statement next =>
      allowed past statement ∧ ∀ answer, Follows ends (after past statement answer) (next answer)

end

variable {allowed : γ → Statement → Prop}
  {after : γ → (statement : Statement) → Answer statement → γ} {ends : γ → ρ → Prop} {past : γ}
  {program : Program Statement Answer ρ}

namespace Follows

theorem mono {wider : γ → ρ → Prop} (follows : Follows allowed after ends past program)
    (weaker : ∀ past result, ends past result → wider past result) :
    Follows allowed after wider past program := by
  induction program generalizing past with
  | done result => exact weaker past result follows
  | call statement next ih => exact ⟨follows.1, fun answer => ih answer (follows.2 answer)⟩

theorem of_calls {among : Statement → Prop} (calls : Calls among program)
    (silent : ∀ past statement, among statement →
      allowed past statement ∧ ∀ answer, after past statement answer = past) :
    Follows allowed after (fun last _ => last = past) past program := by
  induction program with
  | done result => rfl
  | call statement next ih =>
      refine ⟨(silent past statement calls.1).1, fun answer => ?_⟩
      rw [(silent past statement calls.1).2 answer]
      exact ih answer (calls.2 answer)

theorem bind {whole : γ → τ → Prop} {next : ρ → Program Statement Answer τ}
    (follows : Follows allowed after
      (fun past result => Follows allowed after whole past (next result)) past program) :
    Follows allowed after whole past (program >>= next) := by
  induction program generalizing past with
  | done result => exact follows
  | call statement onward ih => exact ⟨follows.1, fun answer => ih answer (follows.2 answer)⟩

end Follows

/-- Every result, along every path, is among the given ones. -/
def Yields (fits : ρ → Prop) : Program Statement Answer ρ → Prop
  | .done result => fits result
  | .call _ next => ∀ answer, Yields fits (next answer)

namespace Yields

variable {fits : ρ → Prop}

theorem bind {wanted : τ → Prop} {next : ρ → Program Statement Answer τ}
    (yields : Yields (fun result => Yields wanted (next result)) program) :
    Yields wanted (program >>= next) := by
  induction program with
  | done result => exact yields
  | call statement onward ih => exact fun answer => ih answer (yields answer)

theorem mono {wider : ρ → Prop} (yields : Yields fits program)
    (weaker : ∀ result, fits result → wider result) : Yields wider program := by
  induction program with
  | done result => exact weaker result yields
  | call statement next ih => exact fun answer => ih answer (yields answer)

theorem of_forall (all : ∀ result, fits result) : Yields fits program := by
  induction program with
  | done result => exact all result
  | call statement next ih => exact ih

theorem alone (yields : Yields fits program) : fits (alone execute store program).2 := by
  induction program generalizing store with
  | done result => exact yields
  | call statement next ih => exact ih _ (yields _)

end Yields

end Program

/-- A program under way: whose it is, what its calls were, and what is left of it. -/
structure Thread (Statement : Type) (Answer : Statement → Type) (ρ ι γ : Type) where
  owner : ι
  past : γ
  rest : Program Statement Answer ρ

namespace Thread

variable {Statement : Type} {Answer : Statement → Type} {ρ ι γ σ : Type}

/-- The next call of a program under way; one that has ended makes none. -/
def advance (execute : σ → ι → (statement : Statement) → σ × Answer statement)
    (after : γ → (statement : Statement) → Answer statement → γ) (store : σ)
    (thread : Thread Statement Answer ρ ι γ) : Option (σ × Thread Statement Answer ρ ι γ) :=
  match thread.rest with
  | .done _ => none
  | .call statement next =>
      let answered := execute store thread.owner statement
      some (answered.1, ⟨thread.owner, after thread.past statement answered.2, next answered.2⟩)

variable {execute : σ → ι → (statement : Statement) → σ × Answer statement}
  {after : γ → (statement : Statement) → Answer statement → γ} {store store' : σ}
  {thread thread' : Thread Statement Answer ρ ι γ}

theorem advance_eq (advanced : thread.advance execute after store = some (store', thread')) :
    ∃ statement next, thread.rest = .call statement next ∧
      store' = (execute store thread.owner statement).1 ∧
      thread' = ⟨thread.owner, after thread.past statement (execute store thread.owner statement).2,
        next (execute store thread.owner statement).2⟩ := by
  unfold advance at advanced
  split at advanced
  · contradiction
  · rename_i statement next isRest
    obtain ⟨rfl, rfl⟩ := Prod.mk.inj (Option.some.inj advanced)
    exact ⟨statement, next, isRest, rfl, rfl⟩

end Thread

end CultureNodes
