import Mathlib.Data.List.Dedup
import Mathlib.Data.Prod.Lex
import Mathlib.Data.String.Basic
import CultureNodes.Events.Append
import CultureNodes.Library.WaitFor

/-!
The advisory locks of the transactions that move runs and start them, each held to the end of its
transaction. A completion and a decision lock their run and, where the run ends and its workflow limits its
subjects, the workflow and the subject of the entry they drain. A delivery locks the runs it matches in
order and then offers the event to the published workflows in the order of their keys. A re-mint batch
offers old events to the versions they are pinned to, in the order in which they fell due, and locks a
subject before it makes the offer. What a statement reads is left open.
-/

namespace CultureNodes.Deadlock

open Events (LockKey)

/-- An event offered to one version of a workflow: whether the version limits its subjects, and how many of
its handlers match and are still to be served. -/
structure Offer where
  workflow : String
  subject : String
  ceiling : Bool
  handlers : Nat
deriving DecidableEq, Repr

/-- Where the trigger loop stands. -/
inductive OfferPhase where
  | start
  | lockWorkflow
  | lockSubject
  | decide
  | lockNew (run : Nat)
deriving DecidableEq, Repr

/-- Where a completion or a decision stands. -/
inductive TurnPhase where
  | lockRun
  | working
  | lockWorkflow
  | reading
  | lockSubject (subject : String)
  | creating
  | lockNew (run : Nat)
  | ended
deriving DecidableEq, Repr

/-- Where a batch stands with its first item. -/
inductive RemintPhase where
  | lockSubject
  | readActive
  | offering (phase : OfferPhase)
deriving DecidableEq, Repr

inductive Body where
  | turn (run : Nat) (workflow : String) (phase : TurnPhase)
  | delivery (remaining : List Nat) (offers : List Offer) (phase : OfferPhase)
  | remint (offers : List Offer) (phase : RemintPhase)
deriving DecidableEq, Repr

/-- What a statement that takes no lock finds. -/
inductive Answer where
  | goOn
  | drains
  | oldest (subject : String)
  | active
  | settled
  | creates
deriving DecidableEq, Repr

namespace Offer

variable (offer : Offer)

def spent : Offer := { offer with handlers := offer.handlers - 1 }

def asks : OfferPhase → Option LockKey
  | .lockWorkflow => some (.workflow offer.workflow)
  | .lockSubject => some (.subject offer.workflow offer.subject)
  | .lockNew run => some (.run run)
  | _ => none

/-- Once the lock that was asked for is held. -/
def granted : OfferPhase → Offer × OfferPhase
  | .lockWorkflow => (offer, .lockSubject)
  | .lockSubject => (offer, .decide)
  | .lockNew _ => (offer.spent, .start)
  | phase => (offer, phase)

/-- A statement that takes no lock; a run that is inserted gets the next id. Without a subject nothing is
locked and every match creates a run. -/
def proceed (answer : Answer) (next : Nat) : OfferPhase → Option (Offer × OfferPhase × List Nat)
  | .start =>
      if offer.subject = "" then some (offer, .decide, [])
      else if offer.ceiling then some (offer, .lockWorkflow, [])
      else some (offer, .lockSubject, [])
  | .decide =>
      match answer with
      | .creates => some (offer, .lockNew next, [next])
      | .settled => if offer.subject = "" then none else some (offer.spent, .start, [])
      | _ => none
  | _ => none

end Offer

namespace Body

/-- The lock the next statement asks for. -/
def asks : Body → Option LockKey
  | .turn run _ .lockRun => some (.run run)
  | .turn _ workflow .lockWorkflow => some (.workflow workflow)
  | .turn _ workflow (.lockSubject subject) => some (.subject workflow subject)
  | .turn _ _ (.lockNew run) => some (.run run)
  | .delivery (run :: _) _ _ => some (.run run)
  | .delivery [] (offer :: _) phase => offer.asks phase
  | .remint (offer :: _) .lockSubject =>
      if offer.subject = "" then none else some (.subject offer.workflow offer.subject)
  | .remint (offer :: _) (.offering phase) => offer.asks phase
  | _ => none

def granted : Body → Body
  | .turn run workflow .lockRun => .turn run workflow .working
  | .turn run workflow .lockWorkflow => .turn run workflow .reading
  | .turn run workflow (.lockSubject _) => .turn run workflow .creating
  | .turn run workflow (.lockNew _) => .turn run workflow .ended
  | .delivery (_ :: rest) offers phase => .delivery rest offers phase
  | .delivery [] (offer :: rest) phase =>
      .delivery [] ((offer.granted phase).1 :: rest) (offer.granted phase).2
  | .remint offers .lockSubject => .remint offers .readActive
  | .remint (offer :: rest) (.offering phase) =>
      .remint ((offer.granted phase).1 :: rest) (.offering (offer.granted phase).2)
  | body => body

/-- A statement that takes no lock, with the runs it inserts. -/
def proceed (answer : Answer) (next : Nat) : Body → Option (Body × List Nat)
  | .turn run workflow .working =>
      if answer = .drains then some (.turn run workflow .lockWorkflow, []) else none
  | .turn run workflow .reading =>
      match answer with
      | .oldest subject => some (.turn run workflow (.lockSubject subject), [])
      | _ => some (.turn run workflow .ended, [])
  | .turn run workflow .creating => some (.turn run workflow (.lockNew next), [next])
  | .delivery [] (offer :: rest) phase =>
      if phase = .start ∧ offer.handlers = 0 then some (.delivery [] rest .start, [])
      else (offer.proceed answer next phase).map fun stepped =>
        (.delivery [] (stepped.1 :: rest) stepped.2.1, stepped.2.2)
  | .remint (offer :: rest) .lockSubject =>
      if offer.subject = "" then some (.remint (offer :: rest) (.offering .start), []) else none
  | .remint (offer :: rest) .readActive =>
      -- A subject that runs already leaves the item for a later batch.
      if answer = .active then some (.remint rest .lockSubject, [])
      else some (.remint (offer :: rest) (.offering .start), [])
  | .remint (offer :: rest) (.offering phase) =>
      if phase = .start ∧ offer.handlers = 0 then some (.remint rest .lockSubject, [])
      else (offer.proceed answer next phase).map fun stepped =>
        (.remint (stepped.1 :: rest) (.offering stepped.2.1), stepped.2.2)
  | _ => none

def finished : Body → Bool
  | .turn _ _ .working | .turn _ _ .ended => true
  | .delivery [] [] _ => true
  | .remint [] _ => true
  | _ => false

end Body

/-- The committed runs, the transactions with the runs they inserted, and the locks. -/
structure LockState extends World (List Nat) Nat LockKey Body where
  nextRun : Nat

inductive Action where
  | beginTurn (txn run : Nat) (workflow : String)
  | beginDelivery (txn : Nat) (matched : List Nat) (offers : List Offer)
  | beginRemint (txn : Nat) (due : List Offer)
  | advance (txn : Nat) (answer : Answer)
  | commit (txn : Nat)
  | abort (txn : Nat)
deriving DecidableEq, Repr

namespace LockState

variable (s : LockState)

def initial (runs : List Nat) (nextRun : Nat) : LockState :=
  { db := runs, txns := fun _ => none, holder := fun _ => none, nextRun := nextRun }

def put (id : Nat) (writes : List Nat) (body : Body) : LockState :=
  { s with toWorld := s.toWorld.setTxn id ⟨writes, body⟩ }

def start (id : Nat) (body : Body) : Option LockState :=
  match s.txns id with
  | some _ => none
  | none => some (s.put id [] body)

/-- One statement: the lock it asks for, or a step without one. -/
def advance (id : Nat) (txn : Txn Nat Body) (answer : Answer) : Option LockState :=
  match txn.body.asks with
  | some key => (s.toWorld.acquire id key).map fun world =>
      { s with toWorld := world.setTxn id ⟨txn.writes, txn.body.granted⟩ }
  | none => (txn.body.proceed answer s.nextRun).map fun stepped =>
      { s.put id (txn.writes ++ stepped.2) stepped.1 with nextRun := s.nextRun + stepped.2.length }

def act : Action → Option LockState
  | .beginTurn id run workflow => if run ∈ s.db then s.start id (.turn run workflow .lockRun) else none
  | .beginDelivery id matched offers =>
      -- The candidate read finds committed runs. The newest version of each workflow is offered the event, in
      -- the order of the keys.
      if (∀ run ∈ matched, run ∈ s.db) ∧ (offers.map Offer.workflow).Pairwise (· < ·) then
        s.start id (.delivery (Events.sortedRunIDs matched) offers .start)
      else none
  | .beginRemint id due => s.start id (.remint due .lockSubject)
  | .advance id answer => (s.txns id).bind fun txn => s.advance id txn answer
  | .commit id => (s.txns id).bind fun txn =>
      if txn.body.finished then
        some { s with toWorld := s.toWorld.commit (fun runs run => runs ++ [run]) id txn }
      else none
  | .abort id => (s.txns id).bind fun _ => some { s with toWorld := s.toWorld.finish id }

def step (s : LockState) (action : Action) (next : LockState) : Prop := s.act action = some next

/-- The lock a transaction's next statement asks for. -/
def asks (id : Nat) : Option LockKey := (s.txns id).bind fun txn => txn.body.asks

def Deadlocked : Prop := WaitFor.Deadlocked s.asks s.holder

end LockState

/-- A batch that locks in the order everyone else does: none of its subjects belongs to a version with a
ceiling, and they come in the order of workflow and subject. -/
def inOrder (due : List Offer) : Bool :=
  due.all (fun offer => offer.subject = "" || !offer.ceiling) &&
    decide ((due.filter fun offer => offer.subject ≠ "").Pairwise fun first second =>
      first.workflow < second.workflow ∨ first.workflow = second.workflow ∧ first.subject ≤ second.subject)

/-- Every batch that starts locks in that order. -/
def Orderly (_ : LockState) : Action → Prop
  | .beginRemint _ due => inOrder due = true
  | _ => True

def rank : LockKey → ℕ ×ₗ String ×ₗ ℕ ×ₗ String
  | .run id => toLex (0, toLex ("", toLex (id, "")))
  | .workflow key => toLex (1, toLex (key, toLex (0, "")))
  | .subject key subject => toLex (1, toLex (key, toLex (1, subject)))

section Rank

variable {key other subject : String} {id : Nat}

theorem rank_run_lt_run {first second : Nat} (order : first < second) :
    rank (.run first) < rank (.run second) := by
  simpa [rank, Prod.Lex.toLex_lt_toLex] using order

@[simp] theorem rank_run_lt_workflow : rank (.run id) < rank (.workflow key) := by
  simp [rank, Prod.Lex.toLex_lt_toLex]

@[simp] theorem rank_run_lt_subject : rank (.run id) < rank (.subject key subject) := by
  simp [rank, Prod.Lex.toLex_lt_toLex]

@[simp] theorem rank_workflow_lt_subject : rank (.workflow key) < rank (.subject key subject) := by
  simp [rank, Prod.Lex.toLex_lt_toLex]

theorem rank_injective : Function.Injective rank := by
  intro left right same
  cases left <;> cases right <;> simp_all [rank]

theorem rank_lt_of_workflow_lt {left right : LockKey}
    (isLeft : left = .workflow key ∨ ∃ subject, left = .subject key subject)
    (isRight : right = .workflow other ∨ ∃ subject, right = .subject other subject) (order : key < other) :
    rank left < rank right := by
  obtain rfl | ⟨_, rfl⟩ := isLeft <;> obtain rfl | ⟨_, rfl⟩ := isRight <;>
    simp [rank, Prod.Lex.toLex_lt_toLex, order]

end Rank

/-- The locks an offer may ask for, in the order in which it does. -/
def Offer.keys (offer : Offer) : List LockKey :=
  if offer.subject = "" then []
  else if offer.ceiling then [.workflow offer.workflow, .subject offer.workflow offer.subject]
  else [.subject offer.workflow offer.subject]

theorem Offer.key_of_mem {offer : Offer} {key : LockKey} (held : key ∈ offer.keys) :
    key = .workflow offer.workflow ∨ ∃ subject, key = .subject offer.workflow subject := by
  unfold keys at held
  split_ifs at held
  · cases held
  · simp only [List.mem_cons, List.not_mem_nil, or_false] at held
    obtain rfl | rfl := held
    · exact Or.inl rfl
    · exact Or.inr ⟨_, rfl⟩
  · rw [List.mem_singleton] at held
    exact Or.inr ⟨_, held⟩

theorem Offer.rank_run_lt {offer : Offer} {key : LockKey} (held : key ∈ offer.keys) (id : Nat) :
    rank (.run id) < rank key := by
  obtain rfl | ⟨subject, rfl⟩ := Offer.key_of_mem held
  · exact rank_run_lt_workflow
  · exact rank_run_lt_subject

/-- The locks of a list of offers in the order in which they are asked for. -/
def lineOf (remaining : List Nat) (offers : List Offer) : List LockKey :=
  remaining.map LockKey.run ++ offers.flatMap Offer.keys

/-- The trigger locks and the matched runs a delivery or a batch has before it. -/
def Body.line : Body → List LockKey
  | .turn _ _ _ => []
  | .delivery remaining offers _ => lineOf remaining offers
  | .remint offers _ => lineOf [] offers

/-- The locks a completion or a decision has before it; which subject it drains is not known before. -/
def TurnPhase.Ahead (run : Nat) (workflow : String) (phase : TurnPhase) (key : LockKey) : Prop :=
  match phase with
  | .lockRun => key = .run run ∨ key = .workflow workflow ∨ ∃ subject, key = .subject workflow subject
  | .working | .lockWorkflow => key = .workflow workflow ∨ ∃ subject, key = .subject workflow subject
  | .reading | .lockSubject _ => ∃ subject, key = .subject workflow subject
  | _ => False

/-- The locks a transaction may still ask for, those of runs it inserts apart. -/
def Body.MayAsk (body : Body) (key : LockKey) : Prop :=
  match body with
  | .turn run workflow phase => phase.Ahead run workflow key
  | _ => key ∈ body.line

/-- They are asked for in the order of their ranks. -/
def Body.Lined (body : Body) : Prop := body.line.Pairwise fun left right => rank left ≤ rank right

def Offer.Standing (held : LockKey → Prop) (writes : List Nat) (offer : Offer) : OfferPhase → Prop
  | .lockWorkflow => offer.subject ≠ "" ∧ offer.ceiling = true
  | .lockSubject => offer.subject ≠ "" ∧ (offer.ceiling = true → held (.workflow offer.workflow))
  | .lockNew run => run ∈ writes
  | _ => True

def Body.Standing (held : LockKey → Prop) (writes runs : List Nat) : Body → Prop
  | .turn run _ phase => run ∈ runs ∧ ∀ new, phase = .lockNew new → new ∈ writes
  | .delivery remaining offers phase => (∀ run ∈ remaining, run ∈ runs) ∧
      ∀ offer ∈ offers.head?, offer.Standing held writes phase
  | .remint offers phase => (∀ offer ∈ offers, offer.subject = "" ∨ offer.ceiling = false) ∧
      ∀ inner, phase = .offering inner → ∀ offer ∈ offers.head?, offer.Standing held writes inner

section Program

variable {held : LockKey → Prop} {writes runs created : List Nat} {body after : Body} {key other : LockKey}
  {answer : Answer} {next : Nat} {offer : Offer} {phase : OfferPhase} {offers : List Offer}

@[simp] theorem Offer.keys_spent : offer.spent.keys = offer.keys := rfl

@[simp] theorem Offer.keys_granted : (offer.granted phase).1.keys = offer.keys := by
  cases phase <;> rfl

/-- Of an offer only the handlers still to be served change. -/
theorem Offer.proceed_offer {stepped : Offer × OfferPhase × List Nat}
    (steps : offer.proceed answer next phase = some stepped) : stepped.1 = offer ∨ stepped.1 = offer.spent := by
  unfold Offer.proceed at steps
  split at steps
  · split_ifs at steps <;> cases steps <;> exact Or.inl rfl
  · split at steps
    · cases steps
      exact Or.inl rfl
    · split_ifs at steps
      cases steps
      exact Or.inr rfl
    · cases steps
  · cases steps

theorem Offer.keys_proceed {stepped : Offer × OfferPhase × List Nat}
    (steps : offer.proceed answer next phase = some stepped) : stepped.1.keys = offer.keys := by
  obtain same | spent := Offer.proceed_offer steps
  · rw [same]
  · rw [spent, Offer.keys_spent]

@[simp] theorem lineOf_cons_congr {first second : Offer} (same : first.keys = second.keys)
    (remaining : List Nat) : lineOf remaining (first :: offers) = lineOf remaining (second :: offers) := by
  simp [lineOf, same]

theorem lineOf_tail_sublist (remaining : List Nat) : (lineOf remaining offers).Sublist (lineOf remaining (offer :: offers)) := by
  unfold lineOf
  rw [List.flatMap_cons]
  exact List.Sublist.append_left (List.sublist_append_right _ _) _

theorem Body.line_granted (body : Body) : body.granted.line.Sublist body.line := by
  cases body with
  | turn run workflow phase => cases phase <;> exact List.Sublist.refl _
  | delivery remaining offers phase =>
      cases remaining with
      | nil =>
          cases offers with
          | nil => exact List.Sublist.refl _
          | cons offer rest =>
              simp only [granted, line]
              rw [lineOf_cons_congr Offer.keys_granted]
      | cons run rest => exact List.sublist_cons_self _ _
  | remint offers phase =>
      cases offers with
      | nil => cases phase <;> exact List.Sublist.refl _
      | cons offer rest =>
          cases phase with
          | lockSubject => exact List.Sublist.refl _
          | readActive => exact List.Sublist.refl _
          | offering inner =>
              simp only [granted, line]
              rw [lineOf_cons_congr Offer.keys_granted]

/-- A statement without a lock, case by case. -/
inductive Body.Proceeds (answer : Answer) (next : Nat) : Body → Body → List Nat → Prop
  | drains {run : Nat} {workflow : String} :
      Proceeds answer next (.turn run workflow .working) (.turn run workflow .lockWorkflow) []
  | oldest {run : Nat} {workflow subject : String} :
      Proceeds answer next (.turn run workflow .reading) (.turn run workflow (.lockSubject subject)) []
  | emptyQueue {run : Nat} {workflow : String} :
      Proceeds answer next (.turn run workflow .reading) (.turn run workflow .ended) []
  | drained {run : Nat} {workflow : String} :
      Proceeds answer next (.turn run workflow .creating) (.turn run workflow (.lockNew next)) [next]
  | offered {offer : Offer} {rest : List Offer} {phase : OfferPhase} :
      Proceeds answer next (.delivery [] (offer :: rest) phase) (.delivery [] rest .start) []
  | offering {offer : Offer} {rest : List Offer} {phase : OfferPhase} {stepped : Offer × OfferPhase × List Nat}
      (steps : offer.proceed answer next phase = some stepped) :
      Proceeds answer next (.delivery [] (offer :: rest) phase) (.delivery [] (stepped.1 :: rest) stepped.2.1)
        stepped.2.2
  | leaves {offer : Offer} {rest : List Offer} {phase : RemintPhase} :
      Proceeds answer next (.remint (offer :: rest) phase) (.remint rest .lockSubject) []
  | admits {offer : Offer} {rest : List Offer} {phase : RemintPhase} :
      Proceeds answer next (.remint (offer :: rest) phase) (.remint (offer :: rest) (.offering .start)) []
  | reminting {offer : Offer} {rest : List Offer} {phase : OfferPhase}
      {stepped : Offer × OfferPhase × List Nat} (steps : offer.proceed answer next phase = some stepped) :
      Proceeds answer next (.remint (offer :: rest) (.offering phase))
        (.remint (stepped.1 :: rest) (.offering stepped.2.1)) stepped.2.2

theorem Body.proceeds (steps : body.proceed answer next = some (after, created)) :
    Proceeds answer next body after created := by
  unfold proceed at steps
  split at steps
  · split_ifs at steps
    cases steps
    exact .drains
  · split at steps <;> cases steps
    · exact .oldest
    · exact .emptyQueue
  · cases steps
    exact .drained
  · split_ifs at steps
    · cases steps
      exact .offered
    · obtain ⟨stepped, inner, same⟩ := Option.map_eq_some_iff.mp steps
      cases same
      exact .offering inner
  · split_ifs at steps
    cases steps
    exact .admits
  · split_ifs at steps <;> cases steps
    · exact .leaves
    · exact .admits
  · split_ifs at steps
    · cases steps
      exact .leaves
    · obtain ⟨stepped, inner, same⟩ := Option.map_eq_some_iff.mp steps
      cases same
      exact .reminting inner
  · cases steps

theorem Body.Proceeds.line (proceeds : Body.Proceeds answer next body after created) :
    after.line.Sublist body.line := by
  cases proceeds with
  | drains => exact List.Sublist.refl _
  | oldest => exact List.Sublist.refl _
  | emptyQueue => exact List.Sublist.refl _
  | drained => exact List.Sublist.refl _
  | offered => exact lineOf_tail_sublist []
  | offering steps =>
      simp only [Body.line]
      rw [lineOf_cons_congr (Offer.keys_proceed steps)]
  | leaves => exact lineOf_tail_sublist []
  | admits => exact List.Sublist.refl _
  | reminting steps =>
      simp only [Body.line]
      rw [lineOf_cons_congr (Offer.keys_proceed steps)]

/-- What a program may ask for once it has its lock, it could ask for before. -/
theorem Body.mayAsk_of_granted (may : body.granted.MayAsk key) : body.MayAsk key := by
  cases body with
  | turn run workflow phase => cases phase <;> simp_all [granted, MayAsk, TurnPhase.Ahead]
  | delivery remaining offers phase =>
      have shorter := (Body.line_granted (.delivery remaining offers phase)).subset
      apply shorter
      cases remaining with
      | nil => cases offers <;> exact may
      | cons run rest => exact may
  | remint offers phase =>
      have shorter := (Body.line_granted (.remint offers phase)).subset
      apply shorter
      cases offers <;> cases phase <;> exact may

theorem Body.Proceeds.mayAsk (proceeds : Body.Proceeds answer next body after created)
    (may : after.MayAsk key) : body.MayAsk key := by
  have shorter := proceeds.line.subset
  cases proceeds with
  | drains => exact may
  | oldest => exact may
  | emptyQueue => exact may.elim
  | drained => exact may.elim
  | offered => exact shorter may
  | offering _ => exact shorter may
  | leaves => exact shorter may
  | admits => exact shorter may
  | reminting _ => exact shorter may

theorem least_of_head {rest : List LockKey}
    (lined : (key :: rest).Pairwise fun left right => rank left ≤ rank right) (among : other ∈ key :: rest) :
    rank key < rank other ∨ other = key := by
  rw [List.pairwise_cons] at lined
  rw [List.mem_cons] at among
  obtain rfl | later := among
  · exact Or.inr rfl
  · have order : rank key ≤ rank other := lined.1 other later
    obtain less | same := order.lt_or_eq
    · exact Or.inl less
    · exact Or.inr (rank_injective same).symm

theorem rank_run_lt_line (among : other ∈ lineOf [] offers) (id : Nat) : rank (.run id) < rank other := by
  obtain ⟨offer, _, held⟩ := List.mem_flatMap.mp among
  exact Offer.rank_run_lt held id

/-- The trigger loop asks for its locks from the front of the line. -/
theorem Offer.asks_least (lined : (lineOf [] (offer :: offers)).Pairwise fun left right => rank left ≤ rank right)
    (standing : offer.Standing held writes phase) (asked : offer.asks phase = some key)
    (among : other ∈ lineOf [] (offer :: offers)) : rank key < rank other ∨ other = key ∨ held other := by
  cases phase with
  | start => cases asked
  | decide => cases asked
  | lockNew run =>
      cases asked
      exact Or.inl (rank_run_lt_line among run)
  | lockWorkflow =>
      cases asked
      obtain ⟨named, ceiling⟩ := standing
      simp only [lineOf, List.map_nil, List.nil_append, List.flatMap_cons, keys, if_neg named, if_pos ceiling,
        List.cons_append] at lined among
      exact (least_of_head lined among).imp_right Or.inl
  | lockSubject =>
      cases asked
      obtain ⟨named, locked⟩ := standing
      simp only [lineOf, List.map_nil, List.nil_append, List.flatMap_cons, keys, if_neg named] at lined among
      by_cases ceiling : offer.ceiling = true
      · simp only [if_pos ceiling, List.cons_append, List.nil_append] at lined among
        rw [List.pairwise_cons] at lined
        rw [List.mem_cons] at among
        obtain rfl | later := among
        · exact Or.inr (Or.inr (locked ceiling))
        · exact (least_of_head lined.2 later).imp_right Or.inl
      · simp only [if_neg ceiling, List.cons_append, List.nil_append] at lined among
        exact (least_of_head lined among).imp_right Or.inl

theorem Offer.asks_mem (standing : offer.Standing held writes phase) (asked : offer.asks phase = some key) :
    key ∈ lineOf [] (offer :: offers) ∨ ∃ new ∈ writes, key = .run new := by
  cases phase with
  | start => cases asked
  | decide => cases asked
  | lockNew run =>
      cases asked
      exact Or.inr ⟨run, standing, rfl⟩
  | lockWorkflow =>
      cases asked
      left
      simp [lineOf, keys, if_neg standing.1, if_pos standing.2]
  | lockSubject =>
      cases asked
      left
      simp only [lineOf, List.map_nil, List.nil_append, List.flatMap_cons, keys, if_neg standing.1,
        List.mem_append]
      left
      split <;> simp

theorem Body.asks_least (standing : body.Standing held writes runs) (lined : body.Lined)
    (asked : body.asks = some key) (may : body.granted.MayAsk other) :
    rank key < rank other ∨ other = key ∨ held other := by
  cases body with
  | turn run workflow phase =>
      cases phase with
      | lockRun =>
          cases asked
          obtain rfl | ⟨subject, rfl⟩ := may
          · exact Or.inl rank_run_lt_workflow
          · exact Or.inl rank_run_lt_subject
      | lockWorkflow =>
          cases asked
          obtain ⟨subject, rfl⟩ := may
          exact Or.inl rank_workflow_lt_subject
      | lockSubject subject => exact may.elim
      | lockNew new => exact may.elim
      | working => cases asked
      | reading => cases asked
      | creating => cases asked
      | ended => cases asked
  | delivery remaining offers phase =>
      cases remaining with
      | cons run rest =>
          cases asked
          have among : other ∈ lineOf (run :: rest) offers := List.mem_cons_of_mem _ may
          exact (least_of_head lined among).imp_right Or.inl
      | nil =>
          cases offers with
          | nil => cases asked
          | cons offer rest =>
              have among : other ∈ lineOf [] (offer :: rest) :=
                (Body.line_granted (.delivery [] (offer :: rest) phase)).subset may
              exact Offer.asks_least lined (standing.2 offer rfl) asked among
  | remint offers phase =>
      cases offers with
      | nil => cases phase <;> cases asked
      | cons offer rest =>
          have among : other ∈ lineOf [] (offer :: rest) := by
            apply (Body.line_granted (.remint (offer :: rest) phase)).subset
            cases phase <;> exact may
          cases phase with
          | readActive => cases asked
          | offering inner => exact Offer.asks_least lined (standing.2 inner rfl offer rfl) asked among
          | lockSubject =>
              simp only [asks] at asked
              split at asked
              · cases asked
              · rename_i named
                have low := standing.1 offer List.mem_cons_self
                have atSubject : offer.Standing held writes .lockSubject :=
                  ⟨named, fun ceiling => by simp [named, ceiling] at low⟩
                exact Offer.asks_least lined atSubject asked among

theorem Body.asks_mayAsk (standing : body.Standing held writes runs) (asked : body.asks = some key) :
    body.MayAsk key ∨ ∃ new ∈ writes, key = .run new := by
  cases body with
  | turn run workflow phase =>
      cases phase with
      | lockRun =>
          cases asked
          exact Or.inl (Or.inl rfl)
      | lockWorkflow =>
          cases asked
          exact Or.inl (Or.inl rfl)
      | lockSubject subject =>
          cases asked
          exact Or.inl ⟨subject, rfl⟩
      | lockNew new =>
          cases asked
          exact Or.inr ⟨new, standing.2 new rfl, rfl⟩
      | working => cases asked
      | reading => cases asked
      | creating => cases asked
      | ended => cases asked
  | delivery remaining offers phase =>
      cases remaining with
      | cons run rest =>
          cases asked
          exact Or.inl List.mem_cons_self
      | nil =>
          cases offers with
          | nil => cases asked
          | cons offer rest => exact Offer.asks_mem (standing.2 offer rfl) asked
  | remint offers phase =>
      cases offers with
      | nil => cases phase <;> cases asked
      | cons offer rest =>
          cases phase with
          | readActive => cases asked
          | offering inner => exact Offer.asks_mem (standing.2 inner rfl offer rfl) asked
          | lockSubject =>
              simp only [asks] at asked
              split at asked
              · cases asked
              · rename_i named
                have low := standing.1 offer List.mem_cons_self
                have atSubject : offer.Standing held writes .lockSubject :=
                  ⟨named, fun ceiling => by simp [named, ceiling] at low⟩
                exact Offer.asks_mem atSubject asked

theorem Offer.created_of_proceed {stepped : Offer × OfferPhase × List Nat}
    (steps : offer.proceed answer next phase = some stepped) : stepped.2.2 = [] ∨ stepped.2.2 = [next] := by
  unfold Offer.proceed at steps
  split at steps
  · split_ifs at steps <;> cases steps <;> exact Or.inl rfl
  · split at steps
    · cases steps
      exact Or.inr rfl
    · split_ifs at steps
      cases steps
      exact Or.inl rfl
    · cases steps
  · cases steps

theorem Body.Proceeds.inserts (proceeds : Body.Proceeds answer next body after created) :
    created = [] ∨ created = [next] := by
  cases proceeds with
  | drained => exact Or.inr rfl
  | offering steps => exact Offer.created_of_proceed steps
  | reminting steps => exact Offer.created_of_proceed steps
  | _ => exact Or.inl rfl

/-- A run whose lock a program may ask for is committed. -/
theorem Body.run_of_mayAsk {run : Nat} (standing : body.Standing held writes runs)
    (may : body.MayAsk (.run run)) : run ∈ runs := by
  have noTrigger : ∀ offers : List Offer, LockKey.run run ∉ offers.flatMap Offer.keys := by
    intro offers among
    exact absurd (rank_run_lt_line among run) (lt_irrefl _)
  cases body with
  | turn own workflow phase =>
      cases phase with
      | lockRun =>
          obtain same | same | ⟨_, same⟩ := may <;> cases same
          exact standing.1
      | working => obtain same | ⟨_, same⟩ := may <;> cases same
      | lockWorkflow => obtain same | ⟨_, same⟩ := may <;> cases same
      | reading =>
          obtain ⟨_, same⟩ := may
          cases same
      | lockSubject subject =>
          obtain ⟨_, same⟩ := may
          cases same
      | creating => exact may.elim
      | lockNew new => exact may.elim
      | ended => exact may.elim
  | delivery remaining offers phase =>
      obtain among | among := List.mem_append.mp may
      · obtain ⟨matched, isMatched, same⟩ := List.mem_map.mp among
        cases same
        exact standing.1 _ isMatched
      · exact absurd among (noTrigger offers)
  | remint offers phase => exact absurd may (noTrigger offers)

theorem Offer.Standing.granted {heldAfter : LockKey → Prop} (standing : offer.Standing held writes phase)
    (taken : ∀ key, offer.asks phase = some key → heldAfter key) :
    (offer.granted phase).1.Standing heldAfter writes (offer.granted phase).2 := by
  cases phase with
  | start => trivial
  | decide => trivial
  | lockWorkflow => exact ⟨standing.1, fun _ => taken _ rfl⟩
  | lockSubject => trivial
  | lockNew run => trivial

theorem Offer.Standing.proceed {stepped : Offer × OfferPhase × List Nat}
    (steps : offer.proceed answer next phase = some stepped) :
    stepped.1.Standing held (writes ++ stepped.2.2) stepped.2.1 := by
  unfold Offer.proceed at steps
  split at steps
  · split_ifs at steps with named ceiling
    · cases steps
      trivial
    · cases steps
      exact ⟨named, ceiling⟩
    · cases steps
      exact ⟨named, fun isCeiling => absurd isCeiling ceiling⟩
  · split at steps
    · cases steps
      exact List.mem_append_right writes (List.mem_singleton_self next)
    · split_ifs at steps
      cases steps
      trivial
    · cases steps
  · cases steps

theorem Body.Standing.granted {heldAfter : LockKey → Prop} (standing : body.Standing held writes runs)
    (kept : ∀ key, held key → heldAfter key) (taken : ∀ key, body.asks = some key → heldAfter key) :
    body.granted.Standing heldAfter writes runs := by
  cases body with
  | turn run workflow phase => cases phase <;> simp_all [Body.granted, Body.Standing]
  | delivery remaining offers phase =>
      cases remaining with
      | cons run rest =>
          refine ⟨fun later held => standing.1 later (List.mem_cons_of_mem _ held), fun offer isFirst => ?_⟩
          have here := standing.2 offer isFirst
          cases phase with
          | lockSubject => exact ⟨here.1, fun ceiling => kept _ (here.2 ceiling)⟩
          | _ => exact here
      | nil =>
          cases offers with
          | nil => exact ⟨standing.1, by simp⟩
          | cons offer rest =>
              refine ⟨standing.1, fun first isFirst => ?_⟩
              cases isFirst
              exact (standing.2 offer rfl).granted taken
  | remint offers phase =>
      cases offers with
      | nil => cases phase <;> exact ⟨by simp, by simp⟩
      | cons offer rest =>
          cases phase with
          | lockSubject => exact ⟨standing.1, fun inner isInner => by cases isInner⟩
          | readActive => exact ⟨standing.1, fun inner isInner => by cases isInner⟩
          | offering phase =>
              refine ⟨?_, fun inner isInner first isFirst => ?_⟩
              · have low := standing.1
                rw [List.forall_mem_cons] at low ⊢
                refine ⟨?_, low.2⟩
                cases phase <;> exact low.1
              · cases isInner
                cases isFirst
                exact (standing.2 phase rfl offer rfl).granted taken

theorem Body.Standing.proceed (standing : body.Standing held writes runs)
    (proceeds : Body.Proceeds answer next body after created) :
    after.Standing held (writes ++ created) runs := by
  cases proceeds with
  | drains => exact ⟨standing.1, by simp⟩
  | oldest => exact ⟨standing.1, by simp⟩
  | emptyQueue => exact ⟨standing.1, by simp⟩
  | drained => exact ⟨standing.1, by simp⟩
  | offered => exact ⟨standing.1, fun _ _ => trivial⟩
  | offering steps =>
      refine ⟨standing.1, fun first isFirst => ?_⟩
      cases isFirst
      exact Offer.Standing.proceed steps
  | leaves => exact ⟨(List.forall_mem_cons.mp standing.1).2, fun _ isInner => by cases isInner⟩
  | admits =>
      refine ⟨standing.1, fun inner isInner _ _ => ?_⟩
      cases isInner
      trivial
  | reminting steps =>
      have low := List.forall_mem_cons.mp standing.1
      refine ⟨List.forall_mem_cons.mpr ⟨?_, low.2⟩, fun inner isInner first isFirst => ?_⟩
      · obtain same | spent := Offer.proceed_offer steps
        · rw [same]
          exact low.1
        · rw [spent]
          exact low.1
      · cases isInner
        cases isFirst
        exact Offer.Standing.proceed steps

end Program

/-- What is known of one transaction: where it stands, that its locks are before it in order and above what
it holds, and that the runs it has locked are committed or its own. -/
structure Proper (holder : LockKey → Option Nat) (runs : List Nat) (id : Nat) (txn : Txn Nat Body) : Prop where
  standing : txn.body.Standing (fun key => holder key = some id) txn.writes runs
  lined : txn.body.Lined
  below : ∀ key, holder key = some id → ∀ asked, txn.body.MayAsk asked →
    rank key < rank asked ∨ holder asked = some id
  known : ∀ run, holder (.run run) = some id → run ∈ runs ∨ run ∈ txn.writes

/-- An inserted run is known to nobody but its transaction. -/
def Unseen (txns : Nat → Option (Txn Nat Body)) (runs : List Nat) (nextRun id run : Nat) : Prop :=
  run < nextRun ∧ run ∉ runs ∧ ∀ other rival, other ≠ id → txns other = some rival → run ∉ rival.writes

structure Inv (s : LockState) : Prop where
  proper : ∀ id txn, s.txns id = some txn → Proper s.holder s.db id txn
  alive : ∀ key id, s.holder key = some id → ∃ txn, s.txns id = some txn
  fresh : ∀ id txn, s.txns id = some txn → ∀ run ∈ txn.writes, Unseen s.txns s.db s.nextRun id run
  old : ∀ run ∈ s.db, run < s.nextRun

section Invariant

variable {s next : LockState} {id : Nat} {txn : Txn Nat Body} {body after : Body} {runs runsAfter created : List Nat}
  {holder holderAfter : LockKey → Option Nat} {answer : Answer}

theorem Body.Standing.mono {held heldAfter : LockKey → Prop} {writes : List Nat}
    (standing : body.Standing held writes runs) (kept : ∀ key, held key → heldAfter key)
    (grown : ∀ run ∈ runs, run ∈ runsAfter) : body.Standing heldAfter writes runsAfter := by
  have offerKept : ∀ (offer : Offer) phase, offer.Standing held writes phase →
      offer.Standing heldAfter writes phase := by
    intro offer phase here
    cases phase with
    | lockSubject => exact ⟨here.1, fun ceiling => kept _ (here.2 ceiling)⟩
    | _ => exact here
  cases body with
  | turn run workflow phase => exact ⟨grown run standing.1, standing.2⟩
  | delivery remaining offers phase =>
      exact ⟨fun run held => grown run (standing.1 run held),
        fun offer isFirst => offerKept offer phase (standing.2 offer isFirst)⟩
  | remint offers phase =>
      exact ⟨standing.1, fun inner isInner offer isFirst =>
        offerKept offer inner (standing.2 inner isInner offer isFirst)⟩

/-- A transaction that does nothing keeps what is known of it while its locks stay the same. -/
theorem Proper.frame (proper : Proper holder runs id txn)
    (same : ∀ key, holderAfter key = some id ↔ holder key = some id) (grown : ∀ run ∈ runs, run ∈ runsAfter) :
    Proper holderAfter runsAfter id txn where
  standing := proper.standing.mono (fun key held => (same key).mpr held) grown
  lined := proper.lined
  below := by
    intro key held asked may
    rw [same] at held ⊢
    exact proper.below key held asked may
  known := fun run held => (proper.known run ((same _).mp held)).imp_left (grown run)

/-- The least lock ahead is taken. -/
theorem Proper.granted {key : LockKey} (proper : Proper holder runs id txn) (asked : txn.body.asks = some key)
    (held : holderAfter key = some id)
    (same : ∀ other, other ≠ key → (holderAfter other = some id ↔ holder other = some id)) :
    Proper holderAfter runs id ⟨txn.writes, txn.body.granted⟩ where
  standing := by
    apply proper.standing.granted
    · intro other heldBefore
      by_cases isKey : other = key
      · rw [isKey]
        exact held
      · exact (same other isKey).mpr heldBefore
    · intro other askedToo
      rw [asked] at askedToo
      cases askedToo
      exact held
  lined := proper.lined.sublist (Body.line_granted txn.body)
  below := by
    intro other heldNow ahead may
    by_cases isAhead : ahead = key
    · rw [isAhead]
      exact Or.inr held
    · rw [same ahead isAhead]
      by_cases isKey : other = key
      · rw [isKey]
        rcases Body.asks_least proper.standing proper.lined asked may with less | equal | heldAhead
        · exact Or.inl less
        · exact absurd equal isAhead
        · exact Or.inr heldAhead
      · exact proper.below other ((same other isKey).mp heldNow) ahead (Body.mayAsk_of_granted may)
  known := by
    intro run heldNow
    by_cases isKey : LockKey.run run = key
    · subst isKey
      rcases Body.asks_mayAsk proper.standing asked with may | ⟨new, isNew, same⟩
      · exact Or.inl (Body.run_of_mayAsk proper.standing may)
      · cases same
        exact Or.inr isNew
    · exact proper.known run ((same _ isKey).mp heldNow)

theorem Proper.proceed {nextRun : Nat} (proper : Proper holder runs id txn)
    (proceeds : Body.Proceeds answer nextRun txn.body after created) :
    Proper holder runs id ⟨txn.writes ++ created, after⟩ where
  standing := proper.standing.proceed proceeds
  lined := proper.lined.sublist proceeds.line
  below := fun key held asked may => proper.below key held asked (proceeds.mayAsk may)
  known := fun run held => (proper.known run held).imp_right (List.mem_append_left created)

/-- A statement changes what one transaction has inserted. -/
theorem Inv.fresh_put (inv : Inv s) {writes : List Nat} {nextRun : Nat} (later : s.nextRun ≤ nextRun)
    (own : ∀ run ∈ writes, Unseen s.txns s.db nextRun id run) :
    ∀ other rival, Function.update s.txns id (some ⟨writes, body⟩) other = some rival →
      ∀ run ∈ rival.writes, Unseen (Function.update s.txns id (some ⟨writes, body⟩)) s.db nextRun other run := by
  intro other rival inFlight run isNew
  obtain ⟨rfl, rfl⟩ | ⟨differs, before⟩ := World.inFlight_update inFlight
  · obtain ⟨less, uncommitted, apart⟩ := own run isNew
    refine ⟨less, uncommitted, fun third thirdTxn thirdDiffers thirdInFlight => ?_⟩
    rw [Function.update_of_ne thirdDiffers] at thirdInFlight
    exact apart third thirdTxn thirdDiffers thirdInFlight
  · obtain ⟨less, uncommitted, apart⟩ := inv.fresh other rival before run isNew
    refine ⟨by omega, uncommitted, fun third thirdTxn thirdDiffers thirdInFlight => ?_⟩
    obtain ⟨rfl, rfl⟩ | ⟨_, thirdBefore⟩ := World.inFlight_update thirdInFlight
    · intro isOwn
      exact (own run isOwn).2.2 other rival differs before isNew
    · exact apart third thirdTxn thirdDiffers thirdBefore

theorem Inv.alive_put (inv : Inv s) {writes : List Nat}
    (same : ∀ key other, other ≠ id → (holderAfter key = some other ↔ s.holder key = some other)) :
    ∀ key other, holderAfter key = some other →
      ∃ rival, Function.update s.txns id (some ⟨writes, body⟩) other = some rival := by
  intro key other held
  by_cases isOwn : other = id
  · subst isOwn
    exact ⟨_, Function.update_self ..⟩
  · obtain ⟨rival, before⟩ := inv.alive key other ((same key other isOwn).mp held)
    exact ⟨rival, by rw [Function.update_of_ne isOwn]; exact before⟩

theorem Inv.start (inv : Inv s) (began : s.start id body = some next)
    (standing : ∀ held, body.Standing held [] s.db) (lined : body.Lined) : Inv next := by
  unfold LockState.start at began
  split at began
  · cases began
  · rename_i absent
    cases began
    have free : ∀ key, s.holder key ≠ some id := by
      intro key held
      obtain ⟨txn, inFlight⟩ := inv.alive key id held
      rw [absent] at inFlight
      cases inFlight
    refine ⟨?_, inv.alive_put fun _ _ _ => Iff.rfl, inv.fresh_put (le_refl _) (by simp), inv.old⟩
    intro other rival inFlight
    obtain ⟨rfl, rfl⟩ | ⟨_, before⟩ := World.inFlight_update inFlight
    · exact ⟨standing _, lined, fun key held => absurd held (free key), fun run held => absurd held (free _)⟩
    · exact inv.proper other rival before

theorem Inv.advance (inv : Inv s) (inFlight : s.txns id = some txn)
    (advanced : s.advance id txn answer = some next) : Inv next := by
  have proper := inv.proper id txn inFlight
  unfold LockState.advance at advanced
  split at advanced
  · rename_i key asked
    obtain ⟨world, taken, rfl⟩ := Option.map_eq_some_iff.mp advanced
    have holds := World.acquire_holds taken
    have others : ∀ any other, other ≠ id → (world.holder any = some other ↔ s.holder any = some other) :=
      fun any other differs => World.acquire_other taken differs any
    obtain ⟨free, rfl⟩ := World.acquire_eq_some taken
    refine ⟨?_, inv.alive_put others, inv.fresh_put (le_refl _) (inv.fresh id txn inFlight), inv.old⟩
    intro other rival inFlightToo
    obtain ⟨rfl, rfl⟩ | ⟨differs, before⟩ := World.inFlight_update inFlightToo
    · refine proper.granted asked holds fun any differs => ?_
      dsimp only [World.setTxn]
      rw [Function.update_of_ne differs]
    · exact (inv.proper other rival before).frame (fun any => others any other differs) fun _ held => held
  · obtain ⟨⟨after, created⟩, steps, rfl⟩ := Option.map_eq_some_iff.mp advanced
    have proceeds := Body.proceeds steps
    have own : ∀ run ∈ txn.writes ++ created, Unseen s.txns s.db (s.nextRun + created.length) id run := by
      intro run isNew
      rw [List.mem_append] at isNew
      obtain before | isCreated := isNew
      · obtain ⟨less, uncommitted, apart⟩ := inv.fresh id txn inFlight run before
        exact ⟨by omega, uncommitted, apart⟩
      · obtain rfl | rfl := proceeds.inserts
        · cases isCreated
        · rw [List.mem_singleton] at isCreated
          subst isCreated
          refine ⟨by simp, fun committed => absurd (inv.old _ committed) (lt_irrefl _), ?_⟩
          intro other rival _ before isOther
          exact absurd (inv.fresh other rival before _ isOther).1 (lt_irrefl _)
    refine ⟨?_, inv.alive_put fun _ _ _ => Iff.rfl, inv.fresh_put (Nat.le_add_right _ _) own, ?_⟩
    · intro other rival inFlightToo
      obtain ⟨rfl, rfl⟩ | ⟨_, before⟩ := World.inFlight_update inFlightToo
      · exact proper.proceed proceeds
      · exact inv.proper other rival before
    · intro run committed
      exact Nat.lt_of_lt_of_le (inv.old run committed) (Nat.le_add_right _ _)

theorem foldl_snoc (runs writes : List Nat) :
    writes.foldl (fun runs run => runs ++ [run]) runs = runs ++ writes := by
  induction writes generalizing runs with
  | nil => simp
  | cons run rest ih => simp [ih]

theorem Inv.leave (inv : Inv s) (inFlight : s.txns id = some txn) (committed : List Nat)
    (some_ : ∀ run ∈ committed, run ∈ txn.writes) :
    Inv { s with toWorld := { s.toWorld.finish id with db := s.db ++ committed } } := by
  refine ⟨?_, ?_, ?_, ?_⟩
  · intro other rival before
    obtain ⟨differs, before⟩ := World.inFlight_ended before
    exact (inv.proper other rival before).frame (fun key => World.finish_other differs key)
      fun run held => List.mem_append_left committed held
  · intro key other held
    have differs : other ≠ id := fun same => World.finish_self key (same ▸ held)
    obtain ⟨rival, before⟩ := inv.alive key other ((World.finish_other differs key).mp held)
    exact ⟨rival, (Function.update_of_ne differs _ _).trans before⟩
  · intro other rival before run isNew
    obtain ⟨differs, before⟩ := World.inFlight_ended before
    obtain ⟨less, uncommitted, apart⟩ := inv.fresh other rival before run isNew
    refine ⟨less, ?_, fun third thirdTxn thirdDiffers thirdBefore => ?_⟩
    · rw [List.mem_append, not_or]
      exact ⟨uncommitted, fun held => apart id txn differs.symm inFlight (some_ run held)⟩
    · exact apart third thirdTxn thirdDiffers (World.inFlight_ended thirdBefore).2
  · intro run held
    obtain old | new := List.mem_append.mp held
    · exact inv.old run old
    · exact (inv.fresh id txn inFlight run (some_ run new)).1

theorem Offer.keys_lined (offer : Offer) : offer.keys.Pairwise fun left right => rank left ≤ rank right := by
  unfold keys
  split_ifs
  · exact List.Pairwise.nil
  · simpa using rank_workflow_lt_subject.le
  · exact List.pairwise_singleton _ _

theorem lined_delivery (matched : List Nat) {offers : List Offer}
    (sorted : (offers.map Offer.workflow).Pairwise (· < ·)) :
    (Body.delivery (Events.sortedRunIDs matched) offers .start).Lined := by
  unfold Body.Lined Body.line lineOf
  rw [List.pairwise_append]
  refine ⟨?_, ?_, ?_⟩
  · rw [List.pairwise_map]
    apply (List.pairwise_insertionSort (· ≤ ·) matched.dedup).imp
    intro first second order
    obtain less | rfl := order.lt_or_eq
    · exact (rank_run_lt_run less).le
    · exact le_refl _
  · rw [List.pairwise_flatMap]
    refine ⟨fun offer _ => offer.keys_lined, ?_⟩
    apply (List.pairwise_map.mp sorted).imp
    intro first second order left isLeft right isRight
    exact (rank_lt_of_workflow_lt (Offer.key_of_mem isLeft) (Offer.key_of_mem isRight) order).le
  · intro left isRun right isTrigger
    obtain ⟨run, _, rfl⟩ := List.mem_map.mp isRun
    exact (rank_run_lt_line isTrigger run).le

theorem lined_remint {due : List Offer} (ordered : inOrder due = true) :
    (Body.remint due .lockSubject).Lined := by
  simp only [inOrder, Bool.and_eq_true, decide_eq_true_eq, List.all_eq_true] at ordered
  obtain ⟨low, sorted⟩ := ordered
  have only : ∀ offer ∈ due, ∀ key ∈ offer.keys,
      offer.subject ≠ "" ∧ key = .subject offer.workflow offer.subject := by
    intro offer isDue key held
    have unlimited := low offer isDue
    unfold Offer.keys at held
    split_ifs at held with named ceiling
    · cases held
    · simp [named, ceiling] at unlimited
    · exact ⟨named, List.mem_singleton.mp held⟩
  unfold Body.Lined Body.line lineOf
  simp only [List.map_nil, List.nil_append]
  rw [List.pairwise_flatMap]
  refine ⟨fun offer _ => offer.keys_lined, ?_⟩
  rw [List.pairwise_filter] at sorted
  apply sorted.imp_of_mem
  intro first second isFirst isSecond order left isLeft right isRight
  obtain ⟨named, rfl⟩ := only first isFirst left isLeft
  obtain ⟨namedToo, rfl⟩ := only second isSecond right isRight
  rcases order (by simpa using named) (by simpa using namedToo) with less | ⟨same, less⟩
  · exact (rank_lt_of_workflow_lt (Or.inr ⟨_, rfl⟩) (Or.inr ⟨_, rfl⟩) less).le
  · rw [same]
    simpa [rank, Prod.Lex.toLex_le_toLex] using less

theorem Inv.step {action : Action} (inv : Inv s) (orderly : Orderly s action) (acted : s.act action = some next) :
    Inv next := by
  cases action with
  | beginTurn id run workflow =>
      simp only [LockState.act] at acted
      split at acted
      · rename_i committed
        exact inv.start acted (fun _ => ⟨committed, by simp⟩) List.Pairwise.nil
      · cases acted
  | beginDelivery id matched offers =>
      simp only [LockState.act] at acted
      split at acted
      · rename_i legal
        refine inv.start acted (fun _ => ⟨fun run isMatched => ?_, fun _ _ => trivial⟩)
          (lined_delivery matched legal.2)
        rw [Events.sortedRunIDs, List.mem_insertionSort, List.mem_dedup] at isMatched
        exact legal.1 run isMatched
      · cases acted
  | beginRemint id due =>
      have low : ∀ offer ∈ due, offer.subject = "" ∨ offer.ceiling = false := by
        simp only [Orderly, inOrder, Bool.and_eq_true, List.all_eq_true] at orderly
        intro offer isDue
        simpa using orderly.1 offer isDue
      exact inv.start acted (fun _ => ⟨low, fun inner isInner => by cases isInner⟩) (lined_remint orderly)
  | advance id answer =>
      obtain ⟨txn, inFlight, advanced⟩ := Option.bind_eq_some_iff.mp acted
      exact inv.advance inFlight advanced
  | commit id =>
      obtain ⟨txn, inFlight, ended⟩ := Option.bind_eq_some_iff.mp acted
      split at ended
      · cases ended
        have left := inv.leave inFlight txn.writes fun _ held => held
        rw [← foldl_snoc] at left
        exact left
      · cases ended
  | abort id =>
      obtain ⟨txn, inFlight, ended⟩ := Option.bind_eq_some_iff.mp acted
      cases ended
      have left := inv.leave inFlight [] (by simp)
      rw [List.append_nil] at left
      exact left

theorem Inv.ranked (inv : Inv s) : WaitFor.Ranked s.asks s.holder rank := by
  intro waiter owner key asked owned other held heldHere
  obtain ⟨txn, inFlight, asks⟩ := Option.bind_eq_some_iff.mp asked
  have proper := inv.proper waiter txn inFlight
  rcases Body.asks_mayAsk proper.standing asks with may | ⟨new, isNew, rfl⟩
  · rcases proper.below held heldHere key may with less | own
    · exact less
    · rw [own] at owned
      exact absurd (Option.some.inj owned).symm other
  · -- Nobody else can have the lock of a run that only its transaction knows.
    obtain ⟨_, uncommitted, apart⟩ := inv.fresh waiter txn inFlight new isNew
    obtain ⟨rival, rivalInFlight⟩ := inv.alive _ owner owned
    rcases (inv.proper owner rival rivalInFlight).known new owned with committed | isOwn
    · exact absurd committed uncommitted
    · exact absurd isOwn (apart owner rival other rivalInFlight)

end Invariant

theorem inv_initial {runs : List Nat} {nextRun : Nat} (known : ∀ run ∈ runs, run < nextRun) :
    Inv (LockState.initial runs nextRun) where
  proper := fun _ _ inFlight => by cases inFlight
  alive := fun _ _ held => by cases held
  fresh := fun _ _ inFlight => by cases inFlight
  old := known

/-- In no state of a run in which every re-mint batch locks in order does a cycle of transactions wait. -/
theorem not_deadlocked_of_orderly {runs : List Nat} {nextRun : Nat} {s : LockState}
    (known : ∀ run ∈ runs, run < nextRun)
    (run : Steps LockState.step Orderly (LockState.initial runs nextRun) s) : ¬s.Deadlocked :=
  (run.invariant Inv (inv_initial known) fun _ _ _ inv orderly acted => inv.step orderly acted).ranked.not_deadlocked

/-- What two transactions ask for, and who holds the locks of workflow `delivery` and its subject `PROJ-7`. -/
def standoff (s : LockState) : Option LockKey × Option LockKey × Option Nat × Option Nat :=
  (s.asks 1, s.asks 2, s.holder (.workflow "delivery"), s.holder (.subject "delivery" "PROJ-7"))

/-- Whether a batch that starts locks in order. -/
def orderly (_ : LockState) : Action → Bool
  | .beginRemint _ due => inOrder due
  | _ => true

/-- A re-mint and a delivery for one subject of a workflow without a ceiling, beside a completion whose run
ends. -/
def peaceful : List Action :=
  [.beginRemint 1 [⟨"delivery", "PROJ-7", false, 1⟩], .advance 1 .goOn, .advance 1 .goOn,
    .beginDelivery 2 [4] [⟨"delivery", "PROJ-7", false, 1⟩], .advance 2 .goOn, .advance 2 .goOn,
    .beginTurn 3 5 "delivery", .advance 3 .goOn, .advance 3 .drains, .advance 3 .goOn]

theorem not_deadlocked_peaceful :
    ∃ s, Steps LockState.step Orderly (LockState.initial [4, 5] 6) s ∧
      standoff s = (none, some (.subject "delivery" "PROJ-7"), some 3, some 1) ∧ ¬s.Deadlocked := by
  have sound : ∀ (s : LockState) (action : Action), orderly s action = true → Orderly s action := by
    intro s action passes
    cases action <;> first | exact passes | trivial
  have ran : (Steps.ofList LockState.act orderly (LockState.initial [4, 5] 6) peaceful).map standoff =
      some (none, some (.subject "delivery" "PROJ-7"), some 3, some 1) := by
    decide +kernel
  obtain ⟨s, run, seen⟩ := Steps.reaches_of_ofList sound ran
  exact ⟨s, run, seen, not_deadlocked_of_orderly (by decide) run⟩

/-- A re-mint and a delivery for one subject of a workflow with a ceiling. -/
def crossing : List Action :=
  [.beginRemint 1 [⟨"delivery", "PROJ-7", true, 1⟩], .advance 1 .goOn, .advance 1 .goOn, .advance 1 .goOn,
    .beginDelivery 2 [] [⟨"delivery", "PROJ-7", true, 1⟩], .advance 2 .goOn, .advance 2 .goOn]

/-- The re-mint has the subject and asks for the workflow; the delivery has the workflow and asks for the
subject. -/
theorem remint_deadlocks_with_delivery :
    ∃ s, Steps LockState.step anyAction (LockState.initial [] 0) s ∧ s.Deadlocked := by
  have ran : (Steps.ofList LockState.act (fun _ _ => true) (LockState.initial [] 0) crossing).map standoff =
      some (some (.workflow "delivery"), some (.subject "delivery" "PROJ-7"), some 2, some 1) := by
    decide +kernel
  have sound : ∀ (s : LockState) (action : Action), true = true → anyAction s action := fun _ _ _ => trivial
  obtain ⟨s, run, seen⟩ := Steps.reaches_of_ofList sound ran
  simp only [standoff, Prod.mk.injEq] at seen
  obtain ⟨asksOne, asksTwo, holdsTwo, holdsOne⟩ := seen
  have forward : WaitFor.Waits s.asks s.holder 1 2 := ⟨_, asksOne, holdsTwo, by decide⟩
  have backward : WaitFor.Waits s.asks s.holder 2 1 := ⟨_, asksTwo, holdsOne, by decide⟩
  exact ⟨s, run, 1, .tail (.single forward) backward⟩

end CultureNodes.Deadlock
