import CultureNodes.Engine.Independence
import Mathlib.Data.List.Sort
import Mathlib.Data.Prod.Lex

/-!
Re-mints of runs that failed technically. The due ones are admitted through the triggers of the version
they are pinned to, all in one transaction: one whose subject is active waits for a later batch, and
one that is not answered with a single new run rolls the batch back.
-/

namespace CultureNodes.Engine

/-- A row of `trigger_remints` with its version and its event; it is pending until it has a run. -/
structure Remint where
  id : Nat
  sourceRun : Nat
  version : TriggerWorkflow
  fact : TriggerFact
  attempt : Nat := 1
  availableAt : Nat
  minted : Option Nat := none
deriving DecidableEq, Repr

/-- The table of re-mints with its primary key. -/
structure Remints where
  rows : List Remint := []
  distinct : (rows.map Remint.id).Nodup

/-- The record that explains a minted run. -/
structure RemintDecision where
  run : Nat
  originalEvent : String
  attempt : Nat
  sourceRun : Nat
deriving DecidableEq, Repr

structure RemintDb where
  hosted : Hosted := {}
  remints : Remints
  decisions : List RemintDecision := []

def Remint.order (remint : Remint) : Nat ×ₗ Nat := toLex (remint.availableAt, remint.id)

namespace Remints

variable (remints : Remints)

def mint (id run : Nat) : Remints where
  rows := Table.update remints.rows (·.id = id) fun row => { row with minted := some run }
  distinct := by
    have keys : (Table.update remints.rows (·.id = id) fun row => { row with minted := some run }).map
        Remint.id = remints.rows.map Remint.id := Table.update_keys fun _ => rfl
    rw [keys]
    exact remints.distinct

/-- The batch of a call: the first sixteen that are pending, due and not locked by another call. -/
def due (now : Nat) (locked : Nat → Bool) : List Remint :=
  ((remints.rows.filter fun row =>
    row.minted = none && decide (row.availableAt ≤ now) && !locked row.id).insertionSort
      fun one other => one.order ≤ other.order).take 16

end Remints

section

variable (tenv : TriggerEnv) (now : Nat) (registered : Bool)

/-- The admission of one re-mint: `none` leaves it pending behind its active subject. The ledger takes
the record of the mint from a registered producer only. -/
def Remint.admitOne (remint : Remint) (hosted : Hosted) : Except EngineError (Option (Hosted × Nat)) :=
  if remint.fact.subject ≠ "" ∧
      (hosted.activeRunBySubject remint.version.key remint.fact.subject).isSome then .ok none
  else
    match triggerEvent tenv now hosted remint.version remint.fact with
    | .error error => .error error
    | .ok (next, [.created _ run]) =>
        if registered then .ok (some (next, run))
        else .error (.malformed "ledger: origin actor is not registered")
    | .ok _ =>
        .error (.malformed ("postgres: enqueue due re-mint " ++ toString remint.id ++
          ": trigger admission returned no single new run"))

def RemintDb.admitAll (db : RemintDb) : List Remint → Except EngineError (RemintDb × Nat)
  | [] => .ok (db, 0)
  | remint :: rest =>
      match remint.admitOne tenv now registered db.hosted with
      | .error error => .error error
      | .ok none => RemintDb.admitAll db rest
      | .ok (some (hosted, run)) =>
          (RemintDb.admitAll
            { hosted := hosted
              remints := db.remints.mint remint.id run
              decisions := db.decisions ++
                [⟨run, remint.fact.id, remint.attempt, remint.sourceRun⟩] } rest).map
            fun (last, admitted) => (last, admitted + 1)

/-- `EnqueueDueRemints`: an error leaves the tables as they were. -/
def RemintDb.enqueueDueRemints (db : RemintDb) (locked : Nat → Bool) :
    Except EngineError (RemintDb × Nat) :=
  db.admitAll tenv now registered (db.remints.due now locked)

/-- The tables after a call. -/
def RemintDb.afterEnqueue (db : RemintDb) (locked : Nat → Bool) : RemintDb :=
  match db.enqueueDueRemints tenv now registered locked with
  | .error _ => db
  | .ok (next, _) => next

/-- How many triggers of a version match the event; an error of one of them is an error. -/
def matchCount (definition : Definition) (fact : TriggerFact) : List Trigger → Except EngineError Nat
  | [] => .ok 0
  | trigger :: rest =>
      match triggerMatches tenv definition trigger fact.toPickupEvent with
      | .error error => .error error
      | .ok false => matchCount definition fact rest
      | .ok true => (matchCount definition fact rest).map (· + 1)

end

section

variable {tenv : TriggerEnv} {now : Nat} {registered : Bool} {hosted next : Hosted}
  {definition : Definition} {version : TriggerWorkflow} {fact : TriggerFact} {triggers : List Trigger}

theorem runTriggers_length {outs : List TriggeredRun}
    (ran : runTriggers tenv now definition version fact hosted triggers = .ok (next, outs)) :
    matchCount tenv definition fact triggers = .ok outs.length := by
  induction triggers generalizing hosted outs with
  | nil =>
      obtain ⟨rfl, rfl⟩ := Prod.mk.inj (Except.ok.inj ran)
      rfl
  | cons trigger rest ih =>
      unfold runTriggers at ran
      unfold matchCount
      cases matched : triggerMatches tenv definition trigger fact.toPickupEvent with
      | error error =>
          rw [matched] at ran
          contradiction
      | ok holds =>
          rw [matched] at ran
          cases holds with
          | false => exact ih ran
          | true =>
              dsimp only at ran ⊢
              split at ran
              · contradiction
              · obtain ⟨⟨last, others⟩, onward, same⟩ := map_eq_ok ran
                obtain ⟨rfl, rfl⟩ := Prod.mk.inj same
                rw [ih onward]
                rfl

theorem runTriggers_none (unmatched : matchCount tenv definition fact triggers = .ok 0) :
    runTriggers tenv now definition version fact hosted triggers = .ok (hosted, []) := by
  induction triggers with
  | nil => rfl
  | cons trigger rest ih =>
      unfold matchCount at unmatched
      unfold runTriggers
      cases matched : triggerMatches tenv definition trigger fact.toPickupEvent with
      | error error =>
          rw [matched] at unmatched
          contradiction
      | ok holds =>
          rw [matched] at unmatched
          cases holds with
          | false => exact ih unmatched
          | true =>
              obtain ⟨count, _, same⟩ := map_eq_ok unmatched
              exact absurd same (Nat.succ_ne_zero count)

theorem runTriggers_one (matchesOnce : matchCount tenv definition fact triggers = .ok 1) :
    runTriggers tenv now definition version fact hosted triggers =
      (placeMatch tenv now hosted definition version fact).map fun placed => (placed.1, [placed.2]) := by
  induction triggers with
  | nil => cases matchesOnce
  | cons trigger rest ih =>
      unfold matchCount at matchesOnce
      unfold runTriggers
      cases matched : triggerMatches tenv definition trigger fact.toPickupEvent with
      | error error =>
          rw [matched] at matchesOnce
          contradiction
      | ok holds =>
          rw [matched] at matchesOnce
          cases holds with
          | false => exact ih matchesOnce
          | true =>
              obtain ⟨count, counted, same⟩ := map_eq_ok matchesOnce
              obtain rfl : count = 0 := Nat.succ.inj same
              dsimp only
              cases placeMatch tenv now hosted definition version fact with
              | error error => rfl
              | ok placed =>
                  dsimp only
                  rw [runTriggers_none counted]
                  rfl

/-- Whether a subject that is not active gets a run at once, by the roster of its workflow. -/
def Roster.hasRoom (roster : Roster) (limit : Nat) (subject : String) : Bool :=
  subject = "" || limit = 0 || (!roster.queued.contains subject &&
    decide ((roster.subjects.countP fun (subject, active) => subject ≠ "" && active) < limit))

theorem placeMatch_created_iff
    (inactive : fact.subject = "" ∨ hosted.activeRunBySubject version.key fact.subject = none) :
    (∃ next run, placeMatch tenv now hosted definition version fact =
        .ok (next, .created version.digest run)) ↔
      creatable tenv definition version fact = true ∧
        (hosted.roster version.key).hasRoom definition.maxConcurrentSubjectRuns fact.subject = true := by
  have creates : (∃ next run, (createTriggeredRun tenv now hosted definition version fact).map
      (fun result => (result.1, TriggeredRun.created version.digest result.2)) =
        .ok (next, .created version.digest run)) ↔ creatable tenv definition version fact = true := by
    rw [creatable, ← @createTriggeredRun_isOk tenv now hosted definition version fact, isOk_iff]
    constructor
    · rintro ⟨next, run, mapped⟩
      obtain ⟨result, created, _⟩ := map_eq_ok mapped
      exact ⟨result, created⟩
    · rintro ⟨result, created⟩
      exact ⟨result.1, result.2, by rw [created]; rfl⟩
  unfold placeMatch Roster.hasRoom
  dsimp only
  by_cases bare : fact.subject = ""
  · rw [if_pos bare]
    simpa [bare] using creates
  · rw [if_neg bare, inactive.resolve_left bare]
    dsimp only
    by_cases unlimited : definition.maxConcurrentSubjectRuns = 0
    · rw [if_pos unlimited]
      simpa [unlimited] using creates
    · rw [if_neg unlimited, ← findDeferredTrigger_isSome, ← activeSubjectRunCount_eq]
      cases found : hosted.findDeferredTrigger version.key fact.subject with
      | some row => simp [bare, unlimited]
      | none =>
          dsimp only
          by_cases full : definition.maxConcurrentSubjectRuns ≤ hosted.activeSubjectRunCount version.key
          · rw [if_pos full]
            simp [bare, unlimited, full]
          · rw [if_neg full]
            simpa [bare, unlimited, Nat.lt_of_not_le full] using creates

theorem triggerEvent_created_iff {digest : String} {run : Nat} :
    triggerEvent tenv now hosted version fact = .ok (next, [.created digest run]) ↔
      ∃ definition, tenv.load version = .ok definition ∧
        matchCount tenv definition fact definition.triggers = .ok 1 ∧
        placeMatch tenv now hosted definition version fact = .ok (next, .created digest run) := by
  unfold triggerEvent
  cases loaded : tenv.load version with
  | error reason => simp
  | ok definition =>
      simp only [Except.ok.injEq, exists_eq_left']
      constructor
      · intro ran
        have once := runTriggers_length ran
        rw [runTriggers_one once] at ran
        obtain ⟨placed, isPlaced, same⟩ := map_eq_ok ran
        obtain ⟨rfl, isCreated⟩ := Prod.mk.inj same
        rw [List.cons.injEq] at isCreated
        rw [← isCreated.1]
        exact ⟨once, isPlaced⟩
      · rintro ⟨once, placed⟩
        rw [runTriggers_one once, placed]
        rfl

end

/-- What a re-mint needs whatever is in flight: its version loads, exactly one of its triggers matches,
its run can be created and the ledger takes its record. -/
def Remint.Suits (tenv : TriggerEnv) (registered : Bool) (remint : Remint) (limit : Nat) : Prop :=
  registered = true ∧ ∃ definition, tenv.load remint.version = .ok definition ∧
    definition.maxConcurrentSubjectRuns = limit ∧
    matchCount tenv definition remint.fact definition.triggers = .ok 1 ∧
    creatable tenv definition remint.version remint.fact = true

/-- The subject of the re-mint has an active run, by the roster of its workflow. -/
def Remint.Waits (remint : Remint) (roster : Roster) : Prop :=
  remint.fact.subject ≠ "" ∧ (remint.fact.subject, true) ∈ roster.subjects

/-- The roster of a workflow with the runs of the re-mints minted so far. -/
def Roster.grown (roster : Roster) (key : String) (minted : List Remint) : Roster :=
  { roster with
    subjects := roster.subjects ++
      (minted.filter (·.version.key = key)).map fun remint => (remint.fact.subject, true) }

theorem Roster.grown_append (roster : Roster) (key : String) (minted more : List Remint) :
    (roster.grown key minted).grown key more = roster.grown key (minted ++ more) := by
  simp [Roster.grown]

namespace Remint

variable {tenv : TriggerEnv} {now : Nat} {registered : Bool} {hosted next : Hosted} {remint : Remint}
  {run : Nat}

theorem waits_iff : remint.Waits (hosted.roster remint.version.key) ↔ remint.fact.subject ≠ "" ∧
    (hosted.activeRunBySubject remint.version.key remint.fact.subject).isSome = true := by
  rw [Waits, activeRunBySubject_isSome, List.contains_iff_mem]

theorem admitOne_waits (waits : remint.Waits (hosted.roster remint.version.key)) :
    remint.admitOne tenv now registered hosted = .ok none := by
  unfold admitOne
  rw [if_pos (waits_iff.mp waits)]

theorem inactive_of_not_waits (free : ¬ remint.Waits (hosted.roster remint.version.key)) :
    remint.fact.subject = "" ∨
      hosted.activeRunBySubject remint.version.key remint.fact.subject = none := by
  by_contra both
  rw [not_or, ← ne_eq, ← ne_eq, ← Option.isSome_iff_ne_none] at both
  exact free (waits_iff.mpr both)

/-- An admission that goes through creates the run of the one trigger that matches. -/
theorem admitOne_some (admitted : remint.admitOne tenv now registered hosted = .ok (some (next, run))) :
    ¬ remint.Waits (hosted.roster remint.version.key) ∧
    (∃ limit, remint.Suits tenv registered limit ∧
      (hosted.roster remint.version.key).hasRoom limit remint.fact.subject = true) ∧
    ∀ key, next.roster key = (hosted.roster key).grown key [remint] := by
  unfold admitOne at admitted
  split at admitted
  · cases admitted
  · rename_i free
    have notWaiting : ¬ remint.Waits (hosted.roster remint.version.key) :=
      fun waits => free (waits_iff.mp waits)
    refine ⟨notWaiting, ?_⟩
    split at admitted
    · contradiction
    · rename_i after digest created triggered
      split at admitted
      · rename_i isRegistered
        obtain ⟨rfl, rfl⟩ := Prod.mk.inj (Option.some.inj (Except.ok.inj admitted))
        obtain ⟨definition, loaded, once, placed⟩ := triggerEvent_created_iff.mp triggered
        have own : digest = remint.version.digest := placeMatch_digest placed
        subst own
        obtain ⟨creates, room⟩ :=
          (placeMatch_created_iff (inactive_of_not_waits notWaiting)).mp ⟨_, _, placed⟩
        refine ⟨⟨_, ⟨isRegistered, definition, loaded, rfl, once, creates⟩, room⟩, fun key => ?_⟩
        have isCreated : createTriggeredRun tenv now hosted definition remint.version remint.fact =
            .ok (after, created) := by
          rcases placeMatch_cases placed with ⟨other, made, same⟩ | ⟨_, _, same⟩ | ⟨_, _, _, same⟩ |
            ⟨_, same⟩
          · rw [made, (TriggeredRun.created.inj same).2]
          · contradiction
          · contradiction
          · contradiction
        rw [createTriggeredRun_roster isCreated, Roster.grown]
        by_cases sameKey : key = remint.version.key
        · simp [sameKey]
        · simp [sameKey, Ne.symm sameKey]
      · contradiction
    · contradiction

theorem admitOne_of_room {limit : Nat} (free : ¬ remint.Waits (hosted.roster remint.version.key))
    (suits : remint.Suits tenv registered limit)
    (room : (hosted.roster remint.version.key).hasRoom limit remint.fact.subject = true) :
    ∃ next run, remint.admitOne tenv now registered hosted = .ok (some (next, run)) := by
  obtain ⟨isRegistered, definition, loaded, rfl, once, creates⟩ := suits
  obtain ⟨next, run, placed⟩ :=
    (@placeMatch_created_iff tenv now hosted definition remint.version remint.fact
      (inactive_of_not_waits free)).mpr ⟨creates, room⟩
  have triggered := triggerEvent_created_iff.mpr ⟨definition, loaded, once, placed⟩
  refine ⟨next, run, ?_⟩
  unfold admitOne
  rw [if_neg fun waits => free (waits_iff.mpr waits)]
  simp only [triggered, isRegistered, if_true]

theorem waits_of_admitOne_none (admitted : remint.admitOne tenv now registered hosted = .ok none) :
    remint.Waits (hosted.roster remint.version.key) := by
  by_contra free
  unfold admitOne at admitted
  rw [if_neg fun waits => free (waits_iff.mpr waits)] at admitted
  split at admitted
  · contradiction
  · split at admitted
    · cases admitted
    · contradiction
  · contradiction

end Remint

/-- Two re-mints of one subject of one workflow. -/
def Remint.Rivals (one other : Remint) : Prop :=
  one.fact.subject ≠ "" ∧ other.version.key = one.version.key ∧ other.fact.subject = one.fact.subject

section

variable (tenv : TriggerEnv) (now : Nat) (registered : Bool) (hosted : Hosted)

/-- Whether the re-mint would be minted if it were the only one that is due. -/
def Remint.admissible (remint : Remint) : Bool :=
  match remint.admitOne tenv now registered hosted with
  | .ok (some _) => true
  | _ => false

/-- A re-mint at its place in the batch, behind those of it that are minted: one that is admissible has
no rival among them and still finds room under its ceiling, any other one finds its subject active, in
the namespace or by a rival among them. -/
def Remint.Undisturbed (before : List Remint) (remint : Remint) : Prop :=
  if remint.admissible tenv now registered hosted then
    (∀ other ∈ before.filter (·.admissible tenv now registered hosted), ¬ remint.Rivals other) ∧
    (remint.fact.subject ≠ "" → ∀ definition, tenv.load remint.version = .ok definition →
      definition.maxConcurrentSubjectRuns ≠ 0 →
      hosted.activeSubjectRunCount remint.version.key +
        (before.filter (·.admissible tenv now registered hosted)).countP
          (fun other => other.version.key = remint.version.key && other.fact.subject ≠ "") <
        definition.maxConcurrentSubjectRuns)
  else
    remint.Waits (hosted.roster remint.version.key) ∨
      ∃ other ∈ before.filter (·.admissible tenv now registered hosted), remint.Rivals other

end

namespace Remint

variable {tenv : TriggerEnv} {now : Nat} {registered : Bool} {hosted start next : Hosted}
  {remint : Remint} {before minted : List Remint}

theorem waits_grown {roster : Roster} :
    remint.Waits (roster.grown remint.version.key minted) ↔
      remint.Waits roster ∨ ∃ other ∈ minted, remint.Rivals other := by
  simp only [Waits, Roster.grown, Rivals, List.mem_append, List.mem_map, List.mem_filter,
    decide_eq_true_eq, Prod.mk.injEq, and_true]
  constructor
  · rintro ⟨named, old | ⟨other, ⟨member, sameKey⟩, same⟩⟩
    · exact Or.inl ⟨named, old⟩
    · exact Or.inr ⟨other, member, named, sameKey, same⟩
  · rintro (⟨named, old⟩ | ⟨other, member, named, sameKey, same⟩)
    · exact ⟨named, Or.inl old⟩
    · exact ⟨named, Or.inr ⟨other, ⟨member, sameKey⟩, same⟩⟩

theorem hasRoom_grown {roster : Roster} {key subject : String} {limit : Nat} :
    (roster.grown key minted).hasRoom limit subject = true ↔
      subject = "" ∨ limit = 0 ∨ (subject ∉ roster.queued ∧
        (roster.subjects.countP fun (subject, active) => subject ≠ "" && active) +
          minted.countP (fun other => other.version.key = key && other.fact.subject ≠ "") < limit) := by
  have counted : ((minted.filter (·.version.key = key)).map
      fun remint => (remint.fact.subject, true)).countP (fun (subject, active) => subject ≠ "" && active) =
        minted.countP (fun other => other.version.key = key && other.fact.subject ≠ "") := by
    rw [List.countP_map, List.countP_filter]
    congr 1
    funext other
    simp [Bool.and_comm]
  simp only [Roster.hasRoom, Roster.grown, List.countP_append, counted]
  simp [or_assoc]

theorem admissible_iff : remint.admissible tenv now registered hosted = true ↔
    ∃ next run, remint.admitOne tenv now registered hosted = .ok (some (next, run)) := by
  unfold admissible
  split
  · rename_i result admitted
    exact ⟨fun _ => ⟨result.1, result.2, admitted⟩, fun _ => rfl⟩
  · rename_i others
    refine ⟨fun impossible => absurd impossible Bool.false_ne_true, ?_⟩
    rintro ⟨next, run, admitted⟩
    exact absurd admitted (others _)

theorem admissible_iff_room : remint.admissible tenv now registered hosted = true ↔
    ¬ remint.Waits (hosted.roster remint.version.key) ∧ ∃ limit, remint.Suits tenv registered limit ∧
      (hosted.roster remint.version.key).hasRoom limit remint.fact.subject = true := by
  rw [admissible_iff]
  constructor
  · rintro ⟨next, run, admitted⟩
    exact ⟨(admitOne_some admitted).1, (admitOne_some admitted).2.1⟩
  · rintro ⟨free, limit, suits, room⟩
    exact admitOne_of_room free suits room

/-- Behind the re-mints minted before it, an undisturbed re-mint is minted where it is admissible, and
waits where it is not. -/
theorem Undisturbed.admitOne (undisturbed : remint.Undisturbed tenv now registered start before)
    (grown : ∀ key, hosted.roster key = (start.roster key).grown key
      (before.filter (·.admissible tenv now registered start))) :
    if remint.admissible tenv now registered start then
      ∃ next run, remint.admitOne tenv now registered hosted = .ok (some (next, run))
    else remint.admitOne tenv now registered hosted = .ok none := by
  unfold Undisturbed at undisturbed
  split
  · rename_i admissible
    rw [if_pos admissible] at undisturbed
    obtain ⟨free, limit, suits, room⟩ := admissible_iff_room.mp admissible
    have stillFree : ¬ remint.Waits (hosted.roster remint.version.key) := by
      rw [grown, waits_grown]
      rintro (waiting | ⟨other, member, rivals⟩)
      · exact free waiting
      · exact undisturbed.1 other member rivals
    refine admitOne_of_room stillFree suits ?_
    rw [grown, hasRoom_grown]
    by_cases bare : remint.fact.subject = ""
    · exact Or.inl bare
    · by_cases unlimited : limit = 0
      · exact Or.inr (Or.inl unlimited)
      · obtain ⟨_, definition, loaded, isLimit, _⟩ := suits
        have below := undisturbed.2 bare definition loaded (isLimit ▸ unlimited)
        rw [isLimit, activeSubjectRunCount_eq] at below
        simp only [Roster.hasRoom, bare, unlimited, decide_false, Bool.false_or, Bool.and_eq_true,
          Bool.not_eq_true', List.contains_eq_mem, decide_eq_false_iff_not] at room
        exact Or.inr (Or.inr ⟨room.1, below⟩)
  · rename_i inadmissible
    rw [if_neg inadmissible] at undisturbed
    refine admitOne_waits ?_
    rw [grown, waits_grown]
    exact undisturbed

/-- A re-mint that, behind those minted before it, is minted exactly where it is admissible, and is not
refused, is undisturbed. -/
theorem undisturbed_of_admitOne {result : Option (Hosted × Nat)}
    (grown : ∀ key, hosted.roster key = (start.roster key).grown key
      (before.filter (·.admissible tenv now registered start)))
    (admitted : remint.admitOne tenv now registered hosted = .ok result)
    (agrees : result.isSome = remint.admissible tenv now registered start) :
    remint.Undisturbed tenv now registered start before := by
  unfold Undisturbed
  cases result with
  | none =>
      rw [if_neg (by rw [← agrees]; exact Bool.false_ne_true), ← waits_grown, ← grown]
      exact waits_of_admitOne_none admitted
  | some minted =>
      obtain ⟨free, ⟨limit, suits, room⟩, _⟩ := admitOne_some admitted
      rw [grown, waits_grown, not_or] at free
      have isAdmissible : remint.admissible tenv now registered start = true := agrees.symm
      rw [if_pos isAdmissible]
      refine ⟨fun other member rivals => free.2 ⟨other, member, rivals⟩,
        fun named definition loaded limited => ?_⟩
      obtain ⟨_, other, otherLoaded, isLimit, _⟩ := suits
      obtain rfl := Except.ok.inj (loaded.symm.trans otherLoaded)
      rw [grown, hasRoom_grown] at room
      rw [isLimit, activeSubjectRunCount_eq]
      exact ((room.resolve_left named).resolve_left (isLimit ▸ limited)).2

end Remint

def Remints.isMinted (remints : Remints) (id : Nat) : Bool :=
  remints.rows.any fun row => row.id = id && row.minted.isSome

namespace Remints

variable {remints : Remints} {now id run : Nat} {locked : Nat → Bool}

theorem isMinted_mint (known : id ∈ remints.rows.map Remint.id) (other : Nat) :
    (remints.mint id run).isMinted other = (remints.isMinted other || decide (other = id)) := by
  unfold isMinted mint Table.update
  dsimp only
  rw [List.any_map, Bool.eq_iff_iff]
  obtain ⟨row, member, isRow⟩ := List.mem_map.mp known
  simp only [List.any_eq_true, Bool.or_eq_true, decide_eq_true_eq, Function.comp_apply]
  constructor
  · rintro ⟨old, oldMember, hit⟩
    by_cases own : old.id = id
    · rw [if_pos own] at hit
      simp only [Bool.and_eq_true, decide_eq_true_eq] at hit
      exact Or.inr (hit.1.symm.trans own)
    · rw [if_neg own] at hit
      exact Or.inl ⟨old, oldMember, hit⟩
  · rintro (⟨old, oldMember, hit⟩ | rfl)
    · refine ⟨old, oldMember, ?_⟩
      split
      · simp only [Bool.and_eq_true, decide_eq_true_eq] at hit ⊢
        exact ⟨hit.1, rfl⟩
      · exact hit
    · refine ⟨row, member, ?_⟩
      rw [if_pos isRow]
      simp [isRow]

/-- The rows of a batch are pending rows of the table, each once. -/
theorem due_rows : ((remints.due now locked).map Remint.id).Nodup ∧
    ∀ remint ∈ remints.due now locked, remint ∈ remints.rows ∧ remint.minted = none := by
  unfold due
  constructor
  · refine List.Nodup.sublist ((List.take_sublist _ _).map _) ?_
    rw [((List.perm_insertionSort _ _).map _).nodup_iff]
    exact remints.distinct.sublist (List.filter_sublist.map _)
  · intro remint member
    have sorted := List.mem_of_mem_take member
    rw [List.mem_insertionSort, List.mem_filter] at sorted
    simp only [Bool.and_eq_true, decide_eq_true_eq] at sorted
    exact ⟨sorted.1, sorted.2.1.1⟩

theorem due_pending {remint : Remint} (member : remint ∈ remints.due now locked) :
    remints.isMinted remint.id = false := by
  obtain ⟨isRow, pending⟩ := due_rows.2 remint member
  unfold isMinted
  rw [List.any_eq_false]
  intro row rowMember hit
  simp only [Bool.and_eq_true, decide_eq_true_eq] at hit
  rw [Table.eq_of_key remints.distinct rowMember isRow hit.1, pending] at hit
  exact absurd hit.2 Bool.false_ne_true

end Remints

namespace RemintDb

section

variable (tenv : TriggerEnv) (now : Nat) (registered : Bool)

/-- The minted re-mints of a batch are those that would be minted on their own. -/
def MintsAdmissible (db : RemintDb) (locked : Nat → Bool) : Prop :=
  ∀ remint ∈ db.remints.due now locked,
    (db.afterEnqueue tenv now registered locked).remints.isMinted remint.id =
      remint.admissible tenv now registered db.hosted

end

variable {tenv : TriggerEnv} {now : Nat} {registered : Bool} {start : Hosted} {db last : RemintDb}
  {before rest : List Remint} {remint : Remint} {admitted : Nat} {locked : Nat → Bool}

/-- The step of a batch: the re-mint is passed by, or minted ahead of the others. -/
theorem admitAll_cons (ran : db.admitAll tenv now registered (remint :: rest) = .ok (last, admitted)) :
    (remint.admitOne tenv now registered db.hosted = .ok none ∧
      db.admitAll tenv now registered rest = .ok (last, admitted)) ∨
    ∃ next run others decisions,
      remint.admitOne tenv now registered db.hosted = .ok (some (next, run)) ∧
      (RemintDb.mk next (db.remints.mint remint.id run) decisions).admitAll tenv now registered rest =
        .ok (last, others) := by
  unfold admitAll at ran
  split at ran
  · contradiction
  · rename_i passed
    exact Or.inl ⟨passed, ran⟩
  · rename_i next run minted
    obtain ⟨result, onward, same⟩ := map_eq_ok ran
    obtain ⟨rfl, _⟩ := Prod.mk.inj same
    exact Or.inr ⟨next, run, result.2, _, minted, onward⟩

theorem mint_known {id run : Nat} {remints : Remints}
    (known : ∀ remint ∈ rest, remint.id ∈ remints.rows.map Remint.id) :
    ∀ remint ∈ rest, remint.id ∈ (remints.mint id run).rows.map Remint.id := by
  intro remint member
  have keys : (remints.mint id run).rows.map Remint.id = remints.rows.map Remint.id :=
    Table.update_keys fun _ => rfl
  rw [keys]
  exact known remint member

theorem admitAll_frame {id : Nat} (ran : db.admitAll tenv now registered rest = .ok (last, admitted))
    (known : ∀ remint ∈ rest, remint.id ∈ db.remints.rows.map Remint.id)
    (absent : id ∉ rest.map Remint.id) : last.remints.isMinted id = db.remints.isMinted id := by
  induction rest generalizing db admitted with
  | nil =>
      obtain ⟨rfl, _⟩ := Prod.mk.inj (Except.ok.inj ran)
      rfl
  | cons remint rest ih =>
      rw [List.map_cons, List.mem_cons, not_or] at absent
      have knownRest : ∀ remint ∈ rest, remint.id ∈ db.remints.rows.map Remint.id :=
        fun other member => known other (List.mem_cons_of_mem _ member)
      rcases admitAll_cons ran with ⟨_, onward⟩ | ⟨next, run, others, decisions, _, onward⟩
      · exact ih onward knownRest absent.2
      · rw [ih onward (mint_known knownRest) absent.2,
          Remints.isMinted_mint (known remint List.mem_cons_self)]
        simp [absent.1]

/-- The rosters behind the re-mints of a batch that are minted. -/
def Behind (tenv : TriggerEnv) (now : Nat) (registered : Bool) (start : Hosted) (before : List Remint)
    (hosted : Hosted) : Prop :=
  ∀ key, hosted.roster key =
    (start.roster key).grown key (before.filter (·.admissible tenv now registered start))

theorem Behind.passed {hosted : Hosted} (behind : Behind tenv now registered start before hosted)
    (inadmissible : remint.admissible tenv now registered start = false) :
    Behind tenv now registered start (before ++ [remint]) hosted := by
  intro key
  rw [behind key, List.filter_append, List.filter_singleton, inadmissible]
  simp

theorem Behind.minted {hosted next : Hosted} {run : Nat}
    (behind : Behind tenv now registered start before hosted)
    (admissible : remint.admissible tenv now registered start = true)
    (admitted : remint.admitOne tenv now registered hosted = .ok (some (next, run))) :
    Behind tenv now registered start (before ++ [remint]) next := by
  intro key
  rw [(Remint.admitOne_some admitted).2.2 key, behind key, Roster.grown_append, List.filter_append,
    List.filter_singleton, admissible]
  rfl

theorem admitAll_of_undisturbed
    (undisturbed : ∀ between remint behind, rest = between ++ remint :: behind →
      remint.Undisturbed tenv now registered start (before ++ between))
    (behind : Behind tenv now registered start before db.hosted)
    (known : ∀ remint ∈ rest, remint.id ∈ db.remints.rows.map Remint.id) :
    ∃ last admitted, db.admitAll tenv now registered rest = .ok (last, admitted) ∧
      ∀ id, last.remints.isMinted id = (db.remints.isMinted id ||
        rest.any fun remint => remint.id = id && remint.admissible tenv now registered start) := by
  induction rest generalizing db before with
  | nil => exact ⟨db, 0, rfl, fun id => by simp⟩
  | cons remint rest ih =>
      have own := undisturbed [] remint rest rfl
      rw [List.append_nil] at own
      have admits := own.admitOne behind
      have others : ∀ between other behind, rest = between ++ other :: behind →
          other.Undisturbed tenv now registered start (before ++ [remint] ++ between) := by
        intro between other behind same
        rw [List.append_assoc]
        exact undisturbed (remint :: between) other behind (by rw [same]; rfl)
      have knownRest : ∀ remint ∈ rest, remint.id ∈ db.remints.rows.map Remint.id :=
        fun other member => known other (List.mem_cons_of_mem _ member)
      cases admissible : remint.admissible tenv now registered start with
      | false =>
          rw [admissible, if_neg Bool.false_ne_true] at admits
          obtain ⟨last, admitted, ran, minted⟩ := ih others (behind.passed admissible) knownRest
          refine ⟨last, admitted, ?_, fun id => ?_⟩
          · unfold admitAll
            rw [admits]
            exact ran
          · rw [minted id, List.any_cons, admissible]
            simp
      | true =>
          rw [admissible, if_pos rfl] at admits
          obtain ⟨next, run, admitted⟩ := admits
          obtain ⟨last, count, ran, minted⟩ :=
            @ih ⟨next, db.remints.mint remint.id run, db.decisions ++
              [⟨run, remint.fact.id, remint.attempt, remint.sourceRun⟩]⟩ (before ++ [remint]) others (behind.minted admissible admitted) (mint_known knownRest)
          refine ⟨last, count + 1, ?_, fun id => ?_⟩
          · unfold admitAll
            rw [admitted]
            dsimp only
            rw [ran]
            rfl
          · rw [minted id, Remints.isMinted_mint (known remint List.mem_cons_self), List.any_cons,
              admissible, Bool.and_true, Bool.or_assoc]
            simp only [eq_comm]

theorem undisturbed_of_admitAll (ran : db.admitAll tenv now registered rest = .ok (last, admitted))
    (behind : Behind tenv now registered start before db.hosted)
    (known : ∀ remint ∈ rest, remint.id ∈ db.remints.rows.map Remint.id)
    (once : (rest.map Remint.id).Nodup)
    (pending : ∀ remint ∈ rest, db.remints.isMinted remint.id = false)
    (agrees : ∀ remint ∈ rest, last.remints.isMinted remint.id =
      remint.admissible tenv now registered start) :
    ∀ between remint behind, rest = between ++ remint :: behind →
      remint.Undisturbed tenv now registered start (before ++ between) := by
  induction rest generalizing db before admitted with
  | nil =>
      intro between remint behind same
      exact absurd same.symm (List.append_ne_nil_of_right_ne_nil _ (List.cons_ne_nil _ _))
  | cons head rest ih =>
      rw [List.map_cons, List.nodup_cons] at once
      have knownRest : ∀ remint ∈ rest, remint.id ∈ db.remints.rows.map Remint.id :=
        fun other member => known other (List.mem_cons_of_mem _ member)
      have agreesRest : ∀ remint ∈ rest, last.remints.isMinted remint.id =
          remint.admissible tenv now registered start :=
        fun other member => agrees other (List.mem_cons_of_mem _ member)
      have pendingRest : ∀ remint ∈ rest, db.remints.isMinted remint.id = false :=
        fun other member => pending other (List.mem_cons_of_mem _ member)
      have step : head.Undisturbed tenv now registered start before ∧
          ∀ between remint behind, rest = between ++ remint :: behind →
            remint.Undisturbed tenv now registered start (before ++ [head] ++ between) := by
        rcases admitAll_cons ran with ⟨passed, onward⟩ | ⟨next, run, others, decisions, minted, onward⟩
        · have inadmissible : head.admissible tenv now registered start = false := by
            rw [← agrees head List.mem_cons_self, admitAll_frame onward knownRest once.1]
            exact pending head List.mem_cons_self
          exact ⟨Remint.undisturbed_of_admitOne behind passed inadmissible.symm,
            ih onward (behind.passed inadmissible) knownRest once.2 pendingRest agreesRest⟩
        · have admissible : head.admissible tenv now registered start = true := by
            rw [← agrees head List.mem_cons_self,
              admitAll_frame onward (mint_known knownRest) once.1,
              Remints.isMinted_mint (known head List.mem_cons_self)]
            simp
          refine ⟨Remint.undisturbed_of_admitOne behind minted admissible.symm,
            ih onward (behind.minted admissible minted) (mint_known knownRest) once.2 ?_ agreesRest⟩
          intro other member
          have apart : other.id ≠ head.id := fun same =>
            once.1 (same ▸ List.mem_map_of_mem member)
          rw [Remints.isMinted_mint (known head List.mem_cons_self), pendingRest other member]
          simp [apart]
      intro between remint behind same
      cases between with
      | nil =>
          obtain ⟨rfl, rfl⟩ := List.cons.inj same
          rw [List.append_nil]
          exact step.1
      | cons first between =>
          obtain ⟨rfl, isRest⟩ := List.cons.inj same
          have onward := step.2 between remint behind isRest
          rwa [List.append_assoc] at onward

/-- Where no re-mint is admissible nothing is minted. -/
theorem admitAll_inadmissible (ran : db.admitAll tenv now registered rest = .ok (last, admitted))
    (inadmissible : ∀ remint ∈ rest, remint.admissible tenv now registered db.hosted = false) :
    last = db := by
  induction rest generalizing admitted with
  | nil => exact (Prod.mk.inj (Except.ok.inj ran)).1.symm
  | cons remint rest ih =>
      rcases admitAll_cons ran with ⟨_, onward⟩ | ⟨next, run, _, _, minted, _⟩
      · exact ih onward fun other member => inadmissible other (List.mem_cons_of_mem _ member)
      · have admissible := Remint.admissible_iff.mpr ⟨next, run, minted⟩
        rw [inadmissible remint List.mem_cons_self] at admissible
        contradiction

/-- A call mints the re-mints of its batch that would be minted on their own exactly where none would,
or where each of the batch is undisturbed by those minted ahead of it. -/
theorem mintsAdmissible_iff (tenv : TriggerEnv) (now : Nat) (registered : Bool) (db : RemintDb)
    (locked : Nat → Bool) :
    db.MintsAdmissible tenv now registered locked ↔
      (∀ remint ∈ db.remints.due now locked,
        remint.admissible tenv now registered db.hosted = false) ∨
      ∀ before remint after, db.remints.due now locked = before ++ remint :: after →
        remint.Undisturbed tenv now registered db.hosted before := by
  have behind : Behind tenv now registered db.hosted [] db.hosted :=
    fun key => by simp [Roster.grown]
  have known : ∀ remint ∈ db.remints.due now locked, remint.id ∈ db.remints.rows.map Remint.id :=
    fun remint member => List.mem_map_of_mem (Remints.due_rows.2 remint member).1
  unfold MintsAdmissible afterEnqueue enqueueDueRemints
  constructor
  · intro agrees
    split at agrees
    · left
      intro remint member
      rw [← agrees remint member]
      exact Remints.due_pending member
    · rename_i next admitted ran
      right
      exact undisturbed_of_admitAll ran behind known Remints.due_rows.1
        (fun remint member => Remints.due_pending member) agrees
  · rintro (inadmissible | undisturbed) remint member
    · rw [inadmissible remint member]
      split
      · exact Remints.due_pending member
      · rename_i next admitted ran
        rw [admitAll_inadmissible ran inadmissible]
        exact Remints.due_pending member
    · obtain ⟨last, admitted, ran, minted⟩ := admitAll_of_undisturbed undisturbed behind known
      rw [ran]
      dsimp only
      rw [minted, Remints.due_pending member, Bool.false_or, Bool.eq_iff_iff, List.any_eq_true]
      simp only [Bool.and_eq_true, decide_eq_true_eq]
      constructor
      · rintro ⟨other, otherMember, same, admissible⟩
        rwa [← Table.eq_of_key Remints.due_rows.1 otherMember member same]
      · exact fun admissible => ⟨remint, member, rfl, admissible⟩

/-- The re-mint of subject `b` is due behind the run of `a` that fills the ceiling of `flow`, and ahead of
a re-mint of another workflow. -/
def atCeiling : RemintDb where
  hosted := { runs := [waitingRun] }
  remints :=
    { rows := [
        { id := 1, sourceRun := 8, version := ⟨"flow", "one", ""⟩, availableAt := 0
          fact := { id := "first", name := "opened", payload := "tier", subject := "b" } },
        { id := 2, sourceRun := 9, version := ⟨"other", "two", ""⟩, availableAt := 0
          fact := { id := "second", name := "opened", payload := "tier", subject := "c" } }]
      distinct := by decide }

/-- The first re-mint is refused by the ceiling of its workflow: the second one, which would be minted
on its own, stays pending. -/
theorem refused_remint_blocks_batch :
    ¬ ∀ (tenv : TriggerEnv) (now : Nat) (registered : Bool) (db : RemintDb) (locked : Nat → Bool),
      db.MintsAdmissible tenv now registered locked := by
  intro always
  have minted := always onTier.toTriggerEnv 0 true atCeiling (fun _ => false)
  revert minted
  unfold MintsAdmissible
  decide

end RemintDb

end CultureNodes.Engine
