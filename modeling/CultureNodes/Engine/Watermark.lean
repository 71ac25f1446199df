import CultureNodes.Engine.Independence
import CultureNodes.Library.Transition
import Mathlib.Data.List.Chain

/-!
Redelivery under a source's watermark. One watermark is kept for each source, its cursor: a delivery
that repeats it is answered with the event appended before, and any other one moves it.
-/

namespace CultureNodes.Engine

/-- The tables of a namespace, and beside them what was appended under a source, oldest first. -/
structure Feed where
  db : SignalDb := {}
  appended : List (String × Payload) := []

/-- A delivery, or anything else that writes to the namespace: it leaves the events and the watermarks
alone. -/
inductive FeedAction where
  | deliver (published : Published) (now : Nat) (input : DeliverSignalEventInput) (eventID : String)
  | elsewhere (hosted : Hosted) (cutovers : List JiraCutover) (tickets : List TicketRow)

namespace Feed

variable (senv : SignalEnv) (query : NewestQuery) (feed : Feed)

/-- A delivery that fails writes nothing and is no step. -/
def act : FeedAction → Option Feed
  | .deliver published now input eventID =>
      match deliverSignalEvent senv now query published feed.db input eventID with
      | .error _ => none
      | .ok (next, delivery) =>
          if delivery.duplicate ∨ input.sourceKey = "" then some { feed with db := next }
          else some ⟨next, feed.appended ++ [(input.sourceKey, input.watermark)]⟩
  | .elsewhere hosted cutovers tickets =>
      some { feed with
        db := { feed.db with hosted := hosted, cutovers := cutovers, tickets := tickets } }

def step (feed : Feed) (action : FeedAction) (next : Feed) : Prop :=
  feed.act senv query action = some next

/-- The watermarks appended under a source, oldest first. -/
def ofSource (key : String) : List Payload :=
  (feed.appended.filter (·.1 = key)).map Prod.snd

end Feed

section

variable {senv : SignalEnv} {now : Nat} {query : NewestQuery} {published : Published}
  {db next : SignalDb} {input : DeliverSignalEventInput} {eventID : String} {delivery : SignalDelivery}

theorem recordTicket_events {event : SignalEvent} (recorded : db.recordTicket senv event = .ok next) :
    next.events = db.events ∧ next.watermarks = db.watermarks := by
  unfold SignalDb.recordTicket at recorded
  repeat' split at recorded
  all_goals first
    | contradiction
    | rw [← Except.ok.inj recorded]; exact ⟨rfl, rfl⟩

theorem appendFact_onward {before : Before} (appended : appendFact senv now db input eventID = .ok before) :
    ∃ after told fact, before = .onward after told fact ∧ told.duplicate = false ∧
      after.events = db.events ++ [input.event eventID] ∧
      after.watermarks = (db.advanceWatermark input eventID).watermarks := by
  unfold appendFact at appended
  dsimp only at appended
  split at appended
  · contradiction
  · rename_i recorded ticket
    obtain ⟨picked, _, rfl⟩ := map_eq_ok appended
    obtain ⟨events, watermarks⟩ := recordTicket_events ticket
    refine ⟨_, _, _, rfl, rfl, ?_, ?_⟩
    · unfold SignalDb.advanceWatermark
      split <;> exact events
    · unfold SignalDb.advanceWatermark
      split
      · exact watermarks
      · simp only [watermarks]

/-- A delivery that commits is answered as a duplicate and writes nothing, or appends its fact and
moves its source's watermark. -/
theorem deliverSignalEvent_cases
    (delivered : deliverSignalEvent senv now query published db input eventID = .ok (next, delivery)) :
    (next = db ∧ delivery.duplicate = true) ∨
    (delivery.duplicate = false ∧ input.validate = .ok () ∧ db.duplicateOf input = .ok none ∧
      next.events = db.events ++ [input.event eventID] ∧
      next.watermarks = (db.advanceWatermark input eventID).watermarks) := by
  unfold deliverSignalEvent at delivered
  split at delivered
  · contradiction
  · rename_i told settled
    obtain ⟨rfl, rfl⟩ := Prod.mk.inj (Except.ok.inj delivered)
    refine Or.inl ⟨rfl, ?_⟩
    unfold deliverFact at settled
    split at settled
    · contradiction
    · split at settled
      · contradiction
      · rw [← Before.settled.inj (Except.ok.inj settled)]
      · split at settled
        · contradiction
        · rw [← Before.settled.inj (Except.ok.inj settled)]
        · obtain ⟨_, _, _, isOnward, _⟩ := appendFact_onward settled
          contradiction
  · rename_i after told fact onward
    obtain ⟨⟨hosted, triggered⟩, _, same⟩ := map_eq_ok delivered
    obtain ⟨rfl, rfl⟩ := Prod.mk.inj same
    refine Or.inr ?_
    unfold deliverFact at onward
    split at onward
    · contradiction
    · rename_i valid
      split at onward
      · contradiction
      · cases onward
      · split at onward
        · contradiction
        · cases onward
        · rename_i unseen
          obtain ⟨_, _, _, isOnward, fresh, events, watermarks⟩ := appendFact_onward onward
          obtain ⟨rfl, rfl, rfl⟩ := Before.onward.inj isOnward
          exact ⟨fresh, valid, unseen, events, watermarks⟩

theorem validate_watermark (valid : input.validate = .ok ()) (sourced : input.sourceKey ≠ "") :
    input.watermark ≠ "" := by
  intro missing
  unfold DeliverSignalEventInput.validate at valid
  split at valid
  · contradiction
  · split at valid
    · contradiction
    · split at valid
      · contradiction
      · rename_i together
        simp [sourced, missing] at together

end

/-- The watermark kept for a source is the last one appended under it, with the event it was appended
with. -/
structure Feed.Cursors (feed : Feed) : Prop where
  kept : ∀ row ∈ feed.db.watermarks, (feed.ofSource row.sourceKey).getLast? = some row.watermark ∧
    ∃ event ∈ feed.db.events, event.id = row.event
  last : ∀ key watermark, (feed.ofSource key).getLast? = some watermark →
    ∃ row ∈ feed.db.watermarks, row.sourceKey = key ∧ row.watermark = watermark
  changes : ∀ key, (feed.ofSource key).IsChain (· ≠ ·)
  facts : (feed.db.events.map (·.sourceKey)).filter (· ≠ "") = feed.appended.map Prod.fst

namespace Feed.Cursors

variable {senv : SignalEnv} {now : Nat} {query : NewestQuery} {published : Published}
  {feed next : Feed} {input : DeliverSignalEventInput} {eventID : String} {action : FeedAction}

theorem ofSource_append (feed : Feed) (db : SignalDb) (key other : String) (watermark : Payload) :
    (Feed.mk db (feed.appended ++ [(key, watermark)])).ofSource other =
      if key = other then feed.ofSource other ++ [watermark] else feed.ofSource other := by
  unfold Feed.ofSource
  rw [List.filter_append]
  by_cases same : key = other <;> simp [same]

/-- A source whose last watermark is the delivery's has a row that the delivery finds. -/
theorem duplicateOf (cursors : feed.Cursors) (sourced : input.sourceKey ≠ "")
    (given : input.watermark ≠ "")
    (repeated : (feed.ofSource input.sourceKey).getLast? = some input.watermark) :
    ∃ event, feed.db.duplicateOf input = .ok (some event) := by
  obtain ⟨row, member, sameKey, sameWatermark⟩ := cursors.last _ _ repeated
  have hit : (row.sourceKey = input.sourceKey &&
      row.watermark = jsonOrEmptyObject input.watermark) = true := by
    simp [sameKey, sameWatermark, jsonOrEmptyObject, given]
  unfold SignalDb.duplicateOf
  rw [if_neg sourced]
  cases found : feed.db.watermarks.find? (fun row => row.sourceKey = input.sourceKey &&
      row.watermark = jsonOrEmptyObject input.watermark) with
  | none => exact absurd hit (List.find?_eq_none.mp found row member)
  | some kept =>
      obtain ⟨event, isEvent, id⟩ := (cursors.kept kept (List.mem_of_find?_eq_some found)).2
      cases loaded : feed.db.events.find? (·.id = kept.event) with
      | none => exact absurd id (by simpa using List.find?_eq_none.mp loaded event isEvent)
      | some event => exact ⟨event, by simp only [loaded]⟩

/-- A delivery that finds no row of its watermark is not a repetition of the last one. -/
theorem unseen (cursors : feed.Cursors) (sourced : input.sourceKey ≠ "")
    (given : input.watermark ≠ "") (missing : feed.db.duplicateOf input = .ok none) :
    (feed.ofSource input.sourceKey).getLast? ≠ some input.watermark := by
  intro repeated
  obtain ⟨event, found⟩ := cursors.duplicateOf sourced given repeated
  rw [missing] at found
  cases found

theorem deliver (cursors : feed.Cursors)
    (acted : feed.act senv query (.deliver published now input eventID) = some next) :
    next.Cursors := by
  unfold Feed.act at acted
  dsimp only at acted
  split at acted
  · contradiction
  · rename_i after delivery delivered
    rcases deliverSignalEvent_cases delivered with ⟨rfl, duplicate⟩ |
      ⟨fresh, valid, missing, events, watermarks⟩
    · rw [if_pos (Or.inl duplicate), Option.some.injEq] at acted
      rw [← acted]
      exact ⟨cursors.kept, cursors.last, cursors.changes, cursors.facts⟩
    · have grown : ∀ row : Watermark, (∃ event ∈ feed.db.events, event.id = row.event) →
          ∃ event ∈ after.events, event.id = row.event := by
        rintro row ⟨event, member, id⟩
        rw [events]
        exact ⟨event, List.mem_append_left _ member, id⟩
      by_cases sourced : input.sourceKey = ""
      · have same : after.watermarks = feed.db.watermarks := by
          rw [watermarks, SignalDb.advanceWatermark, if_pos sourced]
        rw [if_pos (Or.inr sourced), Option.some.injEq] at acted
        rw [← acted]
        have unsourced : (input.event eventID).sourceKey = "" := sourced
        refine ⟨fun row member => ?_, fun key watermark isLast => ?_, cursors.changes,
          by simpa [events, unsourced] using cursors.facts⟩
        · obtain ⟨isLast, event⟩ := cursors.kept row (same ▸ member)
          exact ⟨isLast, grown row event⟩
        · rw [same]
          exact cursors.last key watermark isLast
      · have moved : after.watermarks = feed.db.watermarks.filter (·.sourceKey ≠ input.sourceKey) ++
            [⟨input.sourceKey, input.watermark, eventID⟩] := by
          rw [watermarks, SignalDb.advanceWatermark, if_neg sourced]
        rw [if_neg (by simp [fresh, sourced]), Option.some.injEq] at acted
        rw [← acted]
        have different := cursors.unseen sourced (validate_watermark valid sourced) missing
        have ownKey : (input.event eventID).sourceKey = input.sourceKey := rfl
        refine ⟨fun row member => ?_, fun key watermark isLast => ?_, fun key => ?_,
          by simpa [events, ownKey, sourced] using cursors.facts⟩
        · rw [ofSource_append]
          rw [moved] at member
          rcases List.mem_append.mp member with old | new
          · obtain ⟨isRow, other⟩ := List.mem_filter.mp old
            obtain ⟨isLast, event⟩ := cursors.kept row isRow
            rw [if_neg fun same => by simp [same] at other]
            exact ⟨isLast, grown row event⟩
          · rw [List.mem_singleton.mp new, if_pos rfl, List.getLast?_concat, events]
            exact ⟨rfl, _, List.mem_append_right _ (List.mem_singleton_self _), rfl⟩
        · rw [moved]
          rw [ofSource_append] at isLast
          split at isLast
          · rename_i same
            rw [List.getLast?_concat, Option.some.injEq] at isLast
            exact ⟨_, List.mem_append_right _ (List.mem_singleton_self _), same, isLast⟩
          · rename_i other
            obtain ⟨row, member, sameKey, sameWatermark⟩ := cursors.last key watermark isLast
            refine ⟨row, List.mem_append_left _ (List.mem_filter.mpr ⟨member, ?_⟩), sameKey,
              sameWatermark⟩
            rw [sameKey]
            simpa using Ne.symm other
        · rw [ofSource_append]
          split
          · rename_i same
            subst same
            rw [List.isChain_append]
            refine ⟨cursors.changes _, List.isChain_singleton _, fun watermark isLast other isNew => ?_⟩
            rw [List.head?_singleton, Option.mem_some_iff] at isNew
            subst isNew
            rintro rfl
            exact different isLast
          · exact cursors.changes key

theorem act (cursors : feed.Cursors) (acted : feed.act senv query action = some next) :
    next.Cursors := by
  cases action with
  | deliver published now input eventID => exact cursors.deliver acted
  | elsewhere hosted cutovers tickets =>
      rw [← Option.some.inj acted]
      exact ⟨cursors.kept, cursors.last, cursors.changes, cursors.facts⟩

end Feed.Cursors

/-- Between two appends under one source with one watermark another watermark of that source is
appended, and a delivery that repeats the last one is answered as a duplicate and does nothing, unless
the cutover of its Jira history refuses it. -/
theorem repeated_watermark_is_duplicate {senv : SignalEnv} {query : NewestQuery} {feed : Feed}
    (run : Steps (Feed.step senv query) anyAction {} feed) :
    (feed.db.events.map (·.sourceKey)).filter (· ≠ "") = feed.appended.map Prod.fst ∧
    (∀ key, (feed.ofSource key).IsChain (· ≠ ·)) ∧
    ∀ (published : Published) (now : Nat) (input : DeliverSignalEventInput) (eventID : String),
      input.validate = .ok () → input.sourceKey ≠ "" →
      (feed.ofSource input.sourceKey).getLast? = some input.watermark →
      (feed.db.suppressed senv input).isOk = true →
      ∃ delivery, deliverSignalEvent senv now query published feed.db input eventID =
          .ok (feed.db, delivery) ∧
        delivery.duplicate = true ∧ delivery.fired = [] ∧ delivery.pickups = [] ∧
        delivery.triggered = [] := by
  have cursors : feed.Cursors := run.invariant _
    ⟨fun _ member => absurd member List.not_mem_nil,
      fun _ _ isLast => (Option.some_ne_none _ isLast.symm).elim, fun _ => .nil, rfl⟩
    fun _ _ _ kept _ acted => kept.act acted
  refine ⟨cursors.facts, cursors.changes, ?_⟩
  intro published now input eventID valid sourced repeated accepted
  obtain ⟨event, found⟩ :=
    cursors.duplicateOf sourced (validate_watermark valid sourced) repeated
  obtain ⟨suppressed, decided⟩ := isOk_iff.mp accepted
  cases suppressed with
  | true =>
      refine ⟨{ duplicate := true, suppressed := true }, ?_, rfl, rfl, rfl, rfl⟩
      unfold deliverSignalEvent deliverFact
      simp only [valid, decided]
  | false =>
      refine ⟨{ event := some event, duplicate := true }, ?_, rfl, rfl, rfl, rfl⟩
      unfold deliverSignalEvent deliverFact
      simp only [valid, decided, found]

def polled (revision : Payload) : DeliverSignalEventInput where
  name := "polled"
  emitter := "poller"
  sourceKey := "source"
  watermark := revision

def poll (revision : Payload) (eventID : String) : FeedAction :=
  .deliver flowAlone 0 (polled revision) eventID

/-- The second of two polls that find the same revision. -/
theorem repeated_poll_is_duplicate :
    ∃ feed : Feed, feed.appended = [("source", "1")] ∧
      ∃ delivery, deliverSignalEvent onTier 0 .inOrder flowAlone feed.db (polled "1") "second" =
          .ok (feed.db, delivery) ∧ delivery.duplicate = true := by
  have ran : (Steps.ofList (Feed.act onTier .inOrder) (fun _ _ => true) {} [poll "1" "first"]).map
      Feed.appended = some [("source", "1")] := by decide +kernel
  obtain ⟨feed, reached, appended⟩ := Option.map_eq_some_iff.mp ran
  have run : Steps (Feed.step onTier .inOrder) anyAction {} feed :=
    Steps.of_ofList (fun _ _ _ => trivial) reached
  obtain ⟨delivery, answered, duplicate, _⟩ := (repeated_watermark_is_duplicate run).2.2 flowAlone 0
    (polled "1") "second" (by decide) (by decide) (by rw [Feed.ofSource, appended]; decide) rfl
  exact ⟨feed, appended, delivery, answered, duplicate⟩

/-- The source goes to another revision and back: the first revision is appended again. -/
theorem earlier_watermark_appended_again :
    ¬ ∀ (senv : SignalEnv) (query : NewestQuery) (feed : Feed),
      Steps (Feed.step senv query) anyAction {} feed → feed.appended.Nodup := by
  intro always
  have ran : (Steps.ofList (Feed.act onTier .inOrder) (fun _ _ => true) {}
      [poll "1" "first", poll "2" "second", poll "1" "third"]).map Feed.appended =
      some [("source", "1"), ("source", "2"), ("source", "1")] := by decide +kernel
  obtain ⟨feed, reached, appended⟩ := Option.map_eq_some_iff.mp ran
  have once := always onTier .inOrder feed (Steps.of_ofList (fun _ _ _ => trivial) reached)
  rw [appended] at once
  exact absurd once (by decide)

end CultureNodes.Engine
