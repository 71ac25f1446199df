import CultureNodes.Runners.Steps

/-!
An operation is executed at most once while its record is there, and a terminal record stays as it is. The
history says when records are created and removed and when a runner is called.
-/

namespace CultureNodes.Runners

variable {cfg : Config}

/-- Every execution of the operation so far has been followed by a removal of its record. -/
def Fresh (log : List Moment) (operationID : String) : Prop :=
  ∀ before after, log = before ++ Moment.executed operationID :: after → Moment.removed operationID ∈ after

/-- Between two executions of the operation its record has been removed. -/
def Once (log : List Moment) (operationID : String) : Prop :=
  ∀ before middle after,
    log = before ++ Moment.executed operationID :: (middle ++ Moment.executed operationID :: after) →
      Moment.removed operationID ∈ middle

section

variable {log moments before after : List Moment} {moment : Moment} {operationID : String}

/-- A moment that is not among the last ones is before them. -/
theorem split_before (split : log ++ moments = before ++ moment :: after) (earlier : moment ∉ moments) :
    ∃ rest, log = before ++ moment :: rest ∧ after = rest ++ moments := by
  rcases List.append_eq_append_iff.mp split with ⟨more, _, tail⟩ | ⟨more, head, tail⟩
  · refine absurd ?_ earlier
    rw [tail]
    exact List.mem_append_right _ List.mem_cons_self
  · cases more with
    | nil =>
        refine absurd ?_ earlier
        rw [List.nil_append] at tail
        exact tail ▸ List.mem_cons_self
    | cons first rest =>
        obtain ⟨rfl, rfl⟩ := List.cons.inj tail
        exact ⟨rest, head, rfl⟩

/-- A moment of a history that has just grown by one is the new one or was there. -/
theorem split_last {last : Moment} (split : log ++ [last] = before ++ moment :: after) :
    before = log ∨ ∃ rest, log = before ++ moment :: rest := by
  rcases List.append_eq_append_iff.mp split with ⟨more, head, tail⟩ | ⟨more, head, tail⟩
  · cases more with
    | nil => exact Or.inl (head.trans (List.append_nil _))
    | cons first rest =>
        have short := congrArg List.length tail
        simp at short
  · cases more with
    | nil => exact Or.inl ((List.append_nil _).symm.trans head.symm)
    | cons first rest =>
        obtain ⟨rfl, _⟩ := List.cons.inj tail
        exact Or.inr ⟨rest, head⟩

theorem Fresh.append (fresh : Fresh log operationID) (none : Moment.executed operationID ∉ moments) :
    Fresh (log ++ moments) operationID := by
  intro before after split
  obtain ⟨rest, isLog, rfl⟩ := split_before split none
  exact List.mem_append_left _ (fresh before rest isLog)

theorem fresh_of_removed (none : Moment.executed operationID ∉ moments)
    (gone : Moment.removed operationID ∈ moments) :
    Fresh (log ++ moments) operationID := by
  intro before after split
  obtain ⟨rest, _, rfl⟩ := split_before split none
  exact List.mem_append_right _ gone

theorem Once.append (once : Once log operationID) (none : Moment.executed operationID ∉ moments) :
    Once (log ++ moments) operationID := by
  intro before middle after split
  rw [← List.cons_append, ← List.append_assoc] at split
  obtain ⟨rest, isLog, _⟩ := split_before split none
  rw [List.append_assoc, List.cons_append] at isLog
  exact once before middle rest isLog

theorem Once.executed (once : Once log operationID) (fresh : Fresh log operationID) :
    Once (log ++ [Moment.executed operationID]) operationID := by
  intro before middle after split
  rw [← List.cons_append, ← List.append_assoc] at split
  rcases split_last split with last | ⟨rest, isLog⟩
  · exact fresh before middle last.symm
  · rw [List.append_assoc, List.cons_append] at isLog
    exact once before middle rest isLog

end

namespace ServiceState

variable {s next : ServiceState} {operationID : String}

/-- Nothing has been executed of what is not there or not started. -/
structure Told (s : ServiceState) : Prop where
  absent : ∀ name, s.records.get name = none → Fresh s.log name
  unstarted : ∀ name, s.memory.Unstarted name → Fresh s.log name
  once : ∀ name, Once s.log name

/-- A step that executes nothing keeps what the history tells. -/
theorem Told.append {moments : List Moment} (told : Told s) (log : next.log = s.log ++ moments)
    (still : ∀ name, Moment.executed name ∉ moments)
    (absent : ∀ name, next.records.get name = none →
      s.records.get name = none ∨ Moment.removed name ∈ moments)
    (unstarted : ∀ name, next.memory.Unstarted name →
      s.memory.Unstarted name ∨ s.records.get name = none) : Told next where
  absent name gone := by
    rw [log]
    rcases absent name gone with before | removed
    · exact (told.absent name before).append (still name)
    · exact fresh_of_removed (still name) removed
  unstarted name waits := by
    rw [log]
    rcases unstarted name waits with before | gone
    · exact (told.unstarted name before).append (still name)
    · exact (told.absent name gone).append (still name)
  once name := by
    rw [log]
    exact (told.once name).append (still name)

theorem StoreEffect.told (effect : StoreEffect s next) (told : Told s) : Told next := by
  cases effect with
  | quiet moments log plain records unstarted =>
      refine told.append log (fun name => not_mem_of_plain plain rfl) ?_ ?_
      · intro name gone
        exact Or.inl (records ▸ gone)
      · intro name waits
        exact Or.inl (unstarted name waits)
  | created record log absent records unstarted =>
      refine told.append log (by simp) ?_ ?_
      · intro name gone
        rw [records] at gone
        by_cases same : name = record.operationID
        · rw [same]
          exact Or.inl absent
        · exact Or.inl ((Records.get_put_other same).symm.trans gone)
      · intro name waits
        rcases unstarted name waits with before | rfl
        · exact Or.inl before
        · exact Or.inr absent
  | executed operationID log records live waiting unstarted =>
      have others : ∀ name, name ≠ operationID →
          Moment.executed name ∉ [Moment.executed operationID] := by
        intro name different member
        exact different (Moment.executed.inj (List.mem_singleton.mp member))
      refine ⟨fun name gone => ?_, fun name waits => ?_, fun name => ?_⟩
      · rw [records] at gone
        have different : name ≠ operationID := by
          rintro rfl
          obtain ⟨record, found, _⟩ := live
          rw [gone] at found
          contradiction
        rw [log]
        exact (told.absent name gone).append (others name different)
      · obtain ⟨before, different⟩ := unstarted name waits
        rw [log]
        exact (told.unstarted name before).append (others name different)
      · rw [log]
        by_cases same : name = operationID
        · rw [same]
          exact (told.once operationID).executed (told.unstarted operationID waiting)
        · exact (told.once name).append (others name same)
  | written record moments log plain live records unstarted =>
      refine told.append log (fun name => not_mem_of_plain plain rfl) ?_ ?_
      · intro name gone
        rw [records] at gone
        by_cases same : name = record.operationID
        · rw [same, Records.get_put_self] at gone
          contradiction
        · exact Or.inl ((Records.get_put_other same).symm.trans gone)
      · intro name waits
        exact Or.inl (unstarted name waits)
  | removed operationID moments log plain why records unstarted =>
      have still : ∀ name, Moment.executed name ∉ .removed operationID :: moments := by
        intro name member
        rcases List.mem_cons.mp member with other | later
        · cases other
        · exact not_mem_of_plain plain rfl later
      refine told.append log still ?_ ?_
      · intro name gone
        rw [records] at gone
        by_cases same : name = operationID
        · rw [same]
          exact Or.inr List.mem_cons_self
        · exact Or.inl ((Records.get_delete_other same).symm.trans gone)
      · intro name waits
        exact Or.inl (unstarted name waits)
  | forgotten log records down unstarted =>
      refine told.append log (by simp) ?_ ?_
      · intro name _
        cases found : s.records.get name with
        | none => exact Or.inl rfl
        | some record =>
            rw [← Keyed.key_get found]
            exact Or.inr (List.mem_map.mpr ⟨record, Keyed.mem_of_get found, rfl⟩)
      · intro name waits
        exact absurd waits (unstarted name)

theorem StoreEffect.terminal (effect : StoreEffect s next) {record : Record}
    (found : s.records.get operationID = some record) (terminal : record.terminal = true) :
    ∃ moments, next.log = s.log ++ moments ∧
      (Moment.removed operationID ∈ moments ∨ next.records.get operationID = some record) := by
  have notLive : ∀ name, s.records.Live name → operationID ≠ name := by
    rintro name ⟨other, isOther, pending⟩ rfl
    rw [found] at isOther
    rw [← Option.some.inj isOther, terminal] at pending
    contradiction
  cases effect with
  | quiet moments log plain records unstarted => exact ⟨moments, log, Or.inr (records ▸ found)⟩
  | created new log absent records unstarted =>
      have different : operationID ≠ new.operationID := by
        rintro rfl
        rw [absent] at found
        contradiction
      refine ⟨_, log, Or.inr ?_⟩
      rw [records]
      exact (Records.get_put_other different).trans found
  | executed name log records live waiting unstarted => exact ⟨_, log, Or.inr (records ▸ found)⟩
  | written new moments log plain live records unstarted =>
      refine ⟨moments, log, Or.inr ?_⟩
      rw [records]
      exact (Records.get_put_other (notLive _ live)).trans found
  | removed name moments log plain why records unstarted =>
      refine ⟨_, log, ?_⟩
      by_cases same : operationID = name
      · rw [same]
        exact Or.inl List.mem_cons_self
      · rw [records]
        exact Or.inr ((Records.get_delete_other same).trans found)
  | forgotten log records down unstarted =>
      refine ⟨_, log, Or.inl ?_⟩
      rw [← Keyed.key_get found]
      exact List.mem_map.mpr ⟨record, Keyed.mem_of_get found, rfl⟩

theorem Reachable.told (reached : Reachable cfg s) : Told s := by
  have both : Inv cfg s ∧ Told s := by
    refine Steps.invariant (fun s => Inv cfg s ∧ Told s) ⟨initial_inv, ?_⟩ ?_ reached
    · have nothing : ∀ name, Fresh [] name := by
        intro name before after split
        simp at split
      refine ⟨fun name _ => nothing name, fun name _ => nothing name, ?_⟩
      intro name before middle after split
      simp at split
    · intro t action u held _ taken
      exact ⟨act_inv held.1 taken, (act_effect held.1 taken).store.told held.2⟩
  exact both.2

theorem terminal_stays {t : ServiceState} (reached : Reachable cfg s)
    (ran : Steps (step cfg) anyAction s t) {record : Record}
    (found : s.records.get operationID = some record) (terminal : record.terminal = true) :
    ∃ moments, t.log = s.log ++ moments ∧
      (Moment.removed operationID ∈ moments ∨ t.records.get operationID = some record) := by
  induction ran with
  | refl => exact ⟨[], (List.append_nil _).symm, Or.inr found⟩
  | tail ran permitted taken ih =>
      obtain ⟨moments, log, kept⟩ := ih
      have before : Reachable cfg _ := reached.trans ran
      have effect := (act_effect before.inv taken).store
      rcases kept with gone | stays
      · obtain ⟨more, longer⟩ := effect.longer
        refine ⟨moments ++ more, by rw [longer, log, List.append_assoc], ?_⟩
        exact Or.inl (List.mem_append_left _ gone)
      · obtain ⟨more, longer, still⟩ := effect.terminal stays terminal
        refine ⟨moments ++ more, by rw [longer, log, List.append_assoc], ?_⟩
        exact still.imp_left (List.mem_append_right _)

/-- The runner is called for an operation at most once between the creation of its record and the removal,
and a record that is terminal stays as it is until it is removed. -/
theorem executed_once (reached : Reachable cfg s) (operationID : String) :
    (∀ before middle after,
      s.log = before ++ Moment.executed operationID :: (middle ++ Moment.executed operationID :: after) →
        Moment.removed operationID ∈ middle) ∧
    ∀ t, Steps (step cfg) anyAction s t → ∀ record,
      s.records.get operationID = some record → record.terminal = true →
        ∃ moments, t.log = s.log ++ moments ∧
          (Moment.removed operationID ∈ moments ∨ t.records.get operationID = some record) :=
  ⟨reached.told.once operationID, fun _ ran _ found terminal => terminal_stays reached ran found terminal⟩

/-- One worker, one place in the queue, and the shortest retention. -/
def oneWorker : Config where
  concurrency := 1
  queueDepth := 1
  pollAfter := 5 * second
  retention := minStatusRetention
  durable := true
  digestValue := fun _ => .ok "sha256:policy"
  enough := Nat.le_refl _

def firstOp : Operation where
  operationID := "op"
  runnerRevision := "r1"
  imageDigest := "sha256:image"
  policy := .null
  sourceDigest := none

def startActions : List Action := [.restart, .recover]

def acceptActions : List Action := [.execute firstOp "sha256:document" none, .enqueue, .enqueue]

def acceptedOp : Moment := .answered "op" (.ok (acceptanceFor oneWorker "op"))

/-- The worker takes the operation and calls its runner. -/
def runActions : List Action :=
  [.take (.pool 0), .work (.pool 0), .work (.pool 0), .work (.pool 0), .work (.pool 0)]

/-- The runner answers, and the worker ends the operation. -/
def endActions : List Action :=
  [.answer 0 (.error (.dispatch .timeout "too slow")), .work (.pool 0), .work (.pool 0),
    .work (.pool 0), .work (.pool 0)]

/-- The retention elapses, and the sweep comes by. -/
def sweepActions : List Action := [.clock (minStatusRetention + 1), .sweep, .sweep, .sweep, .sweep]

/-- An operation that is sent again after its record was removed is executed again. -/
theorem executed_once_again : ∃ s, Reachable oneWorker s ∧
    s.log.filter (!·.plain) = [.created "op", .executed "op", .removed "op", .created "op", .executed "op"] ∧
    ∀ before middle after,
      s.log = before ++ Moment.executed "op" :: (middle ++ Moment.executed "op" :: after) →
        Moment.removed "op" ∈ middle := by
  have ran : (Steps.ofList (act oneWorker) (fun _ _ => true) {} (startActions ++ acceptActions ++
      runActions ++ endActions ++ sweepActions ++ acceptActions ++ runActions)).map
        (fun s => s.log.filter (!·.plain)) =
      some [.created "op", .executed "op", .removed "op", .created "op", .executed "op"] := by
    decide +kernel
  obtain ⟨s, reached, seen⟩ := Steps.reaches_of_ofList (fun _ _ _ => trivial) ran
  exact ⟨s, reached, seen, (executed_once reached "op").1⟩

end ServiceState
end CultureNodes.Runners
