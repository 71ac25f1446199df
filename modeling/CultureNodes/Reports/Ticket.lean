import CultureNodes.Library.Json
import CultureNodes.Reports.Lane

/-!
The reports on a ticket. The first and the last event of a run that a ticket triggered each queue a comment on
the ticket, in the transaction of the event; the start of the first such run queues the link to the ticket's
page. Replies and pull requests queue reports that belong to no run. A dispatcher holds a finish back while
the start of its run is unsettled.
-/

namespace CultureNodes.Reports

inductive Phase where
  | start
  | finish
  | reply
  | pageLink
  | inReview
deriving DecidableEq, Repr

/-- The columns of `jira_ticket_report_outbox` a dispatcher reads. -/
structure Report where
  namespaceID : String
  runID : Option String := none
  triggerEventID : Option String := none
  phase : Phase
  targetActorKey : String
  issueKey : String
  payload : Json

/-- The parts of an invocation that a lane fills in. -/
structure Invocation where
  runID : String
  tokenID : String
  nodeRunID : String
  attemptID : String
  workflow : String
  node : String
  input : Json

def ticketInvocation (id : String) (report : Report) : Option Invocation :=
  match report.payload.decodeText "issue", report.payload.decodeText "comment" with
  | some issue, some comment =>
      some { runID := report.runID.getD ("ticket-" ++ issue)
             tokenID := report.triggerEventID.getD id
             nodeRunID := "ticket-report-" ++ id
             attemptID := id
             workflow := "jira-ticket-report"
             node := "post-comment"
             input := .object [("comment", .string comment), ("issue", .string issue),
               ("verb", .string "post_comment")] }
  | _, _ => none

/-- A finish waits while a start of its run is neither published nor given up. -/
def ticketRipe (rows : List (Message Report)) (row : Message Report) : Bool :=
  row.body.phase ≠ .finish || !rows.any fun other =>
    other.body.phase = .start && other.body.runID.isSome && other.body.runID = row.body.runID &&
      other.body.namespaceID = row.body.namespaceID && other.status = .pending

/-- What left for the bridge, and the report it left for. -/
structure Sent where
  report : Report
  invocation : Invocation

def ticketLane : Lane Report Sent where
  ripe := ticketRipe
  invocation := fun id report => (ticketInvocation id report).map (Sent.mk report)
  attemptID := fun sent => sent.invocation.attemptID
  identified := by
    intro id report sent invoked
    obtain ⟨invocation, isInvocation, rfl⟩ := Option.map_eq_some_iff.mp invoked
    unfold ticketInvocation at isInvocation
    split at isInvocation
    · rw [← Option.some.inj isInvocation]
    · contradiction
  lasting := by
    intro rows after row settling ripe
    simp only [ticketRipe, Bool.or_eq_true, Bool.not_eq_true', List.any_eq_false] at ripe ⊢
    refine ripe.imp_right fun free other isOther blocks => ?_
    obtain ⟨old, isOld, sameBody, pending⟩ := settling other isOther
    refine free old isOld ?_
    rw [sameBody] at blocks
    simp only [Bool.and_eq_true, decide_eq_true_eq] at blocks ⊢
    exact ⟨blocks.1, pending blocks.2⟩

/-- Where a message about a human task goes. -/
inductive Channel where
  | jiraComment
  | jiraTransition
  | notify
deriving DecidableEq, Repr

def Channel.text : Channel → String
  | .jiraComment => "jira_comment"
  | .jiraTransition => "jira_transition"
  | .notify => "notify"

/-- The columns of `human_task_fanout_outbox` a drain reads. -/
structure FanOutRow where
  namespaceID : String
  humanTaskID : String
  runID : String
  channel : Channel
  targetActorKey : String
  payload : Json

/-- The invocation of a message about a human task, whose payload goes out as it is. -/
def fanOutInvocation (id : String) (row : FanOutRow) : Invocation where
  runID := row.runID
  tokenID := row.humanTaskID
  nodeRunID := "human-task-fanout-" ++ row.humanTaskID
  attemptID := id
  workflow := "human-task-fanout"
  node := row.channel.text
  input := row.payload

/-- No message about a human task waits for another. -/
def humanFanOutLane : Lane FanOutRow Invocation where
  ripe := fun _ _ => true
  invocation := fun id row => some (fanOutInvocation id row)
  attemptID := Invocation.attemptID
  identified := by
    rintro id row sent ⟨⟩
    rfl
  lasting := fun _ _ _ _ ripe => ripe

/-- A run with the provenance its reports need. -/
structure ReportedRun where
  id : String
  namespaceID : String
  triggerEventID : String
  sourceKey : String
  workflowKey : String
deriving DecidableEq, Repr

/-- The issue of a source key `jira:<site>:<issue>:…`. -/
def issueOf (sourceKey : String) : Option String :=
  match (sourceKey.toList.splitOn ':').map String.ofList with
  | "jira" :: site :: issue :: _ :: _ => if site = "" ∨ issue = "" then none else some issue
  | _ => none

def reporterActorKey : String := "company/jira-comment"

def commentPayload (issue comment : String) (phase : Phase) (rest : List (String × Json)) : Json :=
  let name := match phase with
    | .start => "start"
    | .finish => "finish"
    | .reply => "reply"
    | .pageLink => "page-link"
    | .inReview => "in-review"
  .object ([("verb", .string "post_comment"), ("issue", .string issue), ("comment", .string comment),
    ("phase", .string name)] ++ rest)

def runReport (run : ReportedRun) (issue : String) (phase : Phase) (outcome comment : String) : Report where
  namespaceID := run.namespaceID
  runID := some run.id
  triggerEventID := some run.triggerEventID
  phase := phase
  targetActorKey := reporterActorKey
  issueKey := issue
  payload := commentPayload issue comment phase [("run_id", .string run.id), ("workflow", .string run.workflowKey),
    ("trigger_event_id", .string run.triggerEventID), ("outcome", .string outcome)]

def startReport (run : ReportedRun) (issue outcome : String) : Report :=
  runReport run issue .start outcome ("culture-nodes started run " ++ run.id ++ " (workflow " ++ run.workflowKey ++
    ", trigger event " ++ run.triggerEventID ++ ")")

def finishReport (run : ReportedRun) (issue outcome : String) : Report :=
  runReport run issue .finish outcome ("culture-nodes finished run " ++ run.id ++ " with outcome " ++ outcome)

def pageLinkReport (namespaceID issue base : String) : Report where
  namespaceID := namespaceID
  phase := .pageLink
  targetActorKey := reporterActorKey
  issueKey := issue
  payload := commentPayload issue
    ("culture-nodes page: " ++ base ++ "/tickets/" ++ issue ++ " [culture-nodes:ticket-page-link]") .pageLink []

def replyReport (namespaceID issue comment : String) : Report where
  namespaceID := namespaceID
  phase := .reply
  targetActorKey := reporterActorKey
  issueKey := issue
  payload := commentPayload issue comment .reply []

/-- The report of a pull request that was opened asks for the ticket's transition, not for a comment. -/
def inReviewReport (namespaceID issue eventID : String) : Report where
  namespaceID := namespaceID
  triggerEventID := some eventID
  phase := .inReview
  targetActorKey := reporterActorKey
  issueKey := issue
  payload := .object [("issue", .string issue), ("target", .string "In Review"), ("verb", .string "transition_issue")]

structure TicketState where
  runs : List ReportedRun := []
  outbox : Outbox.State (Message Report) Sent := {}

inductive TicketAction where
  | createRun (now : Int) (run : ReportedRun) (status base startID pageID : String)
  | endRun (now : Int) (run : ReportedRun) (outcome finishID : String)
  | reply (now : Int) (namespaceID issue comment id : String)
  | prOpened (now : Int) (namespaceID issue eventID id : String)
  | dispatch (action : LaneAction)
deriving DecidableEq, Repr

/-- Insert a report unless a row of the table conflicts with it. -/
def enqueue (outbox : Outbox.State (Message Report) Sent) (now : Int) (id : String) (report : Report)
    (conflicts : Report → Bool) : Option (Outbox.State (Message Report) Sent) :=
  if outbox.rows.any fun row => conflicts row.body then some outbox
  else if id ∈ outbox.rows.map Message.id then none
  else some (outbox.insert { id := id, body := report, availableAt := now })

/-- The unique index on the run and the phase. -/
def sameRunPhase (report other : Report) : Bool :=
  other.runID.isSome && other.runID = report.runID && other.phase = report.phase

/-- The unique index on the page link of an issue. -/
def samePageLink (report other : Report) : Bool :=
  other.phase = .pageLink && other.namespaceID = report.namespaceID && other.issueKey = report.issueKey

/-- The reports of the first event of a run. -/
def startReports (outbox : Outbox.State (Message Report) Sent) (now : Int) (run : ReportedRun)
    (status base startID pageID : String) : Option (Outbox.State (Message Report) Sent) :=
  match issueOf run.sourceKey with
  | none => some outbox
  | some issue =>
      let start := startReport run issue status
      let link := pageLinkReport run.namespaceID issue base
      (enqueue outbox now startID start (sameRunPhase start)).bind fun begun =>
        enqueue begun now pageID link (samePageLink link)

/-- The report of the last event of a run. -/
def finishReports (outbox : Outbox.State (Message Report) Sent) (now : Int) (run : ReportedRun)
    (outcome finishID : String) : Option (Outbox.State (Message Report) Sent) :=
  match issueOf run.sourceKey with
  | none => some outbox
  | some issue =>
      let finish := finishReport run issue outcome
      enqueue outbox now finishID finish (sameRunPhase finish)

def TicketState.act (state : TicketState) : TicketAction → Option TicketState
  | .createRun now run status base startID pageID =>
      if run.id ∈ state.runs.map ReportedRun.id then none
      else
        (startReports state.outbox now run status base startID pageID).map fun outbox =>
          { runs := state.runs ++ [run], outbox := outbox }
  | .endRun now run outcome finishID =>
      if run ∈ state.runs then
        (finishReports state.outbox now run outcome finishID).map fun outbox => { state with outbox := outbox }
      else none
  | .reply now namespaceID issue comment id =>
      (enqueue state.outbox now id (replyReport namespaceID issue comment) fun _ => false).map fun outbox =>
        { state with outbox := outbox }
  | .prOpened now namespaceID issue eventID id =>
      (enqueue state.outbox now id (inReviewReport namespaceID issue eventID) fun _ => false).map fun outbox =>
        { state with outbox := outbox }
  | .dispatch action => (ticketLane.act state.outbox action).map fun outbox => { state with outbox := outbox }

/-- The starts of a report's run are settled. -/
def Started (rows : List (Message Report)) (report : Report) : Prop :=
  ∀ other ∈ rows, other.body.phase = .start → other.body.runID.isSome → other.body.runID = report.runID →
    other.body.namespaceID = report.namespaceID → other.status ≠ .pending

theorem started_of_ripe {rows : List (Message Report)} {row : Message Report} (ripe : ticketRipe rows row = true)
    (finish : row.body.phase = .finish) : Started rows row.body := by
  intro other member isStart isRun sameRun sameNamespace pending
  simp only [ticketRipe, finish, ne_eq, not_true_eq_false, decide_false, Bool.false_or, Bool.not_eq_true',
    List.any_eq_false] at ripe
  have absent := ripe other member
  rw [sameRun] at isRun
  simp [isStart, isRun, sameRun, sameNamespace, pending] at absent

/-- Two reports that the index on the run and the phase keeps apart. -/
def SameRun (one other : Report) : Prop :=
  one.runID.isSome ∧ one.runID = other.runID ∧ one.phase = other.phase

/-- Two reports that the index on the page link keeps apart. -/
def SameLink (one other : Report) : Prop :=
  one.phase = .pageLink ∧ other.phase = .pageLink ∧ one.namespaceID = other.namespaceID ∧ one.issueKey = other.issueKey

theorem SameRun.symm {one other : Report} (same : SameRun one other) : SameRun other one :=
  ⟨same.2.1 ▸ same.1, same.2.1.symm, same.2.2.symm⟩

theorem SameLink.symm {one other : Report} (same : SameLink one other) : SameLink other one :=
  ⟨same.2.1, same.1, same.2.2.1.symm, same.2.2.2.symm⟩

theorem not_sameRun {report other : Report} (apart : sameRunPhase report other = false) : ¬SameRun report other := by
  intro same
  rw [sameRunPhase, ← same.2.1, same.1, same.2.2] at apart
  simp at apart

theorem not_sameLink {report other : Report} (apart : samePageLink report other = false) :
    ¬SameLink report other := by
  intro same
  rw [samePageLink, same.2.1, same.2.2.1, same.2.2.2] at apart
  simp at apart

/-- No two rows hold reports that are to be kept apart. -/
def Alone (same : Report → Report → Prop) (rows : List (Message Report)) : Prop :=
  ∀ one ∈ rows, ∀ other ∈ rows, same one.body other.body → one.id = other.id

variable {outbox next : Outbox.State (Message Report) Sent}

theorem body_of_rows {after : Message Report} (did : ticketLane.Did outbox next)
    (sound : Outbox.Sound ticketLane.rules outbox) (member : after ∈ next.rows) :
    ∃ row ∈ outbox.rows, after.id = row.id ∧ after.body = row.body ∧
      (after.status = .pending → row.status = .pending) := by
  obtain ⟨row, isRow, same | ⟨pending, _, marks⟩⟩ := did.rows sound member
  · exact ⟨row, isRow, by simp [same]⟩
  · exact ⟨row, isRow, marks.same.1, marks.same.2.1, fun _ => pending⟩

theorem Started.did {report : Report} (did : ticketLane.Did outbox next)
    (sound : Outbox.Sound ticketLane.rules outbox) (started : Started outbox.rows report) :
    Started next.rows report := by
  intro after member isStart isRun sameRun sameNamespace pending
  obtain ⟨row, isRow, _, sameBody, still⟩ := body_of_rows did sound member
  rw [sameBody] at isStart isRun sameRun sameNamespace
  exact started row isRow isStart isRun sameRun sameNamespace (still pending)

theorem Started.insert {report : Report} {row : Message Report} (started : Started outbox.rows report)
    (others : row.body.phase = .start → row.body.runID ≠ report.runID) : Started (outbox.insert row).rows report := by
  intro other member isStart isRun sameRun
  rcases List.mem_append.mp member with old | added
  · exact started other old isStart isRun sameRun
  · rw [List.mem_singleton.mp added] at isStart sameRun
    exact absurd sameRun (others isStart)

theorem Alone.did {same : Report → Report → Prop} (did : ticketLane.Did outbox next)
    (sound : Outbox.Sound ticketLane.rules outbox) (alone : Alone same outbox.rows) : Alone same next.rows := by
  intro one isOne other isOther alike
  obtain ⟨first, isFirst, firstID, firstBody, _⟩ := body_of_rows did sound isOne
  obtain ⟨second, isSecond, secondID, secondBody, _⟩ := body_of_rows did sound isOther
  rw [firstID, secondID]
  rw [firstBody, secondBody] at alike
  exact alone first isFirst second isSecond alike

theorem Alone.insert {same : Report → Report → Prop} {row : Message Report} (alone : Alone same outbox.rows)
    (symmetric : ∀ one other, same one other → same other one)
    (apart : ∀ other ∈ outbox.rows, ¬same row.body other.body) :
    Alone same (outbox.insert row).rows := by
  intro one isOne other isOther alike
  rcases List.mem_append.mp isOne with old | added <;> rcases List.mem_append.mp isOther with oldToo | addedToo
  · exact alone one old other oldToo alike
  · rw [List.mem_singleton.mp addedToo] at alike
    exact absurd (symmetric _ _ alike) (apart one old)
  · rw [List.mem_singleton.mp added] at alike
    exact absurd alike (apart other oldToo)
  · rw [List.mem_singleton.mp added, List.mem_singleton.mp addedToo]

theorem enqueue_some {now : Int} {id : String} {report : Report} {conflicts : Report → Bool}
    (queued : enqueue outbox now id report conflicts = some next) :
    next = outbox ∨ (∀ row ∈ outbox.rows, conflicts row.body = false) ∧ id ∉ outbox.rows.map Message.id ∧
      next = outbox.insert { id := id, body := report, availableAt := now } := by
  unfold enqueue at queued
  split_ifs at queued with conflict taken
  · exact Or.inl (Option.some.inj queued).symm
  · refine Or.inr ⟨?_, taken, (Option.some.inj queued).symm⟩
    simpa using conflict

/-- What holds in every reachable state. -/
structure TicketKept (state : TicketState) : Prop where
  sound : Outbox.Sound ticketLane.rules state.outbox
  distinct : (state.runs.map ReportedRun.id).Nodup
  owned : ∀ row ∈ state.outbox.rows, ∀ id, row.body.runID = some id →
    ∃ run ∈ state.runs, run.id = id ∧ run.namespaceID = row.body.namespaceID
  apartRuns : Alone SameRun state.outbox.rows
  apartLinks : Alone SameLink state.outbox.rows
  reviews : ∀ row ∈ state.outbox.rows, row.body.phase = .inReview →
    ∃ namespaceID issue eventID, row.body = inReviewReport namespaceID issue eventID
  made : ∀ sent ∈ state.outbox.effects, ∃ row ∈ state.outbox.rows, ticketLane.invocation row.id row.body = some sent
  held : ∀ batch ∈ state.outbox.batches, ∀ row ∈ batch.left, row.body.phase = .finish →
    Started state.outbox.rows row.body
  finished : ∀ sent ∈ state.outbox.effects, sent.report.phase = .finish → Started state.outbox.rows sent.report
  ordered : state.outbox.effects.Pairwise fun earlier later =>
    earlier.report.phase = .finish → later.report.phase = .start → later.report.runID.isSome →
      later.report.runID ≠ earlier.report.runID

theorem sent_of {id : String} {body : Report} {sent : Sent} (invoked : ticketLane.invocation id body = some sent) :
    sent.report = body ∧ ticketInvocation id body = some sent.invocation := by
  obtain ⟨invocation, isInvocation, rfl⟩ := Option.map_eq_some_iff.mp invoked
  exact ⟨rfl, isInvocation⟩

namespace TicketKept

variable {state : TicketState}

theorem initial : TicketKept {} := by
  constructor <;> simp [Outbox.Sound.initial, Alone]

theorem same_namespace {one other : Message Report} (kept : TicketKept state) (isOne : one ∈ state.outbox.rows)
    (isOther : other ∈ state.outbox.rows) (isRun : one.body.runID.isSome)
    (same : one.body.runID = other.body.runID) : one.body.namespaceID = other.body.namespaceID := by
  obtain ⟨id, isID⟩ := Option.isSome_iff_exists.mp isRun
  obtain ⟨run, isRun, rfl, inOne⟩ := kept.owned one isOne id isID
  obtain ⟨again, isAgain, sameID, inOther⟩ := kept.owned other isOther run.id (same ▸ isID)
  rw [← inOne, ← inOther, Table.eq_of_key kept.distinct isAgain isRun sameID]

theorem run {run : ReportedRun} (kept : TicketKept state) (fresh : run.id ∉ state.runs.map ReportedRun.id) :
    TicketKept { state with runs := state.runs ++ [run] } :=
  { kept with
    distinct := Table.keys_append_nodup kept.distinct fresh
    owned := by
      intro row isRow id isID
      obtain ⟨owner, isOwner, facts⟩ := kept.owned row isRow id isID
      exact ⟨owner, List.mem_append_left _ isOwner, facts⟩ }

theorem insert {now : Int} {id : String} {report : Report} (kept : TicketKept state)
    (fresh : id ∉ state.outbox.rows.map Message.id)
    (known : ∀ runID, report.runID = some runID →
      ∃ run ∈ state.runs, run.id = runID ∧ run.namespaceID = report.namespaceID)
    (first : report.phase = .start → ∀ row ∈ state.outbox.rows, row.body.runID ≠ report.runID)
    (onePhase : ∀ row ∈ state.outbox.rows, ¬SameRun report row.body)
    (oneLink : ∀ row ∈ state.outbox.rows, ¬SameLink report row.body)
    (review : report.phase = .inReview →
      ∃ namespaceID issue eventID, report = inReviewReport namespaceID issue eventID) :
    TicketKept { state with outbox := state.outbox.insert { id := id, body := report, availableAt := now } } where
  sound := kept.sound.insert ⟨rfl, rfl⟩ fresh
  distinct := kept.distinct
  owned := by
    intro row isRow
    rcases List.mem_append.mp isRow with old | added
    · exact kept.owned row old
    · rw [List.mem_singleton.mp added]
      exact known
  apartRuns := kept.apartRuns.insert (fun _ _ => SameRun.symm) onePhase
  apartLinks := kept.apartLinks.insert (fun _ _ => SameLink.symm) oneLink
  reviews := by
    intro row isRow
    rcases List.mem_append.mp isRow with old | added
    · exact kept.reviews row old
    · rw [List.mem_singleton.mp added]
      exact review
  made := by
    intro sent isSent
    obtain ⟨row, isRow, invoked⟩ := kept.made sent isSent
    exact ⟨row, List.mem_append_left _ isRow, invoked⟩
  held := by
    intro batch running row isLeft finish
    have there := (kept.sound.current batch running row (List.mem_append_right _ isLeft)).1
    exact (kept.held batch running row isLeft finish).insert fun isStart => (first isStart row there).symm
  finished := by
    intro sent isSent finish
    obtain ⟨row, isRow, invoked⟩ := kept.made sent isSent
    refine (kept.finished sent isSent finish).insert fun isStart => ?_
    rw [(sent_of invoked).1]
    exact (first isStart row isRow).symm
  ordered := kept.ordered

theorem did {outbox : Outbox.State (Message Report) Sent} (kept : TicketKept state)
    (did : ticketLane.Did state.outbox outbox) : TicketKept { state with outbox := outbox } where
  sound := kept.sound.step did.step
  distinct := kept.distinct
  owned := by
    intro after member id isID
    obtain ⟨row, isRow, _, sameBody, _⟩ := body_of_rows did kept.sound member
    rw [sameBody] at isID ⊢
    exact kept.owned row isRow id isID
  apartRuns := kept.apartRuns.did did kept.sound
  apartLinks := kept.apartLinks.did did kept.sound
  reviews := by
    intro after member isReview
    obtain ⟨row, isRow, _, sameBody, _⟩ := body_of_rows did kept.sound member
    rw [sameBody] at isReview ⊢
    exact kept.reviews row isRow isReview
  made := by
    refine kept.sound.made_for_row ?_ kept.made did.step
    intro row made after sent marks invoked
    obtain ⟨sameID, sameBody, _⟩ := marks.same
    show ticketLane.invocation after.id after.body = some sent
    rw [sameID, sameBody]
    exact invoked
  held := by
    intro batch running row isLeft finish
    rcases did.left running isLeft with ⟨old, wasRunning, wasLeft⟩ | ⟨now, eligible⟩
    · exact (kept.held old wasRunning row wasLeft finish).did did kept.sound
    · simp only [Lane.eligible, Bool.and_eq_true] at eligible
      exact (started_of_ripe eligible.2 finish).did did kept.sound
  finished := by
    intro sent isSent finish
    rcases did.effects with same | ⟨batch, running, row, isLeft, new, invoked, more⟩
    · exact (kept.finished sent (same ▸ isSent) finish).did did kept.sound
    · rcases List.mem_append.mp (more ▸ isSent) with old | added
      · exact (kept.finished sent old finish).did did kept.sound
      · obtain rfl := List.mem_singleton.mp added
        rw [(sent_of invoked).1] at finish ⊢
        exact (kept.held batch running row isLeft finish).did did kept.sound
  ordered := by
    rcases did.effects with same | ⟨batch, running, row, isLeft, new, invoked, more⟩
    · rw [same]
      exact kept.ordered
    · rw [more, List.pairwise_append]
      refine ⟨kept.ordered, List.pairwise_singleton _ _, ?_⟩
      intro earlier isEarlier later isLater finish isStart isRun sameRun
      rw [List.mem_singleton.mp isLater, (sent_of invoked).1] at isStart isRun sameRun
      obtain ⟨there, pending⟩ := kept.sound.current batch running row (List.mem_append_right _ isLeft)
      obtain ⟨before, isBefore, wasInvoked⟩ := kept.made earlier isEarlier
      have settled := kept.finished earlier isEarlier finish
      rw [(sent_of wasInvoked).1] at settled sameRun
      exact settled row there isStart isRun sameRun (kept.same_namespace there isBefore isRun sameRun) pending

theorem startReports {now : Int} {run : ReportedRun} {status base startID pageID : String}
    {outbox : Outbox.State (Message Report) Sent} (kept : TicketKept state)
    (fresh : run.id ∉ state.runs.map ReportedRun.id)
    (queued : Reports.startReports state.outbox now run status base startID pageID = some outbox) :
    TicketKept { runs := state.runs ++ [run], outbox := outbox } := by
  have unknown : ∀ row ∈ state.outbox.rows, row.body.runID ≠ some run.id := by
    intro row isRow isIt
    obtain ⟨owner, isOwner, sameID, _⟩ := kept.owned row isRow run.id isIt
    exact fresh (sameID ▸ List.mem_map_of_mem isOwner)
  have grown := kept.run fresh
  unfold Reports.startReports at queued
  split at queued
  · obtain rfl := Option.some.inj queued
    exact grown
  · rename_i issue isIssue
    obtain ⟨begun, queuedStart, queuedLink⟩ := Option.bind_eq_some_iff.mp queued
    have withStart : TicketKept { runs := state.runs ++ [run], outbox := begun } := by
      rcases enqueue_some queuedStart with rfl | ⟨_, freshID, rfl⟩
      · exact grown
      · refine grown.insert freshID ?_ (fun _ => unknown) ?_ ?_ fun isReview => Phase.noConfusion isReview
        · intro runID isRun
          exact ⟨run, List.mem_append_right _ (List.mem_singleton_self run), Option.some.inj isRun, rfl⟩
        · exact fun row isRow same => unknown row isRow same.2.1.symm
        · exact fun row isRow same => Phase.noConfusion same.1
    rcases enqueue_some queuedLink with rfl | ⟨noLink, freshID, rfl⟩
    · exact withStart
    · refine withStart.insert freshID ?_ (fun isStart => Phase.noConfusion isStart) ?_
        (fun row isRow => not_sameLink (noLink row isRow)) fun isReview => Phase.noConfusion isReview
      · exact fun runID isRun => absurd isRun (Option.some_ne_none runID).symm
      · exact fun row isRow same => Bool.noConfusion same.1

theorem act {action : TicketAction} {next : TicketState} (kept : TicketKept state)
    (acted : state.act action = some next) : TicketKept next := by
  cases action with
  | createRun now run status base startID pageID =>
      simp only [TicketState.act, Option.ite_none_left_eq_some, Option.map_eq_some_iff] at acted
      obtain ⟨fresh, outbox, queued, rfl⟩ := acted
      exact kept.startReports fresh queued
  | endRun now run outcome finishID =>
      simp only [TicketState.act, Option.ite_none_right_eq_some, Option.map_eq_some_iff] at acted
      obtain ⟨isRun, outbox, queued, rfl⟩ := acted
      unfold finishReports at queued
      split at queued
      · obtain rfl := Option.some.inj queued
        exact kept
      · rcases enqueue_some queued with rfl | ⟨noFinish, freshID, rfl⟩
        · exact kept
        · refine kept.insert freshID ?_ (fun isStart => Phase.noConfusion isStart)
            (fun row isRow => not_sameRun (noFinish row isRow)) ?_ fun isReview => Phase.noConfusion isReview
          · exact fun runID isIt => ⟨run, isRun, Option.some.inj isIt, rfl⟩
          · exact fun row isRow same => Phase.noConfusion same.1
  | reply now namespaceID issue comment id =>
      obtain ⟨outbox, queued, rfl⟩ := Option.map_eq_some_iff.mp acted
      rcases enqueue_some queued with rfl | ⟨_, freshID, rfl⟩
      · exact kept
      · refine kept.insert freshID ?_ (fun isStart => Phase.noConfusion isStart) ?_ ?_
          fun isReview => Phase.noConfusion isReview
        · exact fun runID isRun => absurd isRun (Option.some_ne_none runID).symm
        · exact fun row isRow same => Bool.noConfusion same.1
        · exact fun row isRow same => Phase.noConfusion same.1
  | prOpened now namespaceID issue eventID id =>
      obtain ⟨outbox, queued, rfl⟩ := Option.map_eq_some_iff.mp acted
      rcases enqueue_some queued with rfl | ⟨_, freshID, rfl⟩
      · exact kept
      · refine kept.insert freshID ?_ (fun isStart => Phase.noConfusion isStart) ?_ ?_
          fun _ => ⟨namespaceID, issue, eventID, rfl⟩
        · exact fun runID isRun => absurd isRun (Option.some_ne_none runID).symm
        · exact fun row isRow same => Bool.noConfusion same.1
        · exact fun row isRow same => Phase.noConfusion same.1
  | dispatch action =>
      obtain ⟨outbox, sent, rfl⟩ := Option.map_eq_some_iff.mp acted
      exact kept.did (Lane.did_of_act sent)

end TicketKept

/-- A report of an opened pull request goes out as a comment without text. -/
theorem inReview_invocation {id namespaceID issue eventID : String} :
    (ticketInvocation id (inReviewReport namespaceID issue eventID)).map Invocation.input =
      some (.object [("comment", .string ""), ("issue", .string issue), ("verb", .string "post_comment")]) := by
  have targetIssue : "target".toList.map Json.foldChar ≠ "issue".toList.map Json.foldChar := by decide +kernel
  have verbIssue : "verb".toList.map Json.foldChar ≠ "issue".toList.map Json.foldChar := by decide +kernel
  have issueComment : "issue".toList.map Json.foldChar ≠ "comment".toList.map Json.foldChar := by decide +kernel
  have targetComment : "target".toList.map Json.foldChar ≠ "comment".toList.map Json.foldChar := by decide +kernel
  have verbComment : "verb".toList.map Json.foldChar ≠ "comment".toList.map Json.foldChar := by decide +kernel
  have issued : (inReviewReport namespaceID issue eventID).payload.decodeText "issue" = some issue := by
    simp only [inReviewReport, Json.decodeText, List.filter, targetIssue, verbIssue, decide_true, decide_false]
    rfl
  have silent : (inReviewReport namespaceID issue eventID).payload.decodeText "comment" = some "" := by
    simp only [inReviewReport, Json.decodeText, List.filter, issueComment, targetComment, verbComment, decide_false]
    rfl
  rw [ticketInvocation, issued, silent]
  rfl

variable {state : TicketState}

/-- In every run of the events that queue reports and of any number of dispatchers, crashes included: no start
of a run leaves after a finish of it, and once a finish has left, the start is published or was given up at its
last attempt. What leaves for one run and phase, or as the page link of one issue, is each time the same
invocation. The report of an opened pull request never asks for the ticket's transition: it leaves as a comment
without text. -/
theorem starts_leave_before_finishes (run : Steps (fun state action next => state.act action = some next) anyAction
    ({} : TicketState) state) :
    (state.outbox.effects.Pairwise fun earlier later => earlier.report.phase = .finish →
      later.report.phase = .start → later.report.runID.isSome → later.report.runID ≠ earlier.report.runID) ∧
    (∀ sent ∈ state.outbox.effects, sent.report.phase = .finish → ∀ row ∈ state.outbox.rows,
      SameRun row.body { sent.report with phase := .start } →
        row.status = .published ∨ row.status = .failed ∧ row.attempts = maxAttempts) ∧
    (∀ one ∈ state.outbox.effects, ∀ other ∈ state.outbox.effects,
      SameRun one.report other.report ∨ SameLink one.report other.report → one.invocation = other.invocation) ∧
    ∀ sent ∈ state.outbox.effects, sent.report.phase = .inReview → sent.invocation.input =
      .object [("comment", .string ""), ("issue", .string sent.report.issueKey), ("verb", .string "post_comment")] := by
  have kept : TicketKept state := run.invariant TicketKept .initial fun _ _ _ kept _ acted => kept.act acted
  refine ⟨kept.ordered, ?_, ?_, ?_⟩
  · intro sent isSent finish row isRow same
    obtain ⟨before, isBefore, invoked⟩ := kept.made sent isSent
    have settled := kept.finished sent isSent finish
    rw [(sent_of invoked).1] at settled same
    have ended := settled row isRow same.2.2 same.1 same.2.1 (kept.same_namespace isRow isBefore same.1 same.2.1)
    have counted := (counted_of_chain (kept.sound.traced row isRow)).1
    cases status : row.status with
    | pending => exact absurd status ended
    | published => exact Or.inl rfl
    | failed =>
        rw [Counted, status] at counted
        exact Or.inr ⟨rfl, counted⟩
  · intro one isOne other isOther same
    obtain ⟨first, isFirst, firstInvoked⟩ := kept.made one isOne
    obtain ⟨second, isSecond, secondInvoked⟩ := kept.made other isOther
    obtain ⟨firstReport, firstSent⟩ := sent_of firstInvoked
    obtain ⟨secondReport, secondSent⟩ := sent_of secondInvoked
    rw [firstReport, secondReport] at same
    have sameID : first.id = second.id := same.elim (kept.apartRuns first isFirst second isSecond)
      (kept.apartLinks first isFirst second isSecond)
    have sameRow := Table.eq_of_key kept.sound.distinct isFirst isSecond sameID
    rw [sameRow, secondSent] at firstSent
    exact (Option.some.inj firstSent).symm
  · intro sent isSent review
    obtain ⟨row, isRow, invoked⟩ := kept.made sent isSent
    obtain ⟨isReport, isInvocation⟩ := sent_of invoked
    rw [isReport] at review ⊢
    obtain ⟨namespaceID, issue, eventID, isReview⟩ := kept.reviews row isRow review
    have shape := @inReview_invocation row.id namespaceID issue eventID
    rw [← isReview, isInvocation] at shape
    rw [isReview]
    exact Option.some.inj shape

def reportedRun : ReportedRun :=
  { id := "r1", namespaceID := "ns", triggerEventID := "e1", sourceKey := "jira:site:SCRUM-1:created",
    workflowKey := "fix" }

/-- A dispatcher dies after it has sent the start of a run that is over; another finds the finish held back and
sends the start again. -/
def startedTwice : List TicketAction :=
  [.createRun 0 reportedRun "running" "" "01A" "01B", .endRun 5 reportedRun "completed" "01C",
    .dispatch (.select 1 10), .dispatch (.invoke 1), .dispatch (.select 2 10), .dispatch (.invoke 2),
    .dispatch (.settle 2 true 10), .dispatch (.commit 2), .dispatch (.rollback 1), .dispatch (.select 3 20),
    .dispatch (.invoke 3), .dispatch (.settle 3 true 20), .dispatch (.commit 3), .dispatch (.select 4 30),
    .dispatch (.invoke 4)]

theorem starts_leave_before_finishes_again :
    ∃ state, Steps (fun state action next => state.act action = some next) anyAction ({} : TicketState) state ∧
      state.outbox.effects.map (fun sent => (sent.report.phase, sent.invocation.attemptID)) =
        [(.start, "01A"), (.pageLink, "01B"), (.start, "01A"), (.finish, "01C")] ∧
      ∀ one ∈ state.outbox.effects, ∀ other ∈ state.outbox.effects,
        SameRun one.report other.report ∨ SameLink one.report other.report → one.invocation = other.invocation := by
  have ran : (Steps.ofList TicketState.act (fun _ _ => true) {} startedTwice).map (fun state =>
      state.outbox.effects.map fun sent => (sent.report.phase, sent.invocation.attemptID)) =
        some [(.start, "01A"), (.pageLink, "01B"), (.start, "01A"), (.finish, "01C")] := by
    decide +kernel
  obtain ⟨state, run, seen⟩ := Steps.reaches_of_ofList (fun _ _ _ => trivial) ran
  exact ⟨state, run, seen, (starts_leave_before_finishes run).2.2.1⟩

end CultureNodes.Reports
