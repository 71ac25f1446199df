import CultureNodes.Repair.Post
import Mathlib.Data.List.Induction

/-!
The rounds of repair a run is routed, against the attempts it has. A suite verdict counts the rounds
before it; the gates of one report are all routed on the count before the report.
-/

namespace CultureNodes.Repair

def rounds (records : Ledger) : Ledger := records.filter (·.repairs)

/-- The rounds of repair are within the attempts of the run, each an attempt of its own. -/
structure RepairsBounded (records : Ledger) : Prop where
  few : (rounds records).length ≤ maxAttempts
  distinct : ((rounds records).map (·.attemptNumber)).Nodup

def RoutingsStand (records : Ledger) : Prop :=
  ∀ record ∈ records, record.routedTo ≠ none → Ledger.superseded records record = false

section

variable (server : Server) (records : Ledger)

/-- A gate that rejects, whose repair is within reach and whose routing the ledger takes. -/
def routesToRepair (env : RouteEnv) (request : SuiteVerdictRequest) (measured : MeasuredHandover) :
    Bool :=
  match request.exitCode with
  | none => false
  | some exitCode =>
      decide ((routeInput server env 0 request records measured exitCode).Repairable env.clock) &&
        decide (trimSpace server.runID.toList ≠ []) &&
        decide (trimSpace server.repairRouterActorID.toList ≠ []) && env.answer.isOk

def suiteVerdictTaken (env : PostEnv) (request : SuiteVerdictRequest) : Bool :=
  env.admitted && request.exitCode.isSome &&
    (decide ((Ledger.measured records).commitSHA = "") ||
      decide ((Ledger.measured records).commitSHA = request.commitSHA)) &&
    env.composes && (env.answers 0).isOk

/-- A gate report that is let in and recorded, every gate of it and the aggregate. -/
def gateReportTaken (env : PostEnv) (request : GateReportRequest) : Bool :=
  env.admitted && !request.gates.isEmpty &&
    (decide ((Ledger.measured records).commitSHA = "") ||
      decide ((Ledger.measured records).commitSHA = request.measuredSubject)) &&
    request.gates.all (·.stated) && env.composes &&
    (List.range (request.gates.length + 1)).all fun index => (env.answers index).isOk

def Post.repairableGates : Post → Nat
  | .suiteVerdict env request =>
      if suiteVerdictTaken records env request &&
        routesToRepair server records (env.routes 0) request (Ledger.measured records) then 1 else 0
  | .gateReport env request =>
      if gateReportTaken records env request then
        request.gates.zipIdx.countP fun entry => entry.1.failed &&
          routesToRepair server records (env.routes entry.2) (request.verdict entry.1)
            (Ledger.measured records)
      else 0
  | .elsewhere _ => 0

end

variable {server : Server} {records : Ledger} {env : RouteEnv} {request : SuiteVerdictRequest}
  {measured : MeasuredHandover} {verdictID : Nat}

def RoundsOf (number count : Nat) (records : Ledger) : Prop :=
  (rounds records).map (·.attemptNumber) = List.replicate count number

theorem RoundsOf.append {number few more : Nat} {left right : Ledger}
    (first : RoundsOf number few left) (second : RoundsOf number more right) :
    RoundsOf number (few + more) (left ++ right) := by
  unfold RoundsOf rounds at *
  rw [List.filter_append, List.map_append, first, second, List.replicate_append_replicate]

theorem RoundsOf.nil (number : Nat) : RoundsOf number 0 [] := rfl

theorem RoundsOf.other {number : Nat} {record : LedgerRecord} (other : record.routedTo = none) :
    RoundsOf number 0 [record] := by
  simp [RoundsOf, rounds, LedgerRecord.repairs, other]

theorem append_routedTo {answer : AppendAnswer} {record appended : LedgerRecord}
    (taken : append answer record = .ok appended) :
    appended.routedTo = record.routedTo ∧ appended.attemptNumber = record.attemptNumber := by
  cases answer with
  | error reason => contradiction
  | ok made =>
      obtain rfl := Except.ok.inj taken
      exact ⟨rfl, rfl⟩

theorem verdictRecord_routedTo (env : PostEnv) (validatorActorID : String) :
    (verdictRecord env validatorActorID measured).routedTo = none := by
  unfold verdictRecord
  split <;> rfl

/-- Which verdict a routing is about does not decide it. -/
theorem repairable_verdict {exitCode clock : Int} :
    (routeInput server env verdictID request records measured exitCode).Repairable clock ↔
      (routeInput server env 0 request records measured exitCode).Repairable clock :=
  ⟨fun met => ⟨met.rejected, met.inScope, met.lane, met.advertised, met.writes, met.verifies,
      met.fresh, met.unspent⟩,
    fun met => ⟨met.rejected, met.inScope, met.lane, met.advertised, met.writes, met.verifies,
      met.fresh, met.unspent⟩⟩

theorem record_ok {routing : Routing} {input : RouteInput} {record : LedgerRecord}
    (composed : routing.record input = .ok record) :
    trimSpace input.runID.toList ≠ [] ∧ trimSpace input.routerActorID.toList ≠ [] ∧
      record.routedTo = some routing.destination ∧ record.attemptNumber = routing.attemptNumber := by
  unfold Routing.record at composed
  split at composed
  · cases composed
  rename_i run
  split at composed
  · cases composed
  rename_i router
  obtain rfl := Except.ok.inj composed
  exact ⟨run, router, rfl, rfl⟩

theorem record_of_named (routing : Routing) (input : RouteInput)
    (run : trimSpace input.runID.toList ≠ []) (router : trimSpace input.routerActorID.toList ≠ []) :
    ∃ record, routing.record input = .ok record := by
  unfold Routing.record
  rw [if_neg run, if_neg router]
  exact ⟨_, rfl⟩

theorem routesToRepair_iff (verdictID : Nat) :
    routesToRepair server records env request measured = true ↔ ∃ exitCode made,
      request.exitCode = some exitCode ∧
      (routeInput server env verdictID request records measured exitCode).Repairable env.clock ∧
      trimSpace server.runID.toList ≠ [] ∧ trimSpace server.repairRouterActorID.toList ≠ [] ∧
      env.answer = .ok made := by
  unfold routesToRepair
  cases request.exitCode with
  | none => simp
  | some exitCode =>
      cases env.answer with
      | error reason => simp [Except.isOk, Except.toBool]
      | ok made =>
          simp only [repairable_verdict, Bool.and_eq_true, decide_eq_true_eq, Except.isOk,
            Except.toBool, and_true, Option.some.injEq, Except.ok.injEq, and_assoc]
          simp

theorem routeGateFailure_some {record : LedgerRecord}
    (routed : (routeGateFailure server env verdictID request records measured).1 = some record) :
    ∃ exitCode made, request.exitCode = some exitCode ∧ env.answer = .ok made ∧
      trimSpace server.runID.toList ≠ [] ∧ trimSpace server.repairRouterActorID.toList ≠ [] ∧
      record.routedTo = some ((routeInput server env verdictID request records measured
        exitCode).decide env.clock).destination ∧
      record.attemptNumber = ((routeInput server env verdictID request records measured
        exitCode).decide env.clock).attemptNumber := by
  unfold routeGateFailure at routed
  cases isCode : request.exitCode with
  | none => simp [isCode] at routed
  | some exitCode =>
      by_cases passed : exitCode = 0
      · simp [isCode, passed] at routed
      · simp only [isCode, if_neg passed] at routed
        split at routed
        · cases routed
        · rename_i composed isComposed
          obtain ⟨run, router, destination, number⟩ := record_ok isComposed
          split at routed
          · cases routed
          · rename_i appended isAppended
            obtain rfl := Option.some.inj routed
            obtain ⟨sameDestination, sameNumber⟩ := append_routedTo isAppended
            cases made : env.answer with
            | error reason =>
                rw [made] at isAppended
                cases isAppended
            | ok answer =>
                exact ⟨exitCode, answer, rfl, rfl, run, router, sameDestination.trans destination,
                  sameNumber.trans number⟩

theorem routeGateFailure_of_routes
    (routes : routesToRepair server records env request measured = true) :
    ∃ record, (routeGateFailure server env verdictID request records measured).1 = some record := by
  obtain ⟨exitCode, made, isCode, repairable, run, router, isMade⟩ :=
    (routesToRepair_iff verdictID).mp routes
  obtain ⟨record, composed⟩ := record_of_named
    ((routeInput server env verdictID request records measured exitCode).decide env.clock)
    (routeInput server env verdictID request records measured exitCode) run router
  have rejected : exitCode ≠ 0 := repairable.rejected
  unfold routeGateFailure
  simp only [isCode, if_neg rejected, composed, isMade, append]
  exact ⟨_, rfl⟩

theorem routeGateFailure_rounds :
    RoundsOf (Ledger.priorAttempts records + 1)
      (if routesToRepair server records env request measured then 1 else 0)
      (routeGateFailure server env verdictID request records measured).1.toList := by
  cases routed : (routeGateFailure server env verdictID request records measured).1 with
  | none =>
      have unrouted : routesToRepair server records env request measured = false := by
        rw [Bool.eq_false_iff]
        intro routes
        obtain ⟨record, isRecord⟩ := @routeGateFailure_of_routes server records env request measured
          verdictID routes
        rw [routed] at isRecord
        contradiction
      rw [unrouted]
      exact RoundsOf.nil _
  | some record =>
      obtain ⟨exitCode, made, isCode, isMade, run, router, destination, number⟩ :=
        routeGateFailure_some routed
      by_cases repairable :
          (routeInput server env verdictID request records measured exitCode).Repairable env.clock
      · have routes := (routesToRepair_iff verdictID).mpr
          ⟨exitCode, made, isCode, repairable, run, router, isMade⟩
        have toRepair := RouteInput.decide_repair_iff.mpr repairable
        have isNumber := number.trans (RouteInput.decide_attemptNumber toRepair)
        rw [toRepair] at destination
        simp [RoundsOf, rounds, LedgerRecord.repairs, routes, destination, isNumber, routeInput]
      · have unrouted : routesToRepair server records env request measured = false := by
          rw [Bool.eq_false_iff]
          intro routes
          obtain ⟨other, _, isOther, met, _⟩ := (routesToRepair_iff verdictID).mp routes
          obtain rfl := Option.some.inj (isCode.symm.trans isOther)
          exact repairable met
        have elsewhere : ((routeInput server env verdictID request records measured exitCode).decide
            env.clock).destination ≠ .repair := fun toRepair =>
          repairable (RouteInput.decide_repair_iff.mp toRepair)
        simp [RoundsOf, rounds, LedgerRecord.repairs, unrouted, destination, elsewhere]

theorem suiteVerdict_leaves (env : PostEnv) :
    (suiteVerdictTaken records env request = false ∧
      (handleCreateSuiteVerdict server env records request).1 = []) ∨
    (suiteVerdictTaken records env request = true ∧ ∃ verdict : LedgerRecord,
      verdict.routedTo = none ∧ (handleCreateSuiteVerdict server env records request).1 = verdict ::
        (routeGateFailure server (env.routes 0) verdict.id request records
          (Ledger.measured records)).1.toList) := by
  unfold handleCreateSuiteVerdict
  dsimp only
  split
  · rename_i refused
    refine Or.inl ⟨?_, rfl⟩
    cases isCode : request.exitCode <;> simp_all [suiteVerdictTaken]
  rename_i admitted
  split
  · rename_i other
    exact Or.inl ⟨by simp [suiteVerdictTaken, other.1, other.2], rfl⟩
  rename_i same
  split
  · rename_i uncomposed
    exact Or.inl ⟨by simp_all [suiteVerdictTaken], rfl⟩
  rename_i composes
  cases answered : env.answers 0 with
  | error reason =>
      exact Or.inl ⟨by simp [suiteVerdictTaken, answered, Except.isOk, Except.toBool], rfl⟩
  | ok made =>
      have taken : suiteVerdictTaken records env request = true := by
        simp only [Bool.or_eq_true, Bool.not_eq_true', not_or, Bool.not_eq_false,
          Option.isNone_iff_eq_none, ← ne_eq, ← Option.isSome_iff_ne_none] at admitted
        have matching : (Ledger.measured records).commitSHA = "" ∨
            (Ledger.measured records).commitSHA = request.commitSHA := by
          by_cases absent : (Ledger.measured records).commitSHA = ""
          · exact Or.inl absent
          · exact Or.inr (not_not.mp fun other => same ⟨absent, other⟩)
        simp only [Bool.not_eq_true', Bool.not_eq_false] at composes
        simp [suiteVerdictTaken, admitted, matching, composes, answered, Except.isOk, Except.toBool]
      have unrouted : ({ verdictRecord env request.validatorActorID (Ledger.measured records) with
          id := made.1, createdAt := made.2 } : LedgerRecord).routedTo = none :=
        verdictRecord_routedTo env request.validatorActorID
      exact Or.inr ⟨taken, _, unrouted, rfl⟩

theorem suiteVerdict_rounds (env : PostEnv) :
    RoundsOf (Ledger.priorAttempts records + 1)
      (Post.repairableGates server records (.suiteVerdict env request))
      (handleCreateSuiteVerdict server env records request).1 := by
  rw [Post.repairableGates]
  rcases @suiteVerdict_leaves server records request env with
    ⟨refused, leaves⟩ | ⟨taken, verdict, unrouted, leaves⟩
  · rw [leaves, refused]
    exact RoundsOf.nil _
  · rw [leaves, taken, Bool.true_and, ← Nat.zero_add (ite _ _ _)]
    exact (RoundsOf.other unrouted).append routeGateFailure_rounds

/-- Records that route nothing, appended one after another: all of them where the store takes each. -/
theorem appendAll_spec {answers : Nat → AppendAnswer} {number index : Nat} {composed : Ledger}
    (unrouted : ∀ record ∈ composed, record.routedTo = none) :
    RoundsOf number 0 (appendAll answers index composed).1 ∧
      (appendAll answers index composed).2 =
        ((List.range' index composed.length).all fun position => (answers position).isOk) ∧
      ((appendAll answers index composed).2 = true →
        (appendAll answers index composed).1.length = composed.length) := by
  induction composed generalizing index with
  | nil => exact ⟨RoundsOf.nil _, rfl, fun _ => rfl⟩
  | cons record rest ih =>
      obtain ⟨others, complete, length⟩ := @ih (index + 1) fun other member =>
        unrouted other (List.mem_cons_of_mem _ member)
      cases answered : answers index with
      | error reason =>
          have stops : appendAll answers index (record :: rest) = ([], false) := by
            rw [appendAll, answered]
            rfl
          rw [stops]
          refine ⟨RoundsOf.nil _, ?_, fun impossible => by contradiction⟩
          simp [List.range'_succ, answered, Except.isOk, Except.toBool]
      | ok made =>
          have goes : appendAll answers index (record :: rest) =
              ({ record with id := made.1, createdAt := made.2 } ::
                (appendAll answers (index + 1) rest).1, (appendAll answers (index + 1) rest).2) := by
            rw [appendAll, answered]
            rfl
          have own : ({ record with id := made.1, createdAt := made.2 } : LedgerRecord).routedTo = none :=
            unrouted record List.mem_cons_self
          rw [goes]
          refine ⟨(RoundsOf.other own).append others, ?_, fun isComplete => ?_⟩
          · simp [complete, List.range'_succ, answered, Except.isOk, Except.toBool]
          · simp [length isComplete]

theorem filterMap_fst_cons {α β : Type} (pair : Option α × β) (rest : List (Option α × β)) :
    (pair :: rest).filterMap (·.1) = pair.1.toList ++ rest.filterMap (·.1) := by
  obtain ⟨value, other⟩ := pair
  cases value <;> rfl

theorem routeGateReportFailures_rounds (env : PostEnv) (request : GateReportRequest)
    {gates : List GateReportEntry} {verdicts : Ledger} {index : Nat}
    (recorded : verdicts.length = gates.length) :
    RoundsOf (Ledger.priorAttempts records + 1)
      ((gates.zipIdx index).countP fun entry => entry.1.failed &&
        routesToRepair server records (env.routes entry.2) (request.verdict entry.1) measured)
      ((routeGateReportFailures server env records request measured index gates verdicts).filterMap
        (·.1)) := by
  induction gates generalizing verdicts index with
  | nil =>
      cases verdicts with
      | nil => exact RoundsOf.nil _
      | cons verdict verdicts => contradiction
  | cons gate gates ih =>
      cases verdicts with
      | nil => contradiction
      | cons verdict verdicts =>
          have others := @ih verdicts (index + 1) (Nat.succ.inj recorded)
          rw [List.zipIdx_cons, List.countP_cons, routeGateReportFailures]
          cases failed : gate.failed with
          | false =>
              simp only [Bool.false_and, Bool.false_eq_true, if_false, Nat.add_zero]
              exact others
          | true =>
              simp only [Bool.true_and, if_true]
              have own := @routeGateFailure_rounds server records (env.routes index)
                (request.verdict gate) measured verdict.id
              rw [filterMap_fst_cons, Nat.add_comm (List.countP _ _)]
              exact own.append others

theorem recordGateReport_leaves (number : Nat) (env : PostEnv) (request : GateReportRequest) :
    (((List.range (request.gates.length + 1)).all fun index => (env.answers index).isOk) = false ∧
      RoundsOf number 0 (recordGateReport server env records request measured).1) ∨
    (((List.range (request.gates.length + 1)).all fun index => (env.answers index).isOk) = true ∧
      ∃ verdicts recorded : Ledger, verdicts.length = request.gates.length ∧
        RoundsOf number 0 recorded ∧
        (recordGateReport server env records request measured).1 = recorded ++
          (routeGateReportFailures server env records request measured 0 request.gates
            verdicts).filterMap (·.1)) := by
  have unrouted : ∀ record ∈ request.gates.map fun _ =>
      verdictRecord env request.validatorActorID measured, record.routedTo = none := by
    intro record member
    obtain ⟨_, _, rfl⟩ := List.mem_map.mp member
    exact verdictRecord_routedTo env _
  obtain ⟨verdicts, complete, length⟩ := @appendAll_spec env.answers number 0 _ unrouted
  rw [List.length_map] at complete length
  have last : ((List.range (request.gates.length + 1)).all fun index => (env.answers index).isOk) =
      ((appendAll env.answers 0 (request.gates.map fun _ =>
        verdictRecord env request.validatorActorID measured)).2 &&
        (env.answers request.gates.length).isOk) := by
    rw [complete, ← List.range_eq_range', List.range_succ, List.all_append]
    simp
  rw [last]
  unfold recordGateReport
  dsimp only
  generalize appendAll env.answers 0 (request.gates.map fun _ =>
    verdictRecord env request.validatorActorID measured) = appended at *
  obtain ⟨recorded, isComplete⟩ := appended
  cases isComplete with
  | false => exact Or.inl ⟨rfl, verdicts⟩
  | true =>
      cases answered : env.answers request.gates.length with
      | error reason => exact Or.inl ⟨rfl, verdicts⟩
      | ok made =>
          have aggregate : ({ verdictRecord env request.validatorActorID measured with
              id := made.1, createdAt := made.2 } : LedgerRecord).routedTo = none :=
            verdictRecord_routedTo env request.validatorActorID
          refine Or.inr ⟨rfl, recorded, _, length rfl, verdicts.append (RoundsOf.other aggregate), ?_⟩
          rw [List.append_assoc]
          rfl

/-- A gate report that is not taken leaves verdicts at most; one that is leaves the routings of its
gates beside them. -/
theorem gateReport_leaves (number : Nat) (env : PostEnv) (request : GateReportRequest) :
    (gateReportTaken records env request = false ∧
      RoundsOf number 0 (handleCreateGateReport server env records request).1) ∨
    (gateReportTaken records env request = true ∧ ∃ verdicts recorded : Ledger,
      verdicts.length = request.gates.length ∧ RoundsOf number 0 recorded ∧
      (handleCreateGateReport server env records request).1 = recorded ++
        (routeGateReportFailures server env records request (Ledger.measured records) 0 request.gates
          verdicts).filterMap (·.1)) := by
  unfold handleCreateGateReport gateReportTaken
  dsimp only
  cases env.admitted with
  | false => exact Or.inl ⟨by simp, RoundsOf.nil _⟩
  | true =>
    cases request.gates.isEmpty with
    | true => exact Or.inl ⟨by simp, RoundsOf.nil _⟩
    | false =>
      rw [if_neg (by simp)]
      by_cases other : (Ledger.measured records).commitSHA ≠ "" ∧
          (Ledger.measured records).commitSHA ≠ request.measuredSubject
      · rw [if_pos other]
        exact Or.inl ⟨by simp [other.1, other.2], RoundsOf.nil _⟩
      · have matching : (decide ((Ledger.measured records).commitSHA = "") ||
            decide ((Ledger.measured records).commitSHA = request.measuredSubject)) = true := by
          simp only [Bool.or_eq_true, decide_eq_true_eq]
          exact or_iff_not_imp_left.mpr fun absent => not_not.mp fun unlike => other ⟨absent, unlike⟩
        rw [if_neg other, matching]
        cases request.gates.all (·.stated) with
        | false => exact Or.inl ⟨by simp, RoundsOf.nil _⟩
        | true =>
          cases env.composes with
          | false => exact Or.inl ⟨by simp, RoundsOf.nil _⟩
          | true =>
            rw [if_neg (by simp)]
            exact recordGateReport_leaves number env request

theorem leaves_rounds (post : Post) :
    RoundsOf (Ledger.priorAttempts records + 1) (post.repairableGates server records)
      (post.leaves server records) := by
  cases post with
  | suiteVerdict env request => exact suiteVerdict_rounds env
  | gateReport env request =>
      rw [Post.leaves, Post.repairableGates]
      rcases @gateReport_leaves server records (Ledger.priorAttempts records + 1) env request with
        ⟨refused, leaves⟩ | ⟨taken, verdicts, recorded, length, unrouted, leaves⟩
      · rw [refused]
        exact leaves
      · rw [taken, if_pos rfl, leaves, ← Nat.zero_add (List.countP _ _)]
        exact unrouted.append (routeGateReportFailures_rounds env request length)
  | elsewhere record =>
      rw [Post.leaves, Post.repairableGates]
      split
      · rename_i other
        exact RoundsOf.other other
      · exact RoundsOf.nil _

theorem repairableGates_spent (spent : maxAttempts ≤ Ledger.priorAttempts records) (post : Post) :
    post.repairableGates server records = 0 := by
  have none : ∀ env request measured, routesToRepair server records env request measured = false := by
    intro env request measured
    rw [Bool.eq_false_iff]
    intro routes
    obtain ⟨_, _, _, repairable, _⟩ := (routesToRepair_iff 0).mp routes
    exact Nat.not_lt.mpr spent repairable.unspent
  cases post with
  | suiteVerdict env request => simp [Post.repairableGates, none]
  | gateReport env request => simp [Post.repairableGates, none]
  | elsewhere record => rfl

theorem RoutingsStand.of_append {more : Ledger} (stand : RoutingsStand (records ++ more)) :
    RoutingsStand records := by
  intro record member routing
  have standing := stand record (List.mem_append_left _ member) routing
  unfold Ledger.superseded at *
  rw [List.any_append, Bool.or_eq_false_iff] at standing
  exact standing.1

theorem priorAttempts_eq (stand : RoutingsStand records) :
    Ledger.priorAttempts records = (rounds records).length := by
  unfold Ledger.priorAttempts Ledger.live rounds
  rw [(List.perm_insertionSort _ _).countP_eq, List.countP_filter, ← List.countP_eq_length_filter]
  refine List.countP_congr fun record member => ?_
  have standing : record.repairs = true → Ledger.superseded records record = false := by
    intro repairs
    refine stand record member fun unrouted => ?_
    simp [LedgerRecord.repairs, unrouted] at repairs
  cases repairs : record.repairs with
  | false => simp
  | true => simp [standing repairs]

theorem ledgerAfter_concat (posts : List Post) (post : Post) :
    ledgerAfter server (posts ++ [post]) =
      ledgerAfter server posts ++ post.leaves server (ledgerAfter server posts) := by
  unfold ledgerAfter
  rw [List.foldl_append]
  rfl

theorem ledgerAfter_append (before more : List Post) :
    ∃ added, ledgerAfter server (before ++ more) = ledgerAfter server before ++ added := by
  induction more using List.reverseRecOn with
  | nil => exact ⟨[], by simp⟩
  | append_singleton more post ih =>
      obtain ⟨added, isAdded⟩ := ih
      rw [← List.append_assoc, ledgerAfter_concat, isAdded, List.append_assoc]
      exact ⟨_, rfl⟩

theorem rounds_numbered {posts : List Post} (stand : RoutingsStand (ledgerAfter server posts))
    (single : ∀ before post rest, posts = before ++ post :: rest →
      post.repairableGates server (ledgerAfter server before) ≤ 1) :
    (rounds (ledgerAfter server posts)).map (·.attemptNumber) =
        List.range' 1 (rounds (ledgerAfter server posts)).length ∧
      (rounds (ledgerAfter server posts)).length ≤ maxAttempts := by
  induction posts using List.reverseRecOn with
  | nil => exact ⟨rfl, Nat.zero_le _⟩
  | append_singleton posts post ih =>
      rw [ledgerAfter_concat] at stand ⊢
      have before := stand.of_append
      obtain ⟨numbered, few⟩ := ih before fun earlier other rest isSplit =>
        single earlier other (rest ++ [post]) (by rw [isSplit]; simp)
      have prior := priorAttempts_eq before
      have own := @leaves_rounds server (ledgerAfter server posts) post
      rw [prior] at own
      have split : rounds (ledgerAfter server posts ++ post.leaves server (ledgerAfter server posts)) =
          rounds (ledgerAfter server posts) ++
            rounds (post.leaves server (ledgerAfter server posts)) := List.filter_append _ _
      have added : (rounds (post.leaves server (ledgerAfter server posts))).length =
          post.repairableGates server (ledgerAfter server posts) := by
        have lengths := congrArg List.length own
        rwa [List.length_map, List.length_replicate] at lengths
      rw [split, List.map_append, List.length_append, numbered, own, added]
      rcases Nat.le_one_iff_eq_zero_or_eq_one.mp (single posts post [] (by simp)) with zero | one
      · rw [zero]
        exact ⟨by simp, few⟩
      · rw [one]
        refine ⟨by rw [List.range'_1_concat, Nat.add_comm 1]; rfl, ?_⟩
        -- a run that has spent its attempts would have sent none
        refine Nat.succ_le_of_lt (Nat.lt_of_not_le fun spent => ?_)
        have none := @repairableGates_spent server _ (prior ▸ spent) post
        rw [one] at none
        contradiction

/-- The rounds of repair of a run are within its attempts, and numbered apart, unless one post sends two
gates to repair. -/
theorem repairsBounded_iff (server : Server) (posts : List Post)
    (stand : RoutingsStand (ledgerAfter server posts)) :
    RepairsBounded (ledgerAfter server posts) ↔
      ∀ before post rest, posts = before ++ post :: rest →
        post.repairableGates server (ledgerAfter server before) ≤ 1 := by
  constructor
  · intro bounded before post rest isSplit
    obtain ⟨added, isAdded⟩ := @ledgerAfter_append server (before ++ [post]) rest
    rw [List.append_assoc, List.singleton_append, ← isSplit, ledgerAfter_concat] at isAdded
    have distinct := bounded.distinct
    rw [isAdded, rounds, List.filter_append, List.filter_append, List.map_append, List.map_append] at distinct
    have own : (List.map (·.attemptNumber) (rounds (post.leaves server (ledgerAfter server before)))).Nodup :=
      (distinct.sublist (List.sublist_append_left _ _)).sublist (List.sublist_append_right _ _)
    rw [leaves_rounds post, List.nodup_replicate] at own
    exact own
  · intro single
    obtain ⟨numbered, few⟩ := rounds_numbered stand single
    exact ⟨few, numbered ▸ List.nodup_range'⟩

/-- A bridge that can write its workspace and run the suites of the repository. -/
def coder : Actor where
  id := "actor_coder"
  actorKey := "company/coder"
  surface := some
    { defaultSandboxMode := "workspace-write"
      dispatchGrants := [("workspace-write", ["workspace-write"])]
      toolchains := [{ name := "go", usableIn := ["workspace-write"] }] }

/-- A gate that rejects, to be repaired where the work was done. -/
def rejecting (gate : String) : GateReportEntry :=
  { gate := gate, command := ["go", "test", gate], exitCode := some 1,
    repair := some { repairActorID := "actor_coder" } }

/-- A report of gates as it is posted at an instant, its records numbered from a given one. -/
def report (first : Nat) (now : Int) (gates : List String) : Post :=
  .gateReport
    { answers := fun index => .ok (first + index, now)
      routes := fun index =>
        { actors := fun id => if id = "actor_coder" then some coder else none
          now := now
          clock := now
          answer := .ok (first + gates.length + 1 + index, now) } }
    { commitSHA := "c0ffee", validatorActorID := "merge_gate", gates := gates.map rejecting }

/-- Reports of one failing gate each, posted one after another. -/
def oneByOne : List Post :=
  [report 1 1000 ["unit"], report 4 2000 ["lint"], report 7 3000 ["unit"]]

theorem repairsBounded_oneByOne :
    RepairsBounded (ledgerAfter ⟨"run_1", ""⟩ oneByOne) ∧
      (rounds (ledgerAfter ⟨"run_1", ""⟩ oneByOne)).map (·.attemptNumber) = [1, 2] := by
  have stand : RoutingsStand (ledgerAfter ⟨"run_1", ""⟩ oneByOne) := by
    unfold RoutingsStand
    decide +kernel
  refine ⟨(repairsBounded_iff ⟨"run_1", ""⟩ oneByOne stand).mpr ?_, by decide +kernel⟩
  intro before post rest isSplit
  rcases before with _ | ⟨first, _ | ⟨second, _ | ⟨third, before⟩⟩⟩
  · obtain ⟨rfl, _⟩ := List.cons.inj isSplit
    decide +kernel
  · obtain ⟨rfl, onward⟩ := List.cons.inj isSplit
    obtain ⟨rfl, _⟩ := List.cons.inj onward
    decide +kernel
  · obtain ⟨rfl, onward⟩ := List.cons.inj isSplit
    obtain ⟨rfl, last⟩ := List.cons.inj onward
    obtain ⟨rfl, _⟩ := List.cons.inj last
    decide +kernel
  · have lengths := congrArg List.length isSplit
    simp [oneByOne] at lengths

/-- Three gates of one report, each the first attempt of its run. -/
theorem report_exceeds_attempts :
    ¬ ∀ (server : Server) (posts : List Post), RoutingsStand (ledgerAfter server posts) →
      RepairsBounded (ledgerAfter server posts) := by
  intro always
  have stand : RoutingsStand (ledgerAfter ⟨"run_1", ""⟩ [report 1 1000 ["unit", "lint", "race"]]) := by
    unfold RoutingsStand
    decide +kernel
  have spent : ¬ (rounds (ledgerAfter ⟨"run_1", ""⟩
      [report 1 1000 ["unit", "lint", "race"]])).length ≤ maxAttempts := by
    decide +kernel
  exact spent (always _ _ stand).few

end CultureNodes.Repair
