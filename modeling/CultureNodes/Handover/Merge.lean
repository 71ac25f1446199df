import Mathlib.Logic.Relation
import CultureNodes.Handover.Gate
import CultureNodes.Library.Table
import CultureNodes.Library.Transition

/-!
Merging a gated candidate. The candidate is pushed first and the local branch advanced after, so a merge that fails
anywhere can be tried again. Any number of merges run at once, in any number of clones, beside people who push to
the same branch or move it in a clone; a merge can die between any two of its commands.
-/

namespace CultureNodes.Handover

open Compiler (quoteText)

/-- The commits that git names by their content: what a name stands for is the same in every clone. `reaches` is
the answer to whether one commit is another, or in its history; `takes` is whether a branch with this tip takes a
push of the commit without force, which it does where it is new or the commit has its tip in its history. -/
structure Git where
  parents : String → List String
  reaches : String → String → Bool
  takes : Option String → String → Bool
  lawful : ∀ older newer, reaches older newer = true ↔
    Relation.ReflTransGen (fun one other => one ∈ parents other) older newer
  fastForward : ∀ tip commit, takes tip commit = true ↔ ∀ old, tip = some old → reaches old commit = true

namespace Git

variable (git : Git)

theorem reaches_refl (commit : String) : git.reaches commit commit = true := (git.lawful _ _).mpr .refl

theorem reaches_trans {oldest older newer : String} (first : git.reaches oldest older = true)
    (second : git.reaches older newer = true) : git.reaches oldest newer = true :=
  (git.lawful _ _).mpr (((git.lawful _ _).mp first).trans ((git.lawful _ _).mp second))

end Git

/-- What a merge reads of the answer to a gate report. -/
structure GateAuthorization where
  outcome : String
  commitSHA : String
deriving DecidableEq, Repr

def GateReportResult.authorization (result : GateReportResult) : GateAuthorization := ⟨result.outcome, result.commitSHA⟩

/-- The gate report on standard input. -/
inductive GateReport where
  | empty
  | garbled
  | decoded (gate : GateAuthorization)
deriving DecidableEq, Repr

structure MergeRequest where
  repository : String
  remote : String
  branch : String
  candidate : String
  gateReport : GateReport
deriving DecidableEq, Repr

def nameChar (char : Char) : Bool := char.isAlphanum || char ∈ ['.', '_', '-']

/-- `^[A-Za-z0-9][A-Za-z0-9._-]*$` -/
def isRemoteName (text : List Char) : Bool := text.head?.any Char.isAlphanum && text.all nameChar

/-- The same, with slashes after the first letter. -/
def isBranchName (text : List Char) : Bool :=
  text.head?.any Char.isAlphanum && text.all fun char => nameChar char || char = '/'

namespace MergeRequest

variable (req : MergeRequest)

/-- `validateMergeRequest` -/
def validate : Except String Unit :=
  if req.repository = "" ∨ req.gateReport = .empty then .error "repository and gate report are required"
  else if !isRemoteName req.remote.toList then .error "remote must be a configured remote name"
  else if !isBranchName req.branch.toList || containsText "..".toList req.branch.toList ||
      "/".toList.isSuffixOf req.branch.toList then
    .error "branch is not a safe feature branch name"
  else if !isCommit req.candidate then .error "candidate must be a lowercase 40-character object id"
  else .ok ()

/-- What is checked before git is asked. -/
def authorize (credential : Bool) : Except String Unit :=
  match req.validate with
  | .error error => .error error
  | .ok () =>
      match req.gateReport with
      | .empty | .garbled => .error "decode gate report"
      | .decoded gate =>
          if gate.outcome ≠ outcomeGatesPassed then
            .error ("gate outcome is " ++ quoteText gate.outcome ++ ", want " ++ quoteText outcomeGatesPassed)
          else if gate.commitSHA ≠ req.candidate then
            .error ("gate measured candidate " ++ quoteText gate.commitSHA ++ ", about-to-merge candidate is " ++
              quoteText req.candidate)
          else if !credential then
            .error "GITHUB_TOKEN_WORKER is unset; refusing a push that would prompt for operator credentials"
          else .ok ()

/-- All checks, with the candidate in the clone or not and the branch at its tip there: the tip that the candidate
was built on. -/
def inspect (git : Git) (credential present : Bool) (tip : Option String) : Except String String :=
  match req.authorize credential with
  | .error error => .error error
  | .ok () =>
      if !present then .error "git rev-parse"
      else
        match git.parents req.candidate, tip with
        | [first, _], some featureTip =>
            if featureTip ≠ first then
              .error ("feature branch moved: refs/heads/" ++ req.branch ++ " is " ++ featureTip ++
                ", candidate was built on " ++ first)
            else .ok featureTip
        | [_, _], none => .error "git rev-parse"
        | parents, _ =>
            .error ("candidate " ++ req.candidate ++ " has " ++ toString parents.length ++
              " parent(s), want the two-parent commit produced by merge --no-ff")

end MergeRequest

/-- A merge under way: it has seen the branch at a tip, and it has pushed or not. -/
structure Process where
  id : Nat
  request : MergeRequest
  tip : String
  pushed : Bool := false
deriving DecidableEq, Repr

/-- How a push ends: the remote answers it, takes it but is not heard, or is not reached. -/
inductive PushAnswer where
  | heard
  | unheard
  | unreached
deriving DecidableEq, Repr

/-- One branch: its tip on the remote and in every clone, and the merges under way. `history` are the tips the
remote has had, `pushes` the requests whose candidate it took, and `advances` those that moved a clone's branch,
with the tip it left. -/
structure World where
  remote : Option String
  clones : String → Option String
  processes : List Process := []
  history : List String := []
  pushes : List MergeRequest := []
  advances : List (MergeRequest × String) := []

/-- What merges do, and others beside them: they push to the branch too, without force, and move it in a clone. -/
inductive Action where
  | start (id : Nat) (request : MergeRequest) (credential present : Bool)
  | push (id : Nat) (answer : PushAnswer)
  | advance (id : Nat)
  | die (id : Nat)
  | pushElsewhere (commit : String)
  | move (repository : String) (tip : Option String)
deriving DecidableEq, Repr

namespace World

variable (git : Git) (world : World)

def initial (remote : Option String) (clones : String → Option String) : World where
  remote := remote
  clones := clones
  history := remote.toList

def without (id : Nat) : World := { world with processes := world.processes.filter fun process => process.id ≠ id }

def take (request : MergeRequest) : World :=
  { world with
    remote := some request.candidate
    history := request.candidate :: world.history
    pushes := request :: world.pushes }

/-- `push` of the candidate to the branch. -/
def push (process : Process) (answer : PushAnswer) : World :=
  if answer = .unreached ∨ git.takes world.remote process.request.candidate = false then world.without process.id
  else if answer = .unheard then (world.take process.request).without process.id
  else
    { world.take process.request with
      processes := Table.update world.processes (fun other => other.id = process.id)
        (fun other => { other with pushed := true }) }

/-- `update-ref` of the clone's branch, from the tip that was seen. -/
def advance (process : Process) : World :=
  if world.clones process.request.repository = some process.tip then
    { world.without process.id with
      clones := fun repository =>
        if repository = process.request.repository then some process.request.candidate else world.clones repository
      advances := (process.request, process.tip) :: world.advances }
  else world.without process.id

def act : Action → Option World
  | .start id request credential present =>
      if world.processes.any (·.id = id) then none
      else
        match request.inspect git credential present (world.clones request.repository) with
        | .error _ => some world
        | .ok tip => some { world with processes := ⟨id, request, tip, false⟩ :: world.processes }
  | .push id answer =>
      (world.processes.find? fun process => process.id = id && !process.pushed).map fun process =>
        world.push git process answer
  | .advance id =>
      (world.processes.find? fun process => process.id = id && process.pushed).map world.advance
  | .die id => some (world.without id)
  | .pushElsewhere commit =>
      if git.takes world.remote commit then
        some { world with remote := some commit, history := commit :: world.history }
      else none
  | .move repository tip =>
      some { world with clones := fun other => if other = repository then tip else world.clones other }

end World

/-- The gates passed on the very candidate, and it is a merge of something into a tip. -/
def MergeRequest.Authorized (git : Git) (req : MergeRequest) (tip : String) : Prop :=
  req.gateReport = .decoded ⟨outcomeGatesPassed, req.candidate⟩ ∧ ∃ second, git.parents req.candidate = [tip, second]

section

variable {git : Git} {world next : World} {req : MergeRequest}

theorem MergeRequest.authorize_ok {credential : Bool} (authorized : req.authorize credential = .ok ()) :
    req.gateReport = .decoded ⟨outcomeGatesPassed, req.candidate⟩ := by
  unfold MergeRequest.authorize at authorized
  split at authorized
  · contradiction
  · cases isReport : req.gateReport with
    | empty => simp [isReport] at authorized
    | garbled => simp [isReport] at authorized
    | decoded gate =>
        simp only [isReport] at authorized
        split_ifs at authorized with outcome measured
        obtain ⟨isOutcome, isCommit⟩ := gate
        rw [not_not] at outcome measured
        rw [show isOutcome = _ from outcome, show isCommit = _ from measured]

theorem MergeRequest.inspect_ok {credential present : Bool} {tip : Option String} {seen : String}
    (inspected : req.inspect git credential present tip = .ok seen) :
    req.Authorized git seen ∧ tip = some seen := by
  unfold MergeRequest.inspect at inspected
  cases authorized : req.authorize credential with
  | error error => simp [authorized] at inspected
  | ok =>
      simp only [authorized] at inspected
      split at inspected
      · contradiction
      · split at inspected
        · rename_i first second featureTip isParents
          split at inspected
          · contradiction
          · rename_i same
            rw [not_not] at same
            have isSeen := Except.ok.inj inspected
            exact ⟨⟨authorize_ok authorized, second, by rw [isParents, ← same, isSeen]⟩, by rw [isSeen]⟩
        · contradiction
        · contradiction

/-- Nothing leaves the history of the branch, and what a merge put there was authorized. -/
structure Kept (git : Git) (world : World) : Prop where
  distinct : (world.processes.map Process.id).Nodup
  lineage : ∀ tip ∈ world.history, ∃ now, world.remote = some now ∧ git.reaches tip now = true
  listed : ∀ now, world.remote = some now → now ∈ world.history
  running : ∀ process ∈ world.processes, process.request.Authorized git process.tip ∧
    (process.pushed = true → process.request ∈ world.pushes)
  pushed : ∀ req ∈ world.pushes, (∃ tip, req.Authorized git tip) ∧ req.candidate ∈ world.history
  advanced : ∀ entry ∈ world.advances, entry.1 ∈ world.pushes ∧ entry.1.Authorized git entry.2

namespace Kept

theorem initial (remote : Option String) (clones : String → Option String) : Kept git (.initial remote clones) where
  distinct := List.nodup_nil
  lineage tip member := ⟨tip, Option.mem_toList.mp member, git.reaches_refl tip⟩
  listed _ isNow := Option.mem_toList.mpr isNow
  running _ member := absurd member List.not_mem_nil
  pushed _ member := absurd member List.not_mem_nil
  advanced _ member := absurd member List.not_mem_nil

variable (kept : Kept git world)

include kept

theorem without (id : Nat) : Kept git (world.without id) :=
  { kept with
    distinct := kept.distinct.sublist (List.filter_sublist.map _)
    running := fun process member => kept.running process (List.mem_of_mem_filter member) }

theorem forward {commit : String} (takes : git.takes world.remote commit = true) :
    ∀ tip ∈ commit :: world.history, git.reaches tip commit = true := by
  intro tip member
  rcases List.mem_cons.mp member with rfl | older
  · exact git.reaches_refl _
  · obtain ⟨now, isNow, reaches⟩ := kept.lineage tip older
    exact git.reaches_trans reaches ((git.fastForward _ _).mp takes now isNow)

theorem take {tip : String} (authorized : req.Authorized git tip)
    (takes : git.takes world.remote req.candidate = true) : Kept git (world.take req) where
  distinct := kept.distinct
  lineage old member := ⟨req.candidate, rfl, kept.forward takes old member⟩
  listed now isNow := by
    rw [← Option.some.inj isNow]
    exact List.mem_cons_self
  running process member :=
    ⟨(kept.running process member).1, fun pushed => List.mem_cons_of_mem _ ((kept.running process member).2 pushed)⟩
  pushed other member := by
    rcases List.mem_cons.mp member with rfl | older
    · exact ⟨⟨tip, authorized⟩, List.mem_cons_self⟩
    · exact ⟨(kept.pushed other older).1, List.mem_cons_of_mem _ (kept.pushed other older).2⟩
  advanced entry member :=
    ⟨List.mem_cons_of_mem _ (kept.advanced entry member).1, (kept.advanced entry member).2⟩

theorem push {process : Process} (member : process ∈ world.processes) (answer : PushAnswer) :
    Kept git (world.push git process answer) := by
  have authorized := (kept.running process member).1
  unfold World.push
  split
  · exact kept.without process.id
  · rename_i reached
    have takes : git.takes world.remote process.request.candidate = true := by
      simpa using (not_or.mp reached).2
    have taken := kept.take authorized takes
    split
    · exact taken.without process.id
    · refine { taken with distinct := ?_, running := fun other isOther => ?_ }
      · have keys : (Table.update world.processes (fun other => other.id = process.id)
            (fun other => { other with pushed := true })).map Process.id = world.processes.map Process.id :=
          Table.update_keys fun _ => rfl
        exact keys ▸ kept.distinct
      · obtain ⟨old, isOld, rfl⟩ := Table.mem_update.mp isOther
        split
        · rename_i same
          obtain rfl := Table.eq_of_key kept.distinct isOld member (of_decide_eq_true same)
          exact ⟨authorized, fun _ => List.mem_cons_self⟩
        · exact taken.running old isOld

theorem advance {process : Process} (member : process ∈ world.processes) (pushed : process.pushed = true) :
    Kept git (world.advance process) := by
  unfold World.advance
  split
  · have others := kept.without process.id
    refine { others with advanced := fun entry isEntry => ?_ }
    rcases List.mem_cons.mp isEntry with rfl | older
    · exact ⟨(kept.running process member).2 pushed, (kept.running process member).1⟩
    · exact kept.advanced entry older
  · exact kept.without process.id

theorem act {action : Action} (acted : world.act git action = some next) : Kept git next := by
  cases action with
  | start id request credential present =>
      simp only [World.act] at acted
      split at acted
      · contradiction
      · rename_i fresh
        cases inspected : request.inspect git credential present (world.clones request.repository) with
        | error error =>
            rw [inspected] at acted
            exact Option.some.inj acted ▸ kept
        | ok tip =>
            rw [inspected] at acted
            rw [← Option.some.inj acted]
            refine { kept with distinct := ?_, running := fun process member => ?_ }
            · refine List.nodup_cons.mpr ⟨fun taken => fresh ?_, kept.distinct⟩
              obtain ⟨other, isOther, same⟩ := List.mem_map.mp taken
              exact List.any_eq_true.mpr ⟨other, isOther, decide_eq_true same⟩
            · rcases List.mem_cons.mp member with rfl | older
              · exact ⟨(MergeRequest.inspect_ok inspected).1, fun pushed => absurd pushed Bool.false_ne_true⟩
              · exact kept.running process older
  | push id answer =>
      obtain ⟨process, found, rfl⟩ := Option.map_eq_some_iff.mp acted
      exact kept.push (List.mem_of_find?_eq_some found) answer
  | advance id =>
      obtain ⟨process, found, rfl⟩ := Option.map_eq_some_iff.mp acted
      have isPushed := List.find?_some found
      simp only [Bool.and_eq_true, decide_eq_true_eq] at isPushed
      exact kept.advance (List.mem_of_find?_eq_some found) isPushed.2
  | die id => exact Option.some.inj acted ▸ kept.without id
  | pushElsewhere commit =>
      simp only [World.act] at acted
      split at acted
      · rename_i takes
        rw [← Option.some.inj acted]
        refine { kept with lineage := fun tip member => ⟨commit, rfl, kept.forward takes tip member⟩,
                           listed := fun now isNow => ?_, pushed := fun req member => ?_ }
        · rw [← Option.some.inj isNow]
          exact List.mem_cons_self
        · exact ⟨(kept.pushed req member).1, List.mem_cons_of_mem _ (kept.pushed req member).2⟩
      · contradiction
  | move repository tip => exact Option.some.inj acted ▸ { kept with }

end Kept

def baseCommit : String := "aaaaaaaaaaaaaaaaaaaaaaaaaaaaaaaaaaaaaaaa"

def packageCommit : String := "bbbbbbbbbbbbbbbbbbbbbbbbbbbbbbbbbbbbbbbb"

def mergeCommit : String := "cccccccccccccccccccccccccccccccccccccccc"

def smallReaches (older newer : String) : Bool :=
  older = newer || older = baseCommit && (newer = packageCommit || newer = mergeCommit) ||
    older = packageCommit && newer = mergeCommit

def smallGit : Git where
  parents commit :=
    if commit = mergeCommit then [baseCommit, packageCommit] else if commit = packageCommit then [baseCommit] else []
  reaches := smallReaches
  takes tip commit := tip.all fun old => smallReaches old commit
  fastForward tip commit := by cases tip <;> simp
  lawful older newer := by
    unfold smallReaches
    have apart : packageCommit ≠ mergeCommit := by decide +kernel
    constructor
    · intro reaches
      simp only [Bool.or_eq_true, Bool.and_eq_true, decide_eq_true_eq] at reaches
      rcases reaches with (rfl | ⟨rfl, rfl | rfl⟩) | ⟨rfl, rfl⟩
      · exact .refl
      · exact .single (by simp [apart])
      · exact .single (by simp)
      · exact .single (by simp)
    · intro reaches
      induction reaches with
      | refl => simp
      | @tail middle newest _ isParent ih =>
          simp only [Bool.or_eq_true, Bool.and_eq_true, decide_eq_true_eq] at ih ⊢
          have ends : baseCommit ≠ packageCommit ∧ baseCommit ≠ mergeCommit := by decide +kernel
          split_ifs at isParent with isMerge isPackage
          · simp only [List.mem_cons, List.not_mem_nil, or_false] at isParent
            rcases isParent with rfl | rfl <;> grind
          · simp only [List.mem_cons, List.not_mem_nil, or_false] at isParent
            subst isParent
            grind
          · exact absurd isParent List.not_mem_nil

/-- One gate ran on the merge, and another is known not to reach what it changes. -/
def smallReport : GateReportRequest where
  runID := "r1"
  commitSHA := mergeCommit
  packageCommitSHA := packageCommit
  validatorActorID := "gate-runner"
  gates := [⟨"go-test", "go test ./...", some 0, none⟩,
    ⟨"coverage", "", none, some ⟨reasonInstrumentNotReachingTree, ["web/src/app.tsx"]⟩⟩]

def smallMerge : MergeRequest where
  repository := "/srv/clone"
  remote := "origin"
  branch := "feature/merge"
  candidate := mergeCommit
  gateReport := .decoded ⟨outcomeGatesPassed, mergeCommit⟩

/-- The remote takes the first push but is not heard; the merge is begun again. -/
def mergedTwice : List Action :=
  [.start 1 smallMerge true true, .push 1 .unheard, .start 2 smallMerge true true, .push 2 .heard, .advance 2]

/-- However merges and other people's pushes interleave: no commit that was ever the branch's tip leaves its history;
what a merge pushed is a merge commit whose gates passed, and where its report is the control plane's own, some gate
ran on that commit and none failed or went missing; and a clone's branch is advanced only from the tip the candidate
was built on to a candidate that the remote has. -/
theorem merges_only_what_passed {remote : Option String} {clones : String → Option String}
    (run : Steps (fun world action next => World.act git world action = some next) anyAction
      (.initial remote clones) world) :
    (∀ tip ∈ world.history, ∃ now, world.remote = some now ∧ git.reaches tip now = true) ∧
    (∀ req ∈ world.pushes, req.candidate ∈ world.history ∧ (∃ tip, req.Authorized git tip) ∧
      ∀ measured report result, createGateReport measured report = .ok result →
        req.gateReport = .decoded result.authorization → report.commitSHA = req.candidate ∧
          (∃ entry ∈ report.gates, entry.exitCode = some 0) ∧ ∀ entry ∈ report.gates, entry.Holds) ∧
    ∀ entry ∈ world.advances, entry.1 ∈ world.pushes ∧ entry.1.Authorized git entry.2 := by
  have kept : Kept git world := run.invariant (Kept git) (.initial remote clones) fun _ _ _ kept _ acted =>
    kept.act acted
  refine ⟨kept.lineage, fun req member => ⟨(kept.pushed req member).2, (kept.pushed req member).1, ?_⟩, kept.advanced⟩
  intro measured report result accepted same
  obtain ⟨tip, passed, _⟩ := (kept.pushed req member).1
  obtain ⟨isOutcome, isCommit⟩ : result.outcome = outcomeGatesPassed ∧ result.commitSHA = req.candidate := by
    simpa [GateReportResult.authorization] using GateReport.decoded.inj (same.symm.trans passed)
  obtain ⟨sameCommit, ran, holds⟩ := holds_of_createGateReport accepted isOutcome
  exact ⟨sameCommit.symm.trans isCommit, ran, holds⟩

theorem merges_only_what_passed_again :
    ∃ world, Steps (fun world action next => World.act smallGit world action = some next) anyAction
        (.initial (some baseCommit) fun _ => some baseCommit) world ∧
      world.remote = some mergeCommit ∧ world.clones "/srv/clone" = some mergeCommit ∧
      world.pushes = [smallMerge, smallMerge] ∧ ∀ entry ∈ smallReport.gates, entry.Holds := by
  have ran : (Steps.ofList (World.act smallGit) (fun _ _ => true)
      (.initial (some baseCommit) fun _ => some baseCommit) mergedTwice).map (fun world =>
        (world.remote, world.clones "/srv/clone", world.pushes)) =
      some (some mergeCommit, some mergeCommit, [smallMerge, smallMerge]) := by
    decide +kernel
  obtain ⟨world, run, seen⟩ := Steps.reaches_of_ofList (fun _ _ _ => trivial) ran
  simp only [Prod.mk.injEq] at seen
  obtain ⟨isRemote, isClone, arePushes⟩ := seen
  have accepted : (createGateReport packageCommit smallReport).map GateReportResult.authorization =
      .ok ⟨outcomeGatesPassed, mergeCommit⟩ := by decide +kernel
  cases report : createGateReport packageCommit smallReport with
  | error error => simp [report, Except.map] at accepted
  | ok result =>
      rw [report] at accepted
      have same : smallMerge.gateReport = .decoded result.authorization :=
        congrArg GateReport.decoded (Except.ok.inj accepted).symm
      have passed := (merges_only_what_passed run).2.1 smallMerge (arePushes ▸ List.mem_cons_self)
      exact ⟨world, run, isRemote, isClone, arePushes, (passed.2.2 _ _ _ report same).2.2⟩

/-- Only this request is being merged, as often and as badly as may be, and nobody else touches the branch. -/
def OnlyMerges (req : MergeRequest) (_ : World) : Action → Prop
  | .start _ request _ _ => request = req
  | .push _ _ | .advance _ | .die _ => True
  | .pushElsewhere _ | .move _ _ => False

instance (req : MergeRequest) (world : World) : (action : Action) → Decidable (OnlyMerges req world action)
  | .start _ request _ _ => inferInstanceAs (Decidable (request = req))
  | .push _ _ | .advance _ | .die _ => inferInstanceAs (Decidable True)
  | .pushElsewhere _ | .move _ _ => inferInstanceAs (Decidable False)

/-- The branch is where it was or at the candidate, on the remote first. -/
structure Between (base first : String) (req : MergeRequest) (world : World) : Prop where
  remote : world.remote = some base ∨ world.remote = some req.candidate
  clone : world.clones req.repository = some first ∨
    world.clones req.repository = some req.candidate ∧ world.remote = some req.candidate
  running : ∀ process ∈ world.processes, process.request = req ∧
    (process.pushed = true → world.remote = some req.candidate)

namespace Between

variable {base first : String} (between : Between base first req world)

include between

theorem without (id : Nat) : Between base first req (world.without id) :=
  { between with running := fun process member => between.running process (List.mem_of_mem_filter member) }

theorem take : Between base first req (world.take req) where
  remote := Or.inr rfl
  clone := between.clone.imp_right fun there => ⟨there.1, rfl⟩
  running process member := ⟨(between.running process member).1, fun _ => rfl⟩

theorem push {process : Process} (member : process ∈ world.processes) (answer : PushAnswer) :
    Between base first req (world.push git process answer) := by
  have isReq := (between.running process member).1
  unfold World.push
  split
  · exact between.without process.id
  · rw [isReq]
    split
    · exact between.take.without process.id
    · refine { between.take with running := fun other isOther => ?_ }
      obtain ⟨old, isOld, rfl⟩ := Table.mem_update.mp isOther
      split
      · exact ⟨(between.running old isOld).1, fun _ => rfl⟩
      · exact between.take.running old isOld

theorem advance {process : Process} (member : process ∈ world.processes) (pushed : process.pushed = true) :
    Between base first req (world.advance process) := by
  have there := (between.running process member).2 pushed
  unfold World.advance
  rw [(between.running process member).1]
  split
  · have others := between.without process.id
    exact { others with clone := Or.inr ⟨if_pos rfl, there⟩ }
  · exact between.without process.id

theorem act {action : Action} (allowed : OnlyMerges req world action) (acted : world.act git action = some next) :
    Between base first req next := by
  cases action with
  | start id request credential present =>
      obtain rfl : request = req := allowed
      simp only [World.act] at acted
      split at acted
      · contradiction
      · split at acted
        · exact Option.some.inj acted ▸ between
        · rw [← Option.some.inj acted]
          refine { between with running := fun process member => ?_ }
          rcases List.mem_cons.mp member with rfl | older
          · exact ⟨rfl, fun pushed => absurd pushed Bool.false_ne_true⟩
          · exact between.running process older
  | push id answer =>
      obtain ⟨process, found, rfl⟩ := Option.map_eq_some_iff.mp acted
      exact between.push (List.mem_of_find?_eq_some found) answer
  | advance id =>
      obtain ⟨process, found, rfl⟩ := Option.map_eq_some_iff.mp acted
      have isPushed := List.find?_some found
      simp only [Bool.and_eq_true, decide_eq_true_eq] at isPushed
      exact between.advance (List.mem_of_find?_eq_some found) isPushed.2
  | die id => exact Option.some.inj acted ▸ between.without id
  | pushElsewhere commit => exact absurd allowed id
  | move repository tip => exact absurd allowed id

end Between

/-- The commands of a merge, one after another, where the remote answers. -/
def World.mergeCandidate (git : Git) (id : Nat) (req : MergeRequest) (world : World) : Option World :=
  (world.act git (.start id req true true)).bind fun started =>
    (started.act git (.push id .heard)).bind fun pushed => pushed.act git (.advance id)

theorem mergeCandidate_lands {id : Nat} {first second now : String}
    (fresh : ∀ process ∈ world.processes, process.id ≠ id) (authorized : req.authorize true = .ok ())
    (built : git.parents req.candidate = [first, second])
    (here : world.clones req.repository = some first) (there : world.remote = some now)
    (forward : git.reaches now req.candidate = true) :
    ∃ landed, world.mergeCandidate git id req = some landed ∧
      landed.clones req.repository = some req.candidate ∧ landed.remote = some req.candidate := by
  let started : World := { world with processes := ⟨id, req, first, false⟩ :: world.processes }
  have starts : world.act git (.start id req true true) = some started := by
    have unused : world.processes.any (·.id = id) = false := by
      rw [List.any_eq_false]
      exact fun process member => by simpa using fresh process member
    have inspected : req.inspect git true true (some first) = .ok first := by
      simp [MergeRequest.inspect, authorized, built]
    simp [World.act, unused, here, inspected, started]
  have takes : git.takes started.remote req.candidate = true := by
    rw [git.fastForward, show started.remote = some now from there]
    rintro _ ⟨⟩
    exact forward
  let pushed := started.push git ⟨id, req, first, false⟩ .heard
  have pushes : started.act git (.push id .heard) = some pushed := by
    simp [World.act, started, pushed]
  have isPushed : pushed = { started.take req with
      processes := Table.update started.processes (fun other => other.id = id)
        (fun other => { other with pushed := true }) } := by
    simp [pushed, World.push, takes]
  let landed := pushed.advance ⟨id, req, first, true⟩
  have advances : pushed.act git (.advance id) = some landed := by
    simp [World.act, isPushed, landed, started, Table.update]
  have still : pushed.clones req.repository = some first := by
    rw [isPushed]
    exact here
  have there : pushed.remote = some req.candidate := by rw [isPushed]; rfl
  refine ⟨landed, by simp [World.mergeCandidate, starts, pushes, advances], ?_⟩
  simp only [landed, World.advance, if_pos still, World.without]
  exact ⟨if_pos trivial, there⟩

/-- However often merges of one authorized candidate were begun and however they died, while nobody else touches the
branch: the clone's branch is at the candidate and so is the remote's, or one more merge puts both there. -/
theorem merges_land_when_tried_again {base first second : String} {clones : String → Option String}
    (authorized : req.authorize true = .ok ()) (built : git.parents req.candidate = [first, second])
    (here : clones req.repository = some first) (forward : git.reaches base req.candidate = true)
    (run : Steps (fun world action next => World.act git world action = some next) (OnlyMerges req)
      (.initial (some base) clones) world) :
    (world.clones req.repository = some req.candidate ∧ world.remote = some req.candidate) ∨
    world.clones req.repository = some first ∧ ∀ id, (∀ process ∈ world.processes, process.id ≠ id) →
      ∃ landed, world.mergeCandidate git id req = some landed ∧
        landed.clones req.repository = some req.candidate ∧ landed.remote = some req.candidate := by
  have between : Between base first req world := by
    refine run.invariant (Between base first req) ⟨Or.inl rfl, Or.inl here, ?_⟩ fun _ _ _ between allowed acted =>
      between.act allowed acted
    exact fun _ member => absurd member List.not_mem_nil
  rcases between.clone with stays | landed
  · refine Or.inr ⟨stays, fun id fresh => ?_⟩
    rcases between.remote with isBase | isCandidate
    · exact mergeCandidate_lands fresh authorized built stays isBase forward
    · exact mergeCandidate_lands fresh authorized built stays isCandidate (git.reaches_refl _)
  · exact Or.inl landed

theorem merges_land_when_tried_again_unheard :
    ∃ world, Steps (fun world action next => World.act smallGit world action = some next) (OnlyMerges smallMerge)
        (.initial (some baseCommit) fun _ => some baseCommit) world ∧
      world.remote = some mergeCommit ∧ world.clones "/srv/clone" = some baseCommit ∧
      ∃ landed, world.mergeCandidate smallGit 2 smallMerge = some landed ∧
        landed.clones "/srv/clone" = some mergeCommit ∧ landed.remote = some mergeCommit := by
  have ran : (Steps.ofList (World.act smallGit) (fun world action => decide (OnlyMerges smallMerge world action))
      (.initial (some baseCommit) fun _ => some baseCommit)
      [.start 1 smallMerge true true, .push 1 .unheard]).map (fun world =>
        (world.remote, world.clones "/srv/clone", world.processes)) =
      some (some mergeCommit, some baseCommit, []) := by
    decide +kernel
  obtain ⟨world, run, seen⟩ := Steps.reaches_of_ofList (fun _ _ passes => of_decide_eq_true passes) ran
  simp only [Prod.mk.injEq] at seen
  obtain ⟨isRemote, isClone, none⟩ := seen
  refine ⟨world, run, isRemote, isClone, ?_⟩
  rcases @merges_land_when_tried_again smallGit world smallMerge baseCommit baseCommit packageCommit
    (fun _ => some baseCommit) (by decide +kernel) (by decide +kernel) rfl (by decide +kernel) run with
    ⟨landed, _⟩ | ⟨_, again⟩
  · exact absurd (isClone.symm.trans landed) (by decide +kernel)
  · exact again 2 (by simp [none])

end

end CultureNodes.Handover
