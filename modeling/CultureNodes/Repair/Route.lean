import CultureNodes.Library.Duration

/-!
Where a gate that rejects a commit goes next: to a bounded repair on a lane that can run the suite, or to
a person. Instants count from the zero time, which stands for none.
-/

namespace CultureNodes.Repair

def maxAttempts : Nat := 2

def window : Int := 86400 * Duration.second

def guardedPathPrefixes : List String := [".github/"]

inductive Destination where
  | none
  | repair
  | human
deriving DecidableEq, Repr

inductive Reason where
  | gatePassed
  | withinBound
  | ceilingReached
  | windowExpired
  | outOfWorkflowScope
  | laneCannotWrite
  | laneCannotVerify
  | laneCapabilityUnknown
  | noRepairLane
deriving DecidableEq, Repr

/-- A tool of a lane: the postures it runs in, and for others the lane's words for why not. -/
structure Toolchain where
  name : String
  usableIn : List String := []
  unusableIn : List (String × String) := []
deriving DecidableEq, Repr

/-- The actor a repair would go to, and what its surface says it can do. -/
structure Lane where
  actorID : String := ""
  actorKey : String := ""
  surfaceAdvertised : Bool := false
  posture : String := ""
  grants : List String := []
  toolchains : List Toolchain := []
deriving DecidableEq, Repr

/-- The facts of a host that a bridge advertises. -/
structure HostBlock where
  defaultSandboxMode : String := ""
  dispatchGrants : List (String × List String) := []
  toolchains : List Toolchain := []
deriving DecidableEq, Repr

/-- The lane of a registered actor; one whose surface is missing or cannot be read advertises none. -/
def laneFromCapabilities (actorID actorKey : String) (surface : Option HostBlock) : Lane :=
  match surface with
  | none => { actorID := actorID, actorKey := actorKey }
  | some host =>
      { actorID := actorID
        actorKey := actorKey
        surfaceAdvertised := true
        posture := host.defaultSandboxMode
        grants := (host.dispatchGrants.lookup host.defaultSandboxMode).getD []
        toolchains := host.toolchains }

structure Gate where
  suite : String
  command : List String := []
  exitCode : Int
  commitSHA : String := ""
  verdictRecordID : Nat
  requiresGrants : List String := []
deriving DecidableEq, Repr

/-- What a run has already spent. -/
structure History where
  attempts : Nat := 0
  firstRejectionAt : Int := 0
deriving DecidableEq, Repr

structure RouteInput where
  runID : String
  nodeRunID : String := ""
  attemptID : String := ""
  gate : Gate
  lane : Lane
  history : History
  implicatedPaths : List String := []
  routerActorID : String
  now : Int
deriving DecidableEq, Repr

structure Routing where
  destination : Destination
  reason : Reason
  attemptNumber : Nat := 0
  attemptsUsed : Nat
  attemptsRemaining : Nat
  deadline : Int
  laneActorID : String
  laneActorKey : String
  guardedPaths : List String := []
deriving DecidableEq, Repr

/-- White space as the source's trimming has it. -/
def isSpace (letter : Char) : Bool :=
  [9, 10, 11, 12, 13, 32, 133, 160, 5760, 8232, 8233, 8239, 8287, 12288].contains letter.toNat ||
    (8192 ≤ letter.toNat && letter.toNat ≤ 8202)

def trimSpace (text : List Char) : List Char :=
  ((text.dropWhile isSpace).reverse.dropWhile isSpace).reverse

/-- Every leading "./" is taken off. -/
def dropCurrent : List Char → List Char
  | '.' :: '/' :: rest => dropCurrent rest
  | text => text

def normalize (path : String) : List Char :=
  dropCurrent (trimSpace (path.toList.map fun letter => if letter = '\\' then '/' else letter))

/-- The path is the boundary itself, without its slash, or lies under it. -/
def under (candidate boundary : List Char) : Bool :=
  candidate == (if boundary.getLast? = some '/' then boundary.dropLast else boundary) ||
    boundary.isPrefixOf candidate

/-- The paths that a dispatch may not touch, each once and in the order they are first seen. -/
def guarded (paths : List String) : List String :=
  paths.foldl (fun hits path =>
    let candidate := normalize path
    if candidate = [] || hits.contains (String.ofList candidate) then hits
    else if guardedPathPrefixes.any fun boundary => under candidate boundary.toList then
      hits ++ [String.ofList candidate]
    else hits) []

/-- The last element of a path. -/
def pathBase (text : List Char) : String :=
  if text = [] then "."
  else
    let bare := (text.reverse.dropWhile (· = '/')).reverse
    if bare = [] then "/" else String.ofList (bare.reverse.takeWhile (· ≠ '/')).reverse

/-- The binary of the gate's command. -/
def toolName : List String → String
  | [] => ""
  | first :: _ => pathBase (trimSpace first.toList)

/-- Why a lane cannot run the suite again. -/
inductive Unverifiable where
  | ungranted (want : String)
  | unusable (tool why : String)
  | otherPosture (tool : String) (usableIn : List String)
  | unlisted (tool : String)
deriving DecidableEq, Repr

def cannotVerify (lane : Lane) (gate : Gate) : Option Unverifiable :=
  match gate.requiresGrants.find? fun want => !lane.grants.contains want with
  | some want => some (.ungranted want)
  | none =>
      let tool := toolName gate.command
      if tool = "" then none
      else
        match lane.toolchains.find? (·.name = tool) with
        | none => some (.unlisted tool)
        | some toolchain =>
            if toolchain.usableIn.contains lane.posture then none
            else
              match toolchain.unusableIn.lookup lane.posture with
              | some why => if why ≠ "" then some (.unusable tool why)
                  else some (.otherPosture tool toolchain.usableIn)
              | none => some (.otherPosture tool toolchain.usableIn)

namespace RouteInput

variable (clock : Int) (input : RouteInput)

/-- The instant the routing is made; the clock's where none is given. -/
def instant : Int := if input.now = 0 then clock else input.now

def first : Int :=
  if input.history.firstRejectionAt = 0 then input.instant clock else input.history.firstRejectionAt

def deadline : Int := input.first clock + window

/-- A routing that spends nothing. -/
def elsewhere (destination : Destination) (reason : Reason) : Routing where
  destination := destination
  reason := reason
  attemptsUsed := input.history.attempts
  attemptsRemaining := maxAttempts - input.history.attempts
  deadline := input.deadline clock
  laneActorID := input.lane.actorID
  laneActorKey := input.lane.actorKey

/-- Route a gate outcome. What no number of attempts would allow comes before the budget. -/
def decide : Routing :=
  if input.gate.exitCode = 0 then input.elsewhere clock .none .gatePassed
  else if guarded input.implicatedPaths ≠ [] then
    { input.elsewhere clock .human .outOfWorkflowScope with
      guardedPaths := guarded input.implicatedPaths }
  else if input.lane.actorID = "" then input.elsewhere clock .human .noRepairLane
  else if !input.lane.surfaceAdvertised then input.elsewhere clock .human .laneCapabilityUnknown
  else if !input.lane.grants.contains "workspace-write" then
    input.elsewhere clock .human .laneCannotWrite
  else if (cannotVerify input.lane input.gate).isSome then
    input.elsewhere clock .human .laneCannotVerify
  else if input.deadline clock < input.instant clock then
    input.elsewhere clock .human .windowExpired
  else if maxAttempts ≤ input.history.attempts then input.elsewhere clock .human .ceilingReached
  else
    { input.elsewhere clock .repair .withinBound with
      attemptNumber := input.history.attempts + 1
      attemptsRemaining := maxAttempts - (input.history.attempts + 1) }

/-- The repair is within reach of the lane, and of the window and the attempts of the run. -/
structure Repairable : Prop where
  rejected : input.gate.exitCode ≠ 0
  inScope : guarded input.implicatedPaths = []
  lane : input.lane.actorID ≠ ""
  advertised : input.lane.surfaceAdvertised = true
  writes : input.lane.grants.contains "workspace-write" = true
  verifies : cannotVerify input.lane input.gate = none
  fresh : input.instant clock ≤ input.deadline clock
  unspent : input.history.attempts < maxAttempts

instance : Decidable (Repairable clock input) :=
  decidable_of_iff
    (input.gate.exitCode ≠ 0 ∧ guarded input.implicatedPaths = [] ∧ input.lane.actorID ≠ "" ∧
      input.lane.surfaceAdvertised = true ∧ input.lane.grants.contains "workspace-write" = true ∧
      cannotVerify input.lane input.gate = none ∧ input.instant clock ≤ input.deadline clock ∧
      input.history.attempts < maxAttempts)
    ⟨fun met => ⟨met.1, met.2.1, met.2.2.1, met.2.2.2.1, met.2.2.2.2.1, met.2.2.2.2.2.1,
        met.2.2.2.2.2.2.1, met.2.2.2.2.2.2.2⟩,
      fun met => ⟨met.rejected, met.inScope, met.lane, met.advertised, met.writes, met.verifies,
        met.fresh, met.unspent⟩⟩

variable {clock : Int} {input : RouteInput}

theorem decide_of_repairable (repairable : input.Repairable clock) :
    input.decide clock =
      { input.elsewhere clock .repair .withinBound with
        attemptNumber := input.history.attempts + 1
        attemptsRemaining := maxAttempts - (input.history.attempts + 1) } := by
  simp [decide, repairable.rejected, repairable.inScope, repairable.lane, repairable.advertised,
    List.contains_iff_mem.mp repairable.writes, repairable.verifies, repairable.fresh.not_gt,
    repairable.unspent.not_ge]

theorem past_guard {guard : Prop} [Decidable guard] {refused onward : Routing}
    (routed : (if guard then refused else onward).destination = .repair)
    (elsewhere : refused.destination ≠ .repair) : ¬guard ∧ onward.destination = .repair := by
  by_cases held : guard
  · rw [if_pos held] at routed
    exact absurd routed elsewhere
  · rw [if_neg held] at routed
    exact ⟨held, routed⟩

theorem decide_repair_iff :
    (input.decide clock).destination = .repair ↔ input.Repairable clock := by
  constructor
  · intro routed
    unfold decide at routed
    obtain ⟨rejected, routed⟩ := past_guard routed nofun
    obtain ⟨inScope, routed⟩ := past_guard routed nofun
    obtain ⟨lane, routed⟩ := past_guard routed nofun
    obtain ⟨advertised, routed⟩ := past_guard routed nofun
    obtain ⟨writes, routed⟩ := past_guard routed nofun
    obtain ⟨verifies, routed⟩ := past_guard routed nofun
    obtain ⟨fresh, routed⟩ := past_guard routed nofun
    obtain ⟨unspent, _⟩ := past_guard routed nofun
    exact ⟨rejected, not_not.mp inScope, lane, by simpa using advertised, by simpa using writes,
      by simpa using verifies, not_lt.mp fresh, not_le.mp unspent⟩
  · intro repairable
    rw [decide_of_repairable repairable]
    rfl

theorem decide_attemptNumber (routed : (input.decide clock).destination = .repair) :
    (input.decide clock).attemptNumber = input.history.attempts + 1 := by
  rw [decide_of_repairable (decide_repair_iff.mp routed)]

end RouteInput

end CultureNodes.Repair
