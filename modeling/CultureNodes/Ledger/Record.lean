import CultureNodes.Compiler.Contract
import CultureNodes.Library.Json

/-!
Records of the work ledger. Kinds, authorities and origins arrive as text, so each has a case for a text
that is none of the known ones. An identifier that is not set is the empty string, and so is the zero
time the number 0.
-/

namespace CultureNodes.Ledger

inductive RecordType where
  | announcement
  | claim
  | assumption
  | question
  | task
  | decision
  | successSignal
  | evidence
  | result
  | review
  | grade
  | dispatchPreflight
  | dispatchAcknowledgement
  | handTurn
  | handTurnDefinition
  | other (text : String)
deriving DecidableEq, Repr

inductive Authority where
  | proposed
  | confirmed
  | observed
  | derived
  | rejected
  | superseded
  | other (text : String)
deriving DecidableEq, Repr

def Authority.valid : Authority → Bool
  | .other _ => false
  | _ => true

inductive OriginKind where
  | agent
  | human
  | runner
  | service
  | engine
  | validator
  | other (text : String)
deriving DecidableEq, Repr

def OriginKind.valid : OriginKind → Bool
  | .other _ => false
  | _ => true

def OriginKind.text : OriginKind → String
  | .agent => "agent"
  | .human => "human"
  | .runner => "runner"
  | .service => "service"
  | .engine => "engine"
  | .validator => "validator"
  | .other text => text

/-- The origin kind an actor of the registry has. -/
def OriginKind.ofText (text : String) : OriginKind :=
  if text = "agent" then .agent
  else if text = "human" then .human
  else if text = "runner" then .runner
  else if text = "service" then .service
  else if text = "engine" then .engine
  else if text = "validator" then .validator
  else .other text

structure Origin where
  kind : OriginKind
  actorID : String := ""
  actorRevision : String := ""
deriving DecidableEq, Repr

structure Record where
  id : String := ""
  schemaVersion : String := ""
  recordType : RecordType
  runID : String := ""
  nodeRunID : String := ""
  attemptID : String := ""
  origin : Origin
  authority : Authority := .other ""
  subjectRef : String := ""
  data : Option Json := none
  provenanceRefs : List String := []
  supersedes : String := ""
  createdAt : Int := 0
  contentDigest : String := ""
deriving Repr

def schemaVersion : String := "nodes.culture.dev/ledger/v1alpha1"

namespace Record

/-- The members of the payload; none when there is no payload or it is null. A payload that is no object
does not decode. -/
def dataMap (rec : Record) : Option (List (String × Json)) :=
  match rec.data with
  | none | some .null => some []
  | some (.object members) => some members
  | some _ => none

def gradeEvaluatedActorID (rec : Record) : String :=
  match rec.recordType, rec.dataMap with
  | .grade, some members => ((Json.object members).text? "evaluated_actor_id").getD ""
  | _, _ => ""

end Record

/-- The store keeps microseconds. -/
def truncate (instant : Int) : Int := instant - instant % 1000

/-- The instant, in nanoseconds from the zero time, lies in a year that has four digits. -/
def encodes (instant : Int) : Bool :=
  -31622400000000000 ≤ instant && instant < 315537897600000000000

/-- What the ledger stamps a record with where its caller left it open. -/
structure Stamp where
  newID : String
  now : Int
  named : newID ≠ ""
  dated : encodes (truncate now) = true
deriving DecidableEq

/-- Fill what the runtime owns. -/
def normalize (stamp : Stamp) (rec : Record) : Record :=
  { rec with
    id := if rec.id = "" then stamp.newID else rec.id
    schemaVersion := if rec.schemaVersion = "" then schemaVersion else rec.schemaVersion
    createdAt := truncate (if rec.createdAt = 0 then stamp.now else rec.createdAt)
    data := some (rec.data.getD (.object [])) }

/-- The parts of the ledger outside this repository's text: the check of a record against the schema of
its type, and the digests over canonical JSON. -/
structure Rules where
  validate : Record → Except String Unit
  digest : Record → String
  frameChecksum : List String → String

/-- The digest covers every field but itself. -/
def Rules.computeDigest (rules : Rules) (rec : Record) : Except String String :=
  if encodes rec.createdAt then .ok (rules.digest { rec with contentDigest := "" })
  else .error ("ledger: marshal record " ++ rec.id ++ ": year outside of range [0,9999]")

/-- The parts of a payload a runner can have measured: the leaves under its members, by pointer. Objects
are walked, and an array is one leaf. -/
def leaves (above : String) : Json → List String
  | .object [] => if above = "" then [] else [above]
  | .object (member :: rest) => membersLeaves above (member :: rest)
  | _ => if above = "" then [] else [above]
where
  membersLeaves (above : String) : List (String × Json) → List String
    | [] => []
    | (key, value) :: rest =>
        leaves (above ++ "/" ++ Compiler.escapePointerToken key) value ++ membersLeaves above rest

def dataLeafPointers (data : Option Json) : List String :=
  match data with
  | none => []
  | some value => (leaves "" value).mergeSort fun left right => decide (left ≤ right)

end CultureNodes.Ledger
