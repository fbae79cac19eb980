import Mathlib.Data.List.Basic

/-!
# The delivery data model

This module embeds the wire types of `pkg/delivery/model.go`: the enumerations,
the intent of an operation, what the promoter writes on an operation and on a
Stage, and the plan an operation carries.

Strings that name a closed set in the source are inductive types here.  A name
outside the set, which the source keeps as a plain string, is an `other`
value where a modelled function can meet one.  An empty string that stands
for "not set" is `none`.  Timestamps and durations are seconds.
-/

namespace Pacto.Delivery

/-! ## Enumerations -/

/-- What an operation may change on a Stage. -/
inductive Facet where
  | pointer
  | freeze
  | level
  | upstream
  deriving DecidableEq, Repr

def Facet.text : Facet → String
  | .pointer => "pointer"
  | .freeze => "freeze"
  | .level => "level"
  | .upstream => "upstream"

/-- The operation types, by id.  `other` is an id no type has. -/
inductive TypeID where
  | promote
  | rollback
  | override
  | unfreeze
  | freeze
  | autonomy
  | acknowledge
  | other (id : String)
  deriving DecidableEq, Repr

/-- The id as it is written on an operation and in messages. -/
def TypeID.text : TypeID → String
  | .promote => "delivery.pacto.trianalab.io/promote"
  | .rollback => "delivery.pacto.trianalab.io/rollback"
  | .override => "delivery.pacto.trianalab.io/override"
  | .unfreeze => "delivery.pacto.trianalab.io/unfreeze"
  | .freeze => "delivery.pacto.trianalab.io/freeze"
  | .autonomy => "delivery.pacto.trianalab.io/autonomy"
  | .acknowledge => "delivery.pacto.trianalab.io/acknowledge"
  | .other id => id

/-- A gate verdict. -/
inductive Result where
  | pass
  | fail
  | unknown
  deriving DecidableEq, Repr

def Result.text : Result → String
  | .pass => "Pass"
  | .fail => "Fail"
  | .unknown => "Unknown"

/-- Where an operation is in its lifecycle; `new` is the empty phase of an
operation the promoter has not admitted. -/
inductive Phase where
  | new
  | pending
  | held
  | running
  | verifying
  | concluded
  deriving DecidableEq, Repr

/-- How a concluded operation ended; `unset` is the outcome of a conclusion
nobody decided. -/
inductive Outcome where
  | unset
  | succeeded
  | failed
  | errored
  | cancelled
  | rejected
  | expired
  | superseded
  | witnessed
  deriving DecidableEq, Repr

/-- The outcome as messages write it. -/
def Outcome.text : Outcome → String
  | .unset => ""
  | .succeeded => "Succeeded"
  | .failed => "Failed"
  | .errored => "Errored"
  | .cancelled => "Cancelled"
  | .rejected => "Rejected"
  | .expired => "Expired"
  | .superseded => "Superseded"
  | .witnessed => "Witnessed"

/-- What qualifies a `succeeded` outcome. -/
inductive Verification where
  | verified
  | acceptedUnknown
  | unverified
  deriving DecidableEq, Repr

/-- The verification as messages write it. -/
def Verification.text : Verification → String
  | .verified => "Verified"
  | .acceptedUnknown => "AcceptedUnknown"
  | .unverified => "Unverified"

/-- What a human approval says. -/
inductive Decision where
  | approve
  | reject
  | acceptUnknown
  deriving DecidableEq, Repr

def Decision.text : Decision → String
  | .approve => "approve"
  | .reject => "reject"
  | .acceptUnknown => "accept-unknown"

/-- Who raised an operation, as the promoter classifies them. -/
inductive ActorClass where
  | controller
  | agent
  | human
  | breakGlass
  deriving DecidableEq, Repr

/-- What `PlanFor` expects the promoter to do. -/
inductive Prediction where
  | proceeds
  | held
  | rejected
  | waits
  deriving DecidableEq, Repr

/-- How much a Stage lets Pacto do without a person; `other` is a name that is
not a level, the empty name included. -/
inductive Level where
  | observe
  | advise
  | autoNonBreaking
  | autonomous
  | other (name : String)
  deriving DecidableEq, Repr

def Level.name : Level → String
  | .observe => "observe"
  | .advise => "advise"
  | .autoNonBreaking => "auto-nonbreaking"
  | .autonomous => "autonomous"
  | .other name => name

/-- The level a string names: the conversion `Level(s)` of the source. -/
def Level.ofName (s : String) : Level :=
  if s = "observe" then .observe
  else if s = "advise" then .advise
  else if s = "auto-nonbreaking" then .autoNonBreaking
  else if s = "autonomous" then .autonomous
  else .other s

/-- The level of an empty `status.level` or `spec.startLevel`. -/
def Level.unset : Level := .other ""

/-! ## Verdicts, plans and intents -/

/-- One gate's answer and the citation it can be run again from. -/
structure Verdict where
  gate : String
  phase : String
  result : Result
  citation : List (String × String) := []
  message : String := ""
  deriving DecidableEq, Repr

def Verdict.cite (v : Verdict) (key : String) : String :=
  (v.citation.lookup key).getD ""

/-- Why an operation was raised. -/
structure Cause where
  operation : String := ""
  verdict : Option Verdict := none
  reason : String := ""
  deriving DecidableEq, Repr

/-- The operation parameters: digests on the pointer facet, level names on the
level facet. -/
structure Params where
  «from» : String := ""
  «to» : String := ""
  undoes : String := ""
  record : String := ""
  deriving DecidableEq, Repr

/-- The identity that created an operation. -/
structure Actor where
  user : String
  groups : List String := []
  deriving DecidableEq, Repr

/-- The intent of an operation.  It is frozen at admission. -/
structure OperationSpec where
  type : TypeID
  stage : String
  facet : Facet
  params : Params := {}
  intentDigest : String := ""
  reason : String := ""
  correlationID : String := ""
  actor : Actor
  onBehalfOf : Option String := none
  cause : Option Cause := none
  witnessed : Bool := false
  deriving DecidableEq, Repr

/-- The approval floor a plan computed: whether a human must decide, which
decision is asked for and whose. -/
structure Floor where
  human : Bool := false
  decision : Option Decision := none
  owners : List String := []
  consumers : List String := []
  deriving DecidableEq, Repr

/-- A consumer that must move before the provider can; `candidate` is the
digest of a verified version of it that can. -/
structure MoveFirst where
  service : String
  candidate : Option String := none
  message : String := ""
  deriving DecidableEq, Repr

/-- What must move before a blocked promote can ship. -/
structure Order where
  moveFirst : List MoveFirst := []
  unknown : List String := []
  deriving DecidableEq, Repr

/-- The answer of `PlanFor`, bound to the intent digest. -/
structure Plan where
  intentDigest : String
  type : TypeID
  «from» : String := ""
  «to» : String := ""
  toVersion : String := ""
  verdicts : List Verdict := []
  floor : Floor := {}
  question : String := ""
  conflicts : List String := []
  predicted : Prediction
  impactDigest : String := ""
  order : Option Order := none
  deriving DecidableEq, Repr

/-! ## The Stage -/

/-- One verify gate a Stage runs. -/
structure GateCheck where
  name : String
  provider : String
  params : List (String × String) := []
  suite : String := ""
  suiteDigest : String := ""
  deriving DecidableEq, Repr

/-- A Stage in another cluster, known by its signed records. -/
structure RemoteStage where
  repository : String
  stream : String
  deriving DecidableEq, Repr

/-- A Stage by name and namespace. -/
structure StageRef where
  name : String
  ns : String := ""
  deriving DecidableEq, Repr

/-- Where new versions come from. -/
structure Candidates where
  ociRepositoryRef : Option String := none
  upstreamStage : Option StageRef := none
  upstreamRecords : Option RemoteStage := none
  deriving DecidableEq, Repr

/-- One service in one environment: the policy an operation runs under. -/
structure StageSpec where
  service : String
  environment : String := ""
  applyRef : String := ""
  candidates : Candidates := {}
  startLevel : Level := .unset
  proposeAfter : Nat := 0
  declaredConsumersOnly : Bool := false
  verifyWindow : Option Nat := none
  checks : List GateCheck := []
  approvalAlways : Bool := false
  approvalDeadline : Option Nat := none
  executionDeadline : Option Nat := none
  recordsRequired : Bool := false
  deriving DecidableEq, Repr

/-- One operation's seq and conclusion, as the Stage remembers it. -/
structure Concluded where
  uid : String
  seq : Int
  outcome : Outcome
  verification : Option Verification := none
  reason : String := ""
  type : TypeID
  person : Bool := false
  clearedBreaking : Bool := false
  cause : String := ""
  deriving DecidableEq, Repr

/-- The numbering of a Stage's concluded operations. -/
structure Stream where
  id : String := ""
  seq : Int := 0
  recordedSeq : Int := 0
  head : String := ""
  concluded : List Concluded := []
  deriving DecidableEq, Repr

/-- One record of a stream, by seq and id. -/
structure RecordMark where
  stream : String := ""
  seq : Int := 0
  record : String := ""
  deriving DecidableEq, Repr

/-- The digest GitOps' source reports while a Stage observes. -/
structure ObservedRevision where
  digest : String
  since : Nat := 0
  deriving DecidableEq, Repr

/-- What Pacto would have decided for a candidate while the Stage observes. -/
structure Shadow where
  candidate : String
  observedAt : Option Nat := none
  verification : Option Verification := none
  deriving DecidableEq, Repr

/-- One reason the next level is not proposed. -/
structure Blocker where
  kind : String
  subject : String := ""
  message : String
  deriving DecidableEq, Repr

/-- The next level Pacto proposes for a Stage, or why not yet. -/
structure Proposal where
  level : Level := .unset
  evidence : List String := []
  blockers : List Blocker := []
  deriving DecidableEq, Repr

/-- A status condition of the Stage. -/
structure Condition where
  type : String
  status : String
  reason : String := ""
  message : String := ""
  deriving DecidableEq, Repr

/-- `status.locks`: for each facet the uid of the operation holding it, empty
when nobody does. -/
structure Locks where
  pointer : String := ""
  freeze : String := ""
  level : String := ""
  upstream : String := ""
  deriving DecidableEq, Repr

def Locks.get (l : Locks) : Facet → String
  | .pointer => l.pointer
  | .freeze => l.freeze
  | .level => l.level
  | .upstream => l.upstream

/-- `locks[facet] = uid`; deleting the entry sets it to the empty uid. -/
def Locks.set (l : Locks) (facet : Facet) (uid : String) : Locks :=
  match facet with
  | .pointer => { l with pointer := uid }
  | .freeze => { l with freeze := uid }
  | .level => { l with level := uid }
  | .upstream => { l with upstream := uid }

@[simp] theorem Locks.get_set_self (l : Locks) (f : Facet) (uid : String) :
    (l.set f uid).get f = uid := by
  cases f <;> rfl

@[simp] theorem Locks.get_set_of_ne (l : Locks) {f g : Facet} (uid : String)
    (h : g ≠ f) : (l.set f uid).get g = l.get g := by
  cases f <;> cases g <;> first | rfl | exact absurd rfl h

/-- What the promoter and the recorder keep on a Stage. -/
structure StageStatus where
  pointer : String := ""
  lastOp : String := ""
  locks : Locks := {}
  verified : List String := []
  failedDigests : List String := []
  frozen : Bool := false
  frozenReason : String := ""
  autoHold : Bool := false
  rolledBack : List String := []
  stream : Stream := {}
  published : List String := []
  offered : List String := []
  conditions : List Condition := []
  upstreamAcknowledged : List String := []
  level : Level := .unset
  observedRevision : Option ObservedRevision := none
  shadow : List Shadow := []
  proposal : Option Proposal := none
  deriving DecidableEq, Repr

/-! ## The status of an operation -/

/-- An approval the promoter consumed. -/
structure ApprovalRecord where
  name : String
  by' : String
  decision : Decision
  note : String := ""
  authTime : String := ""
  deriving DecidableEq, Repr

/-- The pointer before and after an operation. -/
structure PointerChange where
  before : String := ""
  after : String := ""
  deriving DecidableEq, Repr

/-- The timestamps of an operation. -/
structure Times where
  admitted : Option Nat := none
  started : Option Nat := none
  applied : Option Nat := none
  finished : Option Nat := none
  held : Option Nat := none
  approvalDeadline : Option Nat := none
  executionDeadline : Option Nat := none
  verifyDeadline : Option Nat := none
  deriving DecidableEq, Repr

/-- What the promoter writes on an operation. -/
structure OperationStatus where
  phase : Phase := .new
  guarded : Bool := false
  outcome : Option Outcome := none
  verification : Option Verification := none
  reason : String := ""
  message : String := ""
  question : String := ""
  actorClass : Option ActorClass := none
  plan : Option Plan := none
  verdicts : List Verdict := []
  approvals : List ApprovalRecord := []
  approvedTeams : List String := []
  pointer : PointerChange := {}
  applied : Bool := false
  times : Times := {}
  seq : Int := 0
  policy : Option StageSpec := none
  stageUID : String := ""
  deriving DecidableEq, Repr

end Pacto.Delivery
