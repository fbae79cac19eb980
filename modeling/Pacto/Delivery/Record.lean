import Pacto.Delivery.Lifecycle

/-!
# Records of concluded operations

`pkg/delivery/record.go`: the statement a recorder signs for one concluded
operation, for an operation that could not be recorded, and for a seq whose
operation is gone.
-/

namespace Pacto.Delivery

/-! ## The record format -/

/-- The record kinds; `other` is a kind no recorder writes. -/
inductive RecordKind where
  | operation
  | unrecordable
  | gap
  | other (kind : String)
  deriving DecidableEq, Repr

/-- The operation type a record cites. -/
structure RecordType where
  id : TypeID
  version : String := ""
  deriving DecidableEq, Repr

/-- The Stage an operation acted on. -/
structure RecordStage where
  cluster : String := ""
  ns : String := ""
  name : String := ""
  uid : String := ""
  deriving DecidableEq, Repr

/-- What was asked. -/
structure RecordIntent where
  uid : String := ""
  name : String := ""
  digest : String := ""
  stage : RecordStage := {}
  params : Option Params := none
  reason : String := ""
  correlationID : String := ""
  cause : Option Cause := none
  witnessed : Bool := false
  deriving DecidableEq, Repr

/-- Who asked. -/
structure RecordActor where
  cls : Option ActorClass := none
  user : String
  onBehalfOf : Option String := none
  deriving DecidableEq, Repr

/-- An approval bound to the operation uid and intent digest. -/
structure RecordApproval where
  by' : String
  decision : Decision
  operation : String
  intentDigest : String := ""
  authTime : String := ""
  note : String := ""
  deriving DecidableEq, Repr

/-- The level change an autonomy operation made. -/
structure LevelChange where
  «from» : Level
  «to» : Level
  deriving DecidableEq, Repr

/-- How the operation ended. -/
structure RecordOutcome where
  result : Option Outcome := none
  verification : Option Verification := none
  reason : String := ""
  message : String := ""
  pointer : PointerChange := {}
  level : Option LevelChange := none
  deriving DecidableEq, Repr

/-- A record's place in its stream. -/
structure Chain where
  stream : String
  seq : Int
  parent : String := ""
  undoes : String := ""
  cause : String := ""
  deriving DecidableEq, Repr

/-- The check that made an operation unrecordable. -/
structure Refusal where
  check : String
  message : String
  deriving DecidableEq, Repr

/-- One record: a concluded operation, a refusal to record one, or a seq with
no operation behind it. -/
structure RecordPredicate where
  kind : RecordKind
  type : Option RecordType := none
  intent : RecordIntent := {}
  policy : Option StageSpec := none
  actor : Option RecordActor := none
  verdicts : List Verdict := []
  approvals : List RecordApproval := []
  outcome : Option RecordOutcome := none
  chain : Chain
  finished : Option Nat := none
  unrecordable : Option Refusal := none
  gap : Option Int := none
  trust : String := ""
  guarded : Bool := false
  deriving DecidableEq, Repr

/-- One artifact a record is about: its role and its digest. -/
structure Subject where
  name : String
  digest : String
  deriving DecidableEq, Repr

/-- The statement that carries a record. -/
structure Statement where
  subject : List Subject := []
  predicate : RecordPredicate
  deriving DecidableEq, Repr

/-! ## Building records -/

/-- The part of an object's metadata a record reads. -/
structure ObjectMeta where
  name : String
  ns : String := ""
  uid : String
  deriving DecidableEq, Repr

/-- A Stage as a record reads it. -/
structure StageObject where
  metadata : ObjectMeta
  spec : StageSpec
  status : StageStatus := {}
  deriving DecidableEq, Repr

/-- An operation as a record reads it. -/
structure OperationObject where
  metadata : ObjectMeta
  spec : OperationSpec
  status : OperationStatus := {}
  deriving DecidableEq, Repr

/-- The digests a record is attached to; empty ones are left out. -/
structure RecordSubjects where
  «to» : String := ""
  «from» : String := ""
  contract : String := ""
  anchor : String := ""
  deriving DecidableEq, Repr

/-- What the recorder reads of an `Approval` object. -/
structure ApprovalBinding where
  operationUID : String
  intentDigest : String
  deriving DecidableEq, Repr

/-- Everything a record of one concluded operation is built from. -/
structure RecordInput where
  clusterID : String := ""
  stage : StageObject
  operation : OperationObject
  approvals : List (String × ApprovalBinding) := []
  subjects : RecordSubjects := {}
  chain : Chain
  trust : String := ""
  deriving DecidableEq, Repr

def statement (s : RecordSubjects) (p : RecordPredicate) : Statement :=
  { subject :=
      [⟨"to", s.to⟩, ⟨"from", s.from⟩, ⟨"contract", s.contract⟩, ⟨"anchor", s.anchor⟩].filter
        fun x => x.digest.toList.contains ':'
    predicate := p }

def intent (input : RecordInput) : RecordIntent :=
  { uid := input.operation.metadata.uid
    name := input.operation.metadata.name
    digest := input.operation.spec.intentDigest
    stage :=
      { cluster := input.clusterID
        ns := input.stage.metadata.ns
        name := input.stage.metadata.name
        uid := input.stage.metadata.uid } }

/-- `NewOperationRecord` builds the record of one concluded operation. -/
def newOperationRecord (input : RecordInput) : Statement :=
  let op := input.operation
  let spec := op.spec
  let st := op.status
  let level :=
    if spec.type = .autonomy && st.outcome = some .succeeded then
      some ⟨Level.ofName spec.params.from, Level.ofName spec.params.to⟩
    else none
  let type : RecordType :=
    match typeByID spec.type with
    | some t => { id := t.id, version := t.version }
    | none => { id := spec.type }
  statement input.subjects
    { kind := .operation
      type := some type
      intent :=
        { intent input with
          params := some spec.params
          reason := spec.reason
          correlationID := spec.correlationID
          cause := spec.cause
          witnessed := spec.witnessed }
      policy := some input.stage.spec
      actor := some { cls := st.actorClass, user := spec.actor.user, onBehalfOf := spec.onBehalfOf }
      verdicts := st.verdicts
      approvals := st.approvals.map fun a =>
        { by' := a.by', decision := a.decision, operation := op.metadata.uid
          intentDigest := ((input.approvals.lookup a.name).map (·.intentDigest)).getD ""
          authTime := a.authTime, note := a.note }
      outcome := some
        { result := st.outcome, verification := st.verification, reason := st.reason
          message := st.message, pointer := st.pointer, level := level }
      chain := input.chain
      finished := st.times.finished
      trust := input.trust
      guarded := st.guarded }

end Pacto.Delivery
