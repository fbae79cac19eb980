import Pacto.Delivery.Level
import Pacto.Support.Recent

/-!
# The lifecycle rules of a Stage

`pkg/delivery/lifecycle.go`: the digest memories, rollback admission, and what
a conclusion does to the Stage it concludes on.  The promoter applies
`applyEffects` in the compare-and-swap that concludes an operation.
-/

namespace Pacto.Delivery

open Support

/-! ## The digest memories -/

/-- The caps on what a Stage remembers. -/
def maxVerified : Nat := 10
@[inherit_doc maxVerified] def maxFailedDigests : Nat := 50
@[inherit_doc maxVerified] def maxOffered : Nat := 50
@[inherit_doc maxVerified] def maxRolledBack : Nat := 50
@[inherit_doc maxVerified] def maxAcknowledged : Nat := 50
@[inherit_doc maxVerified] def maxConcluded : Nat := 20

/-- `AddDigest` appends `d` to `list` once, keeping the newest `max`. -/
def addDigest (list : List String) (d : String) (max : Nat) : List String :=
  remember max list d

def removeDigest (list : List String) (d : String) : List String :=
  list.filter (· ≠ d)

/-! ## Admission of a rollback -/

/-- What rollback admission needs to know about the operation it undoes. -/
structure CitedOp where
  uid : String
  type : TypeID
  applied : Bool
  pointer : PointerChange
  deriving DecidableEq, Repr

def mayUndo (type : TypeID) (cls : ActorClass) : Bool :=
  type = .promote || cls = .human || cls = .breakGlass

def causeFails (spec : OperationSpec) : Bool :=
  match spec.cause with
  | some { verdict := some v, .. } => v.result = .fail
  | _ => false

/-- `AdmitRollback`: the refusal of a rollback, empty when it is admissible. -/
def admitRollback (spec : OperationSpec) (status : StageStatus) (cited : Option CitedOp)
    (cls : ActorClass) : String :=
  match cited with
  | none => "UnboundRollback: params.undoes names no operation on this Stage"
  | some cited =>
    if !cited.applied then
      "UnboundRollback: the cited operation never moved the pointer"
    else if spec.params.from ≠ cited.pointer.after || spec.params.from ≠ status.pointer then
      "UnboundRollback: from must be the cited operation's after and the Stage's pointer"
    else if spec.params.to ≠ cited.pointer.before then
      "UnboundRollback: to must be the cited operation's before; anything else is a promote"
    else if spec.params.to = "" then
      "UnboundRollback: the cited operation started from an empty Stage, so there is nothing to roll back to"
    else if !mayUndo cited.type cls then
      "UnboundRollback: undoing a rollback or override is a promote; propose it"
    else if status.failedDigests.contains spec.params.to then
      "FailedDigest: a rollback may never target a failed digest"
    else if status.frozen && cls = .agent && !causeFails spec then
      "Frozen: an agent rollback on a frozen Stage needs a Fail verdict as its cause"
    else ""

/-! ## The effects of a conclusion -/

/-- How an operation ended, as `applyEffects` needs it. -/
structure Conclusion where
  outcome : Outcome
  verification : Option Verification := none
  reason : String := ""
  freeze : Bool := false
  deriving DecidableEq, Repr

/-- `SetsAutoHold`: a rollback a person or agent chose, or a promote of a
digest the Stage already verified. -/
def setsAutoHold (spec : OperationSpec) (cls : Option ActorClass) (status : StageStatus) : Bool :=
  if cls = some .controller then false
  else
    match spec.type with
    | .rollback => true
    | .promote => status.verified.contains spec.params.to
    | _ => false

/-- The gate ids. -/
def gateDiff : String := "pacto.diff"
@[inherit_doc gateDiff] def gateImpact : String := "pacto.impact"
@[inherit_doc gateDiff] def gateContract : String := "pacto.contract"
@[inherit_doc gateDiff] def gatePublished : String := "pacto.published"
@[inherit_doc gateDiff] def gateSuites : String := "pacto.suites"
@[inherit_doc gateDiff] def gateEnvironment : String := "pacto.environment"
@[inherit_doc gateDiff] def gateAutonomy : String := "pacto.autonomy"

def passedPublished (vs : List Verdict) : Bool :=
  vs.any fun v => v.gate = gatePublished && v.result = .pass

/-- `changeLevel` moves the Stage to the level an autonomy operation names.
Leaving observe adopts the observed digest as the pointer; entering it clears
the pointer. -/
def changeLevel (s : StageStatus) (spec : OperationSpec) : StageStatus :=
  let s :=
    match s.observedRevision with
    | some observed =>
      if Level.ofName spec.params.from = Level.observe then { s with pointer := observed.digest }
      else s
    | none => s
  let s := { s with level := Level.ofName spec.params.to, proposal := none }
  if s.level = .observe then { s with shadow := [], pointer := "" } else s

def succeeded (s : StageStatus) (name : String) (spec : OperationSpec) (st : OperationStatus)
    (c : Conclusion) : StageStatus :=
  let s :=
    if c.verification = some .verified then
      let s := { s with verified := addDigest s.verified spec.params.to maxVerified }
      if spec.type = .promote && passedPublished st.verdicts then
        { s with offered := addDigest s.offered spec.params.to maxOffered }
      else s
    else s
  match spec.type with
  | .autonomy => changeLevel s spec
  | .unfreeze => { s with frozen := false, frozenReason := "", autoHold := false }
  | .acknowledge =>
    { s with
      upstreamAcknowledged := addDigest s.upstreamAcknowledged spec.params.record maxAcknowledged }
  | .freeze =>
    if !s.frozen then
      { s with frozen := true, frozenReason := name ++ ": frozen: " ++ spec.reason }
    else s
  | _ => s

/-- `failed`: a failed operation counts its one automatic rollback, or freezes
the Stage when nothing can be rolled back to. -/
def failed (s : StageStatus) (uid : String) (spec : OperationSpec) (st : OperationStatus)
    (c : Conclusion) : StageStatus × Conclusion :=
  if spec.type ≠ .promote then
    (s, { c with freeze := true, reason := "a " ++ spec.type.text ++ " failed: " ++ c.reason })
  else if st.pointer.before = "" then
    (s, { c with
          freeze := true
          reason := "the first version failed, so there is nothing to roll back to" })
  else if s.failedDigests.contains st.pointer.before then
    (s, { c with
          freeze := true
          reason :=
            "the version before it failed here too, so there is nothing safe to roll back to" })
  else ({ s with rolledBack := addDigest s.rolledBack uid maxRolledBack }, c)

/-- `ApplyEffects` updates a Stage's memories for an operation that concluded
as `c`. -/
def applyEffects (s : StageStatus) (name uid : String) (spec : OperationSpec)
    (st : OperationStatus) (c : Conclusion) : StageStatus :=
  let s :=
    if st.applied then
      if setsAutoHold spec st.actorClass s then { s with autoHold := true }
      else if spec.type = .promote && st.actorClass = some .human then { s with autoHold := false }
      else s
    else s
  let (s, c) : StageStatus × Conclusion :=
    match c.outcome with
    | .succeeded => (succeeded s name spec st c, c)
    | .rejected =>
      if spec.type = .rollback && st.actorClass = some .controller then
        (s, { c with freeze := true, reason := "the automatic rollback was refused: " ++ c.reason })
      else (s, c)
    | .failed =>
      let s :=
        { s with
          failedDigests := addDigest s.failedDigests spec.params.to maxFailedDigests
          verified := removeDigest s.verified spec.params.to }
      failed s uid spec st c
    | _ => (s, c)
  if c.freeze then { s with frozen := true, frozenReason := name ++ ": " ++ c.reason } else s

/-- `LevelRefusal`: why an autonomy operation may not move the Stage now,
empty when it may. -/
def levelRefusal (spec : OperationSpec) (stage : StageSpec) (st : StageStatus) : String :=
  let cur := currentLevel stage st
  if Level.ofName spec.params.from ≠ cur then
    "LevelMoved: from is " ++ spec.params.from ++ " but the Stage is on " ++ cur.name
  else if cur = .observe && !(st.observedRevision.any fun o => isDigest o.digest) then
    "NoObservedDigest: GitOps' source reports no digest, so there is no pointer to adopt"
  else if cur = .observe && st.locks.get .pointer ≠ "" then
    "PointerBusy: operation " ++ st.locks.get .pointer ++
      " holds the pointer, so it cannot be adopted now"
  else ""

end Pacto.Delivery
