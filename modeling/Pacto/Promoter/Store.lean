import Pacto.Delivery.Approval
import Pacto.Support.Program
import Pacto.Support.Register

/-!
# What the promoter reads and writes

The objects the operation reconciler of
`integrations/kubernetes/internal/delivery` works on: one Stage and the
operations on it.  Both live in the apiserver, where each write needs the
version it was read at, and both are also read through a cache that lags.

A `Call` is one request of a reconcile.  Everything a reconcile learns from
elsewhere, such as the clock, the gates, the plan's sources, the approvals
and the applier, is the answer to a `Query`, which the outside gives freely.
-/

namespace Pacto.Promoter

open Delivery Support

/-! ## Objects -/

/-- An operation as the apiserver stores it. -/
structure Operation extends OperationObject where
  created : Nat := 0
  deleting : Bool := false
  resourceVersion : Nat := 0
  deriving DecidableEq, Repr

/-- A Stage as the apiserver stores it. -/
structure Stage extends StageObject where
  resourceVersion : Nat := 0
  deriving DecidableEq, Repr

instance : Resource Operation where
  version := Operation.resourceVersion
  withVersion := fun n op => { op with resourceVersion := n }
  version_withVersion := fun _ _ => rfl

instance : Resource Stage where
  version := Stage.resourceVersion
  withVersion := fun n s => { s with resourceVersion := n }
  version_withVersion := fun _ _ => rfl

def Operation.uid (op : Operation) : String := op.metadata.uid

def Operation.name (op : Operation) : String := op.metadata.name

/-- An operation's versions.  A vanished operation is gone from the apiserver
and, once the cache `forgot` it, from the cache too.  `born` is the oldest
Stage version the cache could still show when the operation was created. -/
structure Cell where
  register : Register Operation
  gone : Bool := false
  forgotten : Bool := false
  born : Nat := 0

def Cell.latest (cell : Cell) : Operation := cell.register.latest

def Cell.cached (cell : Cell) : Option Operation :=
  if cell.forgotten then none else cell.register.cached

/-- An approval someone gave, with the plan its operation showed them then. -/
structure Issued where
  approval : Approval
  shown : Option Plan := none
  deriving DecidableEq

/-- One Stage, the operations on it and the approvals given for them.  `reads`
notes the Stage version the last reconcile of each operation started from. -/
structure Store where
  stage : Register Stage
  ops : String → Option Cell := fun _ => none
  uids : List String := []
  reads : String → Nat := fun _ => 0
  issued : List Issued := []

namespace Store

def listed (s : Store) : List Operation :=
  s.uids.filterMap fun uid => (s.ops uid).bind Cell.cached

def named (s : Store) (name : String) : Option Cell :=
  (s.uids.filterMap s.ops).find? fun cell => !cell.gone && cell.latest.name = name

def setStage (s : Store) (stage : Register Stage) : Store := { s with stage := stage }

def setCell (s : Store) (uid : String) (cell : Cell) : Store :=
  { s with ops := Function.update s.ops uid (some cell) }

end Store

/-! ## Calls -/

/-- Why a request to the apiserver failed. -/
inductive ApiError where
  | conflict
  | alreadyExists
  | other
  deriving DecidableEq, Repr

/-- What the promoter reads of the applier: the digest it points at and the
name of that field. -/
structure ApplyRef where
  digest : String
  field : String
  deriving DecidableEq, Repr

/-- Whether Flux applied a version. -/
structure Applied where
  ok : Bool
  failed : Bool := false
  message : String := ""
  deriving DecidableEq, Repr

/-- What a reconcile asks of everything but the Stage and its operations. -/
inductive Query where
  | now
  | unguardedBy
  | planInput (spec : OperationSpec) (stage : Stage) (cls : ActorClass)
  | approvals
  | freshApplier
  | setDigest (digest : String)
  | applied (digest : String)
  | verdicts (op : Operation) (stage : Stage)
  | rerun (cited : Verdict)
  | runningTeam
  | heldCheckDue

/-- The type of a query's answer; `none` is a read that failed. -/
@[reducible] def Query.Answer : Query → Type
  | now => Nat
  | unguardedBy => Option String
  | planInput .. => Option PlanInput
  | approvals => Option (List Approval)
  | freshApplier => Except String ApplyRef
  | setDigest _ => Except String Unit
  | applied _ => Option Applied
  | verdicts .. => List Verdict
  | rerun _ => Verdict
  | runningTeam => Except String (List String)
  | heldCheckDue => Bool

/-- One request of a reconcile. -/
inductive Call where
  | readOp (uid : String)
  | readStage (uid : String)
  | listOps
  | readNamed (name : String)
  | getOp (uid : String)
  | getStage
  | updateOp (op : Operation)
  | updateStage (stage : Stage)
  | createOp (op : Operation)
  | ask (q : Query)

/-- The type of a request's reply; `none` is an object not found or a read
that failed. -/
@[reducible] def Call.Reply : Call → Type
  | readOp _ => Option Operation
  | readStage _ => Option Stage
  | listOps => Option (List Operation)
  | readNamed _ => Option Operation
  | getOp _ => Option Operation
  | getStage => Option Stage
  | updateOp _ => Except ApiError Operation
  | updateStage _ => Except ApiError Stage
  | createOp _ => Except ApiError Unit
  | ask q => q.Answer

/-- How a request fares: it gets through, it fails, or it gets through and its
reply is lost. -/
inductive Fault where
  | none
  | failed
  | lost
  deriving DecidableEq, Repr

/-- What the outside decides about one request: how it fares, the uid a created
operation gets, and the answer to each query. -/
structure Oracle where
  fault : Fault := .none
  uid : String := ""
  now : Nat := 0
  unguardedBy : Option String := some ""
  planInput : Option PlanInput := none
  approvals : Option (List Approval) := some []
  freshApplier : Except String ApplyRef := .error ""
  setDigest : Except String Unit := .ok ()
  applied : Option Applied := none
  verdicts : List Verdict := []
  rerun : Verdict := { gate := "", phase := "", result := .unknown }
  runningTeam : Except String (List String) := .error ""
  heldCheckDue : Bool := true

/-- The answer to a query.  `AssemblePlanInput` takes the intent, the Stage
and the actor class it was given, and everything else from its sources. -/
def Oracle.answer (o : Oracle) : (q : Query) → q.Answer
  | .now => o.now
  | .unguardedBy => o.unguardedBy
  | .planInput spec stage cls =>
    o.planInput.map fun input =>
      { input with spec := spec, stage := stage.spec, status := stage.status, cls := cls }
  | .approvals => o.approvals
  | .freshApplier => o.freshApplier
  | .setDigest _ => o.setDigest
  | .applied _ => o.applied
  | .verdicts .. => o.verdicts
  | .rerun _ => o.rerun
  | .runningTeam => o.runningTeam
  | .heldCheckDue => o.heldCheckDue

namespace Store

/-- What the outside can answer: the cache lists approvals that were given, and
need not list all of them. -/
def visible (s : Store) (o : Oracle) : Oracle :=
  { o with
    approvals := o.approvals.map (·.filter fun a => s.issued.any (·.approval = a)) }

/-- Read, unless the request fails. -/
def reading {α : Type} (o : Oracle) (a : Option α) : Option α :=
  if o.fault = .failed then none else a

/-- The Stage a reconcile starts from: the cached one or, when the cache has
not seen the Stage yet, the stored one. -/
def startingStage (s : Store) : Stage := s.stage.cached.getD s.stage.latest

def updateOp (s : Store) (o : Oracle) (op : Operation) : Store × Except ApiError Operation :=
  match s.ops op.uid with
  | none => (s, .error .other)
  | some cell =>
    if cell.gone || o.fault = .failed then (s, .error .other)
    else
      match cell.register.swap op with
      | none => (s, .error .conflict)
      | some r =>
        (s.setCell op.uid { cell with register := r },
          if o.fault = .lost then .error .other else .ok r.latest)

def updateStage (s : Store) (o : Oracle) (stage : Stage) : Store × Except ApiError Stage :=
  if o.fault = .failed then (s, .error .other)
  else
    match s.stage.swap stage with
    | none => (s, .error .conflict)
    | some r => (s.setStage r, if o.fault = .lost then .error .other else .ok r.latest)

def newCell (s : Store) (uid : String) (created : Nat) (op : Operation) : Cell where
  register :=
    Register.create
      { op with metadata := { op.metadata with uid := uid }, status := {}, created := created }
  born := s.stage.delivered - 1

def addOp (s : Store) (uid : String) (created : Nat) (op : Operation) : Store :=
  { s.setCell uid (s.newCell uid created op) with uids := s.uids ++ [uid] }

def createOp (s : Store) (o : Oracle) (op : Operation) : Store × Except ApiError Unit :=
  if o.fault = .failed || o.uid = "" || (s.ops o.uid).isSome then (s, .error .other)
  else if (s.named op.name).isSome then (s, .error .alreadyExists)
  else (s.addOp o.uid o.now op, if o.fault = .lost then .error .other else .ok ())

/-- One request. -/
def perform : (c : Call) → Oracle → Store → Store × c.Reply
  | .readOp uid, o, s => (s, reading o ((s.ops uid).bind Cell.cached))
  | .readStage uid, o, s =>
    ({ s with reads := Function.update s.reads uid s.startingStage.resourceVersion },
      reading o (some s.startingStage))
  | .listOps, o, s => (s, reading o (some s.listed))
  | .readNamed name, o, s => (s, reading o (s.listed.find? (·.name = name)))
  | .getOp uid, o, s =>
    (s, reading o ((s.ops uid).bind fun cell => if cell.gone then none else some cell.latest))
  | .getStage, o, s => (s, reading o (some s.stage.latest))
  | .updateOp op, o, s => s.updateOp o op
  | .updateStage stage, o, s => s.updateStage o stage
  | .createOp op, o, s => s.createOp o op
  | .ask q, o, s => (s, (s.visible o).answer q)

end Store

abbrev api : Interface where
  State := Store
  Call := Call
  Reply := Call.Reply
  Input := Oracle
  perform := Store.perform

/-- A reconcile, or a part of one. -/
abbrev Reconcile (α : Type) : Type := Prog api α

/-! ## What a reconcile writes its steps with -/

/-- Stop the reconcile with an error; the operation is reconciled again later. -/
def orStop {α : Type} : Option α → Reconcile α
  | some a => pure a
  | none => .stop

def ask (q : Query) : Reconcile q.Answer := Prog.perform (I := api) (.ask q)

def now : Reconcile Nat := ask .now

def listOps : Reconcile (List Operation) := do
  orStop (← Prog.perform (I := api) .listOps)

def getOp (uid : String) : Reconcile Operation := do
  orStop (← Prog.perform (I := api) (.getOp uid))

def getStage : Reconcile Stage := do
  orStop (← Prog.perform (I := api) .getStage)

def updateOp (op : Operation) : Reconcile (Except ApiError Operation) :=
  Prog.perform (I := api) (.updateOp op)

def updateStage (stage : Stage) : Reconcile (Except ApiError Stage) :=
  Prog.perform (I := api) (.updateStage stage)

def saveOp (op : Operation) : Reconcile Operation := do
  match ← updateOp op with
  | .ok op => pure op
  | .error _ => .stop

/-- `retry.DefaultRetry`: how often a write that conflicts is tried. -/
def defaultRetry : Nat := 5

/-- `casStage` applies `fn` to a fresh Stage and writes it with optimistic
concurrency.  A conflict reads again and applies `fn` again; `fn` keeps the
variables it captured, `γ`, from one attempt to the next, and may refuse with
an `ε`.  Any other error stops the reconcile. -/
def casStage {γ ε : Type} (fn : γ → Stage → Reconcile (γ × Except ε Stage)) :
    Nat → γ → Reconcile (γ × Except ε Stage)
  | 0, _ => .stop
  | n + 1, g => do
    let fresh ← getStage
    let (g, result) ← fn g fresh
    match result with
    | .error e => pure (g, .error e)
    | .ok stage =>
      match ← updateStage stage with
      | .ok stage => pure (g, .ok stage)
      | .error .conflict => casStage fn n g
      | .error _ => .stop

end Pacto.Promoter
