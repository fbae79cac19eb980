import Pacto.Promoter.Store

/-!
# Concluding an operation

`conclusion.go` of the operation reconciler, and `raiseStepDown` of
`ladder.go`.  An operation concludes in two writes: one compare-and-swap of
the Stage takes its seq and applies its effects, then its own status is
written.  A reconcile that dies between the two is made good by
`concludedOn`, which finds the conclusion on the Stage.
-/

namespace Pacto.Promoter

open Delivery Support

/-- The fields of the operation reconciler, and the functions of other
packages it plans with. -/
structure Reconciler where
  policy : ClassPolicy
  freshness : Nat := 0
  pkg : Packages
  evalProviders : List String := []

/-- How an operation ends.  `cause` is the verdict that failed it, and
`preempted` says a rollback took the lock and failed it. -/
structure Conclusion extends Delivery.Conclusion where
  cause : Option Verdict := none
  preempted : Bool := false
  deriving DecidableEq, Repr

/-- The conclusion of an operation the Stage has concluded already: the
compare-and-swap fills it in. -/
def Conclusion.empty : Conclusion := { outcome := .unset }

def cutReason : List Char → List Char × List Char
  | ':' :: ' ' :: rest => ([], rest)
  | c :: rest =>
    let (code, message) := cutReason rest
    (c :: code, message)
  | [] => ([], [])

def reasonCode (reason : String) : String := String.ofList (cutReason reason.toList).1

def reasonMessage (reason : String) : String := String.ofList (cutReason reason.toList).2

def preempted (op : Operation) (stage : Stage) : Bool :=
  stage.status.locks.get op.spec.facet ≠ op.uid

/-- How an applied operation that a rollback or override preempted concludes. -/
def preemptedBy : Conclusion where
  outcome := .succeeded
  verification := some .unverified
  reason := "Preempted: a rollback or override took the Stage"

/-- `concludedOn`: the seq and conclusion the Stage gave `uid`. -/
def concludedOn (s : StageStatus) (uid : String) : Option Concluded :=
  s.stream.concluded.find? (·.uid = uid)

def causeOp (spec : OperationSpec) : String :=
  match spec.cause with
  | some c => c.operation
  | none => ""

def byPerson (st : OperationStatus) : Bool :=
  !st.approvals.isEmpty || st.actorClass = some .human

/-! ## Raising operations -/

/-- `createRaised` creates an operation the promoter raises.  One found under
its name counts only if the promoter raised it for the same intent; otherwise
the answer says why it cannot be raised. -/
def createRaised (op : Operation) : Reconcile String := do
  match ← Prog.perform (I := api) (.createOp op) with
  | .ok _ => pure ""
  | .error .alreadyExists =>
    let got ← orStop (← Prog.perform (I := api) (.readNamed op.name))
    if got.spec.actor.user = op.spec.actor.user && got.spec.type = op.spec.type &&
        got.spec.params = op.spec.params && causeOp got.spec = causeOp op.spec then
      pure ""
    else
      pure ("the name " ++ op.name ++ " is taken by a " ++ got.spec.type.text ++ " " ++
        got.spec.actor.user ++ " created, so the promoter cannot raise its " ++
        op.spec.type.text ++ "; a person must decide")
  | .error _ => .stop

namespace Reconciler

variable (r : Reconciler)

def raised (name : String) (stage : Stage) (spec : OperationSpec) : Operation where
  metadata := { name := name, ns := stage.metadata.ns, uid := "" }
  spec := { spec with intentDigest := r.pkg.intentDigest spec stage.spec }

/-- The rollback bound to a failed promote. -/
def rollbackOf (failed : Operation) (stage : Stage) (why : String) (cause : Option Verdict) :
    Operation :=
  r.raised (failed.name ++ "-rollback") stage
    { type := .rollback, stage := stage.metadata.name, facet := .pointer
      params :=
        { «from» := failed.spec.params.to, «to» := failed.status.pointer.before
          undoes := failed.uid }
      reason := "automatic rollback: " ++ failed.name ++ " failed (" ++ why ++ ")"
      actor := { user := r.policy.controllerUser }
      cause := some { operation := failed.uid, verdict := cause } }

def raiseRollback (failed : Operation) (stage : Stage) (why : String) (cause : Option Verdict) :
    Reconcile String :=
  createRaised (r.rollbackOf failed stage why cause)

def stepDownOf (failed : Operation) (stage : Stage) (why : String) (cause : Option Verdict) :
    Operation :=
  let level := currentLevel stage.spec stage.status
  let below := level.below.getD level
  r.raised (failed.name ++ "-stepdown") stage
    { type := .autonomy, stage := stage.metadata.name, facet := .level
      params := { «from» := level.name, «to» := below.name }
      reason :=
        "automatic step-down: " ++ failed.name ++ ", which shipped with no person on " ++
          level.name ++ ", failed (" ++ why ++ ")"
      actor := { user := r.policy.controllerUser }
      cause := some { operation := failed.uid, verdict := cause } }

/-- A step-down is owed only for a promote that shipped with no person and
failed on a confirmed fail. -/
def owesStepDown (failed : Operation) (cause : Option Verdict) : Bool :=
  failed.spec.type = .promote && !byPerson failed.status &&
    cause.any (·.result = .fail)

def raiseStepDown (failed : Operation) (stage : Stage) (why : String) (cause : Option Verdict) :
    Reconcile String :=
  if owesStepDown failed cause && (currentLevel stage.spec stage.status).automatic then
    createRaised (r.stepDownOf failed stage why cause)
  else pure ""

def raiseOnFailure (op : Operation) (stage : Stage) (c : Conclusion) (why : String) :
    Reconcile String := do
  if c.outcome ≠ .failed || op.spec.type ≠ .promote then
    pure ""
  else
    let cur ← getStage
    let isOpen := (concludedOn cur.status op.uid).isNone
    let live := isOpen && !preempted op cur
    let squat ←
      (if live || (isOpen && c.preempted) then r.raiseStepDown op cur why c.cause else pure "")
    if !live || op.status.pointer.before = "" ||
        cur.status.failedDigests.contains op.status.pointer.before then
      pure squat
    else
      let rb ← r.raiseRollback op stage why c.cause
      pure (joinWith "; " ([squat, rb].filter (· ≠ "")))

end Reconciler

/-! ## The concluding compare-and-swap -/

def releaseLock (op : Operation) (s : Stage) : Stage :=
  if s.status.locks.get op.spec.facet = op.uid then
    { s with status := { s.status with locks := s.status.locks.set op.spec.facet "" } }
  else s

/-- What the Stage and the operation's type make of a conclusion: an applied
operation whose lock was taken is preempted, and a level change the Stage no
longer allows is refused. -/
def settleConclusion (taken : Bool) (op : Operation) (c : Conclusion) (s : Stage) : Conclusion :=
  let c := if taken && !c.preempted then preemptedBy else c
  if op.spec.type = .autonomy && c.outcome = .succeeded then
    let why := levelRefusal op.spec s.spec s.status
    if why ≠ "" then { outcome := .rejected, reason := why } else c
  else c

/-- The entry the Stage remembers a conclusion by. -/
def concludedEntry (op : Operation) (c : Conclusion) (seq : Int) : Concluded where
  uid := op.uid
  seq := seq
  outcome := c.outcome
  verification := c.verification
  reason := c.reason
  type := op.spec.type
  person := byPerson op.status
  clearedBreaking := clearedBreaking op.status.plan
  cause := if op.status.actorClass = some .controller then causeOp op.spec else ""

/-- The stream with one more conclusion, keeping the newest `maxConcluded`. -/
def concludeStream (stream : Stream) (done : Concluded) : Stream :=
  { stream with
    seq := done.seq
    concluded := keepLast maxConcluded (stream.concluded ++ [done]) }

/-- Freeze the Stage when something the promoter owes could not be raised. -/
def freezeOnSquat (op : Operation) (squat : String) (st : StageStatus) : StageStatus :=
  if squat ≠ "" then { st with frozen := true, frozenReason := op.name ++ ": " ++ squat } else st

def levelPointer (op : Operation) (before after : String) : PointerChange :=
  if op.spec.type = .autonomy then
    if after ≠ before then { before := before, after := after } else {}
  else op.status.pointer

/-- The Stage status once `op` takes the next seq and concludes as `c`. -/
def concludeStatus (op : Operation) (c : Conclusion) (squat : String) (st : StageStatus) :
    StageStatus :=
  let seq := st.stream.seq + 1
  let st := { st with stream := concludeStream st.stream (concludedEntry op c seq) }
  freezeOnSquat op squat
    (applyEffects st op.name op.uid op.spec { op.status with seq := seq } c.toConclusion)

/-- The operation with what the concluding compare-and-swap notes on it. -/
def withPolicy (op : Operation) (s : Stage) : Operation :=
  { op with status := { op.status with policy := some s.spec, stageUID := s.metadata.uid } }

/-- The conclusion an operation has when it took its seq before and its status
write failed. -/
def rememberedAs (done : Concluded) : Conclusion :=
  { outcome := done.outcome, verification := done.verification, reason := done.reason }

/-- The closure of `finish`'s compare-and-swap on one read of the Stage. -/
def finishOn (squat : String) (g : Operation × Conclusion) (s : Stage) :
    (Operation × Conclusion) × Stage :=
  let taken := g.1.status.applied && preempted g.1 s
  let released := releaseLock g.1 s
  let op := withPolicy g.1 s
  match concludedOn s.status op.uid with
  | some done => (({ op with status := { op.status with seq := done.seq } }, rememberedAs done), released)
  | none =>
    let c := settleConclusion taken op g.2 released
    let status := concludeStatus op c squat released.status
    (({ op with
        status :=
          { op.status with
            seq := released.status.stream.seq + 1
            pointer := levelPointer op released.status.pointer status.pointer } }, c),
      { released with status := status })

/-! ## Finishing -/

/-- `writeConcluded` writes a conclusion, retrying a conflict on a fresh read. -/
def writeConcluded : Nat → Operation → Reconcile Unit
  | 0, _ => .stop
  | n + 1, op => do
    match ← updateOp op with
    | .ok _ => pure ()
    | .error .conflict =>
      let got ← getOp op.uid
      writeConcluded n { got with status := op.status }
    | .error _ => .stop

def concludedStatus (st : OperationStatus) (c : Conclusion) (finished : Nat) : OperationStatus :=
  { st with
    phase := .concluded
    outcome := some c.outcome
    verification := c.verification
    reason := reasonCode c.reason
    message := reasonMessage c.reason
    question := ""
    times := { st.times with finished := some finished } }

/-- `finish` concludes `op` as `c`: it reads the stored operation, raises what
a failed promote owes, takes the seq on the Stage and writes the operation. -/
def Reconciler.finish (r : Reconciler) (op : Operation) (stage : Stage) (c : Conclusion) :
    Reconcile Unit := do
  let fresh ← getOp op.uid
  if fresh.resourceVersion ≠ op.resourceVersion then
    pure ()
  else
    let why := reasonCode c.reason ++ ": " ++ reasonMessage c.reason
    let squat ← r.raiseOnFailure op stage c why
    let ((op, c), _) ←
      casStage
        (fun g s =>
          let (g, s) := finishOn squat g s
          pure (g, (.ok s : Except Empty Stage)))
        defaultRetry (op, c)
    let finished ← now
    writeConcluded defaultRetry { op with status := concludedStatus op.status c finished }

end Pacto.Promoter
