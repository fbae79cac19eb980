import Pacto.Promoter.Conclude

/-!
# Reconciling an operation

`operation.go`, `admission.go`, `planning.go` and `approval.go` of the
operation reconciler: admission, the pre-gates, the lock, the move of the
pointer, and the verify gates after it.  What a reconcile returns besides its
writes, when it runs again, is left out: any operation may be reconciled at
any time.
-/

namespace Pacto.Promoter

open Delivery Support

/-! ## Small steps -/

def passed (now : Nat) (deadline : Option Nat) : Bool := deadline.any (· < now)

/-- `save` writes the operation's status and ends the reconcile. -/
def save (op : Operation) : Reconcile Unit := do
  let _ ← saveOp op

/-- `mergeVerdicts` replaces the verdicts of the gates `fresh` answers for. -/
def mergeVerdicts (old fresh : List Verdict) : List Verdict :=
  (old.filter fun o => !fresh.any fun f => f.gate = o.gate && f.phase = o.phase) ++ fresh

def verdictMessages (vs : List Verdict) (result : Result) : String :=
  joinWith "; " ((vs.filter (·.result = result)).map fun v => v.gate ++ ": " ++ v.message)

def failing (vs : List Verdict) : Option Verdict := vs.find? (·.result = .fail)

def heldMessage (vs : List Verdict) (skipped : String) : String :=
  joinWith "; " ([verdictMessages vs .unknown, skipped].filter (· ≠ ""))

/-- `verify` verdicts replaced by fresh ones. -/
def withVerify (op : Operation) (vs : List Verdict) : Operation :=
  { op with
    status := { op.status with verdicts := op.status.verdicts.filter (·.phase ≠ "verify") ++ vs } }

def opByUID (uid : String) : Reconcile (Option Operation) := do
  let ops ← listOps
  pure (ops.find? (·.uid = uid))

def stageOps (stage : String) : Reconcile (List Operation) := do
  let ops ← listOps
  pure (ops.filter (·.spec.stage = stage))

/-- `unguarded` parks the operation while admission does not guard, and says
whether it did. -/
def unguarded (op : Operation) : Reconcile Bool := do
  let why ← orStop (← ask .unguardedBy)
  if why = "" then pure false
  else
    save
      { op with
        status :=
          { op.status with
            reason := "Unguarded"
            message :=
              why ++ ", so who wrote an operation or approval cannot be trusted; waiting for it" } }
    pure true

/-! ## Planning -/

def planRefusal (p : Plan) : String :=
  match failing p.verdicts with
  | some v =>
    if v.gate = gatePublished then "NotPublished: " ++ v.message
    else "GateFailed: " ++ v.gate ++ ": " ++ v.message
  | none => p.conflicts.headD ""

def newerPromote (op : Operation) : Reconcile (Option String) := do
  let ops ← stageOps op.spec.stage
  let newer := ops.find? fun o =>
    o.spec.type = .promote && !o.status.applied && o.status.phase ≠ .concluded && o.uid ≠ op.uid &&
      (op.created < o.created || (o.created = op.created && op.uid < o.uid))
  pure (newer.map (·.name))

namespace Reconciler

variable (r : Reconciler)

/-- `planOn`: the plan on one read of the Stage, `none` when a source cannot
be read.  The actor class was set at admission. -/
def planOn (op : Operation) (stage : Stage) : Reconcile (Option Plan) := do
  let input ← ask (.planInput op.spec stage (op.status.actorClass.getD .agent))
  pure (input.map fun input =>
    planFor r.pkg
      { input with
        requireOwnerTeam := r.policy.requireOwnerTeam, evalProviders := r.evalProviders })

/-- `plan`: a refusal on a cached Stage is planned again on the stored one. -/
def plan (op : Operation) (stage : Stage) : Reconcile (Option Plan × Stage) := do
  match ← r.planOn op stage with
  | none => pure (none, stage)
  | some p =>
    if p.predicted ≠ .rejected then pure (some p, stage)
    else
      match ← Prog.perform (I := api) .getStage with
      | none => pure (none, stage)
      | some fresh =>
        if fresh.resourceVersion = stage.resourceVersion then pure (some p, stage)
        else
          let again ← r.planOn op fresh
          pure (again, fresh)

/-! ## Admission -/

/-- `causeRefusal` runs a cited verdict again, and returns the refusal and the
operation with the verdict it re-ran. -/
def causeRefusal (op : Operation) (stage : Stage) : Reconcile (String × Operation) := do
  match op.spec.cause.bind (·.verdict) with
  | none => pure ("", op)
  | some cited =>
    if op.status.actorClass = some .controller then pure ("", op)
    else
      let shipped ← opByUID stage.status.lastOp
      if (shipped.bind (·.status.times.applied)).isNone then
        pure ("CauseUnconfirmed: the running version has no applied time, so no cited " ++
          cited.gate ++ " window can be about it", op)
      else
        let v ← ask (.rerun cited)
        if v.result = .unknown || v.result ≠ cited.result then
          pure ("CauseUnconfirmed: the cited " ++ cited.gate ++ " verdict says " ++
            cited.result.text ++ ", re-running it now says " ++ v.result.text ++ ": " ++
            v.message, op)
        else
          let v : Verdict :=
            { v with phase := "pre", message := "the cited cause re-ran: " ++ v.message }
          pure ("", { op with status := { op.status with verdicts := op.status.verdicts ++ [v] } })

/-- `unfreezeRefusal`: why a person may not unfreeze the Stage, or acknowledge
an upstream stand-in on it. -/
def unfreezeRefusal (op : Operation) (stage : Stage) : Reconcile String := do
  if (op.spec.type ≠ .unfreeze && op.spec.type ≠ .acknowledge) ||
      op.status.actorClass ≠ some .human then
    pure ""
  else
    let verb :=
      if op.spec.type = .acknowledge then "acknowledge its upstream stand-ins" else "unfreeze it"
    let running : Except String (List String) ←
      (if stage.status.pointer = "" then pure (.error "nothing runs on it") else ask .runningTeam)
    let (team, why) :=
      match running with
      | .ok team => (team, "")
      | .error e => ([], e)
    if (!team.isEmpty || op.spec.type ≠ .acknowledge) &&
        r.policy.inTeams op.spec.actor.groups team then
      pure ""
    else if team.isEmpty then
      pure ("NoOwnerTeam: the contract running on " ++ stage.metadata.name ++
        " declares no team or cannot be read (" ++ why ++ "), and only an owner team may " ++
        verb ++ "; break-glass can")
    else
      pure ("NotYourTeam: " ++ op.spec.actor.user ++ " is not in " ++ team.headD "" ++
        ", the team of the service " ++ stage.metadata.name ++ " runs, so they may not " ++ verb ++
        "; that team or break-glass can")

def cited (op : Operation) : Reconcile (Option CitedOp) := do
  let ops ← stageOps op.spec.stage
  pure ((ops.find? (·.uid = op.spec.params.undoes)).map fun o =>
    { uid := o.uid, type := o.spec.type, applied := o.status.applied, pointer := o.status.pointer })

/-- The checks of `refusal` that need nothing but the request and the Stage's
policy. -/
def requestRefusal (op : Operation) (stage : Stage) (cls : ActorClass) : String :=
  match typeByID op.spec.type with
  | none => "UnknownType: " ++ op.spec.type.text ++ " is not an operation type"
  | some t =>
    if op.spec.facet ≠ t.facet then
      "WrongFacet: " ++ op.spec.type.text ++ " changes the " ++ t.facet.text ++ " facet, not " ++
        op.spec.facet.text
    else if !mayRaise op.spec.type cls op.spec.witnessed then
      "NotPermitted: a " ++ cls.text ++ " actor may not raise " ++ op.spec.type.text
    else if op.spec.intentDigest ≠ r.pkg.intentDigest op.spec stage.spec then
      "PlanStale: the intent digest does not match this Stage's policy; plan again"
    else ""

/-- The checks of `refusal` on the pointer a move starts from and goes to. -/
def pointerRefusal (spec : OperationSpec) (stage : Stage) : String :=
  if !isDigest spec.params.to then
    "InvalidDigest: to must be an OCI manifest digest, not " ++ quote spec.params.to
  else if spec.params.from ≠ "" && !isDigest spec.params.from then
    "InvalidDigest: from must be an OCI manifest digest, not " ++ quote spec.params.from
  else if spec.params.from ≠ stage.status.pointer then
    "PointerMoved: from is " ++ quote spec.params.from ++ " but the Stage runs " ++
      quote stage.status.pointer
  else ""

def refusal (op : Operation) (stage : Stage) (cls : ActorClass) :
    Reconcile (String × Operation) := do
  let request := r.requestRefusal op stage cls
  if request ≠ "" then pure (request, op)
  else
    let (why, op) ← causeRefusal op stage
    if why ≠ "" then pure (why, op)
    else
      let why := admitAcknowledge op.spec stage.spec
      if why ≠ "" then pure (why, op)
      else
        let why ← r.unfreezeRefusal op stage
        if why ≠ "" then pure (why, op)
        else if op.spec.type = .freeze && op.spec.params.from ≠ stage.status.pointer then
          pure ("PointerMoved: a freeze stays on " ++ quote op.spec.params.from ++
            " but the Stage runs " ++ quote stage.status.pointer, op)
        else if op.spec.facet ≠ .pointer then pure ("", op)
        else
          let why := pointerRefusal op.spec stage
          if why ≠ "" then pure (why, op)
          else if op.spec.type ≠ .rollback then pure ("", op)
          else
            let undone ← cited op
            pure (admitRollback op.spec stage.status undone cls, op)

/-- What admission writes on an operation, whether it is refused or not. -/
def admitted (op : Operation) (stage : Stage) (cls : ActorClass) (now : Nat) : Operation :=
  let approval :=
    match typeByID op.spec.type with
    | some _ => stage.spec.approvalDeadlineOr
    | none => stage.spec.approvalDeadline.getD 0
  { op with
    status :=
      { op.status with
        actorClass := some cls
        guarded := true
        times :=
          { op.status.times with
            admitted := some now, approvalDeadline := some (now + approval) } } }

/-- `admit` validates the intent once, on the stored Stage. -/
def admitOp (op : Operation) : Reconcile Unit := do
  if ← unguarded op then pure ()
  else
    let stage ← getStage
    let now ← now
    let cls := r.policy.classify op.spec.actor
    let (reason, op) ← r.refusal (admitted op stage cls now) stage cls
    if reason ≠ "" then r.finish op stage { outcome := .rejected, reason := reason }
    else save { op with status := { op.status with phase := .pending } }

/-! ## Before the pointer moves -/

def lockFree (op : Operation) (holder : String) : Reconcile Bool := do
  match ← opByUID holder with
  | none => pure true
  | some o =>
    let preempts := op.spec.type = .rollback || op.spec.type = .override
    pure (o.status.phase = .concluded ||
      (preempts && (o.status.phase = .verifying || (o.status.phase = .held && o.status.applied))))

/-- Why `lock` does not take the lock. -/
inductive LockRefusal where
  | concluded
  | wait (why : String)
  | pointerMoved
  deriving DecidableEq, Repr

/-- The checks `lock` makes on the Stage it writes over, once the lock itself
is free. -/
def lockOn (op : Operation) (s : Stage) : Except LockRefusal Stage :=
  if s.status.frozen && op.spec.type = .promote then
    .error (.wait ("the Stage is frozen: " ++ s.status.frozenReason))
  else if s.status.pointer ≠ op.spec.params.from then .error .pointerMoved
  else
    .ok { s with status := { s.status with locks := s.status.locks.set op.spec.facet op.uid } }

/-- The closure of `lock`'s compare-and-swap. -/
def tryLock (op : Operation) (s : Stage) : Reconcile (Except LockRefusal Stage) := do
  let holder := s.status.locks.get op.spec.facet
  if (concludedOn s.status op.uid).isSome then pure (.error .concluded)
  else if holder ≠ "" && holder ≠ op.uid then
    if ← lockFree op holder then pure (lockOn op s)
    else
      pure (.error (.wait ("waiting for operation " ++ holder ++ " to release the " ++
        op.spec.facet.text ++ " lock")))
  else pure (lockOn op s)

/-- The status of an operation that waits: an approval just taken stays
unconsumed. -/
def waiting (op : Operation) (recheck : Bool) (why : String) : Operation :=
  let (approvals, why) :=
    match recheck, op.status.approvals.getLast? with
    | true, some a => (op.status.approvals.dropLast, a.by' ++ " approved; " ++ why)
    | _, _ => (op.status.approvals, why)
  { op with
    status := { op.status with approvals := approvals, reason := "Waiting", message := why } }

/-- The status of an operation held for a person before it moved anything. -/
def heldFor (op : Operation) (plan : Plan) (now : Nat) (reason message : String) : Operation :=
  { op with
    status :=
      { op.status with
        plan := some plan
        verdicts := mergeVerdicts op.status.verdicts plan.verdicts
        phase := .held
        question := plan.question
        times := { op.status.times with held := some now }
        approvedTeams := []
        reason := reason
        message := message } }

/-- The operation once it holds the lock. -/
def started (op : Operation) (stage : Stage) (now : Nat) : Operation :=
  let execution :=
    match typeByID op.spec.type with
    | some _ => stage.spec.executionDeadlineOr
    | none => stage.spec.executionDeadline.getD 0
  { op with
    status :=
      { op.status with
        phase := .running, question := "", reason := "", message := ""
        times :=
          { op.status.times with
            started := some now, executionDeadline := some (now + execution) } } }

/-- The compare-and-swap of `lock` and what follows from it. -/
def takeLock (op : Operation) (stage : Stage) (recheck : Bool) : Reconcile Unit := do
  if op.spec.facet = .level then
    r.finish op stage
      { outcome := .succeeded, verification := some .unverified
        reason :=
          "LevelChanged: " ++ op.spec.stage ++ " moved from " ++ op.spec.params.from ++ " to " ++
            op.spec.params.to }
  else
    let (_, result) ←
      casStage (fun (_ : Unit) s => do
          let result ← tryLock op s
          pure ((), result))
        defaultRetry ()
    match result with
    | .error .concluded => r.finish op stage Conclusion.empty
    | .error (.wait why) => save (waiting op recheck why)
    | .error .pointerMoved =>
      r.finish op stage
        { outcome := .rejected
          reason := "PointerMoved: another operation moved the pointer first" }
    | .ok stage =>
      let now ← now
      save (started op stage now)

/-- `lock` takes the Stage's facet lock.  An approved promote or level change
checks its gates again first; a level change takes no lock. -/
def lock (op : Operation) (stage : Stage) (recheck : Bool) : Reconcile Unit := do
  if recheck && (op.spec.type = .promote || op.spec.type = .autonomy) then
    let (plan, stage) ← r.plan op stage
    let cur ← orStop plan
    if cur.predicted = .rejected then
      r.finish op stage { outcome := .rejected, reason := planRefusal cur }
    else if !op.status.plan.any (stillPasses · cur) then
      let now ← now
      save
        (heldFor op cur now "RecheckChanged" "a gate no longer passes, so a person must decide again")
    else
      let op :=
        { op with
          status := { op.status with verdicts := mergeVerdicts op.status.verdicts cur.verdicts } }
      r.takeLock op stage recheck
  else r.takeLock op stage recheck

/-- `preApplyExits`: how an operation that moved nothing ends on its own. -/
def preApplyExits (op : Operation) : Reconcile (Option Conclusion) := do
  let now ← now
  if op.deleting then
    pure (some
      { outcome := .cancelled, reason := "Cancelled: cancelled before the pointer moved" })
  else if passed now op.status.times.approvalDeadline then
    pure (some { outcome := .expired, reason := "Expired: nobody decided before the deadline" })
  else pure none

/-- How an operation that needs no plan concludes at once. -/
def immediate (op : Operation) (stage : Stage) : Option Conclusion :=
  if op.spec.type = .freeze then
    some
      { outcome := .succeeded, verification := some .unverified
        reason := "Frozen: automation stops moving the Stage until a person unfreezes it" }
  else
    match op.spec.facet with
    | .freeze =>
      some
        { outcome := .succeeded, verification := some .unverified
          reason := "Unfrozen: automation may move the Stage again" }
    | .upstream =>
      some
        { outcome := .succeeded, verification := some .unverified
          reason :=
            "Acknowledged: the upstream stand-in " ++ op.spec.params.record ++
              " no longer stops " ++ stage.metadata.name ++ " offering versions" }
    | _ => none

def pendingPlan (op : Operation) (stage : Stage) : Reconcile Unit := do
  let (plan, stage) ← r.plan op stage
  let plan ← orStop plan
  let planned :=
    { op with
      status :=
        { op.status with
          plan := some plan, verdicts := mergeVerdicts op.status.verdicts plan.verdicts } }
  match plan.predicted with
  | .rejected => r.finish planned stage { outcome := .rejected, reason := planRefusal plan }
  | .held =>
    let now ← now
    save
      (heldFor op plan now "AwaitingHuman"
        ("a person must " ++ (plan.floor.decision.map Decision.text).getD ""))
  | .waits =>
    save
      { planned with
        status :=
          { planned.status with reason := "Waiting", message := joinWith "; " plan.conflicts } }
  | .proceeds => r.lock planned stage false

/-- `pending` runs the pre-gates. -/
def pending (op : Operation) (stage : Stage) : Reconcile Unit := do
  match ← preApplyExits op with
  | some c => r.finish op stage c
  | none =>
    let newer ← (if op.spec.type = .promote then newerPromote op else pure none)
    match newer with
    | some name =>
      r.finish op stage
        { outcome := .superseded
          reason := "Superseded: " ++ name ++ " is a newer promote on this Stage" }
    | none =>
      match immediate op stage with
      | some c => r.finish op stage c
      | none => r.pendingPlan op stage

/-! ## Approvals -/

/-- `approval` consumes the first approval that counts, and says why the newest
one it passed over does not. -/
def approvalAmong (op : Operation) :
    List Approval → String → Option ApprovalRecord × String × Operation
  | [], skipped => (none, skipped, op)
  | a :: rest, skipped =>
    if op.status.approvals.any (·.name = a.name) then approvalAmong op rest skipped
    else
      match approvalRefusal op.spec op.status op.uid a.spec a.created r.policy r.freshness with
      | some (_, why) =>
        approvalAmong op rest
          ("Approval " ++ a.name ++ " by " ++ a.spec.by' ++ " does not count: " ++ why)
      | none =>
        let taken : ApprovalRecord :=
          { name := a.name, by' := a.spec.by', decision := a.spec.decision
            note := a.spec.note, authTime := a.spec.authTime }
        (some taken, "",
          { op with
            status :=
              { op.status with
                approvals := op.status.approvals ++ [taken]
                approvedTeams :=
                  answeredTeams r.policy op.status.askedOwners a.spec.groups
                    op.status.approvedTeams } })

@[inherit_doc approvalAmong]
def approval (op : Operation) : Reconcile (Option ApprovalRecord × String × Operation) := do
  match ← ask .approvals with
  | none => pure (none, "", op)
  | some approvals => pure (r.approvalAmong op approvals "")

/-- The plan `refreshOrder` keeps after planning again, if it changes
anything. -/
def refreshedPlan (op : Operation) (prev cur : Plan) : Option Plan :=
  if cur.predicted = .rejected then none
  else
    let next :=
      if !cur.floor.human then
        some
          { prev with
            order := none
            question :=
              "Nothing Pacto sees holds this change any more: what it waited for has moved. Approve it to ship it, or cancel it and propose it again." }
      else if cur.order.isNone then none
      else some cur
    next.bind fun next =>
      if next.question = op.status.question && next.order = prev.order &&
          next.floor = prev.floor then none
      else some next

/-- What `refreshOrder` found: a plan that changed or not, or a plan that
could not be made. -/
inductive Refreshed where
  | unchanged
  | changed
  | failed
  deriving DecidableEq, Repr

def refreshOrder (op : Operation) (stage : Stage) : Reconcile (Refreshed × Operation × Stage) := do
  match op.status.plan with
  | none => pure (.unchanged, op, stage)
  | some prev =>
    if prev.order.isNone then pure (.unchanged, op, stage)
    else
      let (plan, stage) ← r.plan op stage
      match plan with
      | none => pure (.failed, op, stage)
      | some cur =>
        match refreshedPlan op prev cur with
        | none => pure (.unchanged, op, stage)
        | some next =>
          pure (.changed,
            { op with
              status :=
                { op.status with
                  plan := some next
                  question := next.question
                  verdicts := mergeVerdicts op.status.verdicts next.verdicts } }, stage)

/-- `held` once the order was refreshed and the approvals were read. -/
def heldOn (op : Operation) (stage : Stage) (refreshed : Refreshed) (newSkip : Bool)
    (a : Option ApprovalRecord) : Reconcile Unit := do
  match a with
  | some a =>
    if a.decision = .reject then
      r.finish op stage
        { outcome := .rejected, reason := "RejectedByHuman: " ++ a.by' ++ ": " ++ a.note }
    else if refreshed = .failed then .stop
    else
      let waiting := teamsWaiting op.status.askedOwners op.status.approvedTeams
      if !waiting.isEmpty then
        save
          { op with
            status :=
              { op.status with
                reason := "AwaitingHuman"
                message :=
                  a.by' ++ " answered for " ++ joinWith ", " op.status.approvedTeams ++
                    "; the change still waits for " ++ joinWith ", " waiting ++
                    ", since it is asked of every one of them" } }
      else r.lock op stage true
  | none =>
    if refreshed = .failed then .stop
    else if refreshed = .changed || newSkip then save op
    else pure ()

/-- `held` consumes approvals for an operation waiting before it moved
anything. -/
def held (op : Operation) (stage : Stage) : Reconcile Unit := do
  match ← preApplyExits op with
  | some c => r.finish op stage c
  | none =>
    if ← unguarded op then pure ()
    else
      let (refreshed, op, stage) ← r.refreshOrder op stage
      let (a, skipped, op) ← r.approval op
      let newSkip := skipped ≠ "" && skipped ≠ op.status.message
      let op := if newSkip then { op with status := { op.status with message := skipped } } else op
      r.heldOn op stage refreshed newSkip a

/-! ## Moving the pointer -/

/-- The closure of `running`'s compare-and-swap: the pointer moves if the
operation still holds the lock. -/
def moveOn (op : Operation) (s : Stage) : Except Unit Stage :=
  if s.status.locks.get .pointer ≠ op.uid then .error ()
  else .ok { s with status := { s.status with pointer := op.spec.params.to, lastOp := op.uid } }

def moved (op : Operation) : Operation :=
  { op with
    status :=
      { op.status with
        applied := true
        pointer := { before := op.spec.params.from, after := op.spec.params.to } } }

def withMessage (op : Operation) (message : String) : Operation :=
  { op with status := { op.status with message := message } }

/-- `running` once Flux applied the version. -/
def confirmed (op : Operation) (stage : Stage) : Reconcile Unit := do
  let now ← now
  let op := { op with status := { op.status with times := { op.status.times with applied := some now } } }
  if op.spec.type = .override then
    r.finish op stage
      { outcome := if op.spec.witnessed then .witnessed else .succeeded
        verification := some .unverified, freeze := true
        reason := "Overridden: the Stage stays frozen until a person unfreezes it" }
  else
    save
      { op with
        status :=
          { op.status with
            phase := .verifying, message := ""
            times :=
              { op.status.times with verifyDeadline := some (now + stage.spec.verifyWindowOr) } } }

/-- `running` once the pointer moved: the digest is written to the applier and
Flux confirms it. -/
def apply (op : Operation) (stage : Stage) : Reconcile Unit := do
  match ← ask .freshApplier with
  | .error e => save (withMessage op ("reading the apply OCIRepository: " ++ e))
  | .ok a =>
    if a.digest ≠ op.spec.params.to then
      if a.digest ≠ op.spec.params.from then
        r.finish op stage
          { outcome := .errored, freeze := true
            reason :=
              "ForeignWriter: " ++ a.field ++ " is " ++ quote a.digest ++
                ", which this operation did not write; it is left as found" }
      else
        match ← ask (.setDigest op.spec.params.to) with
        | .error e => save (withMessage op ("writing " ++ a.field ++ ": " ++ e))
        | .ok _ => pure ()
    else
      let flux ← orStop (← ask (.applied op.spec.params.to))
      if flux.failed then
        r.finish op stage { outcome := .failed, reason := "ApplyFailed: " ++ flux.message }
      else if !flux.ok then save (withMessage op flux.message)
      else r.confirmed op stage

/-- `running` moves the pointer, writes it to the applier and waits for Flux. -/
def running (op : Operation) (stage : Stage) : Reconcile Unit := do
  let now ← now
  if passed now op.status.times.executionDeadline then
    r.finish op stage
      { outcome := .errored, freeze := true
        reason := "ExecutionDeadline: Flux did not confirm the version in time" }
  else if op.status.applied then r.apply op stage
  else
    let (_, result) ← casStage (fun (_ : Unit) s => pure ((), moveOn op s)) defaultRetry ()
    match result with
    | .error _ =>
      r.finish op stage
        { outcome := .errored, freeze := true
          reason := "LockLost: the pointer lock was taken while running" }
    | .ok stage =>
      let op ← saveOp (moved op)
      r.apply op stage

/-! ## Verifying -/

/-- A rollback of `op` that no person raised. -/
def pullsUnpunished (op : Operation) (o : Operation) : Bool :=
  o.spec.type = .rollback && o.spec.params.undoes = op.uid &&
    o.status.actorClass ≠ some .human && o.status.actorClass ≠ some .breakGlass

/-- How `op` ends when the rollback `o`, which no person raised, took its
lock. -/
def preemptedByRollback (o : Operation) : Conclusion :=
  let message :=
    "preempted by " ++ ((o.status.actorClass.map ActorClass.text).getD "") ++ " rollback " ++
      o.name ++ ", which no person raised, before verify judged it"
  { outcome := .failed
    reason := "PreemptedByRollback: " ++ message
    preempted := true
    cause :=
      some
        { gate := "pacto.preempted", phase := "verify", result := .fail, message := message
          citation := [("rollback", o.uid)] } }

/-- `preemption`: how `op` concludes once a rollback or override took its
lock. -/
def preemption (op : Operation) : Reconcile Conclusion := do
  if op.spec.type ≠ .promote || byPerson op.status then pure preemptedBy
  else
    let ops ← stageOps op.spec.stage
    match ops.find? (pullsUnpunished op) with
    | some o => pure (preemptedByRollback o)
    | none => pure preemptedBy

def verifiedAs (vs : List Verdict) : Conclusion :=
  { outcome := .succeeded, verification := some .verified
    reason := "Verified: " ++ verdictMessages vs .pass }

def verifyFailed (vs : List Verdict) : Conclusion :=
  { outcome := .failed
    reason :=
      "VerifyFailed: " ++ ((failing vs).map fun f => f.gate ++ ": " ++ f.message).getD ""
    cause := failing vs }

def askUnknown (op : Operation) (stage : Stage) (now : Nat) (message : String) : Operation :=
  { op with
    status :=
      { op.status with
        phase := .held
        approvedTeams := []
        times :=
          { op.status.times with
            held := some now, approvalDeadline := some (now + stage.spec.approvalDeadlineOr) }
        reason := "VerifyUnknown"
        message := message
        question :=
          "The verify gates could not confirm " ++ op.spec.params.to ++ " in time: " ++ message ++
            ". Accept the unknown (the version stays), or reject it (it is rolled back)?" } }

/-- `verifying` runs the verify gates on the applied version. -/
def verifying (op : Operation) (stage : Stage) : Reconcile Unit := do
  if preempted op stage then
    let c ← preemption op
    r.finish op stage c
  else
    let vs ← ask (.verdicts op stage)
    let op := withVerify op vs
    match worst vs with
    | .pass => r.finish op stage (verifiedAs vs)
    | .fail => r.finish op stage (verifyFailed vs)
    | .unknown =>
      let message := verdictMessages vs .unknown
      let now ← now
      if passed now op.status.times.verifyDeadline then save (askUnknown op stage now message)
      else save (withMessage op message)

/-- `recheckHeld` runs the verify gates again on a version held after it
shipped. -/
def recheckHeld (op : Operation) (stage : Stage) (skipped : String) : Reconcile Unit := do
  let due : Bool ← ask .heldCheckDue
  if due then
    let vs ← ask (.verdicts op stage)
    let op := withVerify op vs
    match worst vs with
    | .pass => r.finish op stage (verifiedAs vs)
    | .fail => r.finish op stage (verifyFailed vs)
    | .unknown => save (withMessage op (heldMessage vs skipped))
  else
    let message := heldMessage op.status.verdicts skipped
    if skipped ≠ "" && message ≠ op.status.message then save (withMessage op message) else pure ()

/-- `heldAfterApply` waits for a person on a version that already runs. -/
def heldAfterApply (op : Operation) (stage : Stage) : Reconcile Unit := do
  if preempted op stage then
    let c ← preemption op
    r.finish op stage c
  else
    let now ← now
    if passed now op.status.times.approvalDeadline then
      r.finish op stage
        { outcome := .errored, freeze := true
          reason := "VerifyUndecided: nobody accepted or rejected the unknown in time" }
    else if ← unguarded op then pure ()
    else
      let (a, skipped, op) ← r.approval op
      match a with
      | none => r.recheckHeld op stage skipped
      | some a =>
        if a.decision = .reject then
          r.finish op stage
            { outcome := .failed, reason := "RejectedByHuman: " ++ a.by' ++ ": " ++ a.note }
        else
          r.finish op stage
            { outcome := .succeeded, verification := some .acceptedUnknown
              reason := "AcceptedUnknown: " ++ a.by' ++ " accepted the unknown" }

/-! ## The reconcile -/

def dispatch (op : Operation) (stage : Stage) : Reconcile Unit :=
  if (concludedOn stage.status op.uid).isSome then r.finish op stage Conclusion.empty
  else
    match op.status.phase with
    | .new => r.admitOp op
    | .pending => r.pending op stage
    | .running => r.running op stage
    | .verifying => r.verifying op stage
    | .held => if op.status.applied then r.heldAfterApply op stage else r.held op stage
    | .concluded => pure ()

/-- `Reconcile` reads an operation and its Stage from the cache and takes the
operation one step on. -/
def reconcile (uid : String) : Reconcile Unit := do
  match ← Prog.perform (I := api) (.readOp uid) with
  | none => pure ()
  | some op =>
    if op.status.phase = .concluded then pure ()
    else
      let stage ← orStop (← Prog.perform (I := api) (.readStage uid))
      r.dispatch op stage

end Reconciler

end Pacto.Promoter
