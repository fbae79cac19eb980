import Pacto.Promoter.Reconcile

/-!
# Everything else that writes

Besides the operation reconciler, the stage reconciler (`stage.go`,
`ladder.go`) and the recorder write the Stage's status, each in one
compare-and-swap, and people and agents create, edit and delete objects.  The
cache learns of every write a while later.
-/

namespace Pacto.Promoter

open Delivery Support

def maxPublished : Nat := 50

/-! ## Writes of the Stage's status by others -/

/-- A re-check that failed on the running version: the operation that shipped
it, and what the stage reconciler decided from its own earlier reads. -/
structure FailedRecheck where
  operation : String
  digest : String
  shipped : String
  ownRollback : Bool := false
  chosen : Bool := false
  rollback : Bool := false
  why : String
  stepSquat : String := ""

/-- The status writes of the stage reconciler and of the recorder, each with
the values its closure captured. -/
inductive StageWrite where
  | seedLevel
  | streamID (id : String)
  | freeze (why : String)
  | streamConflict (why : String)
  | conditions (conditions : List Condition)
  | published (digest : String)
  | observed (shadow : List Shadow) (digest : String) (since : Nat)
  | shadowVerified (digest : String) (worst : Result)
  | propose (lastOp : String) (latest : Option Plan)
  | recheckFailed (check : FailedRecheck)
  | recorded (seq : Int) (head : String)

def FailedRecheck.moved (check : FailedRecheck) (st : StageStatus) : Bool :=
  st.lastOp ≠ check.operation || st.pointer ≠ check.digest || st.locks.get .pointer ≠ ""

def FailedRecheck.frozenReason (check : FailedRecheck) : Option String :=
  if check.ownRollback then
    some (check.shipped ++ ": failed after release, and it is the promoter's own rollback, which is never undone automatically, so a person must decide: " ++
      check.why)
  else if check.chosen then
    some (check.shipped ++ ": failed after release, and a person or agent chose this version, so a person must decide: " ++
      check.why)
  else if !check.rollback then
    some (check.shipped ++ ": failed after release and cannot be rolled back automatically: " ++
      check.why)
  else none

def FailedRecheck.apply (check : FailedRecheck) (st : StageStatus) : StageStatus :=
  if check.moved st then st
  else
    let st :=
      { st with
        failedDigests := addDigest st.failedDigests check.digest maxFailedDigests
        verified := removeDigest st.verified check.digest }
    let st :=
      match check.frozenReason with
      | some why => { st with frozen := true, frozenReason := why }
      | none => { st with rolledBack := addDigest st.rolledBack check.operation maxRolledBack }
    if check.stepSquat ≠ "" then
      { st with
        frozen := true
        frozenReason :=
          check.shipped ++ ": failed after release: " ++ check.why ++ ", and " ++ check.stepSquat }
    else st

def shadowVerify (digest : String) (worst : Result) (st : StageStatus) : StageStatus :=
  if (st.observedRevision.map (·.digest)) ≠ some digest then st
  else
    match worst with
    | .unknown => st
    | .fail => { st with failedDigests := addDigest st.failedDigests digest maxFailedDigests }
    | .pass =>
      { st with
        verified := addDigest st.verified digest maxVerified
        offered :=
          if st.published.contains digest then addDigest st.offered digest maxOffered
          else st.offered
        shadow :=
          st.shadow.map fun e =>
            if e.candidate = digest then { e with verification := some .verified } else e }

/-- The closure of `shadow`: what GitOps applied, and the plans made for it. -/
def observeRevision (shadow : List Shadow) (digest : String) (since : Nat) (st : StageStatus) :
    StageStatus :=
  { st with
    shadow := shadow
    observedRevision :=
      if (st.observedRevision.map (·.digest)) = some digest then st.observedRevision
      else some { digest := digest, since := since } }

namespace StageWrite

def apply (w : StageWrite) (spec : StageSpec) (st : StageStatus) : StageStatus :=
  match w with
  | seedLevel => if st.level = .unset then { st with level := currentLevel spec st } else st
  | streamID id => { st with stream := { st.stream with id := id } }
  | freeze why => if st.frozen then st else { st with frozen := true, frozenReason := why }
  | streamConflict why => { st with frozen := true, frozenReason := why }
  | conditions cs => { st with conditions := cs }
  | published d => { st with published := addDigest st.published d maxPublished }
  | observed shadow d since => observeRevision shadow d since st
  | shadowVerified d worst => shadowVerify d worst st
  | propose lastOp latest =>
    if st.lastOp = lastOp then { st with proposal := some (proposeLevel spec st latest) } else st
  | recheckFailed check => check.apply st
  | recorded seq head => { st with stream := { st.stream with recordedSeq := seq, head := head } }

end StageWrite

/-! ## Acts of the outside -/

/-- What can happen to the store between two requests of the operation
reconciler. -/
inductive Act where
  | showStage
  | showOp (uid : String)
  | forget (uid : String)
  | propose (uid name : String) (created : Nat) (spec : OperationSpec)
  | cancel (uid : String)
  | touch (uid : String)
  | vanish (uid : String)
  | editSpec (spec : StageSpec)
  | writeStage (w : StageWrite)
  | approve (a : Approval)

namespace Store

/-- Change the cell of an operation. -/
def onCell (s : Store) (uid : String) (f : Cell → Option Cell) : Option Store :=
  (s.ops uid).bind fun cell => (f cell).map fun cell => s.setCell uid cell

/-- Store a new version of an operation that is still there. -/
def rewrite (f : Operation → Operation) (cell : Cell) : Option Cell :=
  if cell.gone then none
  else some { cell with register := cell.register.write (f cell.latest) }

def writeStage (s : Store) (f : Stage → Stage) : Store :=
  s.setStage (s.stage.write (f s.stage.latest))

/-- One act, `none` when it cannot happen. -/
def act : Act → Store → Option Store
  | .showStage, s => some (s.setStage s.stage.deliver)
  | .showOp uid, s => s.onCell uid fun cell => some { cell with register := cell.register.deliver }
  | .forget uid, s =>
    s.onCell uid fun cell => if cell.gone then some { cell with forgotten := true } else none
  | .propose uid name created spec, s =>
    if uid = "" || (s.ops uid).isSome || (s.named name).isSome ||
        spec.stage ≠ s.stage.latest.metadata.name then none
    else
      some (s.addOp uid created
        { metadata := { name := name, ns := s.stage.latest.metadata.ns, uid := uid }
          spec := spec })
  | .cancel uid, s => s.onCell uid (rewrite fun op => { op with deleting := true })
  | .touch uid, s => s.onCell uid (rewrite id)
  | .vanish uid, s =>
    s.onCell uid fun cell => if cell.gone then none else some { cell with gone := true }
  | .editSpec spec, s => some (s.writeStage fun stage => { stage with spec := spec })
  | .writeStage w, s =>
    some (s.writeStage fun stage => { stage with status := w.apply stage.spec stage.status })
  | .approve a, s =>
    let shown := (s.ops a.spec.operationUID).bind fun cell => cell.latest.status.plan
    some { s with issued := s.issued ++ [{ approval := a, shown := shown }] }

end Store

/-! ## The system -/

/-- The promoter on one Stage: each operation has its own reconciles, one at a
time, and the outside acts in between. -/
abbrev Reconciler.system (r : Reconciler) : System api String where
  main := r.reconcile
  Act := Act
  act := Store.act

/-- A Stage nobody has promoted on, with no operations. -/
def Store.fresh (metadata : ObjectMeta) (spec : StageSpec) : Store where
  stage := Register.create { metadata := metadata, spec := spec }

/-- A reconcile of an operation, request by request. -/
def Reconciler.reconciles (r : Reconciler) (uid : String) (oracles : List Oracle) :
    List (System.Event r.system) :=
  .start uid :: oracles.map (.call uid)

def Reconciler.acts (r : Reconciler) (acts : List Act) : List (System.Event r.system) :=
  acts.map .act

/-- The promoter before its first reconcile on a fresh Stage. -/
def initial (metadata : ObjectMeta) (spec : StageSpec) : System.Config api String where
  shared := Store.fresh metadata spec
  threads := fun _ => none

/-! ## Schedules by hand -/

/-- A reconciler with nothing around it, and the Stage its schedules run on. -/
def quietReconciler : Reconciler where
  policy :=
    { controllerUser := "pacto", agentGroups := ["agents"], breakGlassGroups := ["oncall"]
      requireOwnerTeam := false }
  pkg := quietPackages

@[inherit_doc quietReconciler]
def quietStage : ObjectMeta := { name := "prod", ns := "shop", uid := "stage" }

def digestOf (c : Char) : String := String.ofList ("sha256:".toList ++ List.replicate 64 c)

theorem digestOf_ne (c : Char) : digestOf c ≠ "" := by
  intro h
  have hlist : "sha256:".toList ++ List.replicate 64 c = [] := by
    rw [← String.toList_ofList (l := "sha256:".toList ++ List.replicate 64 c)]
    exact String.toList_eq_nil_iff.mpr h
  have hnil := (List.append_eq_nil_iff.mp hlist).2
  simp at hnil

def shopRevision (c : Char) : Revision where
  digest := digestOf c
  contractRef := "ghcr.io/shop"
  bundle := some { contract := { serviceName := "shop" } }
  digest_ne := fun _ => digestOf_ne c
  contractRef_ne := by simp

/-- A Stage that ships on its own. -/
def autonomousStage : StageSpec where
  service := "shop"
  startLevel := .autonomous
  candidates := { ociRepositoryRef := some "shop" }

def moveOf (type : TypeID) (actor : Actor) (params : Params) : OperationSpec where
  type := type
  stage := "prod"
  facet := .pointer
  params := params
  intentDigest := "sha256:intent"
  actor := actor

def person : Actor := { user := "ada" }
def onCall : Actor := { user := "ada", groups := ["oncall"] }
def agent : Actor := { user := "bot", groups := ["agents"] }

/-- Answers that let a plan from one version to another be made, Flux confirm the
new one and its verify gate pass. -/
def shipping («from» : Revision) («to» : Char) : Oracle where
  planInput := some
    { spec := moveOf .promote agent {}, stage := { service := "shop" }, status := {}
      «from» := «from», «to» := shopRevision «to», snapshot := some {}, cls := .agent }
  freshApplier := .ok ⟨digestOf «to», "spec.ref.digest"⟩
  applied := some { ok := true }
  verdicts := [{ gate := "smoke", phase := "verify", result := .pass }]

/-- The operation is proposed, admitted and takes its lock, with the number of
requests the last two take. -/
def Reconciler.starts (r : Reconciler) (uid : String) (spec : OperationSpec) (admitting lock : Nat)
    (o : Oracle) : List (System.Event r.system) :=
  r.acts [.propose uid uid 0 spec, .showOp uid] ++
    r.reconciles uid (List.replicate admitting {}) ++ r.acts [.showOp uid] ++
    r.reconciles uid (List.replicate lock o) ++ r.acts [.showOp uid]

end Pacto.Promoter
