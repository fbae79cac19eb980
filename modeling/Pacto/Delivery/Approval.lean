import Pacto.Delivery.Plan

/-!
# Who is who, and which approval counts

The identity policy of `pkg/delivery/types.go`, the approval rules of
`pkg/delivery/lifecycle.go`, and the rules the promoter reads a plan and a set
of verdicts by: `stillPasses`, `clearedBreaking`, `worst` and the deadlines.
-/

namespace Pacto.Delivery

variable {spec : OperationSpec} {st : OperationStatus}

/-! ## The identity policy -/

/-- The identities the promoter treats specially. -/
structure ClassPolicy where
  controllerUser : String
  agentGroups : List String := []
  breakGlassGroups : List String := []
  teamGroupPrefix : String := ""
  requireOwnerTeam : Bool := true
  humanGroups : List String := []
  deriving DecidableEq, Repr

def intersects (a b : List String) : Bool := a.any b.contains

def isServiceAccount (user : String) : Bool := hasPrefix "system:serviceaccount:" user

namespace ClassPolicy

/-- `InTeams`: whether `groups` name one of the teams.  With no teams any
person may answer, or nobody when an owner team is required. -/
def inTeams (p : ClassPolicy) (groups teams : List String) : Bool :=
  if teams.isEmpty then !p.requireOwnerTeam
  else
    teams.any fun t =>
      !hasPrefix "system:" (p.teamGroupPrefix ++ t) && groups.contains (p.teamGroupPrefix ++ t)

/-- A human allowlist is set and the identity is in none of it. -/
def unenrolled (p : ClassPolicy) (id : Actor) : Bool :=
  !p.humanGroups.isEmpty && !intersects id.groups p.humanGroups

def classify (p : ClassPolicy) (id : Actor) : ActorClass :=
  if id.user = p.controllerUser then .controller
  else if intersects id.groups p.breakGlassGroups then .breakGlass
  else if isServiceAccount id.user || intersects id.groups p.agentGroups || p.unenrolled id then
    .agent
  else .human

/-- `IsHuman`: whether the identity may approve. -/
def isHuman (p : ClassPolicy) (id : Actor) : Bool :=
  id.user ≠ p.controllerUser && !isServiceAccount id.user &&
    !intersects id.groups p.agentGroups && !p.unenrolled id

end ClassPolicy

/-! ## Approvals -/

/-- What an `Approval` says.  `login` is the login time `ParseAuthTime` reads
from `authTime`, `none` when it reads none. -/
structure ApprovalSpec where
  operationUID : String
  intentDigest : String
  decision : Decision
  note : String := ""
  by' : String
  authTime : String := ""
  login : Option Nat := none
  groups : List String := []
  deriving DecidableEq, Repr

/-- An `Approval` object. -/
structure Approval where
  name : String
  created : Nat
  spec : ApprovalSpec
  deriving DecidableEq, Repr

/-- The decision and the owners of the question an operation asks. -/
def OperationStatus.askedDecision (st : OperationStatus) : Option Decision :=
  st.plan.bind (·.floor.decision)

@[inherit_doc OperationStatus.askedDecision]
def OperationStatus.askedOwners (st : OperationStatus) : List String :=
  match st.plan with
  | some plan => plan.floor.owners
  | none => []

/-- `approvalAnswers`: why an approval does not answer the question asked
now, by code and message. -/
def approvalAnswers (spec : OperationSpec) (st : OperationStatus) (uid : String)
    (a : ApprovalSpec) : Option (String × String) :=
  if st.phase ≠ .held then
    some ("NotHeld", "the operation is not waiting for a decision")
  else if a.operationUID ≠ uid || a.intentDigest ≠ spec.intentDigest then
    some ("OtherIntent", "it answers another operation or an older intent")
  else if st.applied && a.decision = .approve then
    some ("AlreadyShipped",
      "the version already shipped, so only accept-unknown or reject answers the question now")
  else if !st.applied && a.decision = .acceptUnknown && st.askedDecision = some .approve then
    some ("NeedsApproval", "this change needs an approval, not an accepted unknown")
  else none

/-- The login is not within `freshness` of the decision; zero is off. -/
def staleLogin (a : ApprovalSpec) (created freshness : Nat) : Bool :=
  freshness > 0 &&
    match a.login with
    | none => true
    | some login => (created : Int) - login < -60 || (created : Int) - login > freshness

/-- `approverMay`: why whoever gave the approval may not decide. -/
def approverMay (spec : OperationSpec) (st : OperationStatus) (a : ApprovalSpec) (created : Nat)
    (p : ClassPolicy) (freshness : Nat) : Option (String × String) :=
  if a.by' = spec.actor.user || spec.onBehalfOf = some a.by' then
    some ("OwnChange", a.by' ++ " asked for this change, so someone else must decide it")
  else if !p.isHuman { user := a.by', groups := a.groups } then
    some ("AgentsMayNotApprove", a.by' ++ " is not a person, and only people decide")
  else if st.askedOwners.isEmpty && p.requireOwnerTeam then
    some ("NoOwnerTeam",
      "no team is declared for this service, so nobody may answer and only break-glass can override; declare service.owner")
  else if !p.inTeams a.groups st.askedOwners then
    some ("NotYourTeam",
      a.by' ++ " is not in a team this question is asked of (" ++ joinWith ", " st.askedOwners ++ ")")
  else if st.times.held.any fun held => created < held then
    some ("AskedAgain", "it was given before the question was last asked")
  else if staleLogin a created freshness then
    some ("FreshLoginRequired",
      a.by' ++ "'s login was not within " ++ toString freshness ++
        "s of the decision; sign in again")
  else none

/-- `ApprovalRefusal`: why the promoter does not count an approval, by code and
message. -/
def approvalRefusal (spec : OperationSpec) (st : OperationStatus) (uid : String)
    (a : ApprovalSpec) (created : Nat) (p : ClassPolicy) (freshness : Nat) :
    Option (String × String) :=
  approvalAnswers spec st uid a <|> approverMay spec st a created p freshness

/-- What an approval that counts for a question was checked to be: given for this
operation and intent, by a person who did not ask for the change and is in a
team the question goes to, since the question was last asked. -/
structure ApprovalCounts (spec : OperationSpec) (st : OperationStatus) (uid : String)
    (a : ApprovalSpec) (created : Nat) (p : ClassPolicy) : Prop where
  bound : a.operationUID = uid ∧ a.intentDigest = spec.intentDigest
  notOwn : a.by' ≠ spec.actor.user ∧ spec.onBehalfOf ≠ some a.by'
  human : p.isHuman { user := a.by', groups := a.groups } = true
  owned : st.askedOwners = [] → p.requireOwnerTeam = false
  inTeams : p.inTeams a.groups st.askedOwners = true
  asked : ∀ held, st.times.held = some held → held ≤ created
  decision : st.applied = false → st.askedDecision = some .approve → a.decision ≠ .acceptUnknown

theorem approvalAnswers_eq_none {uid : String}
    {a : ApprovalSpec} (h : approvalAnswers spec st uid a = none) :
    (a.operationUID = uid ∧ a.intentDigest = spec.intentDigest) ∧
      (st.applied = false → st.askedDecision = some .approve → a.decision ≠ .acceptUnknown) := by
  rw [approvalAnswers] at h
  split at h
  · cases h
  · split at h
    · cases h
    · rename_i hother
      split at h
      · cases h
      · split at h
        · cases h
        · rename_i hneeds
          refine ⟨by simpa using hother, fun happlied hasked hdecision => hneeds ?_⟩
          simp [happlied, hasked, hdecision]

theorem approverMay_eq_none {a : ApprovalSpec}
    {created : Nat} {p : ClassPolicy} {freshness : Nat}
    (h : approverMay spec st a created p freshness = none) :
    (a.by' ≠ spec.actor.user ∧ spec.onBehalfOf ≠ some a.by') ∧
      p.isHuman { user := a.by', groups := a.groups } = true ∧
      (st.askedOwners = [] → p.requireOwnerTeam = false) ∧
      p.inTeams a.groups st.askedOwners = true ∧
      ∀ held, st.times.held = some held → held ≤ created := by
  rw [approverMay] at h
  split at h
  · cases h
  · rename_i hown
    split at h
    · cases h
    · rename_i hhuman
      split at h
      · cases h
      · rename_i howner
        split at h
        · cases h
        · rename_i hteams
          split at h
          · cases h
          · rename_i hasked
            refine ⟨by simpa using hown, by simpa using hhuman, fun hnone => ?_,
              by simpa using hteams, fun held hheld => ?_⟩
            · simpa [hnone] using howner
            · simpa [hheld] using hasked

theorem approvalCounts_of_not_refused {uid : String}
    {a : ApprovalSpec} {created : Nat} {p : ClassPolicy} {freshness : Nat}
    (h : approvalRefusal spec st uid a created p freshness = none) :
    ApprovalCounts spec st uid a created p := by
  obtain ⟨hanswers, hmay⟩ := (Option.orElse_eq_none _ _).mp h
  obtain ⟨hbound, hdecision⟩ := approvalAnswers_eq_none hanswers
  obtain ⟨hown, hhuman, howned, hteams, hasked⟩ := approverMay_eq_none hmay
  exact ⟨hbound, hown, hhuman, howned, hteams, hasked, hdecision⟩

/-- `AnsweredTeams`: the approved teams and every owner an approver in
`groups` belongs to. -/
def answeredTeams (p : ClassPolicy) (owners groups approved : List String) : List String :=
  owners.foldl
    (fun out t => if p.inTeams groups [t] && !out.contains t then out ++ [t] else out) approved

def teamsWaiting (owners approved : List String) : List String :=
  owners.filter fun t => !approved.contains t

/-- A team that has answered had answered before, or is asked and one of the
approver's. -/
theorem mem_answeredTeams {p : ClassPolicy} {owners groups approved : List String} {t : String}
    (h : t ∈ answeredTeams p owners groups approved) :
    t ∈ approved ∨ t ∈ owners ∧ p.inTeams groups [t] = true := by
  induction owners generalizing approved with
  | nil => exact .inl h
  | cons owner rest ih =>
    rw [answeredTeams, List.foldl_cons] at h
    rcases ih h with hbefore | ⟨hrest, hin⟩
    · split at hbefore
      · rename_i hnew
        rw [Bool.and_eq_true] at hnew
        rw [List.mem_append, List.mem_singleton] at hbefore
        rcases hbefore with hbefore | rfl
        · exact .inl hbefore
        · exact .inr ⟨List.mem_cons_self, hnew.1⟩
      · exact .inl hbefore
    · exact .inr ⟨List.mem_cons_of_mem owner hrest, hin⟩

theorem mem_of_teamsWaiting_eq_nil {owners approved : List String}
    (h : teamsWaiting owners approved = []) : ∀ t ∈ owners, t ∈ approved := by
  simpa [teamsWaiting] using h

/-! ## Reading plans and verdicts -/

def worst (vs : List Verdict) : Result :=
  if vs.any (·.result = .fail) then .fail
  else if vs.any (·.result = .unknown) then .unknown
  else .pass

/-- `ClearedBreaking`: a promote of a change that is not `NON_BREAKING` whose
impact verdict passed. -/
def clearedBreaking (plan : Option Plan) : Bool :=
  match plan with
  | none => false
  | some p =>
    p.type = .promote &&
      match impactVerdict p.verdicts with
      | none => false
      | some v => v.result = .pass && planClassification p ≠ Classification.nonBreaking.text

def subset (a b : List String) : Bool := a.all b.contains

/-- The impact gate of `cur` is unknown for a reason `prev` did not show. -/
def newImpactDoubt (prev cur : Plan) : Bool :=
  cur.verdicts.any fun v =>
    v.gate = gateImpact && v.result = .unknown &&
      !prev.verdicts.any fun p =>
        p.gate = v.gate && p.result = v.result && p.message = v.message

/-- `StillPasses`: whether an approval given on `prev` still covers `cur`. -/
def stillPasses (prev cur : Plan) : Bool :=
  if prev.verdicts.any fun v =>
      v.result = .pass && !cur.verdicts.any fun c => c.gate = v.gate && c.result = .pass then false
  else if !cur.floor.human then true
  else if !subset cur.floor.owners prev.floor.owners ||
      !subset cur.floor.consumers prev.floor.consumers then false
  else if newImpactDoubt prev cur then false
  else cur.floor.decision = prev.floor.decision || prev.floor.decision = some .approve

/-! ## Deadlines -/

def defaultApprovalDeadline : Nat := 24 * 3600
def defaultExecutionDeadline : Nat := 15 * 60
def defaultVerifyWindow : Nat := 5 * 60

def StageSpec.approvalDeadlineOr (spec : StageSpec) : Nat :=
  spec.approvalDeadline.getD defaultApprovalDeadline

def StageSpec.executionDeadlineOr (spec : StageSpec) : Nat :=
  spec.executionDeadline.getD defaultExecutionDeadline

def StageSpec.verifyWindowOr (spec : StageSpec) : Nat :=
  spec.verifyWindow.getD defaultVerifyWindow

end Pacto.Delivery
