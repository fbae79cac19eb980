import Pacto.Delivery.Ladder

/-!
# Planning a change

`pkg/delivery/plan.go`: `planFor` predicts what the promoter will do with an
operation.  It refuses what can be refused outright, runs the pre-gates of the
operation's type, derives the approval floor and the one question a person
would be asked, and turns all of it into a prediction.

The source threads one mutable plan through the gates; here each gate maps a
plan to a plan.
-/

namespace Pacto.Delivery

/-! ## Text helpers -/

/-- Whether `sub` occurs in a text. -/
def occursIn (sub : List Char) : List Char → Bool
  | [] => sub.isEmpty
  | c :: cs => sub.isPrefixOf (c :: cs) || occursIn sub cs

/-- A text with the first occurrence of `old` replaced by `new`. -/
def replaceIn (old new : List Char) : List Char → List Char
  | [] => if old.isEmpty then new else []
  | c :: cs =>
    if old.isPrefixOf (c :: cs) then new ++ (c :: cs).drop old.length
    else c :: replaceIn old new cs

def containsText (s sub : String) : Bool := occursIn sub.toList s.toList

def replaceFirst (s old new : String) : String :=
  String.ofList (replaceIn old.toList new.toList s.toList)

/-- `strconv.Quote`, for names that need no escaping. -/
def quote (s : String) : String := "\"" ++ s ++ "\""

/-! ## Refusals -/

/-- `AdmitAcknowledge`: why an acknowledge cannot be admitted, or empty. -/
def admitAcknowledge (spec : OperationSpec) (stage : StageSpec) : String :=
  if spec.type ≠ .acknowledge then ""
  else if stage.candidates.upstreamRecords = none then
    "NoUpstreamRecords: " ++ spec.stage ++
      " does not follow the records of a Stage in another cluster, so it has no stand-in to acknowledge"
  else if !isDigest spec.params.record then
    "InvalidRecord: record must be the sha256 id of the upstream stand-in, not " ++
      quote spec.params.record
  else if spec.reason.toList.all Char.isWhitespace then
    "ReasonRequired: say what you checked upstream, for the record"
  else ""

/-- `refusal`: why an operation is rejected before any gate runs, or empty. -/
def refusal (input : PlanInput) : String :=
  let spec := input.spec
  let cur := currentLevel input.stage input.status
  if !mayRaise spec.type input.cls spec.witnessed then
    "NotPermitted: a " ++ input.cls.text ++ " actor may not raise " ++ spec.type.text
  else if spec.facet = .pointer && spec.params.from ≠ input.status.pointer then
    "PointerMoved: from is " ++ quote spec.params.from ++ " but the Stage runs " ++
      quote input.status.pointer
  else if spec.facet = .level && Level.ofName spec.params.from ≠ cur then
    "LevelMoved: from is " ++ quote spec.params.from ++ " but the Stage is on " ++ quote cur.name
  else if spec.type = .promote && cur = .observe then
    "Observing: " ++ spec.stage ++ " observes, so GitOps owns the applyRef; propose " ++
      TypeID.autonomy.text ++ " to advise first"
  else if spec.type = .promote && input.status.failedDigests.contains spec.params.to then
    "FailedDigest: " ++ spec.params.to ++
      " is one of the last 50 versions that failed on this Stage, which are never promoted again"
  else admitAcknowledge spec input.stage

/-! ## Who is asked -/

def Plan.addVerdict (p : Plan) (v : Verdict) : Plan := { p with verdicts := p.verdicts ++ [v] }

/-- A plan held for a person, with the question they are asked. -/
def Plan.hold (p : Plan) (floor : Floor) (question : String) : Plan :=
  { p with floor := floor, question := question }

@[simp] theorem Plan.addVerdict_floor (p : Plan) (v : Verdict) :
    (p.addVerdict v).floor = p.floor := rfl

@[simp] theorem Plan.addVerdict_question (p : Plan) (v : Verdict) :
    (p.addVerdict v).question = p.question := rfl

@[simp] theorem Plan.addVerdict_verdicts (p : Plan) (v : Verdict) :
    (p.addVerdict v).verdicts = p.verdicts ++ [v] := rfl

@[simp] theorem Plan.hold_floor (p : Plan) (floor : Floor) (question : String) :
    (p.hold floor question).floor = floor := rfl

@[simp] theorem Plan.hold_question (p : Plan) (floor : Floor) (question : String) :
    (p.hold floor question).question = question := rfl

@[simp] theorem Plan.hold_verdicts (p : Plan) (floor : Floor) (question : String) :
    (p.hold floor question).verdicts = p.verdicts := rfl

/-- `serviceTeam`: the owner team the contract running on the Stage declares;
for a first version, the one it declares itself. -/
def serviceTeam (input : PlanInput) : List String :=
  let r := if input.from.digest = "" then input.to else input.from
  match r.bundle with
  | some b =>
    let team := b.contract.owner.displayString
    if team ≠ "" then [team] else []
  | none => []

def ownersOrAnyone (owners : List String) (requireOwnerTeam : Bool) : String :=
  if owners ≠ [] then joinWith ", " owners
  else if requireOwnerTeam then
    "nobody. No team is declared and only an owner team may answer, so only break-glass can override. Declare service.owner"
  else
    "any person, because no team is declared. Declare service.owner to limit who may answer"

/-- The owners a question goes to: the ones a gate named, or the service's
team. -/
def routedOwners (input : PlanInput) (p : Plan) : List String :=
  if p.floor.owners = [] then serviceTeam input else p.floor.owners

/-- `routeToServiceTeam` sends a question that names no consumer's owner to the
team of the Stage's own service. -/
def routeToServiceTeam (input : PlanInput) (p : Plan) : Plan :=
  let floor := { p.floor with owners := routedOwners input p }
  if p.floor.human && !containsText p.question "Asked of: " then
    p.hold floor
      (p.question ++ " Asked of: " ++ ownersOrAnyone floor.owners input.requireOwnerTeam)
  else p.hold floor p.question

def askServiceTeam (input : PlanInput) (p : Plan) : Plan :=
  if p.floor.owners = [] then p
  else
    let before := "Asked of: " ++ ownersOrAnyone p.floor.owners input.requireOwnerTeam
    let owners :=
      (serviceTeam input).foldl
        (fun owners t => if owners.contains t then owners else owners ++ [t]) p.floor.owners
    { p with
      floor := { p.floor with owners := owners }
      question := replaceFirst p.question before
        ("Asked of: " ++ ownersOrAnyone owners input.requireOwnerTeam) }

/-- `holdFor` asks a person to decide, adding why to a question already asked:
approve is never lowered to accept-unknown. -/
def holdFor (p : Plan) (d : Decision) (why question : String) : Plan :=
  if p.floor.human then
    { p with
      question := why ++ ". " ++ p.question
      floor := { p.floor with
        decision := if d = .approve then some .approve else p.floor.decision } }
  else
    { p with floor := { p.floor with human := true, decision := some d }, question := question }

/-! ## pacto.published -/

/-- The contract annotation a published artifact carries. -/
def contractAnnotation : String := "delivery.pacto.trianalab.io/contract"

def upstreamName (c : Candidates) : String :=
  match c.upstreamRecords, c.upstreamStage with
  | some r, _ => r.stream ++ " (records in " ++ r.repository ++ ")"
  | none, some s => s.ns ++ "/" ++ s.name
  | none, none => "/"

def publishedVerdict (result : Result) (citation : List (String × String)) (message : String) :
    Verdict :=
  { gate := gatePublished, phase := "pre", result := result, citation := citation
    message := message }

/-- `upstreamOffers` judges the published gate for a Stage that takes its
candidates from an upstream Stage. -/
def upstreamOffers (input : PlanInput) : Verdict :=
  let d := input.spec.params.to
  let c := input.stage.candidates
  let name := upstreamName c
  let citation :=
    ("upstream", name) ::
      match input.upstream, c.upstreamRecords with
      | some u, some _ =>
        [("upstreamHead", u.stream.head), ("upstreamSeq", toString u.stream.seq)]
      | _, _ => []
  match input.upstream with
  | none =>
    publishedVerdict .fail citation
      (if c.upstreamRecords ≠ none then
        "the records of the upstream Stage " ++ name ++ " cannot be read or verified (" ++
          input.upstreamErr ++ "), so it offers no candidate"
      else if input.upstreamErr ≠ "" then input.upstreamErr ++ ", so it offers no candidate"
      else
        "the upstream Stage " ++ name ++
          " does not exist or cannot be read, so it offers no candidate")
  | some u =>
    if u.verified.contains d && u.offered.contains d then
      publishedVerdict .pass citation
        (short d ++ " passed pacto.published and verified on the upstream Stage")
    else if u.failedDigests.contains d then
      publishedVerdict .fail citation
        (short d ++ " failed after release on the upstream Stage " ++ name ++
          ", so it is not a candidate here: ship a fixed version through " ++ name ++ " first")
    else
      publishedVerdict .fail citation
        (short d ++ " is not offered by the upstream Stage " ++ name ++
          ": it never passed pacto.published there or never verified, so it is not a candidate here. Promote it on " ++
          name ++ " first, and plan again here once it verifies there")

/-- `candidatePublished` judges the published gate for a Stage whose candidates
come from an OCIRepository Flux verifies. -/
def candidatePublished (input : PlanInput) (ref : String) : Verdict :=
  let d := input.spec.params.to
  let source := [("source", ref)]
  if !input.status.published.contains d then
    publishedVerdict .fail source
      ("Flux never verified a signature of " ++ short d ++ " on the candidate OCIRepository " ++
        ref ++ ": only versions pacto publish published and signed are promoted, and the OCIRepository must set spec.verify " ++
        "with a secretRef or matchOIDCIdentity naming the publisher")
  else if input.to.noContract then
    publishedVerdict .fail source
      (short d ++ " names no digest-pinned " ++ contractAnnotation ++
        " annotation, so pacto publish did not publish it")
  else if input.to.contractRef = "" then
    publishedVerdict .unknown source
      ("the artifact " ++ short d ++ " could not be read: " ++ input.to.err)
  else
    publishedVerdict .pass (source ++ [("contract", input.to.contractRef)])
      (short d ++ " is signed and names its contract")

/-- `publishedGate` admits only a version `pacto publish` published. -/
def publishedGate (input : PlanInput) : Verdict :=
  let c := input.stage.candidates
  if c.upstreamStage ≠ none || c.upstreamRecords ≠ none then upstreamOffers input
  else
    match c.ociRepositoryRef with
    | some ref => candidatePublished input ref
    | none =>
      publishedVerdict .fail []
        "this Stage names no candidate source, so nothing it could promote was verified as published by pacto publish: set spec.candidates on the Stage"

/-! ## pacto.diff -/

def diffVerdict (result : Result) (citation : List (String × String)) (message : String) :
    Verdict :=
  { gate := gateDiff, phase := "pre", result := result, citation := citation, message := message }

def suiteReasons (changes : List Change) : List String :=
  (changes.filter fun c => c.path = "checks" || hasPrefix "checks." c.path).map (·.reason)

def ownerPaths (changes : List Change) : List String :=
  (changes.filter fun c => hasPrefix "service.owner" c.path).map (·.path)

def diffCitation (old new : Bundle) (changes : List Change) : List (String × String) :=
  [("classification", (overallClassification changes).text)] ++
    (if suiteReasons changes ≠ [] then [("checks", joinWith "; " (suiteReasons changes))] else []) ++
    (if old.contract.owner.displayString ≠ new.contract.owner.displayString then
      [("owner", joinWith ", " (ownerPaths changes))] else [])

def diffGate (pkg : Packages) (input : PlanInput) : Verdict :=
  match input.to.bundle with
  | none =>
    diffVerdict .unknown []
      ("the contract of " ++ short input.to.digest ++ " could not be read: " ++ input.to.err)
  | some new =>
    let citation := [("to", input.to.contractRef)]
    if new.contract.serviceName ≠ input.stage.service then
      diffVerdict .fail citation
        ("the contract of " ++ short input.to.digest ++ " is service " ++
          quote new.contract.serviceName ++ ", but this Stage delivers " ++
          quote input.stage.service)
    else if input.from.digest = "" then
      diffVerdict .pass (citation ++ [("classification", "INITIAL")]) "first version on this Stage"
    else
      match input.from.bundle with
      | none =>
        diffVerdict .unknown citation
          ("the contract of the running version " ++ short input.from.digest ++
            " could not be read: " ++ input.from.err)
      | some old =>
        let changes := pkg.compare old new
        diffVerdict .pass
          (citation ++ [("from", input.from.contractRef)] ++ diffCitation old new changes)
          ((overallClassification changes).words ++ ": " ++
            countOf changes.length "contract change")

def foundDiff (p : Plan) : Option Verdict := p.verdicts.find? (·.gate = gateDiff)

/-! ## pacto.impact -/

/-- `unmetRequired`: the change leaves a consumer that requires the service
with a guarantee it needs unmet. -/
def AffectedConsumer.unmetRequired (c : AffectedConsumer) : Bool := c.required && c.unmet ≠ []

/-- `unknownConsumer`: Pacto cannot tell if the change breaks `c`. -/
def unknownConsumer (res : ImpactResult) (c : AffectedConsumer) : Bool :=
  c.confidenceUnknown ||
    (c.direct && c.compatibilityVerdict = .unknown && res.classification ≠ .nonBreaking)

/-- The consumers a change reaches, split by what it does to them. -/
structure SortedConsumers where
  incompatible : List AffectedConsumer := []
  unmet : List AffectedConsumer := []
  unknown : List AffectedConsumer := []
  deriving DecidableEq, Repr

/-- `sortConsumers` splits the consumers the change reaches. -/
def sortConsumers (res : ImpactResult) : SortedConsumers :=
  { incompatible := res.consumers.filter fun c => c.compatibilityVerdict = .incompatible
    unmet := res.consumers.filter fun c =>
      c.compatibilityVerdict ≠ .incompatible && c.unmetRequired
    unknown := res.consumers.filter fun c =>
      c.compatibilityVerdict ≠ .incompatible && !c.unmetRequired && unknownConsumer res c }

def consumerNames (cs : List AffectedConsumer) : List String := cs.map (·.service)

def consumerOwners (cs : List AffectedConsumer) : List String :=
  ((cs.map (·.owner)).filter (· ≠ "")).dedup.insertionSort (· ≤ ·)

def describeRanges (cs : List AffectedConsumer) : String :=
  joinWith ", " (cs.map fun c => c.service ++ " (accepts " ++ c.compatibility ++ ")")

def describeUnmet (cs : List AffectedConsumer) : String :=
  joinWith "; " (cs.flatMap (·.unmet))

def breaksQuestion (what : String) (incompatible unmet : List AffectedConsumer) : String :=
  joinWith " "
    ((if incompatible ≠ [] then
        [what ++ " is not accepted by " ++ describeRanges incompatible ++ "."] else []) ++
      (if unmet ≠ [] then
        [what ++ " does not meet what its consumers require: " ++ describeUnmet unmet ++ "."]
      else []))

def limitationCodes (codes : List String) : String :=
  if codes = [] then "a source is not available" else joinWith ", " codes.eraseDups

/-- `callersUnseen`: why the runtime callers of the service cannot be ruled
out. -/
def callersUnseen (snap : Snapshot) (service : String) : List String :=
  ((snap.targets.filter (·.serviceKey = service)).flatMap fun t =>
      (t.limitations.filter (·.1 = "OBSERVED_CALLERS_UNSEEN")).map (·.2)).dedup.insertionSort (· ≤ ·)

/-- `requirementsUnseen`: which direct consumers' requirements Pacto cannot
read. -/
def requirementsUnseen (pkg : Packages) (snap : Snapshot) (res : ImpactResult) : List String :=
  res.consumers.filterMap fun c =>
    match snap.services.lookup (pkg.serviceKey c.domain c.service) with
    | none => none
    | some revisions =>
      if !c.direct || c.unmet ≠ [] || revisions.contains "" then none else revisions.getLast?

/-- `unresolvedTo`: a declared dependency on the service that the graph could
not resolve. -/
def Relationship.unresolvedTo (r : Relationship) (service : String) : Bool :=
  r.dependency && r.declared && !r.resolved && !r.external && r.to = service

/-- `unresolvedConsumers` names the services that declare a dependency on
`service` the graph could not resolve to it. -/
def unresolvedConsumers (snap : Snapshot) (service : String) : List String :=
  ((snap.relationships.filter (·.unresolvedTo service)).map fun r =>
      r.fromService ++ " depends on " ++ service ++ " through " ++ r.requestedRef ++
        ", which does not resolve to this service in its domain").eraseDups

def callerNamespace (caller : String) : String :=
  let chars := caller.toList
  let chars := if hasPrefix "k8s:" caller then chars.drop 4 else chars
  String.ofList (chars.takeWhile (· ≠ '/'))

/-- What one consumer Pacto cannot judge leaves unseen. -/
def unknownConsumerText (input : PlanInput) (c : AffectedConsumer) : String :=
  if c.uncontracted then
    c.service ++ " calls " ++ input.stage.service ++
      " at runtime (ebpf) but has no contract: run `pacto init --cluster --namespace " ++
      callerNamespace c.service ++ " --out <dir>` for it, or declare its range"
  else c.service ++ " has no usable compatibility range for this change"

/-- `unseenConsumersOf` says which consumers the impact gate cannot see. -/
def unseenConsumersOf (pkg : Packages) (input : PlanInput) (snap : Snapshot) (res : ImpactResult)
    (unknown : List AffectedConsumer) : List String :=
  let service := input.stage.service
  let consumers :=
    res.consumers.map (·.service) ++
      (snap.relationships.filter (·.unresolvedTo service)).map (pkg.serviceName ·.fromService)
  (if !res.complete then
      ["the operational graph is partial (" ++ limitationCodes res.limitations ++ ")"] else []) ++
    unknown.map (unknownConsumerText input) ++
    (if res.classification ≠ .nonBreaking then
      requirementsUnseen pkg snap res ++
        callersUnseen snap (pkg.serviceKey (pkg.ociDomain input.to.contractRef) service)
    else []) ++
    unresolvedConsumers snap service ++
    (input.misplaced.filter fun m => m.service = "" || consumers.contains m.service).map (·.note)

/-- `bumpRefusal`: why the version cannot be trusted to speak for its
change. -/
def bumpRefusal (pkg : Packages) (res : ImpactResult) : List String :=
  if res.classification = .nonBreaking then []
  else
    match pkg.bumpError res.classification res.oldVersion res.newVersion with
    | none => []
    | some (need, err) =>
      [res.newVersion ++ " is " ++ res.classification.text ++ " but not a " ++ need ++
        " bump over " ++ res.oldVersion ++ ", so consumer ranges cannot judge it (" ++ err ++ ")"]

/-- `versionDoubts`: why the candidate cannot be judged by consumer ranges. -/
def versionDoubts (pkg : Packages) (input : PlanInput) (res : ImpactResult) : List String :=
  if input.from.digest = "" then []
  else
    let a := pkg.ociDomain input.from.contractRef
    let b := pkg.ociDomain input.to.contractRef
    bumpRefusal pkg res ++
      if a ≠ b then
        ["the contract moved from " ++ quote a ++ " to " ++ quote b ++
          ", so consumers that depend on it in " ++ quote a ++ " are not counted"]
      else []

def citeCallers (pkg : Packages) (input : PlanInput) (snap : Snapshot) (res : ImpactResult) :
    List (String × String) :=
  let uncontracted := (res.consumers.filter (·.uncontracted)).length
  let unseen :=
    (callersUnseen snap
      (pkg.serviceKey (pkg.ociDomain input.to.contractRef) input.stage.service)).length
  (if 0 < uncontracted then [("uncontracted", toString uncontracted)] else []) ++
    (if 0 < unseen then [("callersUnseen", toString unseen)] else [])

/-- `orderQuestion` adds to the question how moving the blocked consumers first
would clear the change. -/
def orderQuestion (o : Order) : String :=
  let can := (o.moveFirst.filter (·.candidate.isSome)).map (·.service)
  let cannot := (o.moveFirst.filter (·.candidate.isNone)).map (·.service)
  let first := joinWith ", " can
  if can = [] then ""
  else if cannot ≠ [] then
    ". " ++ first ++ " can move first, but no version of " ++ joinWith ", " cannot ++
      " can yet, so that alone does not clear it (see the plan's order)"
  else if o.unknown ≠ [] then
    ". " ++ first ++
      " can move first, but Pacto cannot see every consumer, so that alone may not clear it (see the plan's order)"
  else
    ". Or ship " ++ first ++
      " first: a version that accepts it already verified upstream (see the plan's order)"

/-- What keeps Pacto from clearing a change no consumer is known to reject. -/
def unseenOf (pkg : Packages) (input : PlanInput) (snap : Snapshot) (res : ImpactResult) :
    List String :=
  unseenConsumersOf pkg input snap res (sortConsumers res).unknown ++
    (if res.consumers = [] && res.classification ≠ .nonBreaking &&
        !input.stage.declaredConsumersOnly then
      ["no Pacto depends on " ++ input.stage.service ++
        ", but a service with no contract can still call it"]
    else []) ++
    versionDoubts pkg input res ++
    (if input.from.digest ≠ "" && !input.status.verified.contains input.from.digest then
      ["the version a rollback would return to (" ++ short input.from.digest ++
        ") was never verified here"]
    else [])

/-- The analysis the impact gate runs: a first version is compared with
itself. -/
def impactAnalysis (pkg : Packages) (input : PlanInput) (new : Bundle) : ImpactResult :=
  pkg.analyze (input.from.bundle.getD new) new input.snapshot (pkg.ociDomain input.to.contractRef)

/-- The teams a broken consumer's question goes to: the consumers' owners, or
else the service's team. -/
def brokenOwners (input : PlanInput) (broken : List AffectedConsumer) : List String :=
  if consumerOwners broken = [] then serviceTeam input else consumerOwners broken

/-- The floor of a change that breaks consumers. -/
def brokenFloor (input : PlanInput) (broken : List AffectedConsumer) : Floor :=
  { human := true
    decision := some .approve
    owners := brokenOwners input broken
    consumers := consumerNames broken }

/-- What the impact gate asks about a change that breaks consumers: it says
what must move first when a range does not accept the version. -/
def holdForConsumers (pkg : Packages) (input : PlanInput) (snap : Snapshot) (res : ImpactResult)
    (p : Plan) : Plan :=
  let sorted := sortConsumers res
  let floor := brokenFloor input (sorted.incompatible ++ sorted.unmet)
  let question :=
    breaksQuestion (input.stage.service ++ " " ++ res.newVersion) sorted.incompatible
        sorted.unmet ++
      " Approve shipping it anyway? Asked of: " ++
      ownersOrAnyone floor.owners input.requireOwnerTeam
  if sorted.incompatible ≠ [] then
    let order :=
      pkg.orderFor input res sorted.incompatible
        (unseenConsumersOf pkg input snap res sorted.unknown)
    { p.hold floor (question ++ orderQuestion order) with order := some order }
  else p.hold floor question

def impactGateVerdict (pkg : Packages) (input : PlanInput) (snap : Snapshot) (res : ImpactResult)
    (result : Result) (message : String) : Verdict :=
  { gate := gateImpact, phase := "pre", result := result, message := message
    citation :=
      [("impact", pkg.impactDigest res), ("classification", res.classification.text),
        ("completeness", res.completeness), ("snapshot", res.snapshotID)] ++
        citeCallers pkg input snap res }

/-- The change breaks a consumer: its range does not accept the version, or the
version leaves it with a required guarantee unmet. -/
def ImpactResult.breaksConsumer (res : ImpactResult) : Bool :=
  (sortConsumers res).incompatible ≠ [] || (sortConsumers res).unmet ≠ []

/-- `impactGate` projects the change onto the graph: a consumer it breaks asks
that consumer's owners, anything Pacto cannot see asks a person to accept the
unknown. -/
def impactGate (pkg : Packages) (input : PlanInput) (new : Bundle) (p : Plan) : Plan :=
  let res := impactAnalysis pkg input new
  let snap := input.snapshot.getD {}
  let p := { p with impactDigest := pkg.impactDigest res }
  let sorted := sortConsumers res
  let unseen := unseenOf pkg input snap res
  let verdict := impactGateVerdict pkg input snap res
  if res.breaksConsumer then
    (holdForConsumers pkg input snap res p).addVerdict
      (verdict .pass
        ("breaks " ++ joinWith ", " (consumerNames (sorted.incompatible ++ sorted.unmet))))
  else if unseen ≠ [] then
    let message := joinWith "; " unseen
    (p.hold { human := true, decision := some .acceptUnknown }
      ("Pacto cannot see enough to clear " ++ input.stage.service ++ " " ++ res.newVersion ++ ": " ++
        message ++ ". Accept the unknown?")).addVerdict (verdict .unknown message)
  else
    p.addVerdict (verdict .pass (countOf res.consumers.length "consumer" ++ ", none incompatible"))

/-! ## pacto.suites, pacto.environment and the owner -/

/-- A suite a version ships. -/
structure Suite where
  name : String
  path : String
  digest : String
  deriving DecidableEq, Repr

def pickSuite (checks : List Check) (name ref : String) : Except String Check :=
  if name = "" then
    match checks with
    | [c] => .ok c
    | [] => .error ("the contract " ++ ref ++ " ships no checks, so there is no suite to run")
    | _ =>
      .error ("the contract " ++ ref ++
        " ships more than one check: name the one to run in the Stage check's suite")
  else
    match checks.find? (·.name = name) with
    | some c => .ok c
    | none =>
      .error ("the Stage runs the suite " ++ name ++ ", but the contract " ++ ref ++
        " ships no check of that name")

def readSuite (pkg : Packages) (ref : String) (b : Bundle) (name : String) :
    Except String Suite :=
  match pickSuite b.contract.checks name ref with
  | .error why => .error why
  | .ok c =>
    match b.files with
    | none =>
      .error ("the bundle " ++ ref ++ " carries no files to read the suite " ++ c.file ++ " from")
    | some files =>
      match pkg.suiteDigest files c.file with
      | .error err => .error ("reading the suite " ++ c.file ++ " in " ++ ref ++ ": " ++ err)
      | .ok digest => .ok { name := c.name, path := c.file, digest := digest }

def pinMismatch (s : Suite) (pin : String) : String :=
  "the Stage pins the suite " ++ s.name ++ " to " ++ pin ++ ", but this version ships " ++ s.digest ++
    " in " ++ s.path ++ ": the version changed the suite that judges it, so a person decides"

/-- What the version is missing for one of the Stage's checks. -/
def missingSuite (pkg : Packages) (input : PlanInput) (new : Bundle) (c : GateCheck) :
    List String :=
  let checks := new.contract.checks
  let to' := short input.spec.params.to
  let absent :=
    if c.suite ≠ "" && !checks.any (·.name = c.suite) then
      ["the check " ++ c.name ++ " runs the suite " ++ c.suite ++ ", but the contract of " ++ to' ++
        " ships no check of that name"]
    else if c.suite = "" && input.evalProviders.contains c.provider then
      match pickSuite checks "" to' with
      | .error why => ["the check " ++ c.name ++ " names no suite and " ++ why]
      | .ok _ => []
    else []
  if c.suiteDigest ≠ "" && absent = [] then
    match readSuite pkg input.to.contractRef new c.suite with
    | .error why => ["the check " ++ c.name ++ " pins its suite, but " ++ why]
    | .ok s =>
      if s.digest ≠ c.suiteDigest then
        ["the check " ++ c.name ++ ": " ++ pinMismatch s c.suiteDigest]
      else []
  else absent

/-- The suites the diff saw the version change, for a person to review. -/
def changedSuites (p : Plan) : List String :=
  match foundDiff p with
  | some v =>
    if v.cite "checks" ≠ "" then
      [short p.to ++ " changes the checks it is verified by (" ++ v.cite "checks" ++
        "), so a person reviews the new checks before they judge it"]
    else []
  | none => []

/-- `suitesGate` holds a version that does not ship a suite one of the Stage's
checks runs, or that changes the suites it ships. -/
def suitesGate (pkg : Packages) (input : PlanInput) (new : Bundle) (p : Plan) : Plan :=
  let missing := changedSuites p ++ input.stage.checks.flatMap (missingSuite pkg input new)
  if missing = [] then p
  else
    let message := joinWith "; " missing
    let p := p.addVerdict
      { gate := gateSuites, phase := "pre", result := .unknown, message := message
        citation := [("contract", input.to.contractRef)] }
    if p.floor.human then { p with question := message ++ ". " ++ p.question }
    else
      p.hold { human := true, decision := some .acceptUnknown }
        ("Pacto cannot verify " ++ short p.to ++ ": " ++ message ++ ". Accept the unknown?")

def underEnvironment (i : Nat) (path : String) : Bool :=
  let at' := "environments[" ++ toString i ++ "]"
  hasPrefix at' path && (path.length = at'.length || hasPrefix (at' ++ ".") path)

/-- `environmentFindings`: the errors and the unverified warnings of a
contract's environment `i`. -/
def environmentFindings (pkg : Packages) (b : Bundle) (refs : List (String × String)) (i : Nat) :
    List String × List String :=
  let (errors, warnings) := pkg.environmentStage b.contract b.files refs
  ((errors.filter fun e => underEnvironment i e.path).map fun e =>
      (if 0 < e.line then e.file ++ ":" ++ toString e.line else e.file) ++ ": " ++ e.code ++ ": " ++
        e.message,
    (warnings.filter fun w =>
        underEnvironment i w.path && w.code = "ENVIRONMENT_VALUES_UNVERIFIED").map fun w =>
      w.code ++ ": " ++ w.message)

/-- What the environments a contract declares say about the Stage's: its
errors, or none of that name, and what could not be checked. -/
def environmentProblems (pkg : Packages) (input : PlanInput) (new : Bundle) :
    List String × List String :=
  let c := new.contract
  let env := input.stage.environment
  if c.environments = [] then ([], [])
  else
    match c.environments.findIdx? (·.name = env) with
    | some i => environmentFindings pkg new input.to.configRefs i
    | none =>
      (["version " ++ c.version ++ " declares no environment " ++ env ++ " for Stage " ++
          input.spec.stage ++ " (it declares " ++ joinWith ", " (c.environments.map (·.name)) ++
          ")"], [])

/-- `environmentGate` holds a version whose contract does not back the Stage's
environment. -/
def environmentGate (pkg : Packages) (input : PlanInput) (new : Bundle) (p : Plan) : Plan :=
  let env := input.stage.environment
  let citation := [("environment", env), ("contract", input.to.contractRef)]
  let verdict (result : Result) (citation : List (String × String)) (message : String) : Verdict :=
    { gate := gateEnvironment, phase := "pre", result := result, citation := citation
      message := message }
  if new.contract.environments = [] then
    p.addVerdict (verdict .pass (citation ++ [("applicable", "false")])
      ("not applicable: the contract of " ++ short p.to ++ " declares no environments"))
  else
    let (errs, unverified) := environmentProblems pkg input new
    if errs ≠ [] then
      let message := joinWith "; " errs
      (askServiceTeam input
        (holdFor p .approve message
          (message ++ ". Approve shipping " ++ short p.to ++ " anyway?"))).addVerdict
        (verdict .pass citation message)
    else if unverified ≠ [] then
      let message := joinWith "; " unverified
      (askServiceTeam input
        (holdFor p .acceptUnknown message
          ("Pacto cannot verify the values of environment " ++ env ++ " in " ++ short p.to ++ ": " ++
            message ++ ". Accept the unknown?"))).addVerdict
        (verdict .unknown citation message)
    else
      p.addVerdict (verdict .pass citation
        ("the values of environment " ++ env ++ " satisfy the configuration schemas"))

/-- `ownerGate` holds a promote that changes the service's owner, for the team
that owns it now. -/
def ownerGate (input : PlanInput) (p : Plan) : Plan :=
  match foundDiff p with
  | none => p
  | some v =>
    if v.cite "owner" = "" then p
    else
      let message :=
        short p.to ++ " changes who owns " ++ input.stage.service ++ " (" ++ v.cite "owner" ++
          "), and the owner answers every later question about it, so the team that owns it now approves"
      let question :=
        if p.floor.human then message ++ ". " ++ p.question
        else message ++ ". Approve " ++ short p.to ++ "?"
      askServiceTeam input
        (p.hold { p.floor with human := true, decision := some .approve } question)

/-! ## The gates of each type -/

def contractGates (pkg : Packages) (input : PlanInput) (new : Bundle) (p : Plan) : Plan :=
  ownerGate input
    (environmentGate pkg input new (suitesGate pkg input new (impactGate pkg input new p)))

/-- `promoteGates` runs the pre-gates of a promote and derives the approval
floor.  Nothing is projected onto the graph without both contracts. -/
def promoteGates (pkg : Packages) (input : PlanInput) (p : Plan) : Plan :=
  let pub := publishedGate input
  let p := p.addVerdict pub
  match pub.result with
  | .fail => p
  | .unknown =>
    p.hold { human := true, decision := some .acceptUnknown }
      ("Pacto cannot tell whether pacto publish published " ++ short p.to ++ ": " ++ pub.message ++
        ". Accept the unknown?")
  | .pass =>
    let diffV := diffGate pkg input
    let p := p.addVerdict diffV
    match diffV.result, input.to.bundle with
    | .pass, some new => contractGates pkg input new p
    | result, _ =>
      let p := p.addVerdict
        { gate := gateImpact, phase := "pre", result := .unknown
          message := "impact needs the contracts the diff could not read" }
      if result = .unknown then
        p.hold { human := true, decision := some .acceptUnknown }
          ("Pacto cannot see enough to judge " ++ short p.to ++ ": " ++ diffV.message ++
            ". Accept the unknown?")
      else p

def planClassification (p : Plan) : String :=
  ((impactVerdict p.verdicts).map (·.cite "classification")).getD ""

/-- A promote the Stage's policy holds whatever the contracts say. -/
def approvalPolicy (input : PlanInput) (p : Plan) : Plan :=
  if input.stage.approvalAlways && !p.floor.human then
    p.hold { human := true, decision := some .approve }
      ("This Stage asks a person to approve every promote. Approve " ++ short p.to ++ "?")
  else p

def levelPromote (input : PlanInput) (p : Plan) : Plan :=
  if input.cls = .human || p.floor.human then p
  else
    match currentLevel input.stage input.status with
    | .advise =>
      p.hold { human := true, decision := some .approve }
        ("This Stage advises: a person approves every promote a person did not raise. Approve " ++
          short p.to ++ "?")
    | .autoNonBreaking =>
      if planClassification p ≠ Classification.nonBreaking.text then
        p.hold { human := true, decision := some .approve }
          ("This Stage auto-promotes only non-breaking changes, and " ++ short p.to ++ " is " ++
            orElse (planClassification p) "not classified" ++ ". Approve it?")
      else p
    | _ => p

/-- `rollbackImpact` holds a rollback a person or agent raised that a consumer
does not accept, for that consumer's team. -/
def rollbackImpact (pkg : Packages) (input : PlanInput) (p : Plan) : Plan :=
  match input.snapshot, input.from.bundle, input.to.bundle with
  | some snap, some old, some new =>
    if input.cls = .controller then p
    else
      let res := pkg.analyze old new (some snap) (pkg.ociDomain input.to.contractRef)
      let sorted := sortConsumers res
      if !res.breaksConsumer then p
      else
        let broken := sorted.incompatible ++ sorted.unmet
        let floor := brokenFloor input broken
        (p.addVerdict
            { gate := gateImpact, phase := "pre", result := .pass
              message := "rolling back breaks " ++ joinWith ", " (consumerNames broken)
              citation :=
                [("classification", res.classification.text),
                  ("completeness", res.completeness)] }).hold floor
          (breaksQuestion ("Rolling " ++ input.stage.service ++ " back to " ++ res.newVersion)
              sorted.incompatible sorted.unmet ++
            " Approve the rollback anyway? Asked of: " ++
            ownersOrAnyone floor.owners input.requireOwnerTeam)
  | _, _, _ => p

/-! ## pacto.autonomy -/

def lowerRefusal (cls : ActorClass) (old new : Level) : String :=
  if cls = .agent && new = .observe then
    "an agent may not lower a Stage to observe: like a freeze, it stops a Stage moving"
  else if cls = .controller && (!old.automatic || old.rank - new.rank ≠ 1) then
    "the promoter only steps a Stage down one level from an automatic level"
  else ""

/-- `raiseRefusal`: why a raise is refused outright, or empty when it goes to a
person. -/
def raiseRefusal (input : PlanInput) (old new : Level) : String :=
  let st := input.status
  if input.cls = .controller then "only a person can raise a level; the promoter proposes raises"
  else if old.rank + 1 < new.rank then
    "one level at a time: propose " ++ (levelAt (old.rank + 1)).name ++ " first"
  else if old = .observe && !conditionIs st "Ready" [reasonObservingGuarded] then
    "unlabelled-apply-ref: label the applyRef " ++ applyRefLabel ++
      " and remove the pointer field from the manifest in git, so admission protects the pointer before Pacto owns it"
  else if old = .observe && !(st.observedRevision.any fun o => isDigest o.digest) then
    "no-observed-digest: GitOps' source reports no digest yet, so Pacto does not know what runs"
  else if new.automatic && !conditionIs st conditionRecordStoreReady then
    "no-record-store: the recorder is not writing this Stage's records, and every grant of autonomy must be a signed record"
  else ""

/-- `earned`: a proposal recomputed from the Stage still proposes `new`, the
level right above the current one. -/
def earned (input : PlanInput) (new : Level) : Bool :=
  let cur := currentLevel input.stage input.status
  if cur.rank < 0 || levelOrder.length ≤ cur.rank + 1 || levelAt (cur.rank + 1) ≠ new then false
  else
    (proposeLevel input.stage input.status none).blockers.all fun b =>
      [blockerPartialGraph, blockerUndeclaredRange, blockerMissingContract].contains b.kind

def blockerText (proposal : Option Proposal) : String :=
  match proposal with
  | none => ""
  | some prop =>
    if prop.blockers = [] then ""
    else
      " (" ++ joinWith "; " (prop.blockers.map fun b => b.kind ++ ": " ++ b.message) ++ ")"

def autonomyVerdict (input : PlanInput) (result : Result) (message : String) : Verdict :=
  { gate := gateAutonomy, phase := "pre", result := result, message := message
    citation :=
      [("from", (Level.ofName input.spec.params.from).name),
        ("to", (Level.ofName input.spec.params.to).name)] }

def proposedRaise (input : PlanInput) (new : Level) : Option Proposal :=
  match input.status.proposal with
  | some prop => if prop.level = new && earned input new then some prop else none
  | none => none

def raiseGate (input : PlanInput) (old new : Level) (p : Plan) : Plan :=
  let stage := input.spec.stage
  let floor : Floor :=
    { human := true, decision := some .approve, owners := serviceTeam input }
  let unknown (message : String) : Plan :=
    (p.hold { floor with decision := some .acceptUnknown }
      (message ++ ". Accept the unknown and raise it anyway?")).addVerdict
      (autonomyVerdict input .unknown message)
  match input.from.bundle with
  | none =>
    unknown ("the contract running on " ++ stage ++ " (" ++ short input.from.digest ++
      ") cannot be read, so Pacto cannot tell whose team decides: " ++
      orElse input.from.err "nothing is known to run")
  | some _ =>
    match proposedRaise input new with
    | some prop =>
      (p.hold floor
        ("Raise " ++ stage ++ " from " ++ old.name ++ " to " ++ new.name ++ "?")).addVerdict
        (autonomyVerdict input .pass
          ("Pacto proposes " ++ prop.level.name ++ ": " ++ joinWith ", " prop.evidence))
    | none =>
      unknown ("Pacto has not proposed " ++ new.name ++ " for " ++ stage ++
        blockerText input.status.proposal)

/-- `autonomyGate` judges a change of level: one level at a time, lowering
freely, raising only by a person's approval. -/
def autonomyGate (input : PlanInput) (p : Plan) : Plan :=
  let old := Level.ofName input.spec.params.from
  let new := Level.ofName input.spec.params.to
  let stage := input.spec.stage
  if new.rank < 0 then
    p.addVerdict (autonomyVerdict input .fail
      (quote new.name ++ " is not a level: use observe, advise, auto-nonbreaking or autonomous"))
  else if new = old then
    p.addVerdict (autonomyVerdict input .fail (stage ++ " is already on " ++ new.name))
  else if new.rank < old.rank then
    if lowerRefusal input.cls old new = "" then
      p.addVerdict (autonomyVerdict input .pass
        ("lowering " ++ stage ++ " from " ++ old.name ++ " to " ++ new.name ++
          " needs no approval"))
    else p.addVerdict (autonomyVerdict input .fail (lowerRefusal input.cls old new))
  else if raiseRefusal input old new ≠ "" then
    p.addVerdict (autonomyVerdict input .fail (raiseRefusal input old new))
  else raiseGate input old new p

/-! ## The plan -/

/-- `holdForRecords` asks a person to approve a promote or rollback an agent or
the promoter raised while a Stage that requires records cannot have them
written. -/
def holdForRecords (input : PlanInput) (p : Plan) : Plan :=
  let why := recordsUnavailable input.stage input.status
  if why = "" || input.cls = .human || input.cls = .breakGlass || p.floor.human ||
      (input.spec.type ≠ .promote && input.spec.type ≠ .rollback) then p
  else
    p.hold { p.floor with human := true, decision := some .approve }
      ("This Stage requires records, and " ++ why ++ ". Approve the " ++ input.spec.type.text ++
        " to " ++ short p.to ++ " without a record yet?")

/-- Some gate failed. -/
def Plan.anyFail (p : Plan) : Bool := p.verdicts.any (·.result = .fail)

/-- `predict` turns verdicts, floor and Stage state into the expected outcome.
A rejected plan asks nobody anything. -/
def predict (input : PlanInput) (p : Plan) : Plan :=
  if p.anyFail then { p with predicted := .rejected, floor := {}, question := "" }
  else if p.floor.human then { p with predicted := .held }
  else if input.status.frozen && input.spec.type = .promote then
    { p with
      predicted := .waits
      conflicts := p.conflicts ++ ["StageFrozen: " ++ input.status.frozenReason] }
  else { p with predicted := .proceeds }

/-- The gates and holds of the operation's type. -/
def typeGates (pkg : Packages) (input : PlanInput) (p : Plan) : Plan :=
  match input.spec.type with
  | .promote =>
    routeToServiceTeam input
      (levelPromote input (approvalPolicy input (promoteGates pkg input p)))
  | .autonomy => routeToServiceTeam input (autonomyGate input p)
  | .rollback => routeToServiceTeam input (rollbackImpact pkg input p)
  | _ => p

/-- The plan before anything is judged. -/
def initialPlan (pkg : Packages) (input : PlanInput) : Plan :=
  { intentDigest := pkg.intentDigest input.spec input.stage
    type := input.spec.type
    «from» := input.spec.params.from
    «to» := input.spec.params.to
    toVersion := (input.to.bundle.map (·.contract.version)).getD ""
    predicted := .rejected }

/-- `PlanFor` predicts what the promoter will do with an operation. -/
def planFor (pkg : Packages) (input : PlanInput) : Plan :=
  let p := initialPlan pkg input
  if refusal input ≠ "" then { p with conflicts := [refusal input] }
  else predict input (holdForRecords input (typeGates pkg input p))

end Pacto.Delivery
