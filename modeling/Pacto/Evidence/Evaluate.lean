import Mathlib.Data.String.Basic
import Pacto.Evidence.Observation

/-!
# Contract against evidence

`validation.Evaluate` goes through what a contract declares, one dimension after
the other.  Each declared assertion looks up its observation by kind and name.
An assertion that is required and not observed is uncertain; one that is observed
is a violation when the payload contradicts it.  Facets of an assertion are judged
on the payload of the same observation and count for nothing when it is missing.

`DeriveStatus` ranks what was found: a violation first, then uncertainty, then a
warning.
-/

namespace Pacto.Evidence

open Delivery (quote)

/-! ## Contracts -/

inductive InterfaceType where
  | openapi
  | asyncapi
  | grpc
  | mcp
  | other (text : String)
  deriving DecidableEq, Repr

def InterfaceType.text : InterfaceType → String
  | .openapi => "openapi"
  | .asyncapi => "asyncapi"
  | .grpc => "grpc"
  | .mcp => "mcp"
  | .other text => text

/-- The visibility of an interface; the empty text when none is declared. -/
inductive Visibility where
  | «internal»
  | «public»
  | other (text : String)
  deriving DecidableEq, Repr

def Visibility.text : Visibility → String
  | .internal => "internal"
  | .public => "public"
  | .other text => text

structure Interface where
  name : String
  type : InterfaceType
  visibility : Visibility := .other ""
  deriving DecidableEq, Repr

inductive CapabilityType where
  | health
  | metrics
  | extension
  | other (text : String)
  deriving DecidableEq, Repr

def CapabilityType.text : CapabilityType → String
  | .health => "health"
  | .metrics => "metrics"
  | .extension => "extension"
  | .other text => text

structure Capability where
  type : CapabilityType
  ref : String := ""
  deriving DecidableEq, Repr

def Capability.assertionKey (k : Capability) : String :=
  if k.type = .extension then k.ref else k.type.text

structure Dependency where
  name : String
  required : Bool := false
  compatibility : String := ""
  deriving DecidableEq, Repr

structure Configuration where
  name : String
  required : Bool := false
  deriving DecidableEq, Repr

/-- The persistence a contract declares for its state. -/
structure Persistence where
  scope : String := ""
  durability : String := ""
  deriving DecidableEq, Repr

def durabilityPersistent : String := "persistent"
def scopeLocal : String := "local"
def scopeShared : String := "shared"

structure Contract where
  serviceName : String
  interfaces : List Interface := []
  capabilities : List Capability := []
  dependencies : List Dependency := []
  configurations : List Configuration := []
  workload : String := ""
  state : Option Persistence := none
  deriving DecidableEq, Repr

/-! ## Findings -/

/-- The codes an evaluation emits. -/
inductive Code where
  | workloadMismatch
  | persistenceMismatch
  | dependencyUnreachable
  | capabilityAbsent
  | interfaceAbsent
  | configurationAbsent
  | configurationMismatch
  | interfaceProtocolMismatch
  | interfaceVisibilityMismatch
  | dependencyVersionMismatch
  | dependencyUndeclared
  | evidenceMissing
  | observationUnsupported
  | collectionFailed
  | evidenceStale
  | evidenceInsufficient
  deriving DecidableEq, Repr

inductive Severity where
  | error
  | warning
  | info
  | unknown
  deriving DecidableEq, Repr

inductive Category where
  | runtimeDrift
  | inconclusive
  deriving DecidableEq, Repr

def Code.registry : Code → Category × Severity
  | .dependencyUndeclared => (.runtimeDrift, .warning)
  | .evidenceMissing | .observationUnsupported | .collectionFailed | .evidenceStale
  | .evidenceInsufficient => (.inconclusive, .unknown)
  | _ => (.runtimeDrift, .error)

/-- `optionalSeverity`: the row of a code on an optional assertion. -/
def Code.optionalSeverity : Code → Option (Category × Severity)
  | .dependencyUnreachable | .configurationAbsent | .configurationMismatch
  | .dependencyVersionMismatch => some (.runtimeDrift, .warning)
  | _ => none

def Code.metaFor (c : Code) (required : Bool) : Category × Severity :=
  if required then c.registry else c.optionalSeverity.getD c.registry

def Code.severityFor (c : Code) (required : Bool) : Severity := (c.metaFor required).2

def Code.categoryFor (c : Code) (required : Bool) : Category := (c.metaFor required).1

structure EvidenceRef where
  source : String
  observedAt : String
  collector : String := ""
  detectedAt : String := ""
  deriving DecidableEq, Repr

structure Finding where
  code : Code
  severity : Severity
  category : Category
  subject : SubjectRef
  contractPath : String
  message : String
  evidenceRefs : List EvidenceRef
  deriving DecidableEq, Repr

structure Coverage where
  evaluated : ℕ := 0
  required : ℕ := 0
  unverified : List String := []
  deriving DecidableEq, Repr

/-! ## Facets -/

/-- The result of one facet check. -/
inductive Verdict where
  | satisfied
  | violated
  | unverified
  deriving DecidableEq, Repr

/-- `classify`: a fact that neither satisfies nor contradicts leaves the facet
unverified. -/
def classify {T : Type} [DecidableEq T] (fact : T) (ok bad : List T) : Verdict :=
  if fact ∈ ok then .satisfied else if fact ∈ bad then .violated else .unverified

def protocolVerdict (type : InterfaceType) (p : Protocol) : Verdict :=
  match type with
  | .openapi => classify p [.http1, .http2] [.other]
  | .grpc => classify p [.http2] [.http1, .other]
  | _ => .unverified

def visibilityVerdict (visibility : Visibility) (x : Exposure) : Verdict :=
  match visibility with
  | .internal => classify x [.internal] [.external]
  | .public => classify x [.external] []
  | .other _ => .unverified

/-- The declared visibility, internal by default. -/
def Interface.effectiveVisibility (i : Interface) : Visibility :=
  if i.visibility = .other "" then .internal else i.visibility

def scopeVerdict (scope : String) (shared : Option Bool) : Verdict :=
  match shared with
  | none => .unverified
  | some s =>
    if scope = scopeLocal then classify s [false] [true]
    else if scope = scopeShared then classify s [true] []
    else .unverified

section

variable (X : Codecs)

def versionVerdict (compatibility version : String) : Verdict :=
  match X.parseRange compatibility with
  | none => .unverified
  | some range =>
    match range version with
    | none => .unverified
    | some true => .satisfied
    | some false => .violated

/-! ## One assertion -/

def findObservation (obs : List Observation) (kind : Kind) (name : String) : Option Observation :=
  obs.find? fun o => o.kind = kind && o.subject.name = name

/-- What a contract asserts and how an observation can contradict it. -/
structure Assertion where
  kind : Kind
  subjectKind : String
  name : String
  contractPath : String
  required : Bool
  contradicted : Observation → Option (Code × String)

/-- A facet of an assertion, judged on its observation. -/
structure Facet where
  verdict : Verdict
  code : Code
  required : Bool
  contractPath : String
  message : String

structure Check extends Assertion where
  facets : Observation → List Facet := fun _ => []

def unknownCode : Option Observation → Code
  | none => .evidenceMissing
  | some o =>
    match o.outcome with
    | .unsupported => .observationUnsupported
    | .failed => .collectionFailed
    | .stale => .evidenceStale
    | _ => .evidenceInsufficient

def unknownMessage (code : Code) (subjectKind name : String) : String :=
  match code with
  | .evidenceMissing => "no observation was produced for required " ++ subjectKind ++ " " ++ quote name
  | .observationUnsupported => subjectKind ++ " " ++ quote name ++ " cannot be observed in this environment"
  | .collectionFailed => "collection failed for " ++ subjectKind ++ " " ++ quote name
  | .evidenceStale => "evidence for " ++ subjectKind ++ " " ++ quote name ++ " is stale"
  | _ =>
    "evidence for " ++ subjectKind ++ " " ++ quote name ++
      " is insufficient to satisfy or contradict the contract"

/-- `ref`: the set-level reference with the provenance of the observation. -/
def EvidenceSet.ref (ev : EvidenceSet) (o : Option Observation) : EvidenceRef :=
  let r : EvidenceRef := { source := ev.source, observedAt := X.formatTime ev.observedAt }
  match o with
  | none => r
  | some o =>
    { r with
      collector := o.provenance.collector
      detectedAt :=
        if o.provenance.detectedAt = none then "" else X.formatTime o.provenance.detectedAt }

def unknownFinding (ev : EvidenceSet) (a : Assertion) (o : Option Observation) : Finding :=
  let code := unknownCode o
  { code := code, severity := .unknown, category := .inconclusive
    subject := { kind := a.subjectKind, name := a.name }
    contractPath := a.contractPath
    message := unknownMessage code a.subjectKind a.name
    evidenceRefs := [ev.ref X o] }

def violationFinding (ev : EvidenceSet) (code : Code) (required : Bool)
    (subjectKind name contractPath : String) (o : Observation) (message : String) : Finding :=
  { code := code, severity := code.severityFor required, category := code.categoryFor required
    subject := { kind := subjectKind, name := name }
    contractPath := contractPath, message := message
    evidenceRefs := [ev.ref X (some o)] }

/-- What one pass of `Evaluate` has built so far. -/
structure Pass where
  findings : List Finding := []
  evaluated : ℕ := 0
  required : ℕ := 0
  unverified : List String := []

namespace Pass

def add (p : Pass) (f : Finding) : Pass := { p with findings := p.findings ++ [f] }

def leave (p : Pass) (path : String) : Pass := { p with unverified := p.unverified ++ [path] }

/-- `assert`: the observation of the assertion when it was collected, for the
facets to be judged on. -/
def assert (ev : EvidenceSet) (a : Assertion) (p : Pass) : Option Observation × Pass :=
  match findObservation ev.observations a.kind a.name with
  | none =>
    (none,
      if a.required then
        { p with required := p.required + 1 }.add (unknownFinding X ev a none)
      else p)
  | some o =>
    if o.outcome ≠ .observed then
      (none,
        if a.required then
          { p with required := p.required + 1 }.add (unknownFinding X ev a (some o))
        else p)
    else
      let p :=
        if a.required then
          { p with required := p.required + 1, evaluated := p.evaluated + 1 }
        else p
      match a.contradicted o with
      | none => (some o, p)
      | some (code, message) =>
        (some o,
          p.add (violationFinding X ev code a.required a.subjectKind a.name a.contractPath o
            message))

def facet (ev : EvidenceSet) (subjectKind name : String) (o : Observation) (p : Pass) (f : Facet) :
    Pass :=
  match f.verdict with
  | .satisfied => p
  | .violated =>
    p.add (violationFinding X ev f.code f.required subjectKind name f.contractPath o f.message)
  | .unverified => p.leave f.contractPath

def check (ev : EvidenceSet) (p : Pass) (k : Check) : Pass :=
  match p.assert X ev k.toAssertion with
  | (none, p) => p
  | (some o, p) => (k.facets o).foldl (facet X ev k.subjectKind k.name o) p

end Pass

/-! ## The dimensions -/

def typeFacet (i : Interface) (seen : InterfaceObservation) : Facet :=
  { verdict := protocolVerdict i.type seen.protocol, code := .interfaceProtocolMismatch
    required := true, contractPath := "interfaces[name=" ++ i.name ++ "].type"
    message := "interface " ++ quote i.name ++ " is declared " ++ i.type.text ++
      " but its port answers as " ++ seen.protocol.text }

def visibilityFacet (i : Interface) (seen : InterfaceObservation) : Facet :=
  { verdict := visibilityVerdict i.effectiveVisibility seen.exposure
    code := .interfaceVisibilityMismatch, required := true
    contractPath := "interfaces[name=" ++ i.name ++ "].visibility"
    message := "interface " ++ quote i.name ++ " is declared " ++ i.effectiveVisibility.text ++
      " but is exposed externally" }

/-- An interface: its availability is always required, and its type and
visibility are judged when it is there. -/
def interfaceCheck (i : Interface) : Check :=
  { kind := .interfaceObserved, subjectKind := "interface", name := i.name
    contractPath := "interfaces[name=" ++ i.name ++ "]", required := true
    contradicted := fun o =>
      if (o.getInterface X).present then none
      else some (.interfaceAbsent, "interface " ++ quote i.name ++ " is not being served")
    facets := fun o =>
      let seen := o.getInterface X
      if seen.present then [typeFacet i seen, visibilityFacet i seen] else [] }

/-- A health or metrics capability. -/
def capabilityCheck (k : Capability) : Check :=
  let key := k.assertionKey
  { kind := .capabilityObserved, subjectKind := "capability", name := key
    contractPath := "capabilities[type=" ++ key ++ "]", required := true
    contradicted := fun o =>
      if (o.getCapability X).present then none
      else some (.capabilityAbsent, "capability " ++ quote key ++ " is absent at runtime") }

/-- The version of a provider against the declared compatibility. -/
def versionFacet (d : Dependency) (seen : DependencyObservation) : Facet :=
  { verdict := versionVerdict X d.compatibility seen.version
    code := .dependencyVersionMismatch, required := d.required
    contractPath := "dependencies[name=" ++ d.name ++ "].compatibility"
    message := "dependency " ++ quote d.name ++ " runs version " ++ seen.version ++
      ", outside the declared compatibility " ++ d.compatibility }

/-- A dependency: the version of the provider is judged with its reachability. -/
def dependencyCheck (d : Dependency) : Check :=
  { kind := .dependencyReachable, subjectKind := "dependency", name := d.name
    contractPath := "dependencies[name=" ++ d.name ++ "]", required := d.required
    contradicted := fun o =>
      if (o.getDependency X).reachable then none
      else some (.dependencyUnreachable, "dependency " ++ quote d.name ++ " is unreachable")
    facets := fun o => [versionFacet X d (o.getDependency X)] }

def configurationCheck (cfg : Configuration) : Check :=
  { kind := .configurationPresent, subjectKind := "configuration", name := cfg.name
    contractPath := "configurations[name=" ++ cfg.name ++ "]", required := cfg.required
    contradicted := fun o =>
      let seen := o.getConfiguration X
      if !seen.present then
        some (.configurationAbsent,
          "required configuration " ++ quote cfg.name ++ " is absent at runtime")
      else if !seen.conformant then
        some (.configurationMismatch,
          "configuration " ++ quote cfg.name ++ " exists but does not conform to the declared schema")
      else none }

/-- The declared workload. -/
def workloadCheck (c : Contract) : Check :=
  { kind := .workloadObserved, subjectKind := "service", name := c.serviceName
    contractPath := "workload", required := true
    contradicted := fun o =>
      let seen := o.getWorkload X
      if seen.type ≠ c.workload then
        some (.workloadMismatch,
          "workload type is " ++ quote c.workload ++ " but observed as " ++ quote seen.type)
      else none }

def scopeFacet (st : Persistence) (o : Observation) : Facet :=
  { verdict := scopeVerdict st.scope (o.getPersistence X).shared
    code := .persistenceMismatch, required := true, contractPath := "state.persistence.scope"
    message := "contract declares local persistence scope but one storage claim is mounted by several replicas" }

def durabilityCheck (c : Contract) (st : Persistence) : Check :=
  { kind := .persistenceObserved, subjectKind := "service", name := c.serviceName
    contractPath := "state.persistence.durability", required := true
    contradicted := fun o =>
      if (o.getPersistence X).durable then none
      else some (.persistenceMismatch,
        "contract declares persistent durability but no persistent storage binding was observed")
    facets := fun o => [scopeFacet X st o] }

namespace Pass

def interfaces (ev : EvidenceSet) (is : List Interface) (p : Pass) : Pass :=
  is.foldl (fun p i => p.check X ev (interfaceCheck X i)) p

def capabilities (ev : EvidenceSet) (ks : List Capability) (p : Pass) : Pass :=
  ks.foldl (fun p k =>
    if k.type = .extension then p.leave ("capabilities[ref=" ++ k.assertionKey ++ "]")
    else p.check X ev (capabilityCheck X k)) p

/-- One turn of `undeclared`. -/
def undeclaredStep (ev : EvidenceSet) (declared : List String) (p : Pass) (o : Observation) : Pass :=
  if o.kind ≠ .dependencyReachable || o.outcome ≠ .observed || declared.contains o.subject.name then p
  else
    let seen := o.getDependency X
    if seen.undeclared && seen.reachable then
      p.add (violationFinding X ev .dependencyUndeclared true "dependency" o.subject.name
        "dependencies" o
        ("the service talks to " ++ quote o.subject.name ++ ", which no declared dependency names"))
    else p

/-- `undeclared`: the peers no declared dependency names. -/
def undeclared (ev : EvidenceSet) (declared : List String) (p : Pass) : Pass :=
  ev.observations.foldl (undeclaredStep X ev declared) p

def dependencies (ev : EvidenceSet) (ds : List Dependency) (p : Pass) : Pass :=
  (ds.foldl (fun p d => p.check X ev (dependencyCheck X d)) p).undeclared X ev (ds.map (·.name))

def configurations (ev : EvidenceSet) (cs : List Configuration) (p : Pass) : Pass :=
  cs.foldl (fun p cfg => p.check X ev (configurationCheck X cfg)) p

def workload (ev : EvidenceSet) (c : Contract) (p : Pass) : Pass :=
  if c.workload = "" then p else p.check X ev (workloadCheck X c)

/-- `persistence`: the observation is optional where durability is not
declared persistent. -/
def persistence (ev : EvidenceSet) (c : Contract) (p : Pass) : Pass :=
  match c.state with
  | none => p
  | some st =>
    if st.durability = durabilityPersistent then p.check X ev (durabilityCheck X c st)
    else
      match findObservation ev.observations .persistenceObserved c.serviceName with
      | some o =>
        if o.outcome = .observed then
          p.facet X ev "service" c.serviceName o (scopeFacet X st o)
        else p
      | none => p

end Pass

/-- The whole pass. -/
def evaluatePass (c : Contract) (ev : EvidenceSet) : Pass :=
  ((((((({} : Pass).interfaces X ev c.interfaces).capabilities X ev c.capabilities).dependencies X ev
    c.dependencies).configurations X ev c.configurations).workload X ev c).persistence X ev c)

def evaluate (c : Contract) (ev : EvidenceSet) : List Finding × Coverage :=
  let p := evaluatePass X c ev
  (p.findings,
    { evaluated := p.evaluated, required := p.required
      unverified := p.unverified.dedup.insertionSort (· ≤ ·) })

end

/-! ## The status -/

/-- The compliance ladder an evaluation is ranked on. -/
inductive Status where
  | nonCompliant
  | unknown
  | warning
  | compliant
  deriving DecidableEq, Repr

def deriveStatus (findings : List Finding) (cov : Coverage) : Status :=
  if findings.any fun f => f.severity = .error then .nonCompliant
  else if (findings.any fun f => f.severity = .unknown) || cov.evaluated < cov.required then .unknown
  else if findings.any fun f => f.severity = .warning then .warning
  else .compliant

end Pacto.Evidence
