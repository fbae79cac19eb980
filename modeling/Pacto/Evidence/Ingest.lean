import Pacto.Evidence.Evaluate
import Pacto.Fleet.Target
import Pacto.Oci.Reference
import Pacto.Support.Newest

/-!
# Accepting evidence

`pkg/evidenceingest` takes signed envelopes and commits them to a registry
(`internal/evidenceoci`).  `Accept` decodes an envelope, verifies it, checks its
evidence and its contract reference, resolves the contract, stamps the time of
acceptance, evaluates the evidence and commits the record.  Only the commit is
serialised: it reads the accepted history and refuses a replay.  `List` projects
the history onto the latest record of each target.

Calls run concurrently, so `Server.step` takes a call in the pieces other calls can
come between: the checks, the stamp and the commit.  JSON, signatures, globs and
the configured subjects are parameters.
-/

namespace Pacto.Evidence

open Delivery (quote)
open Oci (trimOCIScheme splitOCIDigest ociDomain ociScheme)
open Support (splitFirst newestPerKey)

/-! ## Envelopes -/

structure Producer where
  id : String
  version : String := ""
  keyID : String
  deriving DecidableEq, Repr

structure Signature where
  algorithm : String
  value : String
  deriving DecidableEq, Repr

/-- `Envelope`: the signed form of a set of observations. -/
structure Envelope where
  apiVersion : String
  kind : String
  id : String
  producer : Producer
  sequence : ℕ
  issuedAt : Option Int := none
  expiresAt : Option Int := none
  evidenceSet : EvidenceSet
  signature : Option Signature := none
  deriving DecidableEq, Repr

inductive EnvelopeError where
  | unsupportedVersion
  | unsupportedKind
  | tooLarge
  | tooManyObs
  | missingField
  | unsignedEnvelope
  | unknownKey
  | badAlgorithm
  | badSignature
  | expired
  | notYetValid
  | trailingData
  | decode (why : String)
  | producerMismatch
  | subjectNotAllowed
  | kindNotAllowed
  deriving DecidableEq, Repr

def apiVersionV1 : String := "pacto.dev/evidence/v1"
def kindEnvelope : String := "EvidenceEnvelope"
def algorithmEd25519 : String := "Ed25519"
def maxEnvelopeBytes : ℕ := 1048576
def maxObservations : ℕ := 10000

def Envelope.validateStructure (e : Envelope) : Except EnvelopeError Unit :=
  if e.apiVersion ≠ apiVersionV1 then .error .unsupportedVersion
  else if e.kind ≠ kindEnvelope then .error .unsupportedKind
  else if e.id = "" ∨ e.producer.id = "" ∨ e.producer.keyID = "" then .error .missingField
  else if maxObservations < e.evidenceSet.observations.length then .error .tooManyObs
  else .ok ()

/-- `TrustEntry`: what a key may sign. -/
structure TrustEntry where
  publicKey : String
  producerID : String := ""
  subjects : List String := []
  contractRepos : List String := []
  allowedObservationKinds : List String := []
  deriving DecidableEq, Repr

/-- `KindAllowed`: a key reports on provisioning only when it lists that kind. -/
def TrustEntry.kindAllowed (t : TrustEntry) (k : Kind) : Bool :=
  if t.allowedObservationKinds = [] then k ≠ .resourceProvisioned
  else t.allowedObservationKinds.contains k.text

def TrustEntry.runtimeAllowed (t : TrustEntry) : Bool :=
  t.allowedObservationKinds = [] ||
    t.allowedObservationKinds.any (· ≠ Kind.resourceProvisioned.text)

/-- What the host is set up with: the readers of JSON, the trusted keys, the check
of a signature, globs and the configured subjects. -/
structure Host where
  codecs : Codecs
  unmarshal : String → Except EnvelopeError Envelope
  trust : String → Option TrustEntry
  signed : String → Envelope → Bool
  pathMatch : String → String → Bool
  configured : String → Bool

variable (H : Host)

def Host.decode (data : String) : Except EnvelopeError Envelope :=
  if maxEnvelopeBytes < data.utf8ByteSize then .error .tooLarge
  else do
    let e ← H.unmarshal data
    e.validateStructure
    return e

def Host.subjectAllowed (patterns : List String) (name : String) : Bool :=
  patterns = [] || patterns.any fun p => H.pathMatch p name

def Host.authorize (t : TrustEntry) (e : Envelope) : Except EnvelopeError Unit :=
  if t.producerID ≠ "" ∧ e.producer.id ≠ t.producerID then .error .producerMismatch
  else if !H.subjectAllowed t.subjects e.evidenceSet.subject.name then .error .subjectNotAllowed
  else if e.evidenceSet.observations.any fun o => !t.kindAllowed o.kind then .error .kindNotAllowed
  else if e.evidenceSet.observations = [] ∧ t.runtimeAllowed = false then .error .kindNotAllowed
  else .ok ()

/-- `Verify` against the trust store, at the time `now`. -/
def Host.verify (e : Envelope) (now : Int) : Except EnvelopeError Unit := do
  e.validateStructure
  let some signature := e.signature | throw .unsignedEnvelope
  if signature.algorithm ≠ algorithmEd25519 then throw .badAlgorithm
  let some entry := H.trust e.producer.keyID | throw .unknownKey
  if !H.signed entry.publicKey e then throw .badSignature
  H.authorize entry e
  if e.expiresAt.any (· < now) then throw .expired
  if e.issuedAt.any (now < ·) then throw .notYetValid

/-! ## Contract references -/

def validSHA256Digest (d : String) : Bool :=
  match d.dropPrefix? "sha256:" with
  | none => false
  | some hex =>
    hex.toString.utf8ByteSize = 64 &&
      hex.toString.toList.all fun c => ('0' ≤ c && c ≤ '9') || ('a' ≤ c && c ≤ 'f')

def validateContractRef (ref : String) (allowedRepos : List String) : Bool :=
  ref.startsWith ociScheme &&
    match splitFirst '@' (trimOCIScheme ref).toList with
    | none => false
    | some (repo, digest) =>
      validSHA256Digest (String.ofList digest) && repo ≠ [] &&
        (allowedRepos = [] || allowedRepos.any fun allowed =>
          String.ofList repo = allowed || (String.ofList repo).startsWith (allowed ++ "/"))

def digestOf (ref : String) : String := (splitOCIDigest ref).2

/-! ## Records -/

/-- What a reference resolves to: the contract, the configurations that take their
schema by reference and the environments it declares. -/
structure Resolved where
  contract : Contract
  references : List String := []
  environments : List String := []
  deriving DecidableEq, Repr

/-- `Record`: an accepted envelope and the evaluation it produced.  A provisioning
report has no compliance. -/
structure Record where
  envelope : Envelope
  compliance : Option Status := none
  findings : List Finding := []
  coverage : Coverage := { evaluated := 0, required := 0, unverified := [] }
  acceptedAt : Int
  service : String
  domain : String := ""
  digest : String := ""
  deriving DecidableEq, Repr

inductive StoreError where
  | contractRefPolicy (ref : String)
  | registryUnavailable (failed : ℕ)
  | registryIncomplete (invalid : ℕ)
  | replay
  | storeWrite (why : String)
  deriving DecidableEq, Repr

inductive AcceptError where
  | malformedEnvelope (why : EnvelopeError)
  | envelope (why : EnvelopeError)
  | invalidEvidence (why : List String)
  | contractRefPolicy
  | notConfigured (ref : String)
  | contractResolution (why : String)
  | replay
  | storeWrite (why : StoreError)
  deriving DecidableEq, Repr

def EvidenceSet.isProvisioning (es : EvidenceSet) : Bool :=
  es.observations.any fun o => o.kind = .resourceProvisioned

def Observation.provisionedEnvironment (X : Codecs) (o : Observation) : String :=
  if o.outcome = .observed && o.kind = .resourceProvisioned then
    match X.provisioned o.value with
    | .ok p => p.environment
    | .error _ => o.subject.environment
  else o.subject.environment

def Resolved.declaresUse (c : Resolved) (subject : SubjectRef) : Bool :=
  if subject.kind = "configuration" then c.references.contains subject.name
  else c.contract.dependencies.any fun d => d.name = subject.name

def Resolved.checkProvisionedObservation (X : Codecs) (c : Resolved) (o : Observation) :
    Except String Unit :=
  if o.kind ≠ .resourceProvisioned then
    .error "a ResourceProvisioned evidence set carries only ResourceProvisioned observations"
  else if !c.declaresUse o.subject then
    .error ("the contract declares no configuration reference or dependency " ++ o.subject.kind ++
      " " ++ quote o.subject.name)
  else
    let env := o.provisionedEnvironment X
    if env ≠ "" ∧ env ∉ c.environments then
      .error ("the contract declares no environment " ++ quote env)
    else .ok ()

/-- The loop of `checkProvisioning` over the observations from index `i` on. -/
def Resolved.checkObservations (X : Codecs) (c : Resolved) (i : ℕ) :
    List Observation → Except String Unit
  | [] => .ok ()
  | o :: rest =>
    match c.checkProvisionedObservation X o with
    | .error why => .error ("observation[" ++ toString i ++ "]: " ++ why)
    | .ok () => c.checkObservations X (i + 1) rest

def maxProvisioningClockSkew : Int := 300

/-- The repository of a contract reference, as `checkProvisioning` cuts it off. -/
def repositoryOf (ref : String) : String :=
  match splitFirst '@' (trimOCIScheme ref).toList with
  | some (repo, _) => String.ofList repo
  | none => trimOCIScheme ref

def Resolved.checkProvisioning (X : Codecs) (c : Resolved) (set : EvidenceSet) (acceptedAt : Int) :
    Except String Unit :=
  let repo := repositoryOf set.contractRef
  if !set.subject.name.startsWith (repo ++ "/") then
    .error ("provisioning subject " ++ quote set.subject.name ++
      " must start with the contract repository " ++ quote (repo ++ "/"))
  else if set.observedAt.any (acceptedAt + maxProvisioningClockSkew < ·) then
    .error ("provisioning report is dated " ++ X.formatTime set.observedAt ++
      ", more than 5m0s after it was accepted")
  else c.checkObservations X 0 set.observations

/-! ## Accepting -/

/-- A call that passed the checks before the stamp. -/
structure Admitted where
  envelope : Envelope
  resolved : Resolved
  deriving DecidableEq, Repr

/-- The first part of `Accept`, begun at `now`; `answer` is what the resolver says
about the contract reference. -/
def Host.admit (now : Int) (data : String) (answer : Except String Resolved) :
    Except AcceptError Admitted := do
  let env ← (H.decode data).mapError .malformedEnvelope
  (H.verify env now).mapError .envelope
  let errs := validateEvidenceSet H.codecs env.evidenceSet
  if errs ≠ [] then throw (.invalidEvidence errs)
  let repos := ((H.trust env.producer.keyID).map (·.contractRepos)).getD []
  if !validateContractRef env.evidenceSet.contractRef repos then throw .contractRefPolicy
  if !H.configured env.evidenceSet.contractRef then
    throw (.notConfigured env.evidenceSet.contractRef)
  let resolved ← answer.mapError .contractResolution
  return { envelope := env, resolved := resolved }

/-- The second part of `Accept`: the record, stamped at `now` and evaluated. -/
def Host.stamp (now : Int) (a : Admitted) : Except AcceptError Record :=
  let set := a.envelope.evidenceSet
  let base : Record :=
    { envelope := a.envelope, acceptedAt := now, service := a.resolved.contract.serviceName
      domain := ociDomain set.contractRef, digest := digestOf set.contractRef }
  if set.isProvisioning then
    match a.resolved.checkProvisioning H.codecs set now with
    | .error why => .error (.invalidEvidence [why])
    | .ok () => .ok base
  else
    let (findings, coverage) := evaluate H.codecs a.resolved.contract set
    .ok { base with
      compliance := some (deriveStatus findings coverage), findings := findings
      coverage := coverage }

def Record.targetKey (r : Record) : String :=
  Fleet.newTargetKey r.envelope.producer.id "external" r.envelope.evidenceSet.subject.name

def maxSequence (producer : String) (history : List Record) : Option ℕ :=
  ((history.filter fun h => h.envelope.producer.id = producer).map (·.envelope.sequence)).max?

/-- `checkReplay`: an envelope id is used once, and a sequence is above the highest
one of its producer. -/
def checkReplay (r : Record) (history : List Record) : Except StoreError Unit :=
  if history.any fun h => h.envelope.id = r.envelope.id then .error .replay
  else
    match maxSequence r.envelope.producer.id history with
    | some maxSeq => if r.envelope.sequence ≤ maxSeq then .error .replay else .ok ()
    | none => .ok ()

/-- How the publication of a record ends.  A push or a confirmation may fail after
the record has landed. -/
inductive Publication where
  | confirmed
  | unconfirmed (why : String)
  | failed (why : String)
  deriving DecidableEq, Repr

/-- What the registry does during a commit: the subjects it fails to list, the
artifacts that cannot be read, and how the publication ends. -/
structure Weather where
  failed : ℕ := 0
  invalid : ℕ := 0
  publication : Publication := .confirmed
  deriving DecidableEq, Repr

/-- `Store.Commit`: the answer and the registry after it.  The history is used only
when it has been read completely. -/
def Host.commit (registry : List Record) (w : Weather) (r : Record) :
    Except StoreError Unit × List Record :=
  if !H.configured r.envelope.evidenceSet.contractRef then
    (.error (.contractRefPolicy r.envelope.evidenceSet.contractRef), registry)
  else if 0 < w.failed then (.error (.registryUnavailable w.failed), registry)
  else if 0 < w.invalid then (.error (.registryIncomplete w.invalid), registry)
  else
    match checkReplay r registry with
    | .error e => (.error e, registry)
    | .ok () =>
      match w.publication with
      | .confirmed => (.ok (), registry ++ [r])
      | .unconfirmed why => (.error (.storeWrite why), registry ++ [r])
      | .failed why => (.error (.storeWrite why), registry)

/-- How `Accept` reports the answer of a commit. -/
def accepted (r : Record) : Except StoreError Unit → Except AcceptError Record
  | .ok () => .ok r
  | .error .replay => .error .replay
  | .error e => .error (.storeWrite e)

/-! ## Listing -/

/-- `supersedes`: a later acceptance wins, the sequence decides at the same time. -/
def supersedes (a b : Record) : Prop :=
  if a.acceptedAt ≠ b.acceptedAt then b.acceptedAt < a.acceptedAt
  else b.envelope.sequence < a.envelope.sequence

instance : DecidableRel supersedes := fun a b => by
  unfold supersedes
  infer_instance

def latestPerTarget (history : List Record) : List Record :=
  let latest := newestPerKey Record.targetKey supersedes history
  (latest.keys.insertionSort (· ≤ ·)).filterMap fun k => latest.lookup k

/-! ## Concurrent calls -/

/-- The host between two steps: its clock, the calls in progress by how far they
are, what the calls that ended returned, and the registry in the order of the
commits. -/
structure Server where
  clock : Int
  admitted : List Admitted := []
  stamped : List Record := []
  returned : List (Except AcceptError Record) := []
  registry : List Record := []

inductive Event where
  /-- Time passes. -/
  | tick (seconds : ℕ)
  /-- A call arrives and is checked. -/
  | call (data : String) (answer : Except String Resolved)
  /-- A checked call stamps its record. -/
  | stamp (i : ℕ)
  /-- A stamped record is committed. -/
  | commit (i : ℕ) (w : Weather)

/-- One step of the host. -/
def Server.step (s : Server) : Event → Server
  | .tick seconds => { s with clock := s.clock + seconds }
  | .call data answer =>
    match H.admit s.clock data answer with
    | .ok a => { s with admitted := s.admitted ++ [a] }
    | .error e => { s with returned := s.returned ++ [.error e] }
  | .stamp i =>
    match s.admitted[i]? with
    | none => s
    | some a =>
      match H.stamp s.clock a with
      | .ok r => { s with admitted := s.admitted.eraseIdx i, stamped := s.stamped ++ [r] }
      | .error e =>
        { s with admitted := s.admitted.eraseIdx i, returned := s.returned ++ [.error e] }
  | .commit i w =>
    match s.stamped[i]? with
    | none => s
    | some r =>
      let (answer, registry) := H.commit s.registry w r
      { s with
        stamped := s.stamped.eraseIdx i
        returned := s.returned ++ [accepted r answer]
        registry := registry }

/-- A run of the host. -/
def Server.run (s : Server) (events : List Event) : Server := events.foldl (Server.step H) s

end Pacto.Evidence
