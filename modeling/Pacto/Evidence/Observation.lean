import Pacto.Delivery.Plan

/-!
# Observations

`pkg/evidence`: an observation says what was collected about one assertion of a
contract, and only an observation that was collected carries a payload.  A set
of observations is accepted when each of them is well formed and no assertion is
observed twice.

Payloads are JSON texts, read by `Codecs`.
-/

namespace Pacto.Evidence

open Delivery (quote joinWith)

/-! ## Kinds, outcomes and payloads -/

/-- `ObservationKind`; `other` is a kind this build does not know. -/
inductive Kind where
  | capabilityObserved
  | workloadObserved
  | interfaceObserved
  | dependencyReachable
  | configurationPresent
  | persistenceObserved
  | resourceProvisioned
  | other (text : String)
  deriving DecidableEq, Repr

def Kind.text : Kind → String
  | .capabilityObserved => "CapabilityObserved"
  | .workloadObserved => "WorkloadObserved"
  | .interfaceObserved => "InterfaceObserved"
  | .dependencyReachable => "DependencyReachable"
  | .configurationPresent => "ConfigurationPresent"
  | .persistenceObserved => "PersistenceObserved"
  | .resourceProvisioned => "ResourceProvisioned"
  | .other text => text

/-- `Outcome`: the collection verdict. -/
inductive Outcome where
  | observed
  | unsupported
  | failed
  | stale
  | insufficient
  | other (text : String)
  deriving DecidableEq, Repr

def Outcome.text : Outcome → String
  | .observed => "Observed"
  | .unsupported => "Unsupported"
  | .failed => "Failed"
  | .stale => "Stale"
  | .insufficient => "Insufficient"
  | .other text => text

def Outcome.valid : Outcome → Bool
  | .other _ => false
  | _ => true

/-- The wire protocol family a probe saw; the empty text when nothing was
probed. -/
inductive Protocol where
  | http1
  | http2
  | tls
  | other
  | unknown (text : String)
  deriving DecidableEq, Repr

def Protocol.text : Protocol → String
  | .http1 => "http1"
  | .http2 => "http2"
  | .tls => "tls"
  | .other => "other"
  | .unknown text => text

/-- How far an interface is reachable from; the empty text when it is not
known. -/
inductive Exposure where
  | «internal»
  | external
  | unknown (text : String)
  deriving DecidableEq, Repr

structure CapabilityObservation where
  present : Bool := false
  deriving DecidableEq, Repr, Inhabited

structure WorkloadObservation where
  type : String := ""
  deriving DecidableEq, Repr, Inhabited

structure InterfaceObservation where
  type : String := ""
  present : Bool := false
  protocol : Protocol := .unknown ""
  exposure : Exposure := .unknown ""
  deriving DecidableEq, Repr

instance : Inhabited InterfaceObservation := ⟨{}⟩

structure DependencyObservation where
  reachable : Bool := false
  version : String := ""
  undeclared : Bool := false
  deriving DecidableEq, Repr, Inhabited

structure ConfigurationObservation where
  present : Bool := false
  conformant : Bool := false
  deriving DecidableEq, Repr, Inhabited

/-- `shared` is missing when it is not known. -/
structure PersistenceObservation where
  durable : Bool := false
  shared : Option Bool := none
  deriving DecidableEq, Repr, Inhabited

structure ProvisionedObservation where
  provider : String := ""
  externalRef : String := ""
  phase : String := ""
  environment : String := ""
  deriving DecidableEq, Repr, Inhabited

/-- What other packages read: JSON payloads, the fields of a JSON object, times
as they are written, version ranges, and the checks of a provisioning report. -/
structure Codecs where
  capability : String → Except String CapabilityObservation
  workload : String → Except String WorkloadObservation
  interface : String → Except String InterfaceObservation
  dependency : String → Except String DependencyObservation
  configuration : String → Except String ConfigurationObservation
  persistence : String → Except String PersistenceObservation
  provisioned : String → Except String ProvisionedObservation
  fields : String → Except String (List (String × String))
  validEnvironment : String → Bool
  validateProvisioned : ProvisionedObservation → Except String Unit
  formatTime : Option Int → String
  parseRange : String → Option (String → Option Bool)

/-! ## Observations and sets of them -/

structure SubjectRef where
  kind : String
  name : String
  environment : String := ""
  deriving DecidableEq, Repr

/-- `Provenance`; a zero time is missing. -/
structure Provenance where
  collector : String
  detectedAt : Option Int
  deriving DecidableEq, Repr

/-- `Observation`; an empty `value` is no payload. -/
structure Observation where
  kind : Kind
  subject : SubjectRef
  outcome : Outcome
  value : String := ""
  provenance : Provenance
  deriving DecidableEq, Repr

structure EvidenceSet where
  subject : SubjectRef
  contractRef : String
  source : String
  observedAt : Option Int
  observations : List Observation
  deriving DecidableEq, Repr

section Payloads

variable (X : Codecs)

/-- `get`: the payload of an observation of the wanted kind, the zero payload
where there is none or it cannot be read. -/
def Observation.get {T : Type} [Inhabited T] (o : Observation) (want : Kind)
    (decode : String → Except String T) : T :=
  if o.outcome = .observed && o.kind = want then (decode o.value).toOption.getD default
  else default

def Observation.getCapability (o : Observation) : CapabilityObservation :=
  o.get .capabilityObserved X.capability

def Observation.getWorkload (o : Observation) : WorkloadObservation :=
  o.get .workloadObserved X.workload

def Observation.getInterface (o : Observation) : InterfaceObservation :=
  o.get .interfaceObserved X.interface

def Observation.getDependency (o : Observation) : DependencyObservation :=
  o.get .dependencyReachable X.dependency

def Observation.getConfiguration (o : Observation) : ConfigurationObservation :=
  o.get .configurationPresent X.configuration

def Observation.getPersistence (o : Observation) : PersistenceObservation :=
  o.get .persistenceObserved X.persistence

theorem Observation.get_eq {T : Type} [Inhabited T] {o : Observation} {want : Kind}
    {decode : String → Except String T} {p : T} (houtcome : o.outcome = .observed)
    (hkind : o.kind = want) (hdecode : decode o.value = .ok p) : o.get want decode = p := by
  simp [Observation.get, houtcome, hkind, hdecode, Except.toOption]

/-! ## Validation -/

def Kind.subjectKinds : Kind → List String
  | .capabilityObserved => ["capability"]
  | .interfaceObserved => ["interface"]
  | .dependencyReachable => ["dependency"]
  | .configurationPresent => ["configuration"]
  | .workloadObserved => ["service"]
  | .persistenceObserved => ["service"]
  | .resourceProvisioned => ["configuration", "dependency"]
  | .other _ => []

/-- `verdictKeys`: the keys a payload must carry. -/
def Kind.verdictKeys : Kind → List String
  | .capabilityObserved => ["present"]
  | .workloadObserved => ["type"]
  | .interfaceObserved => ["type", "present"]
  | .dependencyReachable => ["reachable"]
  | .configurationPresent => ["present"]
  | .persistenceObserved => ["durable"]
  | .resourceProvisioned => ["provider", "phase"]
  | .other _ => []

/-- `checkVerdictKeys`: a missing or null key would read as a confirmed
negative. -/
def Observation.checkVerdictKeys (o : Observation) : Except String Unit := do
  let fields ← X.fields o.value
  let required :=
    if o.kind = .configurationPresent && fields.lookup "present" = some "true" then
      o.kind.verdictKeys ++ ["conformant"]
    else o.kind.verdictKeys
  match required.find? fun k => (fields.lookup k).getD "null" = "null" with
  | some k => .error ("missing required key " ++ quote k)
  | none => .ok ()

def Observation.decodes (o : Observation) : Except String Unit :=
  match o.kind with
  | .capabilityObserved => (X.capability o.value).map fun _ => ()
  | .workloadObserved => (X.workload o.value).map fun _ => ()
  | .interfaceObserved => (X.interface o.value).map fun _ => ()
  | .dependencyReachable => (X.dependency o.value).map fun _ => ()
  | .configurationPresent => (X.configuration o.value).map fun _ => ()
  | .persistenceObserved => (X.persistence o.value).map fun _ => ()
  | .resourceProvisioned => (X.provisioned o.value).bind X.validateProvisioned
  | .other _ => .ok ()

def Observation.checkKind (o : Observation) : Except String Unit :=
  match (o.checkVerdictKeys X).bind fun _ => o.decodes X with
  | .error why => .error ("value does not match kind " ++ o.kind.text ++ ": " ++ why)
  | .ok () => .ok ()

/-- `checkSubjectEnvironment`: only a provisioning report without a payload
names its environment in its subject. -/
def Observation.checkSubjectEnvironment (o : Observation) : Except String Unit :=
  let env := o.subject.environment
  if env = "" then .ok ()
  else if o.kind ≠ .resourceProvisioned then
    .error ("kind " ++ o.kind.text ++ " takes no subject environment")
  else if o.outcome = .observed then
    .error "an Observed ResourceProvisioned observation names its environment in the payload"
  else if !X.validEnvironment env then
    .error ("subject environment " ++ quote env ++ " must be a lowercase slug of at most 63 bytes")
  else .ok ()

def Observation.validate (o : Observation) : Except String Unit := do
  if o.kind.subjectKinds = [] then
    throw ("unknown observation kind: " ++ quote o.kind.text)
  if !o.outcome.valid then
    throw ("unknown outcome: " ++ quote o.outcome.text)
  if !o.kind.subjectKinds.contains o.subject.kind then
    throw ("kind " ++ o.kind.text ++ " requires Subject.Kind \"" ++
      joinWith "\" or \"" o.kind.subjectKinds ++ "\", got " ++ quote o.subject.kind ++ " (INV-1c)")
  o.checkSubjectEnvironment X
  if o.outcome = .observed then
    if o.value = "" then
      throw ("outcome Observed requires a value payload for kind " ++ o.kind.text)
    o.checkKind X
  else if o.value ≠ "" then
    throw ("outcome " ++ o.outcome.text ++ " must not carry a value payload")

/-- The identity of the assertion an observation is about. -/
def Observation.identity (o : Observation) : Kind × String × String :=
  (o.kind, o.subject.kind, o.subject.name)

/-- What is wrong with one observation, after those of the given identities. -/
def observationErrors (seen : List (Kind × String × String)) (o : Observation) : List String :=
  if o.subject.kind = "" || o.subject.name = "" then ["subject kind or name is empty"]
  else if o.identity ∈ seen then
    ["duplicate assertion identity " ++ o.kind.text ++ "/" ++ o.subject.kind ++ "/" ++ o.subject.name]
  else if o.provenance.collector = "" then ["provenance collector is empty"]
  else if o.provenance.detectedAt = none then ["provenance detected at is zero"]
  else
    match o.validate X with
    | .error why => [why]
    | .ok () => []

/-- The loop of `ValidateEvidenceSet` over the observations from index `i` on.
An observation without a subject leaves no identity behind. -/
def observationsErrors (i : ℕ) (seen : List (Kind × String × String)) :
    List Observation → List String
  | [] => []
  | o :: rest =>
    (observationErrors X seen o).map ("observation[" ++ toString i ++ "]: " ++ ·) ++
      observationsErrors (i + 1)
        (if o.subject.kind = "" || o.subject.name = "" then seen else o.identity :: seen) rest

def validateEvidenceSet (es : EvidenceSet) : List String :=
  (if es.subject.kind = "" then ["subject kind is empty"] else []) ++
    (if es.subject.name = "" then ["subject name is empty"] else []) ++
    (if es.subject.environment ≠ "" then ["the evidence set subject takes no environment"] else []) ++
    (if es.contractRef = "" then ["contract ref is empty"] else []) ++
    (if es.source = "" then ["source is empty"] else []) ++
    (if es.observedAt = none then ["observed at is zero"] else []) ++
    observationsErrors X 0 [] es.observations

/-! ## What validation guarantees -/

variable {X}

theorem observationsErrors_eq_nil {i : ℕ} {seen : List (Kind × String × String)}
    {obs : List Observation} (h : observationsErrors X i seen obs = []) :
    (∀ o ∈ obs, o.identity ∉ seen ∧ o.validate X = .ok ()) ∧ (obs.map (·.identity)).Nodup := by
  induction obs generalizing i seen with
  | nil => simp
  | cons o rest ih =>
    simp only [observationsErrors, List.append_eq_nil_iff, List.map_eq_nil_iff] at h
    obtain ⟨hhead, hrest⟩ := h
    unfold observationErrors at hhead
    split at hhead
    · cases hhead
    next hsubject =>
    rw [if_neg hsubject] at hrest
    obtain ⟨hall, hnodup⟩ := ih hrest
    split at hhead
    · cases hhead
    next hfresh =>
    have hvalid : o.validate X = .ok () := by
      split at hhead
      · cases hhead
      split at hhead
      · cases hhead
      cases hv : o.validate X with
      | error why => simp [hv] at hhead
      | ok u => rfl
    refine ⟨?_, ?_⟩
    · intro x hx
      rcases List.mem_cons.mp hx with rfl | hx
      · exact ⟨hfresh, hvalid⟩
      · exact ⟨fun hmem => (hall x hx).1 (List.mem_cons_of_mem _ hmem), (hall x hx).2⟩
    · rw [List.map_cons, List.nodup_cons]
      refine ⟨?_, hnodup⟩
      intro hmem
      obtain ⟨x, hx, heq⟩ := List.mem_map.mp hmem
      exact (hall x hx).1 (heq ▸ List.mem_cons_self)

theorem observationsErrors_of_valid {es : EvidenceSet} (h : validateEvidenceSet X es = []) :
    observationsErrors X 0 [] es.observations = [] := by
  simp only [validateEvidenceSet, List.append_eq_nil_iff] at h
  exact h.2

/-- An accepted observation is about a subject of its kind, and its payload
decodes if it was collected. -/
theorem Observation.of_validate {o : Observation} (h : o.validate X = .ok ()) :
    o.subject.kind ∈ o.kind.subjectKinds ∧ (o.outcome = .observed → o.decodes X = .ok ()) := by
  unfold Observation.validate at h
  simp only [bind, Except.bind, pure, Except.pure, throw, throwThe, MonadExceptOf.throw] at h
  split at h
  · cases h
  split at h
  · cases h
  split at h
  · cases h
  next hsubject =>
  refine ⟨by simpa using hsubject, ?_⟩
  intro hobserved
  cases henv : o.checkSubjectEnvironment X with
  | error why => simp [henv] at h
  | ok u =>
    simp only [henv, hobserved, if_true] at h
    split at h
    · cases h
    · simp only [Observation.checkKind] at h
      cases hkeys : o.checkVerdictKeys X with
      | error why => simp [hkeys, Except.bind] at h
      | ok u =>
        cases hdec : o.decodes X with
        | error why => simp [hkeys, hdec, Except.bind] at h
        | ok u => rfl

/-- Among accepted observations a kind that names one subject kind and a name
determine the observation. -/
theorem eq_of_kind_name {es : EvidenceSet} (h : validateEvidenceSet X es = []) {o o' : Observation}
    (ho : o ∈ es.observations) (ho' : o' ∈ es.observations) (hkind : o.kind = o'.kind)
    (hname : o.subject.name = o'.subject.name) (hone : o.kind.subjectKinds.length = 1) : o = o' := by
  obtain ⟨hvalid, hnodup⟩ := observationsErrors_eq_nil (observationsErrors_of_valid h)
  have hs := (Observation.of_validate (hvalid o ho).2).1
  have hs' := (Observation.of_validate (hvalid o' ho').2).1
  rw [← hkind] at hs'
  obtain ⟨s, hsub⟩ := List.length_eq_one_iff.mp hone
  rw [hsub, List.mem_singleton] at hs hs'
  refine List.inj_on_of_nodup_map hnodup ho ho' ?_
  simp [Observation.identity, hkind, hname, hs, hs']

end Payloads

end Pacto.Evidence
