import Mathlib.Data.List.AList
import Pacto.Delivery.Contracts
import Pacto.Support.Cut
import Pacto.Support.PrefixCode

/-!
# Targets from several sources

A target is one running workload, and several sources may report it: an
inventory, an operator that evaluates it, a registry.  `targetFrom` turns one
report into a record and `mergeTarget` folds a further record of the same key
into the one that is there.  Every field has a rule of its own: identity is
filled and then quarantined on disagreement, labels are united, the fresher
evidence owns the evaluation, the environment label is dropped for good once two
sources disagree on it.
-/

namespace Pacto.Fleet

open Delivery (Owner orElse)

/-! ## Records -/

/-- A structured limitation of a snapshot or of one of its records. -/
structure Limitation where
  code : String
  source : String
  message : String
  deriving DecidableEq, Repr

/-- One finding of an evaluation: its severity and the rest of it. -/
structure Finding where
  severity : String
  detail : String
  deriving DecidableEq, Repr

abbrev Labels := AList fun _ : String => String

def targetEnvironmentLabel : String := "delivery.pacto.trianalab.io/environment"

/-- What a source reports about a target.  `E` is its coverage, readiness and
observed runtime, which travel together. -/
structure RawTarget (E : Type) where
  scope : String := ""
  kind : String := ""
  name : String
  labels : Labels := ∅
  service : String := ""
  domain : String := ""
  requestedRef : String := ""
  resolvedRef : String := ""
  digest : String := ""
  compliance : String := ""
  owner : Owner := {}
  businessDomain : String := ""
  businessDomainKnown : Bool := false
  offering : String := ""
  summary : String := ""
  findings : List Finding := []
  details : E
  evidenceAt : Option Int := none
  reconciledAt : Option Int := none
  limitations : List Limitation := []

/-- The fields the freshest evaluation of a target owns. -/
structure Evaluation (E : Type) where
  compliance : String
  findings : List Finding
  details : E
  evidenceAt : Option Int
  reconciledAt : Option Int
  stale : Bool
  source : String

/-- A target as the snapshot keeps it. -/
structure TargetRecord (E : Type) where
  key : String
  labels : Labels
  service : String
  domain : String
  contractRevision : String := ""
  requestedRef : String
  resolvedRef : String
  digest : String
  owner : Owner
  environment : String
  evaluation : Evaluation E
  sources : List String
  quarantined : Bool := false
  limitations : List Limitation
  reportedDomains : List String
  domainKnown : Bool
  reportedOfferings : List String
  reportedSummaries : List String
  environmentConflict : Bool := false

variable {E : Type}

/-! ## From a report to a record -/

def escapeKeyPart (s : String) : String :=
  String.ofList (s.toList.flatMap fun c =>
    if c = '%' then "%25".toList else if c = '/' then "%2F".toList else [c])

def newTargetKey (scope kind name : String) : String :=
  escapeKeyPart scope ++ "/" ++ escapeKeyPart kind ++ "/" ++ escapeKeyPart name

/-- The word a character of a key part is written as. -/
def keyCode (c : Char) : List Char :=
  if c = '%' then "%25".toList else if c = '/' then "%2F".toList else [c]

theorem keyCode_prefixCode : Support.PrefixCode keyCode where
  ne_nil c := by
    unfold keyCode
    split_ifs <;> simp
  eq_of_prefix c d h := by
    unfold keyCode at h
    split_ifs at h <;> simp_all

theorem toList_escapeKeyPart (s : String) :
    (escapeKeyPart s).toList = s.toList.flatMap keyCode := by
  rw [escapeKeyPart, String.toList_ofList]
  rfl

theorem escapeKeyPart_injective : Function.Injective escapeKeyPart := by
  intro s t h
  have hcode : s.toList.flatMap keyCode = t.toList.flatMap keyCode := by
    rw [← toList_escapeKeyPart, h, toList_escapeKeyPart]
  exact String.toList_injective (keyCode_prefixCode.flatMap_injective hcode)

theorem slash_not_mem_escapeKeyPart (s : String) : '/' ∉ (escapeKeyPart s).toList := by
  rw [toList_escapeKeyPart]
  refine Support.not_mem_flatMap_of_forall ?_ _
  intro c
  unfold keyCode
  split_ifs with hc hd
  · simp
  · simp
  · simpa using Ne.symm hd

/-- A target key determines its parts. -/
theorem newTargetKey_inj {scope kind name scope' kind' name' : String}
    (h : newTargetKey scope kind name = newTargetKey scope' kind' name') :
    scope = scope' ∧ kind = kind' ∧ name = name' := by
  have htext := congrArg String.toList h
  simp only [newTargetKey, String.toList_append, List.append_assoc,
    show "/".toList = ['/'] from rfl, List.singleton_append] at htext
  obtain ⟨hscope, hrest⟩ := Support.append_sep_inj_left
    (slash_not_mem_escapeKeyPart scope) (slash_not_mem_escapeKeyPart scope') htext
  obtain ⟨hkind, hname⟩ := Support.append_sep_inj_left
    (slash_not_mem_escapeKeyPart kind) (slash_not_mem_escapeKeyPart kind') hrest
  exact ⟨escapeKeyPart_injective (String.toList_injective hscope),
    escapeKeyPart_injective (String.toList_injective hkind),
    escapeKeyPart_injective (String.toList_injective hname)⟩

def statusUnknown : String := "Unknown"

def validStatus (s : String) : Bool :=
  ["Invalid", "NonCompliant", "Unknown", "Warning", "Compliant", "Reference",
    "NotEvaluated"].contains s

/-- The canonical compliance value, and whether the reported one was invalid. -/
def canonicalCompliance (s : String) : String × Bool :=
  if s = "" then (statusUnknown, false)
  else if validStatus s then (s, false)
  else (statusUnknown, true)

def validSeverity (s : String) : Bool := ["error", "warning", "info", "unknown"].contains s

/-- The findings with canonical severities, and how many had to be changed. -/
def canonicalFindings (fs : List Finding) : List Finding × Nat :=
  (fs.map fun f => if validSeverity f.severity then f else { f with severity := "unknown" },
    (fs.filter fun f => !validSeverity f.severity).length)

def slugChar (c : Char) : Bool := ('a' ≤ c && c ≤ 'z') || ('0' ≤ c && c ≤ '9')

def validBusinessDomain (d : String) : Bool :=
  d.length ≤ 63 && d.toList.all (fun c => slugChar c || c = '-') &&
    d.toList.head?.any slugChar && d.toList.getLast?.any slugChar

/-- `validSummary`: one line of at most 200 characters with no control
character. -/
def validSummary (v : String) : Bool :=
  v ≠ "" && v.length ≤ 200 &&
    v.toList.all fun c => !(c.toNat < 0x20 || (0x7f ≤ c.toNat && c.toNat ≤ 0x9f))

def reportedValue (v : String) (valid : String → Bool) : List String :=
  if v = "" || !valid v then [] else [v]

/-- The domain a source read from the contract of a target, as a set, and
whether it read one at all. -/
def reportedDomainsFrom (raw : RawTarget E) : List String × Bool :=
  if raw.businessDomain = "" then ([], raw.businessDomainKnown)
  else if validBusinessDomain raw.businessDomain then ([raw.businessDomain], true)
  else ([], false)

/-- The limitations of a report whose finite values had to be normalized. -/
def recordInvalid (key source : String) (complianceInvalid : Bool) (invalidSeverities : Nat) :
    List Limitation :=
  (if complianceInvalid then
    [{ code := "SOURCE_RECORD_INVALID", source := source
       message := "target " ++ key ++ " reported a non-canonical compliance value; the record was kept and its compliance normalized to " ++ statusUnknown }]
  else []) ++
  if 0 < invalidSeverities then
    [{ code := "SOURCE_RECORD_INVALID", source := source
       message := "target " ++ key ++ " reported a non-canonical finding severity; the record was kept and each normalized to unknown" }]
  else []

/-- The record of one report, and the limitations of the values it normalized.
Evidence older than the freshness window is stale. -/
def targetFrom (raw : RawTarget E) (source : String) (now window : Int) :
    TargetRecord E × List Limitation :=
  let key := newTargetKey raw.scope raw.kind raw.name
  let (compliance, complianceInvalid) := canonicalCompliance raw.compliance
  let (findings, invalidSeverities) := canonicalFindings raw.findings
  let (domains, known) := reportedDomainsFrom raw
  let invalid := recordInvalid key source complianceInvalid invalidSeverities
  let stale := decide (0 < window) && raw.evidenceAt.any fun t => decide (window < now - t)
  let staleLimitation : List Limitation :=
    if stale then
      [{ code := "SOURCE_STALE", source := source
         message := "the most recent evidence is older than the configured freshness window" }]
    else []
  let missing : List Limitation :=
    if raw.evidenceAt = none ∧ compliance = statusUnknown then
      [{ code := "EVIDENCE_MISSING", source := source
         message := "no evidence has been observed for this target" }]
    else []
  ({ key := key
     labels := raw.labels
     service := raw.service
     domain := raw.domain
     requestedRef := raw.requestedRef
     resolvedRef := raw.resolvedRef
     digest := raw.digest
     owner := raw.owner
     environment := (raw.labels.lookup targetEnvironmentLabel).getD ""
     evaluation :=
       { compliance := compliance, findings := findings, details := raw.details
         evidenceAt := raw.evidenceAt, reconciledAt := raw.reconciledAt, stale := stale
         source := source }
     sources := [source]
     limitations := raw.limitations ++ invalid ++ staleLimitation ++ missing
     reportedDomains := domains
     domainKnown := known
     reportedOfferings := reportedValue raw.offering validBusinessDomain
     reportedSummaries := reportedValue raw.summary validSummary }, invalid)

/-! ## Merging -/

def appendUnique (s : List String) (v : String) : List String :=
  if v = "" ∨ v ∈ s then s else s ++ [v]

def fieldConflict (source what key : String) : Limitation where
  code := "TARGET_FIELD_CONFLICT"
  source := source
  message := "sources disagree on " ++ what ++ " of target " ++ key

/-- Fills an identity field that is empty, and quarantines the target when the
two values disagree. -/
def reconcile (field : String) (get : TargetRecord E → String)
    (set : TargetRecord E → String → TargetRecord E) (add : TargetRecord E)
    (st : TargetRecord E × List Limitation) : TargetRecord E × List Limitation :=
  let (existing, lims) := st
  let a := get existing
  let b := get add
  if a = "" then (set existing b, lims)
  else if b = "" ∨ a = b then (existing, lims)
  else ({ existing with quarantined := true },
    lims ++ [fieldConflict add.evaluation.source ("the " ++ field) existing.key])

def mergeTargetIdentity (existing add : TargetRecord E) : TargetRecord E × List Limitation :=
  let st := reconcile "service" (·.service) (fun t v => { t with service := v }) add (existing, [])
  let st := reconcile "domain" (·.domain) (fun t v => { t with domain := v }) add st
  let st := reconcile "contractRevision" (·.contractRevision)
    (fun t v => { t with contractRevision := v }) add st
  reconcile "digest" (·.digest) (fun t v => { t with digest := v }) add st

/-- The agreed reference, or the first one and a conflict. -/
def mergeRef (a b : String) : String × Bool :=
  if a = "" then (b, false)
  else if b = "" then (a, false)
  else if a = b then (a, false)
  else (a, true)

/-- One label of a further record.  The environment label two sources disagree
on stays dropped: no contributor can settle it. -/
def mergeLabel (source : String) (st : TargetRecord E × List Limitation)
    (label : (_ : String) × String) : TargetRecord E × List Limitation :=
  let (existing, lims) := st
  let ⟨k, v⟩ := label
  if k = targetEnvironmentLabel ∧ existing.environmentConflict then (existing, lims)
  else
    match existing.labels.lookup k with
    | some cur =>
      if cur ≠ v then
        (if k = targetEnvironmentLabel then
          { existing with
            environment := "", environmentConflict := true, labels := existing.labels.erase k }
        else existing,
          lims ++ [fieldConflict source ("label " ++ k) existing.key])
      else ({ existing with labels := existing.labels.insert k v }, lims)
    | none =>
      (if k = targetEnvironmentLabel then
        { existing with environment := v, labels := existing.labels.insert k v }
      else { existing with labels := existing.labels.insert k v }, lims)

def mergeTargetLabels (existing add : TargetRecord E) : TargetRecord E × List Limitation :=
  add.labels.entries.foldl (mergeLabel add.evaluation.source) (existing, [])

/-- Whether `a` is a fresher observation than `b`, by evidence and then by
reconciliation. -/
def targetFresher (a b : Evaluation E) : Bool :=
  match a.evidenceAt, b.evidenceAt with
  | some t, some u => u < t
  | some _, none => true
  | none, some _ => false
  | none, none =>
    match a.reconciledAt, b.reconciledAt with
    | some t, some u => u < t
    | r, _ => r.isSome

/-- Folds a further record of a target into the one that is there, and reports
what the two disagree on. -/
def mergeTarget (existing add : TargetRecord E) : TargetRecord E × List Limitation :=
  let source := add.evaluation.source
  let t := { existing with sources := appendUnique existing.sources source }
  let (t, identity) := mergeTargetIdentity t add
  let (ref, conflict) := mergeRef t.resolvedRef add.resolvedRef
  let (t, refs) : TargetRecord E × List Limitation :=
    if conflict then
      ({ t with quarantined := true },
        [{ code := "TARGET_REFERENCE_CONFLICT", source := source
           message := "sources disagree on the resolved reference of target " ++ t.key }])
    else ({ t with resolvedRef := ref }, [])
  let (t, labels) := mergeTargetLabels t add
  let t := { t with
    owner := if t.owner = {} then add.owner else t.owner
    reportedDomains := add.reportedDomains.foldl appendUnique t.reportedDomains
    domainKnown := t.domainKnown || add.domainKnown
    reportedOfferings := add.reportedOfferings.foldl appendUnique t.reportedOfferings
    reportedSummaries := add.reportedSummaries.foldl appendUnique t.reportedSummaries
    evaluation := if targetFresher add.evaluation t.evaluation then add.evaluation else t.evaluation
    limitations := t.limitations ++ add.limitations }
  (t, identity ++ refs ++ labels)

/-- The record of a target once all its contributions are merged in order. -/
def mergeTargets (first : TargetRecord E) (rest : List (TargetRecord E)) : TargetRecord E :=
  rest.foldl (fun t add => (mergeTarget t add).1) first

end Pacto.Fleet
