import Mathlib.Data.List.Dedup
import Mathlib.Data.List.Sort
import Pacto.Delivery.Record

/-!
# What planning reads

The contracts on both sides of a pointer move, the answers of the packages
planning asks (`pkg/diff`, `pkg/impact`, `pkg/validation`, `pkg/fleet`) and the
input `PlanFor` is given.

The functions of those packages are fields of `Packages`: planning is proved
correct for whatever they answer.  The one section of `diff.Compare` that a
gate reads by path, the owner section, is embedded.
-/

namespace Pacto.Delivery

/-! ## Contracts -/

/-- One ownership or escalation contact. -/
structure OwnerContact where
  type : String
  value : String
  purpose : String := ""
  deriving DecidableEq, Repr

/-- The ownership block of a service. -/
structure Owner where
  team : String := ""
  dri : String := ""
  contacts : List OwnerContact := []
  deriving DecidableEq, Repr

def Owner.displayString (o : Owner) : String := orElse o.team o.dri

/-- One environment a contract declares. -/
structure Environment where
  name : String
  deriving DecidableEq, Repr

/-- One check a contract ships. -/
structure Check where
  name : String
  file : String
  deriving DecidableEq, Repr

/-- A contract: the parts planning reads, and the text of the rest. -/
structure Contract where
  serviceName : String
  version : String := ""
  owner : Owner := {}
  environments : List Environment := []
  checks : List Check := []
  document : String := ""
  deriving DecidableEq, Repr

/-- The files a bundle carries, by path. -/
def Files : Type := List (String × String)
  deriving DecidableEq, Repr

/-- A contract and the files published with it. -/
structure Bundle where
  contract : Contract
  files : Option Files := none
  deriving DecidableEq, Repr

theorem ne_empty_of_absent {α : Type} {s : String} (h : (none : Option α) ≠ none) : s ≠ "" :=
  absurd rfl h

/-- One side of a pointer move: the artifact digest and, when it could be
read, the contract it carries.  Only an artifact that names a contract has
one, and an empty Stage has none. -/
structure Revision where
  digest : String := ""
  contractRef : String := ""
  bundle : Option Bundle := none
  configRefs : List (String × String) := []
  err : String := ""
  noContract : Bool := false
  digest_ne : bundle ≠ none → digest ≠ "" := by
    first | exact Pacto.Delivery.ne_empty_of_absent | simp
  contractRef_ne : bundle ≠ none → contractRef ≠ "" := by
    first | exact Pacto.Delivery.ne_empty_of_absent | simp
  deriving DecidableEq, Repr

/-! ## Answers of other packages -/

/-- The severity of a change. -/
inductive Classification where
  | nonBreaking
  | potentialBreaking
  | breaking
  deriving DecidableEq, Repr

/-- The classification's code, as citations keep it. -/
def Classification.text : Classification → String
  | .nonBreaking => "NON_BREAKING"
  | .potentialBreaking => "POTENTIAL_BREAKING"
  | .breaking => "BREAKING"

/-- The classification in plain words, for messages. -/
def Classification.words : Classification → String
  | .nonBreaking => "Non-breaking"
  | .potentialBreaking => "May break"
  | .breaking => "Breaking"

/-- How a field changed. -/
inductive ChangeType where
  | added
  | removed
  | modified
  deriving DecidableEq, Repr

/-- The change type as reasons write it. -/
def ChangeType.text : ChangeType → String
  | .added => "added"
  | .removed => "removed"
  | .modified => "modified"

/-- One change between two contracts. -/
structure Change where
  path : String
  reason : String
  classification : Classification
  deriving DecidableEq, Repr

/-- A consumer's declared range against the new version. -/
inductive Compatibility where
  | compatible
  | incompatible
  | unknown
  deriving DecidableEq, Repr

/-- One service a change reaches. -/
structure AffectedConsumer where
  service : String
  domain : String := ""
  direct : Bool := true
  owner : String := ""
  required : Bool := false
  compatibility : String := ""
  compatibilityVerdict : Compatibility
  confidenceUnknown : Bool := false
  uncontracted : Bool := false
  unmet : List String := []
  deriving DecidableEq, Repr

/-- The answer of `impact.Analyze`. -/
structure ImpactResult where
  classification : Classification
  complete : Bool
  snapshotID : String := ""
  oldVersion : String := ""
  newVersion : String := ""
  consumers : List AffectedConsumer := []
  limitations : List String := []
  deriving DecidableEq, Repr

def ImpactResult.completeness (res : ImpactResult) : String :=
  if res.complete then "complete" else "partial"

/-- One finding of the environments stage of `pacto validate`. -/
structure Finding where
  path : String
  file : String := ""
  line : Nat := 0
  code : String
  message : String
  deriving DecidableEq, Repr

/-- One edge of the operational graph. -/
structure Relationship where
  fromService : String
  «to» : String
  dependency : Bool
  declared : Bool
  resolved : Bool
  external : Bool
  requestedRef : String := ""
  deriving DecidableEq, Repr

/-- One target of the graph: the service it runs and its limitations, by code
and message. -/
structure Target where
  serviceKey : String
  limitations : List (String × String) := []
  deriving DecidableEq, Repr

/-- The operational graph the impact gate projects onto.  A service maps to
what each of its revisions says about guarantees that could not be read. -/
structure Snapshot where
  relationships : List Relationship := []
  targets : List Target := []
  services : List (String × List String) := []
  deriving DecidableEq, Repr

/-- A Pacto whose environment label no Stage declares. -/
structure Misplaced where
  service : String
  note : String
  deriving DecidableEq, Repr

/-! ## The input of a plan -/

/-- Everything `PlanFor` reads. -/
structure PlanInput where
  spec : OperationSpec
  stage : StageSpec
  status : StageStatus
  «from» : Revision
  «to» : Revision
  snapshot : Option Snapshot := none
  cls : ActorClass
  requireOwnerTeam : Bool := true
  upstream : Option StageStatus := none
  upstreamErr : String := ""
  misplaced : List Misplaced := []
  evalProviders : List String := []

/-- The functions of other packages that planning calls: the hashes, the
sections of `diff.Compare` around the owner, the impact analysis, the bump
check, the environments stage, the suite digest, the service keys and the
order in which blocked consumers move. -/
structure Packages where
  intentDigest : OperationSpec → StageSpec → String
  impactDigest : ImpactResult → String
  changesBeforeOwner : Bundle → Bundle → List Change
  changesAfterOwner : Bundle → Bundle → List Change
  analyze : Bundle → Bundle → Option Snapshot → String → ImpactResult
  bumpError : Classification → String → String → Option (String × String)
  environmentStage : Contract → Option Files → List (String × String) → List Finding × List Finding
  suiteDigest : Files → String → Except String String
  ociDomain : String → String
  serviceKey : String → String → String
  serviceName : String → String
  orderFor : PlanInput → ImpactResult → List AffectedConsumer → List String → Order

/-! ## The owner section of the diff -/

/-- `strChangeType`: added when it was empty, removed when it is now. -/
def strChangeType (old new : String) : ChangeType :=
  if old = "" then .added else if new = "" then .removed else .modified

/-- `newChange` for a field of the ownership block, which no consumer reads. -/
def ownerChange (path : String) (type : ChangeType) : Change :=
  { path := path, reason := path ++ " " ++ type.text, classification := .nonBreaking }

def OwnerContact.key (c : OwnerContact) : String := c.type ++ ":" ++ c.value

def contactKeys (contacts : List OwnerContact) : List String :=
  (contacts.map (·.key)).dedup.insertionSort (· ≤ ·)

/-- The contact `indexContacts` holds under a key: the last one declared. -/
def contactAt (contacts : List OwnerContact) (key : String) : Option OwnerContact :=
  contacts.reverse.find? (·.key = key)

def contactPath (key : String) : String := "service.owner.contacts[" ++ key ++ "]"

/-- `diffContacts`: the contacts that went or changed purpose, then the ones
that came. -/
def diffContacts (old new : List OwnerContact) : List Change :=
  ((contactKeys old).filterMap fun key =>
      match contactAt new key with
      | none => some (ownerChange (contactPath key) .removed)
      | some n =>
        if (contactAt old key).map (·.purpose) = some n.purpose then none
        else some (ownerChange (contactPath key) .modified)) ++
    ((contactKeys new).filter fun key => (contactAt old key).isNone).map fun key =>
      ownerChange (contactPath key) .added

/-- `diffOwner` emits one change for each part of the ownership block that
changed. -/
def diffOwner (old new : Owner) : List Change :=
  (if old.team ≠ new.team then
      [ownerChange "service.owner.team" (strChangeType old.team new.team)] else []) ++
    (if old.dri ≠ new.dri then
      [ownerChange "service.owner.dri" (strChangeType old.dri new.dri)] else []) ++
    diffContacts old.contacts new.contacts

def Packages.compare (pkg : Packages) (old new : Bundle) : List Change :=
  pkg.changesBeforeOwner old new ++ diffOwner old.contract.owner new.contract.owner ++
    pkg.changesAfterOwner old new

def Classification.worse : Classification → Classification → Classification
  | .breaking, _ => .breaking
  | _, .breaking => .breaking
  | .potentialBreaking, _ => .potentialBreaking
  | _, .potentialBreaking => .potentialBreaking
  | .nonBreaking, .nonBreaking => .nonBreaking

def overallClassification (changes : List Change) : Classification :=
  changes.foldl (fun worst c => worst.worse c.classification) .nonBreaking

/-- Packages that find nothing: no change, no consumer and no finding. -/
def quietPackages : Packages where
  intentDigest _ _ := "sha256:intent"
  impactDigest _ := "sha256:impact"
  changesBeforeOwner _ _ := []
  changesAfterOwner _ _ := []
  analyze _ _ _ _ := { classification := .nonBreaking, complete := true }
  bumpError _ _ _ := none
  environmentStage _ _ _ := ([], [])
  suiteDigest _ _ := .error "no files"
  ociDomain _ := ""
  serviceKey _ name := name
  serviceName key := key
  orderFor _ _ _ _ := {}

end Pacto.Delivery
