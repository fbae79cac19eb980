import Mathlib.Data.List.Sort
import Mathlib.Data.String.Basic

/-!
# The lock file

`pacto.lock` records the dependencies and the references a contract's closure
resolved to.  A dependency is found by its service name, a reference by its
occurrence: the contract that declares it, its kind and its name.  Marshalling
sorts both lists and stamps the current schema version.
-/

namespace Pacto.Lock

/-- The schema version this build writes. -/
def currentLockVersion : Int := 3

/-- The oldest schema version this build can still read. -/
def minLockVersion : Int := 1

/-- One resolved dependency in the closure. -/
structure Entry where
  name : String
  source : String
  ref : String := ""
  path : String := ""
  constraint : String := ""
  version : String := ""
  digest : String := ""
  contentHash : String := ""
  dependsOn : List String := []
  deriving DecidableEq, Repr

/-- The identity of one declared reference. -/
structure Occurrence where
  fromID : String
  kind : String
  name : String
  deriving DecidableEq, Repr

/-- One resolved configuration or policy declaration.  `fromID` is the content
identity of the contract that declares it, empty for the root. -/
structure Reference where
  fromID : String := ""
  kind : String := ""
  name : String := ""
  source : String
  ref : String := ""
  path : String := ""
  version : String := ""
  digest : String := ""
  contentHash : String := ""
  deriving DecidableEq, Repr

def Reference.occurrence (r : Reference) : Occurrence := ⟨r.fromID, r.kind, r.name⟩

/-- The content identity of the bundle a reference resolved to, in the
namespace of `fromID`. -/
def Reference.destinationID (r : Reference) : String :=
  if r.source = "local" then
    if r.contentHash = "" then "" else "local:" ++ r.contentHash
  else if r.source = "oci" then
    if r.digest = "" then "" else "oci:" ++ r.digest
  else ""

def Entry.pins (e : Entry) : String × String := (e.digest, e.contentHash)

def Reference.pins (r : Reference) : String × String := (r.digest, r.contentHash)

/-- An entry carries the pin of its source and no other. -/
def OnePin (source digest contentHash : String) : Prop :=
  if source = "local" then digest = "" ∧ contentHash ≠ "" else digest ≠ "" ∧ contentHash = ""

instance (source digest contentHash : String) : Decidable (OnePin source digest contentHash) :=
  inferInstanceAs (Decidable
    (if source = "local" then digest = "" ∧ contentHash ≠ "" else digest ≠ "" ∧ contentHash = ""))

/-- The root document of `pacto.lock`. -/
structure LockFile where
  lockVersion : Int := currentLockVersion
  pactoVersion : String := ""
  rootName : String := ""
  rootVersion : String := ""
  dependencies : List Entry := []
  references : List Reference := []
  deriving DecidableEq, Repr

/-- The first entry with the given name. -/
def LockFile.dependency (l : LockFile) (name : String) : Option Entry :=
  l.dependencies.find? (·.name = name)

/-! ## Errors -/

inductive LockError where
  | drift (name locked current : String)
  | localDrift (name locked current : String)
  | stale (detail : String)
  | conflict (service : String)
  | unresolved (ref reason : String)
  | duplicateDeclaration (occurrence : Occurrence)
  | ambiguous (occurrence : Occurrence) (first second : String)
  | unsupported (lockVersion : Int)
  | parse (reason : String)
  deriving DecidableEq, Repr

/-- An occurrence as a reader sees it.  It is not an identity. -/
def Occurrence.text (quote : String → String) (o : Occurrence) : String :=
  -- Names are arbitrary text, which the printer quotes.
  o.kind ++ " " ++ quote o.name ++ " declared by " ++
    if o.fromID = "" then "the root contract" else o.fromID

/-! ## Writing and reading -/

/-- References are ordered by declaring contract, kind, name, ref and path. -/
def Reference.before (a b : Reference) : Bool :=
  if a.fromID ≠ b.fromID then a.fromID < b.fromID
  else if a.kind ≠ b.kind then a.kind < b.kind
  else if a.name ≠ b.name then a.name < b.name
  else if a.ref ≠ b.ref then a.ref < b.ref
  else a.path ≤ b.path

/-- The document `Marshal` writes: the current schema version, sorted entries
and sorted edges.  Entries of one name keep their order here. -/
def LockFile.sorted (l : LockFile) : LockFile :=
  { l with
    lockVersion := currentLockVersion
    dependencies := (l.dependencies.insertionSort (·.name ≤ ·.name)).map fun e =>
      { e with dependsOn := e.dependsOn.insertionSort (· ≤ ·) }
    references := l.references.insertionSort (Reference.before · ·) }

/-- A YAML printer and reader of lock documents: what is printed is read back. -/
structure Yaml (Bytes : Type) where
  encode : LockFile → Bytes
  decode : Bytes → Except String LockFile
  decode_encode : ∀ l, decode (encode l) = .ok l

/-- Documents as their own bytes. -/
def plainYaml : Yaml LockFile where
  encode := id
  decode := .ok
  decode_encode _ := rfl

variable {Bytes : Type}

def marshal (Y : Yaml Bytes) (l : LockFile) : Bytes := Y.encode l.sorted

def parse (Y : Yaml Bytes) (data : Bytes) : Except LockError LockFile :=
  match Y.decode data with
  | .error reason => .error (.parse reason)
  | .ok l =>
    if l.lockVersion < minLockVersion ∨ currentLockVersion < l.lockVersion then
      .error (.unsupported l.lockVersion)
    else .ok l

/-! ## Comparing -/

/-- Compares one pinned identity: content hash for local sources, digest
otherwise. -/
def compareEntry (name source lockedDigest lockedHash freshDigest freshHash : String) :
    Except LockError Unit :=
  if source = "local" then
    if lockedHash ≠ freshHash then .error (.localDrift name lockedHash freshHash) else .ok ()
  else
    if lockedDigest ≠ freshDigest then .error (.drift name lockedDigest freshDigest) else .ok ()

def compareDependency (existing : LockFile) (fe : Entry) : Except LockError Unit :=
  match existing.dependency fe.name with
  | none => .error (.stale ("new dependency " ++ fe.name))
  | some ee => compareEntry fe.name fe.source ee.digest ee.contentHash fe.digest fe.contentHash

/-- The last reference of an occurrence: the map keeps what was put in last. -/
def LockFile.byID (l : LockFile) (id : Occurrence) : Option Reference :=
  l.references.reverse.find? (·.occurrence = id)

def compareReference (quote : String → String) (existing : LockFile) (fr : Reference) :
    Except LockError Unit :=
  let id := fr.occurrence
  match existing.byID id with
  | none => .error (.stale ("new reference: " ++ id.text quote))
  | some er =>
    if er.source ≠ fr.source ∨ er.ref ≠ fr.ref ∨ er.path ≠ fr.path then
      .error (.stale (id.text quote ++ " now points at a different source"))
    else
      compareEntry (id.text quote) fr.source er.digest er.contentHash fr.digest fr.contentHash

/-- The first difference between a lock and a fresh one. -/
def compareLocks (quote : String → String) (existing fresh : LockFile) :
    Except LockError Unit := do
  if existing.lockVersion ≠ currentLockVersion then
    throw (.stale ("lockVersion " ++ toString existing.lockVersion ++
      " predates the current schema (" ++ toString currentLockVersion ++ ")"))
  if existing.dependencies.length ≠ fresh.dependencies.length then
    throw (.stale "dependency set changed")
  fresh.dependencies.forM (compareDependency existing)
  if existing.references.length ≠ fresh.references.length then
    throw (.stale "reference set changed")
  fresh.references.forM (compareReference quote existing)

/-! ## Updating -/

/-- The pin of the existing lock for a dependency whose constraint is unchanged
and which is not named for update. -/
def preservePin (existing : LockFile) (updateNames : List String) (fe : Entry) : Entry :=
  if fe.name ∈ updateNames then fe
  else
    match existing.dependency fe.name with
    | some ee =>
      if ee.constraint = fe.constraint then
        { fe with version := ee.version, digest := ee.digest, contentHash := ee.contentHash }
      else fe
    | none => fe

/-- Keeps existing dependency pins whose constraint is unchanged and which are
not named for update, taking everything else from the fresh lock. -/
def mergePreservingPins (existing fresh : LockFile) (updateNames : List String) : LockFile :=
  { fresh with dependencies := fresh.dependencies.map (preservePin existing updateNames) }

end Pacto.Lock
