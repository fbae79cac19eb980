import Pacto.Support.Attempt
import Pacto.Diff.Bump

/-!
# Publishing a version

`pkg/publish`: what a contract's publish section declares is built, pushed by
digest, signed and tagged with the contract's version, never over an existing
tag.  A run first plans from what the registry holds and then writes what is
absent.  Every call of the registry or of a tool may fail, and a write that
failed may have taken effect.

The registry answers what was written to it, and a signature verifies exactly
when it was made.  The builds that ran are kept beside the registry, with the
environment each was given: nothing reads them.
-/

namespace Pacto.Publish

open Support Diff
open Delivery (Classification)

/-! ## The publish section -/

inductive ArtifactType where
  | image
  | chart
  | manifests
  deriving DecidableEq, Repr

/-- `PublishArtifact`: one artifact a service publishes.  Of its builder only
whether it is a Dockerfile is read. -/
structure Artifact where
  name : String
  type : ArtifactType
  ref : String
  sbom : String := ""
  dockerfile : Bool := false
  deriving DecidableEq, Repr

/-- `PublishSign`: how every published digest is signed. -/
structure Sign where
  key : String := ""
  kms : String := ""
  identity : String := ""
  transparencyLog : Option Bool := none
  deriving DecidableEq, Repr

/-- `contract.Publish`, as validation lets it through: names are unique and the
deploy artifact is one of manifests. -/
structure Section where
  bundle : String
  deploy : String := ""
  artifacts : List Artifact := []
  sign : Option Sign := none
  names_nodup : (artifacts.map (·.name)).Nodup := by decide
  deploy_manifests : deploy ≠ "" → ∃ a ∈ artifacts, a.name = deploy ∧ a.type = .manifests := by
    decide
  deriving DecidableEq, Repr

/-- A bundle: the fields of its contract that publishing reads, and the rest of
the contract with the files. -/
structure Bundle (C : Type) where
  service : String
  version : String
  publish : Option Section := none
  content : C

/-- What publishing asks of other packages: versions, the
classification of `diff.Compare` and the hash a bundle packs to. -/
structure Packages (C : Type) where
  semver : Semver
  compare : Bundle C → Bundle C → Classification
  bundleHash : Bundle C → String

/-- A digest as registries write it. -/
def digestOf (hash : String) : String := "sha256:" ++ hash

def Packages.bundleDigest {C : Type} (pkg : Packages C) (b : Bundle C) : String :=
  digestOf (pkg.bundleHash b)

/-- `Repo`: a publish ref without its scheme. -/
def repo (ref : String) : String :=
  match ref.dropPrefix? "oci://" with
  | some rest => rest.toString
  | none => ref

/-! ## The registry -/

/-- What a manifest says: its annotations and, of a bundle, the bundle. -/
structure Manifest (C : Type) where
  annotations : List (String × String) := []
  bundle : Option (Bundle C) := none

/-- `Remote`: what a tag points at. -/
structure Remote where
  digest : String
  annotations : List (String × String)

def Remote.annotation (r : Remote) (name : String) : String := (r.annotations.lookup name).getD ""

/-- A registry: manifests by repository and digest, tags by repository, the
referrers of a manifest by their type and what carries a valid signature.  A tag
and a referrer name a manifest that is there. -/
structure Registry (C : Type) where
  manifests : List ((String × String) × Manifest C) := []
  tags : List ((String × String) × String) := []
  referrers : List ((String × String × String) × String) := []
  signed : List (String × String) := []
  tag_exists : ∀ e ∈ tags, (manifests.lookup (e.1.1, e.2)).isSome = true := by decide
  referrer_exists : ∀ e ∈ referrers, (manifests.lookup (e.1.1, e.2)).isSome = true := by decide

namespace Registry

variable {C : Type}

def holds (r : Registry C) (repo digest : String) : Bool :=
  (r.manifests.lookup (repo, digest)).isSome

/-- The digest a tag points at. -/
def tag (r : Registry C) (repo tag : String) : Option String := r.tags.lookup (repo, tag)

def head (r : Registry C) (repo tag : String) : Option Remote := do
  let digest ← r.tag repo tag
  let manifest ← r.manifests.lookup (repo, digest)
  pure { digest, annotations := manifest.annotations }

def listTags (r : Registry C) (repo : String) : List String :=
  (r.tags.filter fun e => e.1.1 = repo).map fun e => e.1.2

def pull (r : Registry C) (repo tag : String) : Option (Bundle C) := do
  let digest ← r.tag repo tag
  let manifest ← r.manifests.lookup (repo, digest)
  manifest.bundle

def referrersOf (r : Registry C) (repo digest type : String) : List String :=
  (r.referrers.filter fun e => e.1 = (repo, digest, type)).map (·.2)

/-- `Verify`: what is wrong with the signature of `repo@digest`, if anything. -/
def verify (r : Registry C) (repo digest : String) : Option String :=
  if (repo, digest) ∈ r.signed then none else some "no signature"

theorem lookup_cons_isSome {l : List ((String × String) × Manifest C)} {k k' : String × String}
    {m : Manifest C} (h : (l.lookup k).isSome = true) :
    (((k', m) :: l).lookup k).isSome = true := by
  rw [List.lookup_cons]
  split
  · rfl
  · exact h

/-- `Write` by digest.  A digest names its content, so a manifest that is there
stays. -/
def write (r : Registry C) (repo digest : String) (m : Manifest C) : Registry C :=
  if r.holds repo digest then r
  else
    { r with
      manifests := ((repo, digest), m) :: r.manifests
      tag_exists := fun e he => lookup_cons_isSome (r.tag_exists e he)
      referrer_exists := fun e he => lookup_cons_isSome (r.referrer_exists e he) }

/-- `Tag`, over whatever the tag held. -/
def setTag (r : Registry C) (repo digest tag : String) : Registry C :=
  if h : r.holds repo digest = true then
    { r with
      tags := ((repo, tag), digest) :: r.tags.filter fun e => e.1 ≠ (repo, tag)
      tag_exists := by
        intro e he
        rcases List.mem_cons.mp he with rfl | he
        · exact h
        · exact r.tag_exists e (List.mem_filter.mp he).1 }
  else r

theorem holds_write (r : Registry C) (repo digest : String) (m : Manifest C) :
    (r.write repo digest m).holds repo digest = true := by
  unfold write
  split
  · next h => exact h
  · simp [holds]

def attach (r : Registry C) (repo digest type referrer : String) (m : Manifest C) : Registry C :=
  { r.write repo referrer m with
    referrers := (r.write repo referrer m).referrers ++ [((repo, digest, type), referrer)]
    referrer_exists := by
      intro e he
      rcases List.mem_append.mp he with he | he
      · exact (r.write repo referrer m).referrer_exists e he
      · cases List.mem_singleton.mp he
        exact holds_write r repo referrer m }

def sign (r : Registry C) (repo digest : String) : Registry C :=
  { r with signed := (repo, digest) :: r.signed }

end Registry

/-! ## Calls -/

/-- What one call of the registry or of a tool answers: an error, whether a
write that failed took effect all the same, and the hash of what a tool made. -/
structure Answer where
  err : Option String := none
  took : Bool := false
  hash : String := ""
  deriving DecidableEq, Repr, Inhabited

/-- A build that ran: the artifact, the digest of what it wrote and the
environment it was given, without the directory it writes to. -/
structure Build where
  artifact : String
  digest : String
  env : List String
  deriving DecidableEq, Repr

/-- `State`: what the registry holds for one artifact's tag. -/
inductive State where
  | absent
  | identical
  | adopt
  | conflict
  | unreadable
  deriving DecidableEq, Repr

def State.text : State → String
  | .absent => "absent"
  | .identical => "identical"
  | .adopt => "adopt"
  | .conflict => "conflict"
  | .unreadable => "unreadable"

/-- `Item`: one thing publish writes.  Its ref is the repository with the
plan's version as the tag. -/
structure Item where
  name : String
  repo : String
  state : State
  digest : String := ""
  reason : String := ""
  deriving DecidableEq, Repr

/-- `Check`: one of Pacto's own checks. -/
structure Check where
  name : String
  passed : Bool := false
  message : String := ""
  deriving DecidableEq, Repr

/-- `Plan`: what publishing this version would do.  The items stand beside the
artifacts they are about, the bundle's apart. -/
structure Plan where
  service : String := ""
  version : String := ""
  revision : String := ""
  baseline : String := ""
  classification : String := ""
  requiredBump : Option Bump := none
  checks : List Check := []
  artifacts : List (Artifact × Item) := []
  bundle : Option Item := none
  ready : Bool := false
  missing : Nat := 0

/-- `Plan.Items`: the artifacts in declaration order, then the bundle. -/
def Plan.items (p : Plan) : List Item := p.artifacts.map (·.2) ++ p.bundle.toList

/-- `Input`: a validated bundle, where it was built from and the caller's
checks. -/
structure Input (C : Type) where
  bundle : Bundle C
  revision : String := ""
  checks : List Check := []
  preflight : Plan → List Check := fun _ => []

/-- `Result`: what a publish did. -/
structure Result where
  plan : Plan := {}
  actions : List String := []
  digests : List (String × String) := []
  sboms : List (String × String) := []
  deploy : String := ""

/-- One run of `Apply`: the registry it writes to, the builds that ran and what
`applier` carries, the result so far and the tags it still owes. -/
structure Run (C : Type) where
  registry : Registry C
  builds : List Build := []
  res : Result := {}
  tags : List (String × String) := []
  deployTag : Option (String × String) := none

variable {C : Type}

abbrev Step (C α : Type) : Type := Attempt Answer (Run C) String α

open Attempt

def look {α : Type} (f : Registry C → α) : Step C α := do
  let a ← ask
  match a.err with
  | some e => fail e
  | none => read fun s => f s.registry

/-- A call that writes to the registry. -/
def put (f : Registry C → Registry C) : Step C Unit := do
  let a ← ask
  match a.err with
  | none => modify fun s => { s with registry := f s.registry }
  | some e => do
    if a.took then modify fun s => { s with registry := f s.registry }
    fail e

/-- A tool that makes something and says its digest. -/
def make : Step C String := do
  let a ← ask
  match a.err with
  | some e => fail e
  | none => pure (digestOf a.hash)

def act (line : String) : Step C Unit :=
  modify fun s => { s with res := { s.res with actions := s.res.actions ++ [line] } }

/-! ## The plan -/

def annotationVersion : String := "org.opencontainers.image.version"

def annotationRevision : String := "org.opencontainers.image.revision"

def annotationContract : String := "delivery.pacto.trianalab.io/contract"

/-- `BundleItem`: the name the contract bundle has among the items. -/
def bundleItem : String := "bundle"

/-- `NextVersion`: what to do about a tag publish will not write over. -/
def nextVersion : String := ": publish a higher service.version"

/-- What a manifest says of its provenance. -/
def provenance (r : Remote) : List String :=
  (if r.annotation annotationVersion = "" then []
    else ["version " ++ r.annotation annotationVersion]) ++
  (if r.annotation annotationRevision = "" then []
    else ["revision " ++ r.annotation annotationRevision])

def decideState (remote : Except String (Option Remote)) (digest version revision : String) :
    State × String :=
  match remote with
  | .error e => (.unreadable, "the registry could not be read: " ++ e)
  | .ok none => (.absent, "")
  | .ok (some r) =>
    if digest ≠ "" ∧ r.digest = digest then (.identical, "")
    else if revision ≠ "" ∧ r.annotation annotationRevision = revision ∧
        r.annotation annotationVersion = version then
      (.adopt,
        "its provenance says an earlier publish of this version from this revision pushed it")
    else
      (.conflict, "the tag holds " ++ r.digest ++ ", which this publish did not compute" ++
        (if provenance r = [] then ""
          else " (" ++ String.intercalate ", " (provenance r) ++ ")") ++
        "; it is never overwritten" ++ nextVersion)

def item (name repo : String) (decision : State × String)
    (remote : Except String (Option Remote)) : Item :=
  { name, repo, state := decision.1, reason := decision.2
    digest := match remote with
      | .ok (some r) => r.digest
      | _ => "" }

def signMethod (s : Sign) : String :=
  if s.key ≠ "" then "key " ++ s.key
  else if s.kms ≠ "" then "kms " ++ s.kms
  else "keyless as " ++ s.identity

def signCheck (pub : Section) : Check :=
  match pub.sign with
  | none =>
    { name := "sign"
      message := "publish.sign is not configured; everything published is signed, so publish " ++
        "refuses" }
  | some s =>
    if s.key = "" ∧ s.kms = "" ∧ s.transparencyLog = some false then
      { name := "sign"
        message := "keyless signing needs the transparency log: a short-lived certificate " ++
          "verifies only at the time the log saw it" }
    else
      { name := "sign", passed := true
        message := "signed with Sigstore (" ++ signMethod s ++ ")" }

/-- The first artifact whose repository an earlier item has, and that item. -/
def sharedRepo : List (String × String) → List Artifact → Option (String × Artifact)
  | _, [] => none
  | seen, a :: rest =>
    match seen.lookup (repo a.ref) with
    | some other => some (other, a)
    | none => sharedRepo ((repo a.ref, a.name) :: seen) rest

/-- `refsCheck` refuses two items in one repository, where they would share the
version tag. -/
def refsCheck (pub : Section) : Check :=
  match sharedRepo [(repo pub.bundle, bundleItem)] pub.artifacts with
  | some (other, a) =>
    { name := "refs"
      message := other ++ " and " ++ a.name ++ " are both published to " ++ repo a.ref ++
        ", where they would share the version tag; give each its own repository" }
  | none => { name := "refs", passed := true, message := "every item has its own repository" }

def sbomCheck (pub : Section) : Check :=
  match pub.artifacts.find? fun a => a.sbom ≠ "" && a.dockerfile with
  | some a =>
    { name := "sbom"
      message := a.name ++ " is built from a Dockerfile, which writes no SBOM file, so " ++
        a.sbom ++ " would not be this build's; build it with a command that writes the SBOM, " ++
        "or drop sbom" }
  | none =>
    { name := "sbom", passed := true
      message := "every SBOM is written by the build of its image" }

def revisionCheck (rev : String) : Check :=
  if rev = "" then
    { name := "revision"
      message := "no source revision: run inside a git checkout or pass --revision, so a publish " ++
        "that stops halfway can finish" }
  else { name := "revision", passed := true, message := "source revision " ++ rev }

section Versions

variable (semver : Semver)

/-- `semver.Filter`: the versions among the tags, newest first. -/
def filterVersions (tags : List String) : List String :=
  ((tags.filterMap fun t => (semver.newVersion t).map (t, ·)).insertionSort
    fun a b => semver.atLeast a.2 b.2).map (·.1)

/-- `semver.Compare`. -/
def compareVersions (a b : String) : Ordering :=
  match semver.newVersion a, semver.newVersion b with
  | some v, some w => semver.compare v w
  | some _, none => .lt
  | none, some _ => .gt
  | none, none => .eq

/-- `prerelease`: the tag is a release candidate. -/
def prerelease (t : String) : Bool := (semver.newVersion t).any (·.prerelease ≠ "")

/-- The loop of `versionCheck` over the published versions, newest first: the
highest one below `version`, and when that is a candidate the highest final one
before it. -/
def basesFrom (version : String) : List String → List String → List String
  | bases, [] => bases
  | bases, t :: rest =>
    if compareVersions semver t version ≠ .lt then basesFrom version bases rest
    else
      let bases := if bases = [] || !prerelease semver t then t :: bases else bases
      if prerelease semver t then basesFrom version bases rest else bases

end Versions

/-- `bumpCheck`: the version rule against one published version, which it
records as the plan's baseline. -/
def bumpCheck (pkg : Packages C) (b : Bundle C) (repo : String) (p : Plan) (baseline : String) :
    Step C (Check × Plan) := do
  let base ← outcome (do
    match ← look (·.pull repo baseline) with
    | some base => pure base
    | none => fail ("invalid bundle " ++ repo ++ ":" ++ baseline) : Step C (Bundle C))
  match base with
  | .error e =>
    pure ({ name := "version"
            message := "the published " ++ baseline ++ " could not be read: " ++ e },
          { p with baseline, classification := "", requiredBump := none })
  | .ok base =>
    let c := pkg.compare base b
    let need := requiredBump pkg.semver c baseline
    let p := { p with baseline, classification := c.text, requiredBump := some need }
    match checkBump pkg.semver baseline b.version need with
    | some e =>
      pure ({ name := "version", message := c.text ++ " since " ++ baseline ++ ": " ++ e }, p)
    | none =>
      pure ({ name := "version", passed := true
              message := c.text ++ " since " ++ baseline ++ " needs a " ++ need.text ++
                " bump" ++
                (if c = .potentialBreaking then
                  "; Pacto could not tell whether it breaks a consumer, so a minor is enough"
                else "") }, p)

/-- The version rule against each base, up to the first it refuses. -/
def bumpChecks (pkg : Packages C) (b : Bundle C) (repo : String) :
    Check × Plan → List String → Step C (Check × Plan)
  | last, [] => pure last
  | last, base :: rest => do
    let (ch, p) ← bumpCheck pkg b repo last.2 base
    if ch.passed then bumpChecks pkg b repo (ch, p) rest else pure (ch, p)

/-- `versionCheck`: the change from the highest published version below this
one decides the smallest bump allowed, and from the highest final release below
it too. -/
def versionCheck (pkg : Packages C) (b : Bundle C) (repo : String) (p : Plan) :
    Step C (Check × Plan) := do
  match ← outcome (look (·.listTags repo)) with
  | .error e =>
    pure ({ name := "version"
            message := "the published versions could not be listed: " ++ e }, p)
  | .ok tags =>
    match basesFrom pkg.semver b.version [] (filterVersions pkg.semver tags) with
    | [] =>
      pure ({ name := "version", passed := true
              message := "no earlier version is published, so any version is accepted" }, p)
    | bases => bumpChecks pkg b repo ({ name := "version" }, p) bases

/-- The item of one artifact: what its tag holds. -/
def artifactItem (inp : Input C) (a : Artifact) : Step C Item := do
  let remote ← outcome (look (·.head (repo a.ref) inp.bundle.version))
  pure (item a.name (repo a.ref)
    (decideState remote "" inp.bundle.version inp.revision) remote)

def bundleItemOf (pkg : Packages C) (inp : Input C) (pub : Section) : Step C Item := do
  let packed ← outcome (look fun _ => pkg.bundleDigest inp.bundle)
  let remote ← outcome (look (·.head (repo pub.bundle) inp.bundle.version))
  match packed with
  | .error e =>
    pure (item bundleItem (repo pub.bundle)
      (.unreadable, "the bundle could not be packed: " ++ e) remote)
  | .ok digest =>
    let it := item bundleItem (repo pub.bundle)
      (decideState remote digest inp.bundle.version "") remote
    pure (if it.state = .absent then { it with digest } else it)

def Plan.withItems (p : Plan) (artifacts : List (Artifact × Item)) (bundle : Item) : Plan :=
  let p := { p with artifacts, bundle := some bundle }
  { p with
    ready := p.items.all fun it => it.state ≠ .conflict && it.state ≠ .unreadable
    missing := (p.items.filter fun it => it.state = .absent).length }

/-- The caller's last checks, and the checks' say. -/
def Plan.withPreflight (p : Plan) (preflight : Plan → List Check) : Plan :=
  { p with
    checks := p.checks ++ preflight p
    ready := p.ready && (p.checks ++ preflight p).all (·.passed) }

/-- `MakePlan` runs Pacto's checks and decides every item against the registry.
It writes nothing. -/
def makePlan (pkg : Packages C) (inp : Input C) : Step C Plan := do
  let p : Plan :=
    { service := inp.bundle.service, version := inp.bundle.version, revision := inp.revision
      checks := inp.checks }
  match inp.bundle.publish with
  | none =>
    pure { p with
      checks := p.checks ++
        [{ name := "publish"
           message := "the contract declares no publish section (pactoVersion 2.1)" }] }
  | some pub => do
    let (version, p) ← versionCheck pkg inp.bundle (repo pub.bundle) p
    let p := { p with
      checks := p.checks ++
        [signCheck pub, refsCheck pub, sbomCheck pub, revisionCheck inp.revision, version] }
    let artifacts ← loop (fun items a => do
      let it ← artifactItem inp a
      pure (items ++ [(a, it)])) [] pub.artifacts
    let bundle ← bundleItemOf pkg inp pub
    pure ((p.withItems artifacts bundle).withPreflight inp.preflight)

/-! ## Apply -/

/-- An adopted item whose digest carries no signature is a conflict: anyone who
can push can write its annotations. -/
def adoptItem (r : Registry C) (it : Item) : Item :=
  if it.state = .adopt then
    match r.verify it.repo it.digest with
    | none => it
    | some e =>
      { it with
        state := .conflict
        reason := "the tag holds " ++ it.digest ++ " with this version's provenance, but no " ++
          "signature by the configured identity, so Pacto did not publish it; it is never " ++
          "signed or overwritten (" ++ e ++ ")" ++ nextVersion }
  else it

def adoptOnlySigned (r : Registry C) (p : Plan) : Plan :=
  { p with
    artifacts := p.artifacts.map fun ai => (ai.1, adoptItem r ai.2)
    bundle := p.bundle.map (adoptItem r)
    ready := p.ready && p.items.all fun it => (adoptItem r it).state ≠ .conflict }

def refusal (p : Plan) : String :=
  match p.checks.find? (!·.passed) with
  | some c => c.name ++ ": " ++ c.message
  | none =>
    match p.items.find? fun it => it.state = .conflict || it.state = .unreadable with
    | some it =>
      it.repo ++ ":" ++ p.version ++ " is " ++ it.state.text ++ ": " ++ it.reason
    | none => "not ready"

/-- `envName`: the environment variable suffix of an artifact name. -/
def envName (name : String) : String :=
  (name.map fun c => if c = '-' then '_' else c).toUpper

def contractRef (bundleRepo digest : String) : String := "oci://" ++ bundleRepo ++ "@" ++ digest

/-- What a build is told about an artifact built before it. -/
def envOf (a : Artifact) (digest : String) : List String :=
  ["PACTO_DIGEST_" ++ envName a.name ++ "=" ++ digest,
   "PACTO_REF_" ++ envName a.name ++ "=" ++ repo a.ref]

def sbomType (path : String) : String :=
  if path.endsWith ".cdx.json" then "application/vnd.cyclonedx+json"
  else "application/spdx+json"

/-- `owe` records a tag to write once everything is signed. -/
def owe (deploy : Bool) (repo digest : String) : Step C Unit :=
  modify fun s =>
    if deploy then { s with deployTag := some (repo, digest) }
    else { s with tags := s.tags ++ [(repo, digest)] }

/-- `buildAndPush` runs the builder and pushes what it wrote by digest. -/
def buildAndPush (a : Artifact) (env : List String) (ann : List (String × String)) :
    Step C String := do
  let digest ← make
  modify fun s => { s with builds := { artifact := a.name, digest, env } :: s.builds }
  inContext ("pushing: " ++ ·) (put (·.write (repo a.ref) digest { annotations := ann }))
  pure digest

def attachSBOM (path repo digest version revision : String) : Step C String := do
  let there ← look (·.referrersOf repo digest (sbomType path))
  let signed ← read fun s => there.find? fun h => s.registry.verify repo h = none
  match signed with
  | some h => pure h
  | none => do
    let found ← look (·.holds repo digest)
    demand found ("reading " ++ repo ++ "@" ++ digest ++ " back")
    let sbom ← make
    put (·.attach repo digest (sbomType path) sbom
      { annotations := [(annotationVersion, version), (annotationRevision, revision)] })
    act ("attached the SBOM " ++ repo ++ "@" ++ sbom)
    pure sbom

def annotationsOf (inp : Input C) (pub : Section) (bundleDigest : String) (a : Artifact) :
    List (String × String) :=
  [(annotationVersion, inp.bundle.version), (annotationRevision, inp.revision)] ++
    if a.name = pub.deploy then [(annotationContract, contractRef (repo pub.bundle) bundleDigest)]
    else []

/-- The digest an artifact is published under: built and pushed when its tag is
absent, as the plan found it otherwise. -/
def obtain (inp : Input C) (pub : Section) (bundleDigest : String) (env : List String)
    (a : Artifact) (it : Item) : Step C String :=
  if it.state = .absent then do
    let digest ← inContext (a.name ++ ": " ++ ·)
      (buildAndPush a env (annotationsOf inp pub bundleDigest a))
    act ("pushed " ++ a.name ++ " " ++ repo a.ref ++ "@" ++ digest)
    owe (a.name = pub.deploy) (repo a.ref) digest
    pure digest
  else pure it.digest

def note (pub : Section) (a : Artifact) (digest : String) : Step C Unit :=
  modify fun s =>
    { s with
      res := { s.res with
        digests := (a.name, digest) :: s.res.digests
        deploy := if a.name = pub.deploy then repo a.ref ++ "@" ++ digest else s.res.deploy } }

def attachDeclared (inp : Input C) (a : Artifact) (digest : String) : Step C Unit :=
  if a.sbom = "" then pure ()
  else do
    let sbom ← inContext ("SBOM of " ++ a.name ++ ": " ++ ·)
      (attachSBOM a.sbom (repo a.ref) digest inp.bundle.version inp.revision)
    modify fun s => { s with res := { s.res with sboms := (a.name, sbom) :: s.res.sboms } }

/-- One artifact's part of `artifacts`, with the environment of the next. -/
def artifactStep (inp : Input C) (pub : Section) (bundleDigest : String) (env : List String)
    (ai : Artifact × Item) : Step C (List String) := do
  let digest ← obtain inp pub bundleDigest env ai.1 ai.2
  note pub ai.1 digest
  attachDeclared inp ai.1 digest
  pure (env ++ envOf ai.1 digest)

/-- What every build is told. -/
def baseEnv (inp : Input C) : List String :=
  ["PACTO_VERSION=" ++ inp.bundle.version, "PACTO_REVISION=" ++ inp.revision]

/-- `bundle` pushes the contract bundle by the digest the plan computed.  It is
packed again first: a build may have written into the contract directory. -/
def pushBundle (inp : Input C) (pub : Section) (it : Item) : Step C Unit := do
  modify fun s =>
    { s with res := { s.res with digests := (bundleItem, it.digest) :: s.res.digests } }
  if it.state = .absent then do
    inContext (fun now => "the contract directory changed while publishing (planned bundle " ++
      it.digest ++ ", now " ++ now ++ "); list build outputs such as the SBOM in .pactoignore")
      (look fun _ => ())
    inContext ("pushing the bundle: " ++ ·)
      (put (·.write (repo pub.bundle) it.digest { bundle := some inp.bundle }))
    act ("pushed bundle " ++ repo pub.bundle ++ "@" ++ it.digest)
    owe false (repo pub.bundle) it.digest

def signRefs (pub : Section) (res : Result) : List (String × String) :=
  (pub.artifacts.flatMap fun a =>
    let sbom := (res.sboms.lookup a.name).getD ""
    (repo a.ref, (res.digests.lookup a.name).getD "") ::
      if sbom ≠ "" then [(repo a.ref, sbom)] else []) ++
  [(repo pub.bundle, (res.digests.lookup bundleItem).getD "")]

/-- `Sign` signs `repo@digest` unless it carries a valid signature. -/
def signRef (ref : String × String) : Step C Unit := do
  let unsigned ← read fun s => (s.registry.verify ref.1 ref.2).isSome
  if unsigned then
    inContext ("signing " ++ ref.1 ++ "@" ++ ref.2 ++ ": " ++ ·) (do
      let found ← look (·.holds ref.1 ref.2)
      demand found ("reading " ++ ref.1 ++ "@" ++ ref.2 ++ " back")
      put (·.sign ref.1 ref.2))
    act ("signed " ++ ref.1 ++ "@" ++ ref.2)

def signAll (pub : Section) : Step C Unit := do
  let refs ← read fun s => signRefs pub s.res
  loop (fun _ ref => signRef ref) () refs

/-- The tag `owe` recorded: read again just before it is written. -/
def tagOwed (version : String) (owed : String × String) : Step C Unit :=
  inContext ("tagging: " ++ ·) do
    match ← look (·.head owed.1 version) with
    | none => do
      let found ← look (·.holds owed.1 owed.2)
      demand found (owed.1 ++ "@" ++ owed.2 ++ " not found")
      put (·.setTag owed.1 owed.2 version)
    | some now =>
      if now.digest ≠ owed.2 then
        fail (owed.1 ++ ":" ++ version ++ " now holds " ++ now.digest ++
          ", written while this publish ran; it is never overwritten" ++ nextVersion)

/-- The tags a run owes, the deploy artifact's last: it is the commit point. -/
def Run.owed (s : Run C) : List (String × String) := s.tags ++ s.deployTag.toList

def writeTags (version : String) : Step C Unit := do
  let tags ← read Run.owed
  loop (fun _ owed => tagOwed version owed) () tags
  if tags ≠ [] then
    act ("tagged " ++ toString tags.length ++ " artifacts " ++ version)

/-- What `Apply` does once the plan is ready. -/
def carryOut (inp : Input C) (pub : Section) (p : Plan) (bundle : Item) : Step C Unit := do
  let _ ← loop (artifactStep inp pub bundle.digest) (baseEnv inp) p.artifacts
  pushBundle inp pub bundle
  signAll pub
  writeTags p.version

def apply (pkg : Packages C) (inp : Input C) : Step C Unit := do
  let p ← makePlan pkg inp
  let p ← read fun s => if p.ready then adoptOnlySigned s.registry p else p
  modify fun s => { s with res := { s.res with plan := p } }
  match p.ready, inp.bundle.publish, p.bundle with
  | true, some pub, some bundle => carryOut inp pub p bundle
  | _, _, _ => fail ("publish refused: " ++ refusal p)

/-! ## Runs -/

/-- What a run leaves: the registry and the builds so far. -/
structure World (C : Type) where
  registry : Registry C
  builds : List Build := []

/-- One run of `Apply` in a world, with the answers its calls get. -/
def World.apply (pkg : Packages C) (inp : Input C) (w : World C) (answers : List Answer) :
    Except String Unit × Run C × List Answer :=
  Publish.apply pkg inp { registry := w.registry, builds := w.builds } answers

/-- What the run left. -/
def Run.world (s : Run C) : World C := { registry := s.registry, builds := s.builds }

/-- The world after one run. -/
def World.next (pkg : Packages C) (inp : Input C) (w : World C) (answers : List Answer) :
    World C :=
  (w.apply pkg inp answers).2.1.world

def World.after (pkg : Packages C) (inp : Input C) (w : World C) (runs : List (List Answer)) :
    World C :=
  runs.foldl (World.next pkg inp) w

end Pacto.Publish
