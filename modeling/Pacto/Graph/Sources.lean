import Pacto.Support.Assoc

/-!
# Contracts and where their references point

A contract names other contracts by reference: a location in a registry, or a
directory relative to the contract that declares it.  `Sources` is what the
references of one world lead to.
-/

namespace Pacto.Graph

/-! ## Contracts -/

/-- A service another one depends on.  An external service without a contract
has no `ref`. -/
structure Dependency where
  name : String := ""
  ref : String := ""
  required : Bool := false
  external : Bool := false
  compatibility : String := ""
  version : String := ""
  deriving DecidableEq, Repr

/-- A configuration or a policy.  One with an inline schema has no `ref`. -/
structure Declaration where
  name : String
  ref : String := ""
  deriving DecidableEq, Repr

structure Contract where
  name : String
  version : String
  dependencies : List Dependency := []
  configurations : List Declaration := []
  policies : List Declaration := []
  deriving DecidableEq, Repr

/-- A contract with the files it came with. -/
structure Bundle (F : Type) where
  contract : Contract
  files : F
  deriving DecidableEq, Repr

/-- A configuration or policy declared by reference. -/
structure ReferenceRef where
  kind : String
  name : String
  ref : String
  deriving DecidableEq, Repr

def referenceRefsOf (kind : String) (declared : List Declaration) : List ReferenceRef :=
  (declared.filter (·.ref ≠ "")).map fun d => ⟨kind, d.name, d.ref⟩

def Contract.referenceRefs (c : Contract) : List ReferenceRef :=
  referenceRefsOf "policy" c.policies ++ referenceRefsOf "config" c.configurations

/-- A name declared again: the index of the repeat and of the one before it. -/
structure Duplicate where
  kind : String
  name : String
  index : Nat
  first : Nat
  deriving DecidableEq, Repr

/-- The repeats among the declarations of one kind.  The latest declaration of a
name is the one the next repeat is reported against. -/
def duplicatesOf (kind : String) : List Declaration → Nat → List (String × Nat) → List Duplicate
  | [], _, _ => []
  | d :: rest, i, seen =>
    let later := duplicatesOf kind rest (i + 1) ((d.name, i) :: seen)
    match seen.lookup d.name with
    | some first => ⟨kind, d.name, i, first⟩ :: later
    | none => later

/-- Every configuration or policy name a contract declares more than once. -/
def Contract.duplicateDeclarations (c : Contract) : List Duplicate :=
  duplicatesOf "policy" c.policies 0 [] ++ duplicatesOf "config" c.configurations 0 []

/-! ## References -/

inductive Scheme where
  | fileSystem
  | oci
  deriving DecidableEq, Repr

/-- A parsed reference: a registry location or a path. -/
structure DependencyRef where
  scheme : Scheme
  location : String
  original : String
  deriving DecidableEq, Repr

def parseDependencyRef (raw : String) : DependencyRef :=
  match raw.dropPrefix? "oci://" with
  | some location => ⟨.oci, location.toString, raw⟩
  | none =>
    match raw.dropPrefix? "file://" with
    | some location => ⟨.fileSystem, location.toString, raw⟩
    | none => ⟨.fileSystem, raw, raw⟩

def DependencyRef.isLocal (r : DependencyRef) : Bool := r.scheme = .fileSystem

/-- The base of a bundle that came from a registry. -/
def ociBase : String := "oci://"

/-! ## Directories -/

/-- The segments of a cleaned path.  The stack holds the segments kept so far,
the last one first. -/
def cleanSegments (rooted : Bool) : List String → List String → List String
  | [], stack => stack.reverse
  | segment :: rest, stack =>
    if segment = "" ∨ segment = "." then cleanSegments rooted rest stack
    else if segment = ".." then
      match stack with
      | [] => cleanSegments rooted rest (if rooted then [] else [".."])
      | top :: below =>
        cleanSegments rooted rest (if top = ".." then ".." :: top :: below else below)
    else cleanSegments rooted rest (segment :: stack)

/-- The shortest path that means the same. -/
def clean (path : String) : String :=
  let rooted := path.startsWith "/"
  let segments := (path.toList.splitOn '/').map String.ofList
  let body := "/".intercalate (cleanSegments rooted segments [])
  if rooted then "/" ++ body else if body = "" then "." else body

/-- The directory a local reference means.  Declared by a registry bundle, it
means none: a remote contract does not choose which local files are read. -/
def depLocalDir (path base : String) : Except String String :=
  if base = ociBase then
    .error ("a local reference declared inside a registry bundle cannot be resolved: " ++ path)
  else if path.startsWith "/" ∨ base = "" then .ok path
  else .ok (clean (base ++ "/" ++ path))

example : depLocalDir "../shared" "/work/a" = .ok "/work/shared" := by decide +kernel

/-! ## What references lead to -/

/-- One observation of a registry artifact. -/
structure Pinned (F : Type) where
  ref : String
  bundle : Bundle F
  digest : String

/-- The bundles of one world.  A registry answers with a bundle and its digest,
which is empty when it would not say what the tag points at.  A digest is the
address of its content, and the hash of files that of the contract among them. -/
structure Sources (F : Type) where
  loadLocalBundle : String → Except String (Bundle F)
  hashFS : F → Except String String
  resolveRef : String → String → Except String String
  pull : String → Except String (Bundle F × String)
  content_addressed : ∀ {ref ref' b b' digest}, digest ≠ "" → pull ref = .ok (b, digest) →
    pull ref' = .ok (b', digest) → b = b'
  hash_ne_empty : ∀ {files hash}, hashFS files = .ok hash → hash ≠ ""
  hash_addressed : ∀ {dir dir' b b' hash}, loadLocalBundle dir = .ok b →
    loadLocalBundle dir' = .ok b' → hashFS b.files = .ok hash → hashFS b'.files = .ok hash →
    b.contract = b'.contract

variable {F : Type} (S : Sources F)

/-- Resolves a registry location under a constraint and reads the bundle and
its digest as one observation. -/
def resolvePinned (location constraint : String) : Except String (Pinned F) :=
  match S.resolveRef location constraint with
  | .error reason => .error reason
  | .ok ref =>
    match S.pull ref with
    | .error reason => .error reason
    | .ok (bundle, digest) =>
      if digest = "" then .error ("the registry would not say what " ++ ref ++ " points at")
      else .ok ⟨ref, bundle, digest⟩

variable {S}

theorem resolvePinned_eq_ok {location constraint : String} {p : Pinned F}
    (h : resolvePinned S location constraint = .ok p) :
    S.resolveRef location constraint = .ok p.ref ∧ S.pull p.ref = .ok (p.bundle, p.digest) ∧
      p.digest ≠ "" := by
  unfold resolvePinned at h
  split at h
  · cases h
  · rename_i ref href
    split at h
    · cases h
    · rename_i bundle digest hpull
      split at h
      · cases h
      · rename_i hdigest
        cases h
        exact ⟨href, hpull, hdigest⟩

theorem bundle_eq_of_digest_eq {location location' constraint constraint' : String}
    {p p' : Pinned F} (h : resolvePinned S location constraint = .ok p)
    (h' : resolvePinned S location' constraint' = .ok p') (heq : p.digest = p'.digest) :
    p.bundle = p'.bundle := by
  obtain ⟨-, hpull, hne⟩ := resolvePinned_eq_ok h
  obtain ⟨-, hpull', -⟩ := resolvePinned_eq_ok h'
  exact S.content_addressed hne hpull (heq ▸ hpull')

theorem mem_of_elim_lookup {α : Type} {table : List (String × α)} {key err : String} {x : α}
    (h : (table.lookup key).elim (.error err) .ok = (.ok x : Except String α)) :
    (key, x) ∈ table := by
  cases hlookup : table.lookup key with
  | none => simp [hlookup] at h
  | some y =>
    rw [hlookup] at h
    cases h
    exact Support.mem_of_lookup_eq_some hlookup

/-- Bundles in directories and tagged images, each with its digest.  The hash of
a bundle's files is written for the files, and every constraint selects the one
version there is. -/
def tableSources (dirs : List (String × Bundle String))
    (images : List (String × Bundle String × String))
    (h : ∀ x ∈ images, ∀ y ∈ images, x.2.2 = y.2.2 → x.2.1 = y.2.1)
    (h' : ∀ x ∈ dirs, ∀ y ∈ dirs, x.2.files = y.2.files → x.2.contract = y.2.contract) :
    Sources String where
  loadLocalBundle path := (dirs.lookup path).elim (.error "no such directory") .ok
  hashFS files := if files = "" then .error "no files" else .ok files
  resolveRef location _ := .ok (location ++ ":1.0.0")
  pull ref := (images.lookup ref).elim (.error "not found") .ok
  content_addressed _ hb hb' := h _ (mem_of_elim_lookup hb) _ (mem_of_elim_lookup hb') rfl
  hash_ne_empty {files hash} hhash := by
    split at hhash
    · cases hhash
    · next hne =>
      cases hhash
      exact hne
  hash_addressed {dir dir' b b' hash} hb hb' hhash hhash' := by
    refine h' _ (mem_of_elim_lookup hb) _ (mem_of_elim_lookup hb') ?_
    split at hhash
    · cases hhash
    · split at hhash'
      · cases hhash'
      · exact (Except.ok.inj hhash).trans (Except.ok.inj hhash').symm

/-- Bundles in the registry only. -/
def registrySources (images : List (String × Bundle String × String))
    (h : ∀ x ∈ images, ∀ y ∈ images, x.2.2 = y.2.2 → x.2.1 = y.2.1) : Sources String :=
  tableSources [] images h nofun

/-- A service at version 1.0.0 that depends on what the references name. -/
def dependent (name : String) (refs : List String) : Contract :=
  { name := name, version := "1.0.0", dependencies := refs.map fun r => { name := r, ref := r } }

def dependentBundle (name : String) (refs : List String) : Bundle String :=
  ⟨dependent name refs, name ++ " files"⟩

end Pacto.Graph
