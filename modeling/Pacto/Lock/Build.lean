import Pacto.Graph.Tree
import Pacto.Lock.References
import Pacto.Support.Sequence

/-!
# Building a lock

`buildLock` resolves the dependency graph and walks it, each reference once, to
make an entry of every node; the references of the contract come from their own
walk.  A node whose content is on disk is pinned by the hash of its files, one
from the registry by its digest.
-/

namespace Pacto.Lock

open Pacto.Graph

variable {F : Type} (S : Sources F)

/-- Fetches a dependency from the directory its reference means where it is
declared, or from the registry. -/
def depFetcher : Fetch F := fun base d =>
  let parsed := parseDependencyRef d.ref
  if parsed.isLocal then
    match depLocalDir parsed.location base with
    | .error reason => .error reason
    | .ok dir =>
      match S.loadLocalBundle dir with
      | .error reason => .error reason
      | .ok bundle => .ok (some bundle, dir)
  else
    match S.resolveRef parsed.location d.compatibility with
    | .error reason => .error reason
    | .ok ref =>
      match S.pull ref with
      | .error reason => .error reason
      | .ok (bundle, _) => .ok (some bundle, ociBase)

/-- How a build ends without a lock.  Hashing the files of a node that has none
is a nil dereference. -/
inductive BuildError where
  | refused (e : LockError)
  | panicked
  deriving DecidableEq, Repr

/-- The names of the nodes a node depends on. -/
def childNames : Edges F → List String
  | .nil => []
  | .waiting _ _ _ rest => childNames rest
  | .bare _ rest => childNames rest
  | .resolved _ n _ rest => n.name :: childNames rest

/-- The entry of a node, with the edge that leads to it and its own edges. -/
def entryFromEdge (t : Edge × Node F × Edges F) : Except BuildError Entry :=
  let e := t.1
  let n := t.2.1
  let parsed := parseDependencyRef e.declared.ref
  if parsed.isLocal then
    match n.files with
    | none => .error .panicked
    | some files =>
      match S.hashFS files with
      | .error reason => .error (.refused (.unresolved e.declared.ref reason))
      | .ok h =>
        .ok { name := n.name, source := "local", path := parsed.location,
              constraint := e.declared.compatibility, version := n.version, contentHash := h,
              dependsOn := childNames t.2.2 }
  else
    match resolvePinned S parsed.location e.declared.compatibility with
    | .error reason => .error (.refused (.unresolved e.declared.ref reason))
    | .ok p =>
      .ok { name := n.name, source := "oci", ref := e.declared.ref,
            constraint := e.declared.compatibility, version := p.bundle.contract.version,
            digest := p.digest, dependsOn := childNames t.2.2 }

def firstFailedEdge : Edges F → Option Edge
  | .nil => none
  | .waiting _ _ _ rest => firstFailedEdge rest
  | .bare e rest => if e.error ≠ "" then some e else firstFailedEdge rest
  | .resolved e _ dependencies rest =>
    if e.error ≠ "" then some e
    else (firstFailedEdge dependencies).or (firstFailedEdge rest)

/-- The nodes of a tree, each reference once, and the references met.  A node
that was met before is passed over with everything below it. -/
def walkClosure : Edges F → List String → List (Edge × Node F × Edges F) × List String
  | .nil, seen => ([], seen)
  | .waiting _ _ _ rest, seen => walkClosure rest seen
  | .bare _ rest, seen => walkClosure rest seen
  | .resolved e n dependencies rest, seen =>
    let key := if n.ref = "" then n.name else n.ref
    if key ∈ seen then walkClosure rest seen
    else
      let inner := walkClosure dependencies (key :: seen)
      let later := walkClosure rest inner.2
      ((e, n, dependencies) :: (inner.1 ++ later.1), later.2)

/-- The lock of a resolved graph.  Conflicts and failed edges are refused. -/
def lockOf (version : String) (n : Nat) (root : Contract) (base : String) (answer : Result F) :
    Option (Except BuildError LockFile) :=
  match answer.conflicts with
  | c :: _ => some (.error (.refused (.conflict c.name)))
  | [] =>
    match firstFailedEdge answer.edges with
    | some e => some (.error (.refused (.unresolved e.declared.ref e.error)))
    | none =>
      match (walkClosure answer.edges []).1.mapM (entryFromEdge S) with
      | .error e => some (.error e)
      | .ok dependencies =>
        match buildReferenceClosure S n root base with
        | none => none
        | some (.error e) => some (.error (.refused e))
        | some (.ok references) =>
          some (.ok { pactoVersion := version, rootName := root.name, rootVersion := root.version,
                      dependencies := dependencies, references := references })

/-- The lock of a contract.  The schedule says which dependency is resolved next,
`n` how deep the references may go. -/
def buildLock (version : String) (n : Nat) (root : Contract) (base : String)
    (schedule : List Nat) : Option (Except BuildError LockFile) :=
  lockOf S version n root base ((run (depFetcher S) root base schedule).result root)

/-! ## Fetching -/

variable {S}

theorem byKey_depFetcher : ByKey (depFetcher S) := by
  intro base d d' href hcompat
  unfold depFetcher
  rw [href, hcompat]

/-- A bundle comes from the directory or from the registry. -/
theorem fetched_depFetcher {base childBase : String} {d : Dependency} {bundle : Bundle F}
    (h : fetched (depFetcher S) base d = .ok (bundle, childBase)) :
    ((parseDependencyRef d.ref).isLocal = true ∧
      depLocalDir (parseDependencyRef d.ref).location base = .ok childBase ∧
      S.loadLocalBundle childBase = .ok bundle) ∨
    ((parseDependencyRef d.ref).isLocal = false ∧ childBase = ociBase ∧
      ∃ ref digest, S.resolveRef (parseDependencyRef d.ref).location d.compatibility = .ok ref ∧
        S.pull ref = .ok (bundle, digest)) := by
  have hfetch : depFetcher S base d = .ok (some bundle, childBase) := by
    unfold fetched at h
    split at h
    · cases h
    · cases h
    · rename_i hfetch
      cases h
      exact hfetch
  unfold depFetcher at hfetch
  simp only at hfetch
  split at hfetch
  · rename_i hlocal
    split at hfetch
    · cases hfetch
    · rename_i dir hdir
      split at hfetch
      · cases hfetch
      · rename_i b hb
        cases hfetch
        exact .inl ⟨hlocal, hdir, hb⟩
  · rename_i hlocal
    split at hfetch
    · cases hfetch
    · rename_i ref href
      split at hfetch
      · cases hfetch
      · rename_i b digest hb
        cases hfetch
        exact .inr ⟨by simpa using hlocal, rfl, ref, digest, href, hb⟩

/-! ## Entries -/

/-- What the content of a node is pinned by: its digest if it came from a
registry, the hash of its files if it lies on disk. -/
def nodePins (S : Sources F) (t : Edge × Node F × Edges F) : Except String (String × String) :=
  let parsed := parseDependencyRef t.1.declared.ref
  if parsed.isLocal then
    match t.2.1.files with
    | none => .error "no files"
    | some files => (S.hashFS files).map fun hash => ("", hash)
  else
    (resolvePinned S parsed.location t.1.declared.compatibility).map fun p => (p.digest, "")

/-- An entry has what its node came with, and names the node's dependencies. -/
theorem entryFromEdge_eq_ok {t : Edge × Node F × Edges F} {entry : Entry}
    (h : entryFromEdge S t = .ok entry) :
    ((parseDependencyRef t.1.declared.ref).isLocal = true ∧
      ∃ files hash, t.2.1.files = some files ∧ S.hashFS files = .ok hash ∧
        entry = { name := t.2.1.name, source := "local",
                  path := (parseDependencyRef t.1.declared.ref).location,
                  constraint := t.1.declared.compatibility, version := t.2.1.version,
                  contentHash := hash, dependsOn := childNames t.2.2 }) ∨
    ((parseDependencyRef t.1.declared.ref).isLocal = false ∧
      ∃ p, resolvePinned S (parseDependencyRef t.1.declared.ref).location
          t.1.declared.compatibility = .ok p ∧
        entry = { name := t.2.1.name, source := "oci", ref := t.1.declared.ref,
                  constraint := t.1.declared.compatibility,
                  version := p.bundle.contract.version, digest := p.digest,
                  dependsOn := childNames t.2.2 }) := by
  unfold entryFromEdge at h
  simp only at h
  split at h
  · rename_i hlocal
    split at h
    · cases h
    · rename_i files hfiles
      split at h
      · cases h
      · rename_i hash hhash
        exact .inl ⟨hlocal, files, hash, hfiles, hhash, (Except.ok.inj h).symm⟩
  · rename_i hlocal
    split at h
    · cases h
    · rename_i p hp
      exact .inr ⟨by simpa using hlocal, p, hp, (Except.ok.inj h).symm⟩

/-- The entry of a node has its name and its one pin. -/
theorem entryFromEdge_pins {t : Edge × Node F × Edges F} {entry : Entry}
    (h : entryFromEdge S t = .ok entry) :
    entry.name = t.2.1.name ∧ nodePins S t = .ok entry.pins ∧
      OnePin entry.source entry.digest entry.contentHash := by
  rcases entryFromEdge_eq_ok h with
    ⟨hlocal, files, hash, hfiles, hhash, rfl⟩ | ⟨hlocal, p, hp, rfl⟩
  · exact ⟨rfl, by simp [nodePins, hlocal, hfiles, hhash, Except.map, Entry.pins], rfl,
      S.hash_ne_empty hhash⟩
  · exact ⟨rfl, by simp [nodePins, hlocal, hp, Except.map, Entry.pins],
      (resolvePinned_eq_ok hp).2.2, rfl⟩

/-- A node that can be pinned has an entry. -/
theorem exists_entry_of_nodePins {t : Edge × Node F × Edges F} {pins : String × String}
    (h : nodePins S t = .ok pins) : ∃ entry, entryFromEdge S t = .ok entry := by
  simp only [nodePins] at h
  simp only [entryFromEdge]
  split_ifs at h ⊢ with hlocal
  · cases hfiles : t.2.1.files with
    | none => simp [hfiles] at h
    | some files =>
      cases hhash : S.hashFS files with
      | error => simp [hfiles, hhash, Except.map] at h
      | ok hash => simp [hhash]
  · cases hp : resolvePinned S (parseDependencyRef t.1.declared.ref).location
        t.1.declared.compatibility with
    | error => simp [hp, Except.map] at h
    | ok p => exact ⟨_, rfl⟩

/-- A lock has an entry for each node the walk lists and the references of the
contract. -/
theorem lockOf_eq_ok {version : String} {n : Nat} {root : Contract} {base : String}
    {answer : Result F} {l : LockFile} (h : lockOf S version n root base answer = some (.ok l)) :
    List.Forall₂ (fun t entry => entryFromEdge S t = .ok entry) (walkClosure answer.edges []).1
      l.dependencies ∧
    buildReferenceClosure S n root base = some (.ok l.references) := by
  unfold lockOf at h
  split at h
  · cases h
  · split at h
    · cases h
    · split at h
      · cases h
      · rename_i hentries
        split at h
        · cases h
        · cases h
        · rename_i hrefs
          cases h
          exact ⟨Support.forall₂_of_mapM hentries, hrefs⟩

end Pacto.Lock
