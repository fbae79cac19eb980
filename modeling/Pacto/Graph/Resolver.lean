import Pacto.Graph.Sources
import Mathlib.Data.List.Dedup
import Mathlib.Data.List.Sort
import Mathlib.Data.String.Basic

/-!
# Resolving the dependency graph

The resolver fetches a contract's dependencies, theirs, and so on, the siblings
of each node concurrently.  A node is fetched once: whoever meets its identity
first claims it, everyone else gets a shallow copy without dependencies or files.
Which edge comes first is up to the schedule, so a run is a tree with edges that
still wait, and a step resolves any one of them.

Cycles and conflicts are read off the finished tree.
-/

namespace Pacto.Graph

/-! ## Nodes and edges -/

/-- The identity of a resolved node. -/
structure DepKey where
  base : String
  ref : String
  constraint : String
  deriving DecidableEq, Repr

/-- A service in the graph.  A shallow copy has no files. -/
structure Node (F : Type) where
  name : String
  version : String
  ref : String
  isLocal : Bool
  files : Option F
  deriving DecidableEq, Repr

def Node.shallow {F : Type} (n : Node F) : Node F := { n with files := none }

/-- An external edge is a dependency without a contract. -/
inductive EdgeType where
  | dependency
  | external
  deriving DecidableEq, Repr

/-- An edge carries the fields of the dependency it was declared as. -/
structure Edge where
  declared : Dependency
  type : EdgeType
  error : String := ""
  shared : Bool := false
  isLocal : Bool := false
  key : DepKey := ⟨"", "", ""⟩
  deriving DecidableEq, Repr

def externalEdge (d : Dependency) : Edge := { declared := d, type := .external }

def dependencyEdge (d : Dependency) (base : String) : Edge :=
  { declared := d, type := .dependency, isLocal := (parseDependencyRef d.ref).isLocal,
    key := ⟨base, d.ref, d.compatibility⟩ }

/-- The edges of a node while it is resolved: one that waits for its turn, with
the base and the path of the node that declares it, one without a node, and one
with a node and the edges of that node. -/
inductive Edges (F : Type) where
  | nil
  | waiting (d : Dependency) (base : String) (path : List String) (rest : Edges F)
  | bare (e : Edge) (rest : Edges F)
  | resolved (e : Edge) (n : Node F) (dependencies rest : Edges F)
  deriving DecidableEq, Repr

variable {F : Type}

def Edges.waitingCount : Edges F → Nat
  | .nil => 0
  | .waiting _ _ _ rest => rest.waitingCount + 1
  | .bare _ rest => rest.waitingCount
  | .resolved _ _ dependencies rest => dependencies.waitingCount + rest.waitingCount

/-- Every child of a node starts out waiting. -/
def resolveChildren (base : String) (path : List String) : List Dependency → Edges F
  | [] => .nil
  | d :: ds => .waiting d base path (resolveChildren base path ds)

/-! ## Resolving one edge -/

/-- What a fetcher answers for a dependency declared under a base: the bundle, if
there is one, and the base of the bundle's own dependencies. -/
abbrev Fetch (F : Type) := String → Dependency → Except String (Option (Bundle F) × String)

def fetched (fetch : Fetch F) (base : String) (d : Dependency) :
    Except String (Bundle F × String) :=
  match fetch base d with
  | .error reason => .error reason
  | .ok (none, _) => .error ("fetcher returned nil bundle for " ++ d.ref)
  | .ok (some bundle, childBase) => .ok (bundle, childBase)

def nodeOf (ref : String) (bundle : Bundle F) : Node F :=
  { name := bundle.contract.name, version := bundle.contract.version, ref := ref,
    isLocal := (parseDependencyRef ref).isLocal, files := some bundle.files }

/-- The nodes fetched so far and the edges of the root. -/
structure Resolution (F : Type) where
  visited : List (DepKey × Node F)
  edges : Edges F

def cycleError (ref : String) : String := "cycle detected: " ++ ref

def resolveEdge (fetch : Fetch F) (visited : List (DepKey × Node F)) (d : Dependency)
    (base : String) (path : List String) (rest : Edges F) : Resolution F :=
  if d.ref = "" then ⟨visited, .bare (externalEdge d) rest⟩
  else
    let edge := dependencyEdge d base
    -- a reference that is on the path already is cut before anything is fetched
    if d.ref ∈ path then ⟨visited, .bare { edge with error := cycleError d.ref } rest⟩
    else
      match visited.lookup edge.key with
      | some n => ⟨visited, .resolved { edge with shared := true } n.shallow .nil rest⟩
      | none =>
        match fetched fetch base d with
        | .error reason => ⟨visited, .bare { edge with error := reason } rest⟩
        | .ok (bundle, childBase) =>
          ⟨(edge.key, nodeOf d.ref bundle) :: visited,
            .resolved edge (nodeOf d.ref bundle)
              (resolveChildren childBase (path ++ [d.ref]) bundle.contract.dependencies) rest⟩

def Edges.advance (fetch : Fetch F) (visited : List (DepKey × Node F)) :
    Edges F → Nat → Resolution F
  | .nil, _ => ⟨visited, .nil⟩
  | .waiting d base path rest, 0 => resolveEdge fetch visited d base path rest
  | .waiting d base path rest, k + 1 =>
    let r := rest.advance fetch visited k
    ⟨r.visited, .waiting d base path r.edges⟩
  | .bare e rest, k =>
    let r := rest.advance fetch visited k
    ⟨r.visited, .bare e r.edges⟩
  | .resolved e n dependencies rest, k =>
    if k < dependencies.waitingCount then
      let r := dependencies.advance fetch visited k
      ⟨r.visited, .resolved e n r.edges rest⟩
    else
      let r := rest.advance fetch visited (k - dependencies.waitingCount)
      ⟨r.visited, .resolved e n dependencies r.edges⟩

def start (root : Contract) (base : String) : Resolution F :=
  ⟨[], resolveChildren base [root.name] root.dependencies⟩

def Resolution.advance (fetch : Fetch F) (r : Resolution F) (k : Nat) : Resolution F :=
  r.edges.advance fetch r.visited k

/-- A run: which of the waiting edges comes next, again and again. -/
def run (fetch : Fetch F) (root : Contract) (base : String) (schedule : List Nat) : Resolution F :=
  schedule.foldl (Resolution.advance fetch) (start root base)

def Resolution.Finished (r : Resolution F) : Prop := r.edges.waitingCount = 0

instance (r : Resolution F) : Decidable r.Finished := inferInstanceAs (Decidable (_ = _))

/-! ## Reading the tree -/

/-- The edges of the node itself. -/
def Edges.heads : Edges F → List Edge
  | .nil => []
  | .waiting _ _ _ rest => rest.heads
  | .bare e rest => e :: rest.heads
  | .resolved e _ _ rest => e :: rest.heads

/-- The nodes of the tree with the edges that lead to them and their own edges,
each before what is below it. -/
def Edges.nodes : Edges F → List (Edge × Node F × Edges F)
  | .nil => []
  | .waiting _ _ _ rest => rest.nodes
  | .bare _ rest => rest.nodes
  | .resolved e n dependencies rest =>
    (e, n, dependencies) :: (dependencies.nodes ++ rest.nodes)

/-- The declaring service and version and the dependency's name of each edge that
carries an error. -/
def Edges.errors (name version : String) : Edges F → List (String × String × String)
  | .nil => []
  | .waiting _ _ _ rest => rest.errors name version
  | .bare e rest =>
    (if e.error ≠ "" then [(name, version, e.declared.name)] else []) ++ rest.errors name version
  | .resolved e n dependencies rest =>
    (if e.error ≠ "" then [(name, version, e.declared.name)] else []) ++
      dependencies.errors n.name n.version ++ rest.errors name version

/-! ## Conflicts -/

/-- One service at several versions. -/
structure Conflict where
  name : String
  versions : List String
  deriving DecidableEq, Repr

/-- The names and versions of the nodes of a tree. -/
def Edges.collectVersions : Edges F → List (String × String)
  | .nil => []
  | .waiting _ _ _ rest => rest.collectVersions
  | .bare _ rest => rest.collectVersions
  | .resolved _ n dependencies rest =>
    (n.name, n.version) :: (dependencies.collectVersions ++ rest.collectVersions)

def versionsOf (found : List (String × String)) (name : String) : List String :=
  ((found.filter (·.1 = name)).map Prod.snd).dedup

def conflictOf (found : List (String × String)) (name : String) : Option Conflict :=
  let versions := versionsOf found name
  if 1 < versions.length then
    some ⟨name, (versions.map (name ++ "@" ++ ·)).insertionSort (· ≤ ·)⟩
  else none

/-- The services found at several versions, by name. -/
def detectConflicts (found : List (String × String)) : List Conflict :=
  ((found.map Prod.fst).dedup.insertionSort (· ≤ ·)).filterMap (conflictOf found)

/-! ## Cycles -/

/-- What the cycle pass has walked and found.  A mark names an edge by the node
that declares it, none for the root, and its place among the node's edges. -/
structure CyclePass where
  walked : List DepKey := []
  cycles : List (List String) := []
  marked : List (Option DepKey × Nat) := []
  deriving DecidableEq, Repr

def Edges.full (edges : Edges F) (key : DepKey) : Option (List Edge) :=
  (edges.nodes.find? fun t => !t.1.shared && decide (t.1.key = key)).map fun t => t.2.2.heads

/-- Walks the edges of a node depth first.  A reference is grey while it is on
the stack; an edge to a grey one closes a cycle. -/
def dfs (full : DepKey → Option (List Edge)) :
    Nat → List String → Option DepKey → List Edge → CyclePass → CyclePass
  | 0, _, _, _, pass => pass
  | fuel + 1, stack, owner, edges, pass =>
    edges.zipIdx.foldl (fun pass (e, i) =>
      if e.type ≠ .dependency then pass
      else if e.declared.ref ∈ stack then
        { pass with
          cycles := pass.cycles ++ [stack ++ [e.declared.ref]]
          marked := if e.error = "" then (owner, i) :: pass.marked else pass.marked }
      else
        match full e.key with
        | none => pass
        | some below =>
          if e.key ∈ pass.walked then pass
          else dfs full fuel (stack ++ [e.declared.ref]) (some e.key) below
            { pass with walked := e.key :: pass.walked }) pass

def Edges.mark (marked : List (Option DepKey × Nat)) : Option DepKey → Nat → Edges F → Edges F
  | _, _, .nil => .nil
  | owner, i, .waiting d base path rest => .waiting d base path (rest.mark marked owner (i + 1))
  | owner, i, .bare e rest =>
    .bare (if (owner, i) ∈ marked then { e with error := cycleError e.declared.ref } else e)
      (rest.mark marked owner (i + 1))
  | owner, i, .resolved e n dependencies rest =>
    .resolved (if (owner, i) ∈ marked then { e with error := cycleError e.declared.ref } else e) n
      (if e.shared then dependencies else dependencies.mark marked (some e.key) 0)
      (rest.mark marked owner (i + 1))

def joined (cycle : List String) : String := "\x00".intercalate cycle

/-- The cycle pass over a finished tree.  No node is walked twice, so the walk is
at most as deep as there are nodes. -/
def detectCycles (root : Contract) (r : Resolution F) : CyclePass :=
  dfs r.edges.full (r.visited.length + 1) [root.name] none r.edges.heads {}

/-- The answer of a resolution. -/
structure Result (F : Type) where
  edges : Edges F
  cycles : List (List String)
  conflicts : List Conflict

def Resolution.result (root : Contract) (r : Resolution F) : Result F :=
  let pass := detectCycles root r
  { edges := r.edges.mark pass.marked none 0
    cycles := pass.cycles.insertionSort (joined · ≤ joined ·)
    conflicts := detectConflicts r.edges.collectVersions }

end Pacto.Graph
