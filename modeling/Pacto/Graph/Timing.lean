import Pacto.Graph.Tree
import Pacto.Support.Sequence

/-!
# Timing does not show

An edge back to a reference on the path is cut, so what a run shows of a node may
depend on the path it was claimed along.  Where every path to a node closes the
same of its dependencies, it does not: a finished run has a node for every place
that the declarations lead to, whoever claimed it first, and its errors, its
versions and its cycles can be told from the declarations alone.
-/

namespace Pacto.Graph

variable {F : Type} {fetch : Fetch F}
variable {t : Edge × Node F × Edges F} {edges edges' : List Edge} {x : String × String × String}
  {owner : Option DepKey} {b : String} {c : Contract}

/-! ## What the declarations lead to -/

section Chains

variable (fetch) (root : Contract) (base : String)

/-- The references that lead from the root to a contract, the root's own name
first, none of them twice, with the identity and the base of that contract. -/
inductive Chain : List String → Option DepKey → String → Contract → Prop
  | root : Chain [root.name] none base root
  | step {path owner b c d bundle childBase} (h : Chain path owner b c) (hd : d ∈ c.dependencies)
      (href : d.ref ≠ "") (hpath : d.ref ∉ path)
      (hfetch : fetched fetch b d = .ok (bundle, childBase)) :
      Chain (path ++ [d.ref]) (some (dependencyEdge d b).key) childBase bundle.contract

/-- The fetcher has a reason not to fetch. -/
def Unfetched (b : String) (d : Dependency) : Prop :=
  ∃ reason, fetched fetch b d = .error reason ∧ reason ≠ ""

/-- A dependency that closes a cycle along one chain closes one along every chain
to the contract that declares it, or cannot be fetched from there anyway. -/
def ClosesAlike : Prop :=
  ∀ path path' owner b b' c c', Chain fetch root base path owner b c →
    Chain fetch root base path' owner b' c' → ∀ d ∈ c.dependencies, d.ref ≠ "" →
    d.ref ∈ path → d.ref ∈ path' ∨ Unfetched fetch b d

/-- The declarations that come back to a reference of their chain or cannot be
fetched: declaring service, its version and the name of the dependency. -/
def Fails (x : String × String × String) : Prop :=
  ∃ path owner b c d, Chain fetch root base path owner b c ∧ d ∈ c.dependencies ∧
    d.ref ≠ "" ∧ (d.ref ∈ path ∨ Unfetched fetch b d) ∧ x = (c.name, c.version, d.name)

def Needs (x : String × String) : Prop :=
  ∃ path key b c, Chain fetch root base path (some key) b c ∧ x = (c.name, c.version)

end Chains

variable {root : Contract} {rootBase : String}

/-- What an identity leads to is what a dependency of that identity fetches. -/
theorem Chain.fetched_of_key (hkey : ByKey fetch) {path : List String} {childBase : String}
    {d : Dependency}
    (h : Chain fetch root rootBase path (some (dependencyEdge d b).key) childBase c) :
    ∃ bundle, fetched fetch b d = .ok (bundle, childBase) ∧ bundle.contract = c := by
  generalize howner : some (dependencyEdge d b).key = owner at h
  cases h with
  | root => cases howner
  | @step _ _ b' _ d' bundle _ _ _ _ _ hfetch =>
    obtain ⟨rfl, href, hcompat⟩ : b = b' ∧ d.ref = d'.ref ∧ d.compatibility = d'.compatibility := by
      simpa [dependencyEdge] using howner
    exact ⟨bundle, (hkey.fetched_eq b href hcompat).trans hfetch, rfl⟩

/-- An identity means one base and one contract. -/
theorem Chain.place_eq (hkey : ByKey fetch) {path path' : List String} {b' : String}
    {c' : Contract} (h : Chain fetch root rootBase path owner b c)
    (h' : Chain fetch root rootBase path' owner b' c') : b = b' ∧ c = c' := by
  cases h with
  | root =>
    cases h'
    exact ⟨rfl, rfl⟩
  | step _ _ _ _ hfetch =>
    obtain ⟨bundle, hfetch', rfl⟩ := h'.fetched_of_key hkey
    cases hfetch.symm.trans hfetch'
    exact ⟨rfl, rfl⟩

/-! ## The edges of one node -/

/-- An edge that does not wait, against the dependency it was declared as. -/
structure EdgeFits (fetch : Fetch F) (known : List DepKey) (base : String) (path : List String)
    (d : Dependency) (e : Edge) : Prop where
  declared : e.declared = d
  external : d.ref = "" → e.type = .external ∧ e.error = ""
  key : d.ref ≠ "" → e.type = .dependency ∧ e.key = (dependencyEdge d base).key
  failed : d.ref ≠ "" → (e.error ≠ "" ↔ d.ref ∈ path ∨ Unfetched fetch base d)
  resolved : d.ref ≠ "" → d.ref ∉ path → ∀ x, fetched fetch base d = .ok x → e.key ∈ known

namespace EdgeFits

variable {known : List DepKey} {base : String} {path : List String} {d : Dependency}

theorem ofExternal (href : d.ref = "") :
    EdgeFits fetch known base path d (externalEdge d) :=
  ⟨rfl, fun _ => ⟨rfl, rfl⟩, fun h => absurd href h, fun h => absurd href h,
    fun h => absurd href h⟩

theorem ofCycle (href : d.ref ≠ "") (hpath : d.ref ∈ path) :
    EdgeFits fetch known base path d { dependencyEdge d base with error := cycleError d.ref } where
  declared := rfl
  external h := absurd h href
  key _ := ⟨rfl, rfl⟩
  failed _ := by simp [hpath, cycleError]
  resolved _ h := absurd hpath h

theorem ofFailed {reason : String} (href : d.ref ≠ "") (hpath : d.ref ∉ path)
    (hfetch : fetched fetch base d = .error reason) :
    EdgeFits fetch known base path d { dependencyEdge d base with error := reason } where
  declared := rfl
  external h := absurd h href
  key _ := ⟨rfl, rfl⟩
  failed _ := by simp [hpath, hfetch, Unfetched]
  resolved _ _ _ h := absurd (hfetch.symm.trans h) nofun

/-- A copy and the node itself alike. -/
theorem ofResolved {bundle : Bundle F} {childBase : String} (shared : Bool) (href : d.ref ≠ "")
    (hpath : d.ref ∉ path) (hfetch : fetched fetch base d = .ok (bundle, childBase))
    (hknown : (dependencyEdge d base).key ∈ known) :
    EdgeFits fetch known base path d { dependencyEdge d base with shared := shared } where
  declared := rfl
  external h := absurd h href
  key _ := ⟨rfl, rfl⟩
  failed _ := by simp [hpath, hfetch, Unfetched, dependencyEdge]
  resolved _ _ _ _ := hknown

/-- Of the path, an edge shows only whether its own reference is cut. -/
theorem congr_path {path' : List String} {e : Edge} (h : EdgeFits fetch known base path d e)
    (hiff : d.ref ≠ "" → (d.ref ∈ path ∨ Unfetched fetch base d ↔
      d.ref ∈ path' ∨ Unfetched fetch base d)) : EdgeFits fetch known base path' d e where
  declared := h.declared
  external := h.external
  key := h.key
  failed href := (h.failed href).trans (hiff href)
  resolved href hpath x hfetch := by
    refine h.resolved href (fun hmem => ?_) x hfetch
    rcases (hiff href).mp (.inl hmem) with hmem' | ⟨reason, herror, -⟩
    · exact hpath hmem'
    · exact absurd (hfetch.symm.trans herror) nofun

end EdgeFits

variable {known : List DepKey} {ds : List Dependency} {base : String} {path : List String}
  {E : Edges F}

/-- Once nothing waits, the edges of a node are its dependencies in their order. -/
theorem Fits.heads (h : Fits fetch known ds base path E) (hdone : E.waitingCount = 0) :
    List.Forall₂ (EdgeFits fetch known base path) ds E.heads := by
  induction h with
  | nil => exact .nil
  | waiting _ _ => cases hdone
  | external href _ ih => exact .cons (.ofExternal href) (ih hdone)
  | cycle href hpath _ ih => exact .cons (.ofCycle href hpath) (ih hdone)
  | failed href hpath hfetch _ ih => exact .cons (.ofFailed href hpath hfetch) (ih hdone)
  | shared href hpath hfetch hknown _ ih =>
    exact .cons (.ofResolved true href hpath hfetch hknown) (ih (Nat.add_eq_zero_iff.mp hdone).2)
  | held href hpath hfetch hknown _ _ _ ih =>
    exact .cons (.ofResolved false href hpath hfetch hknown) (ih (Nat.add_eq_zero_iff.mp hdone).2)

/-! ## The nodes of a tree -/

theorem waitingCount_of_mem_nodes (hdone : E.waitingCount = 0)
    (ht : t ∈ E.nodes) : t.2.2.waitingCount = 0 := by
  induction E with
  | nil => cases ht
  | waiting => cases hdone
  | bare _ _ ih => exact ih hdone ht
  | resolved e n below rest ihbelow ihrest =>
    obtain ⟨hbelow, hrest⟩ := Nat.add_eq_zero_iff.mp hdone
    rcases List.mem_cons.mp ht with rfl | ht
    · exact hbelow
    · rcases List.mem_append.mp ht with ht | ht
      · exact ihbelow hbelow ht
      · exact ihrest hrest ht

theorem collectVersions_eq (E : Edges F) :
    E.collectVersions = E.nodes.map fun t => (t.2.1.name, t.2.1.version) := by
  induction E with
  | nil => rfl
  | waiting _ _ _ _ ih => exact ih
  | bare _ _ ih => exact ih
  | resolved _ _ _ _ ihbelow ihrest =>
    simp [Edges.collectVersions, Edges.nodes, ihbelow, ihrest]

/-- An error on one of a node's own edges. -/
def HeadError (name version : String) (edges : List Edge) (x : String × String × String) : Prop :=
  ∃ e ∈ edges, e.error ≠ "" ∧ x = (name, version, e.declared.name)

theorem headError_cons {name version : String} {e : Edge} :
    HeadError name version (e :: edges) x ↔
      x ∈ (if e.error ≠ "" then [(name, version, e.declared.name)] else []) ∨
        HeadError name version edges x := by
  unfold HeadError
  split <;> simp_all

/-- The errors of a tree are those of the root's edges and of its nodes'. -/
theorem mem_errors {name version : String} :
    x ∈ E.errors name version ↔ HeadError name version E.heads x ∨
      ∃ t ∈ E.nodes, HeadError t.2.1.name t.2.1.version t.2.2.heads x := by
  induction E generalizing name version with
  | nil => simp [Edges.errors, Edges.heads, Edges.nodes, HeadError]
  | waiting _ _ _ _ ih => exact ih
  | bare e rest ih =>
    simp only [Edges.errors, Edges.heads, Edges.nodes, List.mem_append, ih, headError_cons,
      or_assoc]
  | resolved e n below rest ihbelow ihrest =>
    simp only [Edges.errors, Edges.heads, Edges.nodes, List.mem_append, ihbelow, ihrest,
      headError_cons, List.mem_cons, or_and_right, exists_or, exists_eq_left, or_assoc]
    exact or_congr_right (by simp only [or_left_comm])

/-- What an edge of the tree leads to: a node that holds its own edges, or a copy
of one. -/
theorem Fits.of_mem_nodes (h : Fits fetch known ds base path E)
    (hchain : Chain fetch root rootBase path owner base c) (hds : ds ⊆ c.dependencies)
    (ht : t ∈ E.nodes) :
    ∃ path' childBase c', Chain fetch root rootBase path' (some t.1.key) childBase c' ∧
      t.2.1.name = c'.name ∧ t.2.1.version = c'.version ∧ (t.1.shared = true → t.2.2 = .nil) ∧
      (t.1.shared = false → Fits fetch known c'.dependencies childBase path' t.2.2) := by
  induction h generalizing c owner with
  | nil => cases ht
  | waiting _ ih => exact ih hchain (List.cons_subset.mp hds).2 ht
  | external _ _ ih => exact ih hchain (List.cons_subset.mp hds).2 ht
  | cycle _ _ _ ih => exact ih hchain (List.cons_subset.mp hds).2 ht
  | failed _ _ _ _ ih => exact ih hchain (List.cons_subset.mp hds).2 ht
  | shared href hpath hfetch _ _ ih =>
    rcases List.mem_cons.mp ht with rfl | ht
    · exact ⟨_, _, _, .step hchain (hds List.mem_cons_self) href hpath hfetch, rfl, rfl,
        fun _ => rfl, nofun⟩
    · exact ih hchain (List.cons_subset.mp hds).2 ht
  | held href hpath hfetch _ hbelow _ ihbelow ihrest =>
    have hstep := Chain.step hchain (hds List.mem_cons_self) href hpath hfetch
    rcases List.mem_cons.mp ht with rfl | ht
    · exact ⟨_, _, _, hstep, rfl, rfl, nofun, fun _ => hbelow⟩
    · rcases List.mem_append.mp ht with ht | ht
      · exact ihbelow hstep (List.Subset.refl _) ht
      · exact ihrest hchain (List.cons_subset.mp hds).2 ht

/-! ## Finished runs -/

/-- The edges of a place in a tree: the root's own, or those of a node. -/
inductive Resolution.Shows (r : Resolution F) (root : Contract) :
    Option DepKey → Contract → Edges F → Prop
  | root : r.Shows root none root r.edges
  | node {t : Edge × Node F × Edges F} {c : Contract} (ht : t ∈ r.edges.nodes)
      (hname : t.2.1.name = c.name) (hversion : t.2.1.version = c.version) :
      r.Shows root (some t.1.key) c t.2.2

section Finished

variable {r r' : Resolution F}

/-- A node that is known is in the tree. -/
theorem Resolution.Sound.exists_node (h : r.Sound fetch root rootBase) {key : DepKey}
    (hknown : key ∈ r.visited.map Prod.fst) :
    ∃ t ∈ r.edges.nodes, t.1.shared = false ∧ t.1.key = key := by
  obtain ⟨t, ht, heq⟩ := List.mem_map.mp (h.held.mem_iff.mpr hknown)
  obtain ⟨ht, hshared⟩ := List.mem_filter.mp ht
  exact ⟨t, ht, by simpa using hshared, heq⟩

variable (hkey : ByKey fetch) (halike : ClosesAlike fetch root rootBase)
include hkey halike

/-- A node has the edges its contract declares, seen from any chain to it. -/
theorem Resolution.Sound.heads_of_mem_nodes (h : r.Sound fetch root rootBase)
    (hdone : r.Finished) (ht : t ∈ r.edges.nodes) (hshared : t.1.shared = false)
    (hchain : Chain fetch root rootBase path (some t.1.key) b c) :
    t.2.1.name = c.name ∧ t.2.1.version = c.version ∧
      List.Forall₂ (EdgeFits fetch (r.visited.map Prod.fst) b path) c.dependencies t.2.2.heads := by
  obtain ⟨path', b', c', hchain', hname, hversion, -, hfits⟩ :=
    h.fits.of_mem_nodes .root (List.Subset.refl _) ht
  obtain ⟨rfl, rfl⟩ := hchain.place_eq hkey hchain'
  refine ⟨hname, hversion, Support.forall₂_imp_of_mem
    ((hfits hshared).heads (waitingCount_of_mem_nodes hdone ht)) fun d hd e he => ?_⟩
  refine he.congr_path fun href => ⟨?_, ?_⟩
  · rintro (hmem | hfails)
    · exact halike _ _ _ _ _ _ _ hchain' hchain d hd href hmem
    · exact .inr hfails
  · rintro (hmem | hfails)
    · exact halike _ _ _ _ _ _ _ hchain hchain' d hd href hmem
    · exact .inr hfails

/-- Every place the declarations lead to is shown, with the edges it declares. -/
theorem Resolution.Sound.shows_of_chain (h : r.Sound fetch root rootBase) (hdone : r.Finished)
    (hchain : Chain fetch root rootBase path owner b c) :
    ∃ D, r.Shows root owner c D ∧
      List.Forall₂ (EdgeFits fetch (r.visited.map Prod.fst) b path) c.dependencies D.heads := by
  induction hchain with
  | root => exact ⟨r.edges, .root, h.fits.heads hdone⟩
  | step hchain hd href hpath hfetch ih =>
    obtain ⟨D, -, hheads⟩ := ih
    obtain ⟨e, -, he⟩ := Support.exists_of_mem_left hheads hd
    -- the edge is not cut, so its node is known and somewhere in the tree
    have hknown := he.resolved href hpath _ hfetch
    rw [(he.key href).2] at hknown
    obtain ⟨t, ht, hshared, heq⟩ := h.exists_node hknown
    have hstep := Chain.step hchain hd href hpath hfetch
    rw [← heq] at hstep ⊢
    obtain ⟨hname, hversion, hheads⟩ := h.heads_of_mem_nodes hkey halike hdone ht hshared hstep
    exact ⟨t.2.2, .node ht hname hversion, hheads⟩

theorem Resolution.Sound.mem_visited_iff (h : r.Sound fetch root rootBase) (hdone : r.Finished)
    {key : DepKey} :
    key ∈ r.visited.map Prod.fst ↔ ∃ path b c, Chain fetch root rootBase path (some key) b c := by
  constructor
  · intro hknown
    obtain ⟨t, ht, -, rfl⟩ := h.exists_node hknown
    obtain ⟨path, b, c, hchain, -⟩ := h.fits.of_mem_nodes .root (List.Subset.refl _) ht
    exact ⟨path, b, c, hchain⟩
  · rintro ⟨path, b, c, hchain⟩
    cases hchain with
    | step hchain hd href hpath hfetch =>
      obtain ⟨D, -, hheads⟩ := h.shows_of_chain hkey halike hdone hchain
      obtain ⟨e, -, he⟩ := Support.exists_of_mem_left hheads hd
      rw [← (he.key href).2]
      exact he.resolved href hpath _ hfetch

omit hkey halike in
theorem fails_of_headError (hchain : Chain fetch root rootBase path owner b c)
    (hheads : List.Forall₂ (EdgeFits fetch known b path) c.dependencies edges)
    (hx : HeadError c.name c.version edges x) : Fails fetch root rootBase x := by
  obtain ⟨e, he, herror, rfl⟩ := hx
  obtain ⟨d, hd, hedge⟩ := Support.exists_of_mem_right hheads he
  have href : d.ref ≠ "" := fun href => herror (hedge.external href).2
  rw [hedge.declared]
  exact ⟨path, owner, b, c, d, hchain, hd, href, (hedge.failed href).mp herror, rfl⟩

omit hkey halike in
theorem Resolution.Shows.mem_errors {D : Edges F} (h : r.Shows root owner c D) {e : Edge}
    (he : e ∈ D.heads) (herror : e.error ≠ "") :
    (c.name, c.version, e.declared.name) ∈ r.edges.errors root.name root.version := by
  rw [Graph.mem_errors]
  cases h with
  | root => exact .inl ⟨e, he, herror, rfl⟩
  | node ht hname hversion =>
    refine .inr ⟨_, ht, e, he, herror, ?_⟩
    rw [hname, hversion]

theorem Resolution.Sound.mem_errors_iff (h : r.Sound fetch root rootBase) (hdone : r.Finished) :
    x ∈ r.edges.errors root.name root.version ↔ Fails fetch root rootBase x := by
  constructor
  · rw [Graph.mem_errors]
    rintro (hx | ⟨t, ht, hx⟩)
    · exact fails_of_headError .root (h.fits.heads hdone) hx
    · obtain ⟨path, b, c, hchain, hname, hversion, hnil, hfits⟩ :=
        h.fits.of_mem_nodes .root (List.Subset.refl _) ht
      cases hshared : t.1.shared with
      | true =>
        obtain ⟨e, he, -⟩ := hx
        rw [hnil hshared] at he
        cases he
      | false =>
        rw [hname, hversion] at hx
        exact fails_of_headError hchain
          ((hfits hshared).heads (waitingCount_of_mem_nodes hdone ht)) hx
  · rintro ⟨path, owner, b, c, d, hchain, hd, href, hfails, rfl⟩
    obtain ⟨D, hshows, hheads⟩ := h.shows_of_chain hkey halike hdone hchain
    obtain ⟨e, he, hedge⟩ := Support.exists_of_mem_left hheads hd
    rw [← hedge.declared]
    exact hshows.mem_errors he ((hedge.failed href).mpr hfails)

theorem Resolution.Sound.mem_versions_iff (h : r.Sound fetch root rootBase) (hdone : r.Finished)
    {x : String × String} : x ∈ r.edges.collectVersions ↔ Needs fetch root rootBase x := by
  rw [collectVersions_eq, List.mem_map]
  constructor
  · rintro ⟨t, ht, rfl⟩
    obtain ⟨path, b, c, hchain, hname, hversion, -⟩ :=
      h.fits.of_mem_nodes .root (List.Subset.refl _) ht
    exact ⟨path, t.1.key, b, c, hchain, by rw [hname, hversion]⟩
  · rintro ⟨path, key, b, c, hchain, rfl⟩
    obtain ⟨D, hshows, -⟩ := h.shows_of_chain hkey halike hdone hchain
    cases hshows with
    | node ht hname hversion => exact ⟨_, ht, by rw [hname, hversion]⟩

/-! ## The cycle pass -/

omit hkey halike in
theorem Resolution.Sound.exists_of_full (h : r.Sound fetch root rootBase) {key : DepKey}
    (hfull : r.edges.full key = some edges) :
    key ∈ r.visited.map Prod.fst ∧
      ∃ t ∈ r.edges.nodes, t.1.shared = false ∧ t.1.key = key ∧ t.2.2.heads = edges := by
  obtain ⟨t, hfound, rfl⟩ := Option.map_eq_some_iff.mp hfull
  have hmem := List.mem_of_find?_eq_some hfound
  have ht := List.find?_some hfound
  simp only [Bool.and_eq_true, Bool.not_eq_true', decide_eq_true_eq] at ht
  refine ⟨?_, t, hmem, ht.1, ht.2, rfl⟩
  rw [← h.held.mem_iff, ← ht.2]
  exact List.mem_map_of_mem (List.mem_filter.mpr ⟨hmem, by simp [ht.1]⟩)

omit hkey halike in
theorem Resolution.Sound.exists_full (h : r.Sound fetch root rootBase) {key : DepKey}
    (hknown : key ∈ r.visited.map Prod.fst) : ∃ edges, r.edges.full key = some edges := by
  obtain ⟨t, ht, hshared, rfl⟩ := h.exists_node hknown
  unfold Edges.full
  cases hfound : r.edges.nodes.find? fun t' => !t'.1.shared && decide (t'.1.key = t.1.key) with
  | none => exact absurd (List.find?_eq_none.mp hfound t ht) (by simp [hshared])
  | some t' => exact ⟨_, rfl⟩

/-- Two passes that have walked and found the same, and marked nothing. -/
structure CyclePass.Alike (pass pass' : CyclePass) : Prop where
  walked : pass.walked = pass'.walked
  cycles : pass.cycles = pass'.cycles
  marked : pass.marked = []
  marked' : pass'.marked = []

/-- The edges of one place in two trees. -/
def SameEdges (fetch : Fetch F) (known known' : List DepKey) (b : String) (stack : List String)
    (c : Contract) (e e' : Edge) : Prop :=
  ∃ d ∈ c.dependencies, EdgeFits fetch known b stack d e ∧ EdgeFits fetch known' b stack d e'

/-- The pass is the same over two runs: an edge to a reference on the stack was
cut in both of them, and what it descends into is what the declarations lead to. -/
theorem Resolution.Sound.dfs_alike (h : r.Sound fetch root rootBase) (hdone : r.Finished)
    (h' : r'.Sound fetch root rootBase) (hdone' : r'.Finished) (fuel : Nat) {stack : List String}
    (hchain : Chain fetch root rootBase stack owner b c)
    (hheads : List.Forall₂ (SameEdges fetch (r.visited.map Prod.fst) (r'.visited.map Prod.fst) b
      stack c) edges edges') {pass pass' : CyclePass} (hpass : pass.Alike pass') :
    (dfs r.edges.full fuel stack owner edges pass).Alike
      (dfs r'.edges.full fuel stack owner edges' pass') := by
  have hknown : ∀ key, key ∈ r.visited.map Prod.fst ↔ key ∈ r'.visited.map Prod.fst := fun key => by
    rw [h.mem_visited_iff hkey halike hdone, h'.mem_visited_iff hkey halike hdone']
  induction fuel generalizing stack b c edges edges' owner pass pass' with
  | zero => exact hpass
  | succ fuel ih =>
    unfold dfs
    have hzip : List.Forall₂ (SameEdges fetch (r.visited.map Prod.fst) (r'.visited.map Prod.fst) b
        stack c) (edges.zipIdx.map Prod.fst) (edges'.zipIdx.map Prod.fst) := by
      simpa using hheads
    rw [List.forall₂_map_left_iff, List.forall₂_map_right_iff] at hzip
    refine List.rel_foldl (P := CyclePass.Alike) ?_ hpass hzip
    rintro pass pass' hpass ⟨e, i⟩ ⟨e', i'⟩ ⟨d, hd, hedge, hedge'⟩
    change EdgeFits _ _ _ _ d e at hedge
    change EdgeFits _ _ _ _ d e' at hedge'
    simp only [hedge.declared, hedge'.declared]
    by_cases href : d.ref = ""
    · simp only [(hedge.external href).1, (hedge'.external href).1]
      exact hpass
    · obtain ⟨htype, hk⟩ := hedge.key href
      obtain ⟨htype', hk'⟩ := hedge'.key href
      simp only [htype, htype', ne_eq, not_true_eq_false, if_false, hk, hk']
      by_cases hstack : d.ref ∈ stack
      · have herror := (hedge.failed href).mpr (.inl hstack)
        have herror' := (hedge'.failed href).mpr (.inl hstack)
        simp only [hstack, if_true, herror, herror', if_false]
        exact ⟨hpass.walked, by rw [hpass.cycles], hpass.marked, hpass.marked'⟩
      · simp only [hstack, if_false]
        cases hfull : r.edges.full (dependencyEdge d b).key with
        | none =>
          cases hfull' : r'.edges.full (dependencyEdge d b).key with
          | none => exact hpass
          | some below' =>
            obtain ⟨hknown', -⟩ := h'.exists_of_full hfull'
            obtain ⟨below, hbelow⟩ := h.exists_full ((hknown _).mpr hknown')
            exact absurd (hfull.symm.trans hbelow) nofun
        | some below =>
          obtain ⟨hkn, t, ht, hshared, heq, rfl⟩ := h.exists_of_full hfull
          obtain ⟨below', hfull'⟩ := h'.exists_full ((hknown _).mp hkn)
          obtain ⟨-, t', ht', hshared', heq', rfl⟩ := h'.exists_of_full hfull'
          simp only [hfull', hpass.walked]
          split
          · exact hpass
          · obtain ⟨_, _, _, hchain'⟩ := (h.mem_visited_iff hkey halike hdone).mp hkn
            obtain ⟨bundle, hfetch, -⟩ := hchain'.fetched_of_key hkey
            have hstep := Chain.step hchain hd href hstack hfetch
            have hbelow := (h.heads_of_mem_nodes hkey halike hdone ht hshared
              (heq ▸ hstep)).2.2
            have hbelow' := (h'.heads_of_mem_nodes hkey halike hdone' ht' hshared'
              (heq' ▸ hstep)).2.2
            exact ih hstep (Support.forall₂_of_common hbelow hbelow')
              ⟨rfl, hpass.cycles, hpass.marked, hpass.marked'⟩

omit hkey halike in
theorem mark_nil (owner : Option DepKey) (i : Nat) (E : Edges F) : E.mark [] owner i = E := by
  induction E generalizing owner i with
  | nil => rfl
  | waiting _ _ _ _ ih => simp [Edges.mark, ih]
  | bare _ _ ih => simp [Edges.mark, ih]
  | resolved _ _ _ _ ihbelow ihrest => simp [Edges.mark, ihbelow, ihrest]

theorem Resolution.Sound.detectCycles_alike (h : r.Sound fetch root rootBase)
    (hdone : r.Finished) (h' : r'.Sound fetch root rootBase) (hdone' : r'.Finished) :
    (detectCycles root r).Alike (detectCycles root r') := by
  have hperm : (r.visited.map Prod.fst).Perm (r'.visited.map Prod.fst) := by
    rw [List.perm_ext_iff_of_nodup h.nodup h'.nodup]
    intro key
    rw [h.mem_visited_iff hkey halike hdone, h'.mem_visited_iff hkey halike hdone']
  have hlength : r.visited.length = r'.visited.length := by simpa using hperm.length_eq
  unfold detectCycles
  rw [hlength]
  exact h.dfs_alike hkey halike hdone h' hdone' _ .root
    (Support.forall₂_of_common (h.fits.heads hdone) (h'.fits.heads hdone')) ⟨rfl, rfl, rfl, rfl⟩

/-- The answer has the tree of the run: nothing is left to mark. -/
theorem Resolution.Sound.result_edges (h : r.Sound fetch root rootBase) (hdone : r.Finished) :
    (r.result root).edges = r.edges := by
  have hpass := h.detectCycles_alike hkey halike hdone h hdone
  simp [Resolution.result, hpass.marked, mark_nil]

end Finished

/-! ## Two schedules -/

/-- The conflicts depend on what was found, not on the order. -/
theorem detectConflicts_congr {found found' : List (String × String)}
    (h : ∀ x, x ∈ found ↔ x ∈ found') : detectConflicts found = detectConflicts found' := by
  have hversions : ∀ name, (versionsOf found name).Perm (versionsOf found' name) := by
    intro name
    apply Support.dedup_perm_of_mem_iff
    intro v
    simp [h]
  have hconflict : conflictOf found = conflictOf found' := by
    funext name
    unfold conflictOf
    simp only [(hversions name).length_eq]
    rw [Support.insertionSort_eq_of_perm ((hversions name).map (name ++ "@" ++ ·))]
  have hnames : (found.map Prod.fst).dedup.Perm (found'.map Prod.fst).dedup := by
    apply Support.dedup_perm_of_mem_iff
    intro name
    simp [h]
  unfold detectConflicts
  rw [hconflict, Support.insertionSort_eq_of_perm hnames]

/-- Two answers agree: the same set of cycles, the same conflicts and errors on
the same edges. -/
structure Result.Agrees (root : Contract) (answer answer' : Result F) : Prop where
  cycles : ∀ cycle, cycle ∈ answer.cycles ↔ cycle ∈ answer'.cycles
  conflicts : answer.conflicts = answer'.conflicts
  errors : ∀ x, x ∈ answer.edges.errors root.name root.version ↔
    x ∈ answer'.edges.errors root.name root.version

/-- Places that hold the root's and whatever their dependencies lead to hold
every place a chain leads to. -/
theorem Chain.mem_of_closed {places : List (List String × Option DepKey × String × Contract)}
    (hroot : ([root.name], none, rootBase, root) ∈ places)
    (hclosed : ∀ p ∈ places, ∀ d ∈ p.2.2.2.dependencies, d.ref ≠ "" → d.ref ∉ p.1 →
      ∀ x ∈ (fetched fetch p.2.2.1 d).toOption,
        (p.1 ++ [d.ref], some (dependencyEdge d p.2.2.1).key, x.2, x.1.contract) ∈ places)
    (h : Chain fetch root rootBase path owner b c) : (path, owner, b, c) ∈ places := by
  induction h with
  | root => exact hroot
  | step _ hd href hpath hfetch ih =>
    exact hclosed _ ih _ hd href hpath (_, _) (by simp [hfetch, Except.toOption])

def tableFetch (table : List (String × Contract)) : Fetch Unit := fun _ d =>
  match table.lookup d.ref with
  | some c => .ok (some ⟨c, ()⟩, "")
  | none => .error ("no bundle at " ++ d.ref)

theorem byKey_tableFetch (table : List (String × Contract)) : ByKey (tableFetch table) := by
  intro base d d' href _
  unfold tableFetch
  rw [href]

/-- Two services share a third, which is in a cycle with a fourth, and one of them
names a fifth that is missing. -/
def diamondFetch : Fetch Unit :=
  tableFetch [("left", dependent "left" ["shared"]),
    ("right", dependent "right" ["shared", "missing"]), ("shared", dependent "shared" ["core"]),
    ("core", dependent "core" ["shared"])]

def diamondRoot : Contract := dependent "root" ["left", "right"]

/-- The places of the closure. -/
def diamondPlaces : List (List String × Option DepKey × String × Contract) :=
  [(["root"], none, "", diamondRoot),
    (["root", "left"], some ⟨"", "left", ""⟩, "", dependent "left" ["shared"]),
    (["root", "right"], some ⟨"", "right", ""⟩, "", dependent "right" ["shared", "missing"]),
    (["root", "left", "shared"], some ⟨"", "shared", ""⟩, "", dependent "shared" ["core"]),
    (["root", "right", "shared"], some ⟨"", "shared", ""⟩, "", dependent "shared" ["core"]),
    (["root", "left", "shared", "core"], some ⟨"", "core", ""⟩, "", dependent "core" ["shared"]),
    (["root", "right", "shared", "core"], some ⟨"", "core", ""⟩, "", dependent "core" ["shared"])]

theorem diamond_closesAlike : ClosesAlike diamondFetch diamondRoot "" := by
  have hmem : ∀ {path owner b c}, Chain diamondFetch diamondRoot "" path owner b c →
      (path, owner, b, c) ∈ diamondPlaces :=
    fun h => h.mem_of_closed (by decide) (by decide +kernel)
  have hall : ∀ p ∈ diamondPlaces, ∀ p' ∈ diamondPlaces, p.2.1 = p'.2.1 →
      ∀ d ∈ p.2.2.2.dependencies, d.ref ≠ "" → d.ref ∈ p.1 → d.ref ∈ p'.1 := by
    decide +kernel
  intro path path' owner b b' c c' h h' d hd href hpath
  exact .inl (hall _ (hmem h) _ (hmem h') rfl d hd href hpath)

/-- Two services that depend on each other. -/
def mutualFetch : Fetch Unit :=
  tableFetch [("a", dependent "a" ["b"]), ("b", dependent "b" ["a"])]

def mutualRoot : Contract := dependent "root" ["a", "b"]

end Pacto.Graph
