import Pacto.Graph.Timing

/-!
# Graphs that unfold to a tree

When every declaration can be fetched, the declarations unfold to a tree.  An
identity that occurs once in it is held where it occurs; one that occurs again is
held at one place and a copy at the others.  Where only leaves occur again, every
schedule ends with the tree, but for copies of leaves.
-/

namespace Pacto.Graph

variable {F : Type} {fetch : Fetch F}
variable {t : Edge × Node F × Edges F} {root : Contract}

/-- The tree the declarations of a contract unfold to when none of them fails. -/
inductive Unfolds (fetch : Fetch F) : List Dependency → String → List String → Edges F → Prop
  | nil {base path} : Unfolds fetch [] base path .nil
  | external {d ds base path rest} (href : d.ref = "") (hrest : Unfolds fetch ds base path rest) :
      Unfolds fetch (d :: ds) base path (.bare (externalEdge d) rest)
  | node {d ds base path rest bundle childBase dependencies} (href : d.ref ≠ "")
      (hpath : d.ref ∉ path) (hfetch : fetched fetch base d = .ok (bundle, childBase))
      (hbelow : Unfolds fetch bundle.contract.dependencies childBase (path ++ [d.ref]) dependencies)
      (hrest : Unfolds fetch ds base path rest) :
      Unfolds fetch (d :: ds) base path
        (.resolved (dependencyEdge d base) (nodeOf d.ref bundle) dependencies rest)

/-- The identities of the nodes of a tree, copies included. -/
def Edges.keys (E : Edges F) : List DepKey := E.nodes.map (·.1.key)

@[simp] theorem keys_resolved (e : Edge) (n : Node F) (dependencies rest : Edges F) :
    (Edges.resolved e n dependencies rest).keys =
      e.key :: (dependencies.keys ++ rest.keys) := by
  simp [Edges.keys, Edges.nodes]

@[simp] theorem keys_bare (e : Edge) (rest : Edges F) : (Edges.bare e rest).keys = rest.keys := rfl

theorem nodes_subset_below (e : Edge) (n : Node F) (dependencies rest : Edges F) :
    dependencies.nodes ⊆ (Edges.resolved e n dependencies rest).nodes :=
  fun _ ht => List.mem_cons_of_mem _ (List.mem_append_left _ ht)

theorem nodes_subset_rest (e : Edge) (n : Node F) (dependencies rest : Edges F) :
    rest.nodes ⊆ (Edges.resolved e n dependencies rest).nodes :=
  fun _ ht => List.mem_cons_of_mem _ (List.mem_append_right _ ht)

variable {ds : List Dependency} {base : String} {path : List String} {E T : Edges F}
  {known : List DepKey}

/-! ## The tree itself -/

/-- A declaration with a reference has a node in the tree. -/
theorem Unfolds.exists_node (h : Unfolds fetch ds base path T) {d : Dependency} (hd : d ∈ ds)
    (href : d.ref ≠ "") :
    d.ref ∉ path ∧ ∃ bundle childBase D, fetched fetch base d = .ok (bundle, childBase) ∧
      (dependencyEdge d base, nodeOf d.ref bundle, D) ∈ T.nodes ∧
      Unfolds fetch bundle.contract.dependencies childBase (path ++ [d.ref]) D ∧
      D.nodes ⊆ T.nodes := by
  induction h with
  | nil => cases hd
  | external href' _ ih =>
    rcases List.mem_cons.mp hd with rfl | hd
    · exact absurd href' href
    · exact ih hd
  | node _ hpath hfetch hbelow _ _ ih =>
    rcases List.mem_cons.mp hd with rfl | hd
    · exact ⟨hpath, _, _, _, hfetch, List.mem_cons_self, hbelow, nodes_subset_below _ _ _ _⟩
    · obtain ⟨hpath', bundle, childBase, D, hfetch', hmem, hD, hsub⟩ := ih hd
      exact ⟨hpath', bundle, childBase, D, hfetch', nodes_subset_rest _ _ _ _ hmem, hD,
        List.Subset.trans hsub (nodes_subset_rest _ _ _ _)⟩

/-- The nodes of the tree are what the declarations fetch. -/
theorem Unfolds.of_mem_nodes (h : Unfolds fetch ds base path T) {owner : Option DepKey}
    {c : Contract} {rootBase : String} (hchain : Chain fetch root rootBase path owner base c)
    (hds : ds ⊆ c.dependencies) (ht : t ∈ T.nodes) :
    ∃ path' owner' b c' d bundle childBase, Chain fetch root rootBase path' owner' b c' ∧
      d ∈ c'.dependencies ∧ d.ref ≠ "" ∧ fetched fetch b d = .ok (bundle, childBase) ∧
      t.1 = dependencyEdge d b ∧ t.2.1 = nodeOf d.ref bundle ∧
      Unfolds fetch bundle.contract.dependencies childBase (path' ++ [d.ref]) t.2.2 ∧
      t.2.2.nodes ⊆ T.nodes := by
  induction h generalizing c owner with
  | nil => cases ht
  | external _ _ ih => exact ih hchain (List.cons_subset.mp hds).2 ht
  | node href hpath hfetch hbelow _ ihbelow ihrest =>
    have hd := hds List.mem_cons_self
    rcases List.mem_cons.mp ht with rfl | ht
    · exact ⟨_, _, _, c, _, _, _, hchain, hd, href, hfetch, rfl, rfl, hbelow,
        nodes_subset_below _ _ _ _⟩
    · rcases List.mem_append.mp ht with ht | ht
      · obtain ⟨_, _, _, _, _, _, _, hchain', hd', href', hfetch', hedge, hnode, hD, hsub⟩ :=
          ihbelow (.step hchain hd href hpath hfetch) (List.Subset.refl _) ht
        exact ⟨_, _, _, _, _, _, _, hchain', hd', href', hfetch', hedge, hnode, hD,
          List.Subset.trans hsub (nodes_subset_below _ _ _ _)⟩
      · obtain ⟨_, _, _, _, _, _, _, hchain', hd', href', hfetch', hedge, hnode, hD, hsub⟩ :=
          ihrest hchain (List.cons_subset.mp hds).2 ht
        exact ⟨_, _, _, _, _, _, _, hchain', hd', href', hfetch', hedge, hnode, hD,
          List.Subset.trans hsub (nodes_subset_rest _ _ _ _)⟩

/-- The declarations a chain leads to unfold to a part of the tree. -/
theorem Chain.unfolds {rootBase : String} {owner : Option DepKey} {b : String} {c : Contract}
    (h : Chain fetch root rootBase path owner b c)
    (hT : Unfolds fetch root.dependencies rootBase [root.name] T) :
    ∃ D, Unfolds fetch c.dependencies b path D ∧ D.nodes ⊆ T.nodes := by
  induction h with
  | root => exact ⟨T, hT, List.Subset.refl _⟩
  | step _ hd href _ hfetch ih =>
    obtain ⟨D, hD, hsub⟩ := ih
    obtain ⟨-, bundle, childBase, D', hfetch', -, hD', hsub'⟩ := hD.exists_node hd href
    cases hfetch.symm.trans hfetch'
    exact ⟨D', hD', List.Subset.trans hsub' hsub⟩

/-- A tree closes no cycle. -/
theorem Unfolds.closesAlike (hT : Unfolds fetch root.dependencies base [root.name] T) :
    ClosesAlike fetch root base := by
  intro path _ _ _ _ _ _ hchain _ d hd href hpath
  obtain ⟨D, hD, -⟩ := hchain.unfolds hT
  exact absurd hpath (hD.exists_node hd href).1

/-! ## Runs toward the tree -/

/-- At any time a run shows a part of the tree. -/
theorem Fits.keys_sublist (h : Fits fetch known ds base path E)
    (hT : Unfolds fetch ds base path T) : E.keys.Sublist T.keys := by
  induction h generalizing T with
  | nil => exact List.nil_sublist _
  | waiting _ ih =>
    cases hT with
    | external _ hrest =>
      rw [keys_bare]
      exact ih hrest
    | node _ _ _ _ hrest =>
      rw [keys_resolved]
      exact ((ih hrest).trans (List.sublist_append_right _ _)).cons _
  | external href _ ih =>
    cases hT with
    | external _ hrest =>
      rw [keys_bare, keys_bare]
      exact ih hrest
    | node href' => exact absurd href href'
  | cycle href hpath _ _ =>
    cases hT with
    | external href' => exact absurd href' href
    | node _ hpath' => exact absurd hpath hpath'
  | failed href _ hfetch _ _ =>
    cases hT with
    | external href' => exact absurd href' href
    | node _ _ hfetch' => exact absurd (hfetch.symm.trans hfetch') nofun
  | shared href _ _ _ _ ih =>
    cases hT with
    | external href' => exact absurd href' href
    | node _ _ _ _ hrest =>
      rw [keys_resolved, keys_resolved]
      exact ((ih hrest).trans (List.sublist_append_right _ _)).cons_cons _
  | held href _ hfetch _ _ _ ihbelow ihrest =>
    cases hT with
    | external href' => exact absurd href' href
    | node _ _ hfetch' hbelow hrest =>
      cases hfetch.symm.trans hfetch'
      rw [keys_resolved, keys_resolved]
      exact ((ihbelow hbelow).append (ihrest hrest)).cons_cons _

theorem Fits.key_of_mem_nodes (h : Fits fetch known ds base path E)
    (ht : t ∈ E.nodes) : t.1.key ∈ known := by
  induction h with
  | nil => cases ht
  | waiting _ ih => exact ih ht
  | external _ _ ih => exact ih ht
  | cycle _ _ _ ih => exact ih ht
  | failed _ _ _ _ ih => exact ih ht
  | shared _ _ _ hknown _ ih =>
    rcases List.mem_cons.mp ht with rfl | ht
    · exact hknown
    · exact ih ht
  | held _ _ _ hknown _ _ ihbelow ihrest =>
    rcases List.mem_cons.mp ht with rfl | ht
    · exact hknown
    · rcases List.mem_append.mp ht with ht | ht
      · exact ihbelow ht
      · exact ihrest ht

/-- The identity of a copy occurs again in the tree. -/
theorem Resolution.Sound.count_of_shared {r : Resolution F} (h : r.Sound fetch root base)
    (hT : Unfolds fetch root.dependencies base [root.name] T) (ht : t ∈ r.edges.nodes)
    (hshared : t.1.shared = true) : 1 < T.keys.count t.1.key := by
  obtain ⟨t', ht', hshared', heq⟩ := h.exists_node (h.fits.key_of_mem_nodes ht)
  have hne : t ≠ t' := by
    rintro rfl
    exact absurd (hshared.symm.trans hshared') nofun
  have htwo : 1 < r.edges.keys.count t.1.key :=
    @Support.one_lt_count_map _ _ (fun t : Edge × Node F × Edges F => t.1.key) _ _ _ _ ht ht' hne
      heq.symm
  exact Nat.lt_of_lt_of_le htwo ((h.fits.keys_sublist hT).count_le _)

/-- A tree with copies of registry leaves in place of some leaves. -/
inductive Copied : Edges F → Edges F → Prop
  | nil : Copied .nil .nil
  | bare {e E T} (hrest : Copied E T) : Copied (.bare e E) (.bare e T)
  | node {e n D D' E T} (hbelow : Copied D D') (hrest : Copied E T) :
      Copied (.resolved e n D E) (.resolved e n D' T)
  | leaf {e n D E T} (hremote : (parseDependencyRef e.declared.ref).isLocal = false)
      (hleaf : D.nodes = []) (hrest : Copied E T) :
      Copied (.resolved { e with shared := true } n.shallow .nil E) (.resolved e n D T)

/-- A finished run shows the tree, with copies where an identity occurs again. -/
theorem Fits.copied (h : Fits fetch known ds base path E) (hdone : E.waitingCount = 0)
    (hT : Unfolds fetch ds base path T) (Again : DepKey → Prop)
    (hshared : ∀ t ∈ E.nodes, t.1.shared = true → Again t.1.key)
    (hleaf : ∀ t ∈ T.nodes, Again t.1.key →
      (parseDependencyRef t.1.declared.ref).isLocal = false ∧ t.2.2.nodes = []) :
    Copied E T := by
  induction h generalizing T with
  | nil =>
    cases hT
    exact .nil
  | waiting _ _ => cases hdone
  | external href _ ih =>
    cases hT with
    | external _ hrest => exact .bare (ih hdone hrest hshared hleaf)
    | node href' => exact absurd href href'
  | cycle href hpath _ _ =>
    cases hT with
    | external href' => exact absurd href' href
    | node _ hpath' => exact absurd hpath hpath'
  | failed href _ hfetch _ _ =>
    cases hT with
    | external href' => exact absurd href' href
    | node _ _ hfetch' => exact absurd (hfetch.symm.trans hfetch') nofun
  | shared href _ hfetch _ _ ih =>
    cases hT with
    | external href' => exact absurd href' href
    | node _ _ hfetch' _ hrest =>
      cases hfetch.symm.trans hfetch'
      have hagain := hshared _ List.mem_cons_self rfl
      obtain ⟨hremote, hnone⟩ := hleaf _ List.mem_cons_self hagain
      exact .leaf hremote hnone (ih (Nat.add_eq_zero_iff.mp hdone).2 hrest
        (fun t ht => hshared t (nodes_subset_rest _ _ _ _ ht))
        fun t ht => hleaf t (nodes_subset_rest _ _ _ _ ht))
  | held href _ hfetch _ _ _ ihbelow ihrest =>
    cases hT with
    | external href' => exact absurd href' href
    | node _ _ hfetch' hbelow hrest =>
      cases hfetch.symm.trans hfetch'
      obtain ⟨hdone₁, hdone₂⟩ := Nat.add_eq_zero_iff.mp hdone
      exact .node
        (ihbelow hdone₁ hbelow (fun t ht => hshared t (nodes_subset_below _ _ _ _ ht))
          fun t ht => hleaf t (nodes_subset_below _ _ _ _ ht))
        (ihrest hdone₂ hrest (fun t ht => hshared t (nodes_subset_rest _ _ _ _ ht))
          fun t ht => hleaf t (nodes_subset_rest _ _ _ _ ht))

theorem collectVersions_eq_nil (h : E.nodes = []) : E.collectVersions = [] := by
  rw [collectVersions_eq, h, List.map_nil]

theorem Copied.collectVersions_eq (h : Copied E T) : E.collectVersions = T.collectVersions := by
  induction h with
  | nil => rfl
  | bare _ ih => exact ih
  | node _ _ ihbelow ihrest => simp only [Edges.collectVersions, ihbelow, ihrest]
  | leaf _ hleaf _ ih =>
    simp [Edges.collectVersions, collectVersions_eq_nil hleaf, ih, Node.shallow]

/-- Whatever the schedule, a run to the end leaves the tree of the declarations,
but for copies of its leaves. -/
theorem result_of_unfolds (hkey : ByKey fetch)
    (hT : Unfolds fetch root.dependencies base [root.name] T)
    (hleaf : ∀ t ∈ T.nodes, 1 < T.keys.count t.1.key →
      (parseDependencyRef t.1.declared.ref).isLocal = false ∧ t.2.2.nodes = [])
    {schedule : List Nat} (hdone : (run fetch root base schedule).Finished) :
    Copied ((run fetch root base schedule).result root).edges T ∧
      ((run fetch root base schedule).result root).conflicts =
        detectConflicts T.collectVersions := by
  have hsound := sound_run hkey root base schedule
  have hcopied := hsound.fits.copied hdone hT (1 < T.keys.count ·)
    (fun t => hsound.count_of_shared hT) hleaf
  refine ⟨?_, ?_⟩
  · rw [hsound.result_edges hkey hT.closesAlike hdone]
    exact hcopied
  · rw [← hcopied.collectVersions_eq]
    rfl

end Pacto.Graph
