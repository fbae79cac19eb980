import Pacto.Graph.Unfold
import Pacto.Lock.Build

/-!
# The lock records the whole closure

A reference met twice is walked where it comes first, and a copy may come first,
without the dependencies and the files of the node.  Where the declarations
unfold to a tree in which only registry leaves are copied, and one reference
means one content, every schedule gives the same lock, with an entry for each
node of the tree.
-/

namespace Pacto.Lock

open Pacto.Graph

variable {F : Type} {S : Sources F}

/-! ## Walking a tree with copies -/

section Copies

variable {E T : Edges F}

theorem childNames_eq_nil (h : E.nodes = []) : childNames E = [] := by
  induction E with
  | nil => rfl
  | waiting _ _ _ _ ih => exact ih h
  | bare _ _ ih => exact ih h
  | resolved => cases h

theorem walkClosure_eq_nil (h : E.nodes = []) (seen : List String) :
    walkClosure E seen = ([], seen) := by
  induction E with
  | nil => rfl
  | waiting _ _ _ _ ih => exact ih h
  | bare _ _ ih => exact ih h
  | resolved => cases h

theorem childNames_copied (h : Copied E T) : childNames E = childNames T := by
  induction h with
  | nil => rfl
  | bare _ ih => exact ih
  | node _ _ _ ih => simp only [childNames, ih]
  | leaf _ _ _ ih => simp only [childNames, ih, Node.shallow]

/-- A copy of a registry leaf makes the entry of the leaf. -/
theorem entryFromEdge_copy {e : Edge} {n : Node F} {D : Edges F}
    (hremote : (parseDependencyRef e.declared.ref).isLocal = false) (hleaf : D.nodes = []) :
    entryFromEdge S ({ e with shared := true }, n.shallow, .nil) = entryFromEdge S (e, n, D) := by
  simp [entryFromEdge, hremote, childNames_eq_nil hleaf, childNames, Node.shallow]

/-- The walk lists nodes that make the same entries. -/
theorem walkClosure_copied (h : Copied E T) (seen : List String) :
    List.Forall₂ (fun t t' => entryFromEdge S t = entryFromEdge S t') (walkClosure E seen).1
      (walkClosure T seen).1 ∧
    (walkClosure E seen).2 = (walkClosure T seen).2 := by
  induction h generalizing seen with
  | nil => exact ⟨.nil, rfl⟩
  | bare _ ih => exact ih seen
  | @node e n D D' E T hbelow _ ihbelow ihrest =>
    simp only [walkClosure]
    generalize (if n.ref = "" then n.name else n.ref) = key
    split
    · exact ihrest seen
    · obtain ⟨hinner, hseen⟩ := ihbelow (key :: seen)
      rw [hseen]
      obtain ⟨hlater, hseen'⟩ := ihrest (walkClosure D' (key :: seen)).2
      refine ⟨.cons ?_ (List.rel_append hinner hlater), hseen'⟩
      simp only [entryFromEdge, childNames_copied hbelow]
  | @leaf e n D E T hremote hleaf _ ih =>
    have hname : n.shallow.name = n.name := rfl
    have href : n.shallow.ref = n.ref := rfl
    simp only [walkClosure, walkClosure_eq_nil hleaf, hname, href, List.nil_append]
    generalize (if n.ref = "" then n.name else n.ref) = key
    split
    · exact ih seen
    · obtain ⟨hlater, hseen⟩ := ih (key :: seen)
      refine ⟨.cons ?_ hlater, hseen⟩
      exact entryFromEdge_copy hremote hleaf

theorem firstFailedEdge_copied (h : Copied E T) (hnone : firstFailedEdge T = none) :
    firstFailedEdge E = none := by
  induction h with
  | nil => rfl
  | bare _ ih =>
    simp only [firstFailedEdge] at hnone ⊢
    grind
  | node _ _ ihbelow ihrest =>
    simp only [firstFailedEdge] at hnone ⊢
    grind [Option.or_eq_none_iff]
  | leaf _ _ _ ih =>
    simp only [firstFailedEdge] at hnone ⊢
    grind [Option.or_eq_none_iff]

/-- Copies of registry leaves do not show in the lock. -/
theorem lockOf_copied {version : String} {n : Nat} {root : Contract} {base : String}
    {answer : Result F} (h : Copied answer.edges T) (hnone : firstFailedEdge T = none) :
    lockOf S version n root base answer = lockOf S version n root base { answer with edges := T } := by
  unfold lockOf
  simp only [firstFailedEdge_copied h hnone, hnone,
    Support.mapM_congr_of_forall₂ (walkClosure_copied h []).1]

end Copies

/-! ## Walking the tree -/

section Walks

/-- The nodes a node depends on. -/
def children : Edges F → List (Edge × Node F × Edges F)
  | .nil => []
  | .waiting _ _ _ rest => children rest
  | .bare _ rest => children rest
  | .resolved e n dependencies rest => (e, n, dependencies) :: children rest

/-- What a walk lists and has met: it meets the children of what it lists. -/
structure Walked (E : Edges F) (seen : List String)
    (found : List (Edge × Node F × Edges F) × List String) : Prop where
  mono : seen ⊆ found.2
  top : ∀ t ∈ children E, t.2.1.ref ∈ found.2
  mem : ∀ w ∈ found.1, w ∈ E.nodes
  below : ∀ w ∈ found.1, ∀ t ∈ children w.2.2, t.2.1.ref ∈ found.2
  listed : ∀ ref ∈ found.2, ref ∈ seen ∨ ∃ w ∈ found.1, w.2.1.ref = ref

theorem walkClosure_walked (E : Edges F) (hrefs : ∀ t ∈ E.nodes, t.2.1.ref ≠ "")
    (seen : List String) : Walked E seen (walkClosure E seen) := by
  induction E generalizing seen with
  | nil => constructor <;> simp [walkClosure, children]
  | waiting _ _ _ _ ih =>
    obtain ⟨hmono, htop, hmem, hbelow, hlisted⟩ := ih hrefs seen
    exact ⟨hmono, htop, hmem, hbelow, hlisted⟩
  | bare _ _ ih =>
    obtain ⟨hmono, htop, hmem, hbelow, hlisted⟩ := ih hrefs seen
    exact ⟨hmono, htop, hmem, hbelow, hlisted⟩
  | resolved e n D rest ihbelow ihrest =>
    have hrest := ihrest (fun t ht => hrefs t (nodes_subset_rest _ _ _ _ ht))
    simp only [walkClosure, if_neg (hrefs _ List.mem_cons_self)]
    split
    · rename_i hseen
      obtain ⟨hmono, htop, hmem, hbelow, hlisted⟩ := hrest seen
      refine ⟨hmono, ?_, fun w hw => nodes_subset_rest _ _ _ _ (hmem w hw), hbelow, hlisted⟩
      rintro t (_ | ⟨_, ht⟩)
      · exact hmono hseen
      · exact htop t ht
    · have hinner := ihbelow (fun t ht => hrefs t (nodes_subset_below _ _ _ _ ht)) (n.ref :: seen)
      have hlater := hrest (walkClosure D (n.ref :: seen)).2
      have hthis : n.ref ∈ (walkClosure rest (walkClosure D (n.ref :: seen)).2).2 :=
        hlater.mono (hinner.mono List.mem_cons_self)
      refine ⟨fun ref href => hlater.mono (hinner.mono (List.mem_cons_of_mem _ href)), ?_, ?_, ?_,
        ?_⟩
      · rintro t (_ | ⟨_, ht⟩)
        · exact hthis
        · exact hlater.top t ht
      · simp only [List.mem_cons, List.mem_append]
        rintro w (rfl | hw | hw)
        · exact List.mem_cons_self
        · exact nodes_subset_below _ _ _ _ (hinner.mem w hw)
        · exact nodes_subset_rest _ _ _ _ (hlater.mem w hw)
      · simp only [List.mem_cons, List.mem_append]
        rintro w (rfl | hw | hw) t ht
        · exact hlater.mono (hinner.top t ht)
        · exact hlater.mono (hinner.below w hw t ht)
        · exact hlater.below w hw t ht
      · intro ref href
        simp only [List.mem_cons, List.mem_append]
        rcases hlater.listed ref href with href | ⟨w, hw, heq⟩
        · rcases hinner.listed ref href with href | ⟨w, hw, heq⟩
          · rcases List.mem_cons.mp href with rfl | href
            · exact .inr ⟨_, .inl rfl, rfl⟩
            · exact .inl href
          · exact .inr ⟨w, .inr (.inl hw), heq⟩
        · exact .inr ⟨w, .inr (.inr hw), heq⟩

variable {ds : List Dependency} {base : String} {path : List String} {T : Edges F}

/-- No edge of the tree carries an error. -/
theorem firstFailedEdge_unfolds {fetch : Fetch F} (h : Unfolds fetch ds base path T) :
    firstFailedEdge T = none := by
  induction h with
  | nil => rfl
  | external _ _ ih => simpa [firstFailedEdge, externalEdge] using ih
  | node _ _ _ _ _ ihbelow ihrest => simp [firstFailedEdge, dependencyEdge, ihbelow, ihrest]

/-- Each declaration with a reference has a child. -/
theorem exists_child {fetch : Fetch F} (h : Unfolds fetch ds base path T) {d : Dependency}
    (hd : d ∈ ds) (href : d.ref ≠ "") : ∃ t ∈ children T, t.2.1.ref = d.ref := by
  induction h with
  | nil => cases hd
  | external href' _ ih =>
    rcases List.mem_cons.mp hd with rfl | hd
    · exact absurd href' href
    · exact ih hd
  | node _ _ _ _ _ _ ih =>
    rcases List.mem_cons.mp hd with rfl | hd
    · exact ⟨_, List.mem_cons_self, rfl⟩
    · obtain ⟨t, ht, heq⟩ := ih hd
      exact ⟨t, List.mem_cons_of_mem _ ht, heq⟩

/-- The names of a node's dependencies are those its contract's declarations
fetch. -/
theorem childNames_unfolds {fetch : Fetch F} (h : Unfolds fetch ds base path T) :
    List.Forall₂ (fun d name => ∃ bundle childBase,
      fetched fetch base d = .ok (bundle, childBase) ∧ name = bundle.contract.name)
      (ds.filter (·.ref ≠ "")) (childNames T) := by
  induction h with
  | nil => exact .nil
  | external href _ ih => simpa [href, childNames] using ih
  | node href _ hfetch _ _ _ ih =>
    rw [List.filter_cons_of_pos (by simpa using href)]
    exact .cons ⟨_, _, hfetch, rfl⟩ ih

/-- Declarations that unfold in two places have dependencies of the same names if
one reference means one name. -/
theorem childNames_eq_of_unfolds {fetch : Fetch F} {base' : String} {path' : List String}
    {D D' : Edges F} (h : Unfolds fetch ds base path D) (h' : Unfolds fetch ds base' path' D')
    (hnames : ∀ t ∈ D.nodes, ∀ t' ∈ D'.nodes, t.2.1.ref = t'.2.1.ref → t.2.1.name = t'.2.1.name) :
    childNames D = childNames D' := by
  induction h generalizing D' with
  | nil =>
    cases h'
    rfl
  | external href _ ih =>
    cases h' with
    | external _ hrest' => simpa only [childNames] using ih hrest' hnames
    | node href' => exact absurd href href'
  | @node d _ _ _ _ bundle _ _ href _ _ _ _ _ ih =>
    cases h' with
    | external href' => exact absurd href' href
    | @node _ _ _ _ _ bundle' _ _ _ _ _ _ hrest' =>
      have hname : (nodeOf d.ref bundle).name = (nodeOf d.ref bundle').name :=
        hnames _ List.mem_cons_self _ List.mem_cons_self rfl
      have hrest := ih hrest' fun t ht t' ht' =>
        hnames t (nodes_subset_rest _ _ _ _ ht) t' (nodes_subset_rest _ _ _ _ ht')
      simp only [childNames, hname, hrest]

end Walks

/-! ## Entries -/

/-- What an entry says of a dependency: the name and version of the bundle it
resolves to, where that came from, the pin of its own content and the names of
its own dependencies. -/
structure Records (S : Sources F) (d : Dependency) (bundle : Bundle F) (childBase : String)
    (entry : Entry) : Prop where
  name : entry.name = bundle.contract.name
  version : entry.version = bundle.contract.version
  pin : ((parseDependencyRef d.ref).isLocal = true ∧ entry.source = "local" ∧
      entry.path = (parseDependencyRef d.ref).location ∧
      S.hashFS bundle.files = .ok entry.contentHash) ∨
    ((parseDependencyRef d.ref).isLocal = false ∧ entry.source = "oci" ∧ entry.ref = d.ref ∧
      entry.digest ≠ "" ∧
      ∃ ref, S.resolveRef (parseDependencyRef d.ref).location d.compatibility = .ok ref ∧
        S.pull ref = .ok (bundle, entry.digest))
  dependsOn : List.Forall₂ (fun d' name => ∃ bundle' childBase',
      fetched (depFetcher S) childBase d' = .ok (bundle', childBase') ∧
        name = bundle'.contract.name)
    (bundle.contract.dependencies.filter (·.ref ≠ "")) entry.dependsOn

section Pins

variable {d d' : Dependency} {b b' childBase childBase' : String} {bundle bundle' : Bundle F}
  {D D' : Edges F} {pins : String × String}

/-- What pins a fetched node: the hash of its own files, or the digest it was
pulled by. -/
theorem nodePins_eq_ok (hfetch : fetched (depFetcher S) b d = .ok (bundle, childBase))
    (h : nodePins S (dependencyEdge d b, nodeOf d.ref bundle, D) = .ok pins) :
    ((parseDependencyRef d.ref).isLocal = true ∧ S.loadLocalBundle childBase = .ok bundle ∧
      S.hashFS bundle.files = .ok pins.2) ∨
    ((parseDependencyRef d.ref).isLocal = false ∧ pins.1 ≠ "" ∧
      ∃ ref, S.resolveRef (parseDependencyRef d.ref).location d.compatibility = .ok ref ∧
        S.pull ref = .ok (bundle, pins.1)) := by
  rcases fetched_depFetcher hfetch with ⟨hlocal, -, hload⟩ | ⟨hlocal, -, ref, digest, href, hpull⟩
  · simp only [nodePins, dependencyEdge, nodeOf, hlocal, if_true] at h
    cases hhash : S.hashFS bundle.files with
    | error reason =>
      rw [hhash] at h
      cases h
    | ok hash =>
      rw [hhash] at h
      cases h
      exact .inl ⟨hlocal, hload, rfl⟩
  · simp only [nodePins, dependencyEdge, hlocal, Bool.false_eq_true, if_false] at h
    cases hp : resolvePinned S (parseDependencyRef d.ref).location d.compatibility with
    | error reason =>
      rw [hp] at h
      cases h
    | ok p =>
      rw [hp] at h
      cases h
      obtain ⟨href', hpull', hne⟩ := resolvePinned_eq_ok hp
      cases href.symm.trans href'
      cases hpull.symm.trans hpull'
      exact .inr ⟨hlocal, hne, p.ref, href, hpull⟩

/-- One reference and one pin mean one contract. -/
theorem contract_eq_of_nodePins (hfetch : fetched (depFetcher S) b d = .ok (bundle, childBase))
    (hfetch' : fetched (depFetcher S) b' d' = .ok (bundle', childBase')) (href : d.ref = d'.ref)
    (h : nodePins S (dependencyEdge d b, nodeOf d.ref bundle, D) = .ok pins)
    (h' : nodePins S (dependencyEdge d' b', nodeOf d'.ref bundle', D') = .ok pins) :
    bundle.contract = bundle'.contract := by
  rcases nodePins_eq_ok hfetch h with ⟨hlocal, hload, hhash⟩ | ⟨hlocal, hne, ref, -, hpull⟩ <;>
  rcases nodePins_eq_ok hfetch' h' with ⟨hlocal', hload', hhash'⟩ | ⟨hlocal', -, ref', -, hpull'⟩
  · exact S.hash_addressed hload hload' hhash hhash'
  · rw [href, hlocal'] at hlocal
    cases hlocal
  · rw [href, hlocal'] at hlocal
    cases hlocal
  · rw [S.content_addressed hne hpull hpull']

/-- The entry of a node records every dependency of the same reference that is
pinned alike. -/
theorem records_of_entryFromEdge {path path' : List String}
    (hfetch : fetched (depFetcher S) b d = .ok (bundle, childBase))
    (hD : Unfolds (depFetcher S) bundle.contract.dependencies childBase path D)
    (hfetch' : fetched (depFetcher S) b' d' = .ok (bundle', childBase')) (href : d.ref = d'.ref)
    (hD' : Unfolds (depFetcher S) bundle'.contract.dependencies childBase' path' D')
    (hpins : nodePins S (dependencyEdge d b, nodeOf d.ref bundle, D) =
      nodePins S (dependencyEdge d' b', nodeOf d'.ref bundle', D'))
    (hnames : ∀ t ∈ D.nodes, ∀ t' ∈ D'.nodes, t.2.1.ref = t'.2.1.ref → t.2.1.name = t'.2.1.name)
    {entry : Entry}
    (h : entryFromEdge S (dependencyEdge d' b', nodeOf d'.ref bundle', D') = .ok entry) :
    Records S d bundle childBase entry := by
  obtain ⟨-, hpins', -⟩ := entryFromEdge_pins h
  rw [hpins'] at hpins
  have hcontract := contract_eq_of_nodePins hfetch hfetch' href hpins hpins'
  rw [← hcontract] at hD'
  have hchildren := childNames_unfolds hD
  rw [childNames_eq_of_unfolds hD hD' hnames] at hchildren
  have hpin := nodePins_eq_ok hfetch hpins
  rcases entryFromEdge_eq_ok h with ⟨hlocal, _, hash, -, -, rfl⟩ | ⟨hlocal, p, hp, rfl⟩ <;>
  simp only [dependencyEdge, ← href] at hlocal
  · obtain ⟨-, -, hhash⟩ | ⟨hremote, -⟩ := hpin
    · refine ⟨by rw [hcontract]; rfl, by rw [hcontract]; rfl, .inl ⟨hlocal, rfl, ?_, hhash⟩,
        hchildren⟩
      simp only [dependencyEdge, href]
    · exact absurd (hlocal.symm.trans hremote) (by decide)
  · obtain ⟨hlocal', -⟩ | ⟨-, hne, ref, hresolve, hpull⟩ := hpin
    · exact absurd (hlocal'.symm.trans hlocal) (by decide)
    · obtain ⟨-, hpull', -⟩ := resolvePinned_eq_ok hp
      have hbundle := S.content_addressed hne hpull hpull'
      refine ⟨by rw [hcontract]; rfl, by rw [hbundle], .inr ⟨hlocal, rfl, ?_, hne, ref, hresolve,
        hpull⟩, hchildren⟩
      simp only [dependencyEdge, href]

theorem entryFromEdge_ne_panicked :
    entryFromEdge S (dependencyEdge d b, nodeOf d.ref bundle, D) ≠ .error .panicked := by
  simp only [entryFromEdge, nodeOf]
  split
  · split <;> simp
  · split <;> simp

end Pins

/-! ## The lock of a tree -/

/-- Only registry leaves have an identity that occurs again, and one reference
means one content. -/
structure SharesLeaves (S : Sources F) (T : Edges F) : Prop where
  leaf : ∀ t ∈ T.nodes, 1 < T.keys.count t.1.key →
    (parseDependencyRef t.1.declared.ref).isLocal = false ∧ t.2.2.nodes = []
  alike : ∀ t ∈ T.nodes, ∀ t' ∈ T.nodes, t.2.1.ref = t'.2.1.ref → nodePins S t = nodePins S t'

section Trees

variable {version : String} {n : Nat} {root : Contract} {base : String} {T : Edges F}
  (hT : Unfolds (depFetcher S) root.dependencies base [root.name] T)
include hT

theorem walked_of_unfolds : Walked T [] (walkClosure T []) := by
  refine walkClosure_walked T (fun t ht => ?_) []
  obtain ⟨_, _, _, _, d, _, _, -, -, href, -, -, hnode, -⟩ :=
    hT.of_mem_nodes .root (List.Subset.refl _) ht
  rw [hnode]
  exact href

theorem lockOf_ne_panicked {cycles : List (List String)} {conflicts : List Conflict} :
    lockOf S version n root base ⟨T, cycles, conflicts⟩ ≠ some (.error .panicked) := by
  intro h
  unfold lockOf at h
  simp only [firstFailedEdge_unfolds hT] at h
  split at h
  · cases h
  · split at h
    · rename_i e hentries
      cases h
      obtain ⟨t, ht, herror⟩ := Support.exists_of_mapM_error hentries
      obtain ⟨_, _, b, _, d, bundle, _, -, -, -, -, hedge, hnode, -⟩ :=
        hT.of_mem_nodes .root (List.Subset.refl _) ((walked_of_unfolds hT).mem t ht)
      obtain ⟨e, n, D⟩ := t
      cases hedge
      cases hnode
      exact entryFromEdge_ne_panicked herror
    · split at h <;> cases h

/-- There is a lock where every node can be pinned and the references close. -/
theorem exists_lockOf {cycles : List (List String)} {references : List Reference}
    (hpins : ∀ t ∈ T.nodes, ∃ pins, nodePins S t = .ok pins)
    (hreferences : buildReferenceClosure S n root base = some (.ok references)) :
    ∃ l, lockOf S version n root base ⟨T, cycles, []⟩ = some (.ok l) := by
  simp only [lockOf, firstFailedEdge_unfolds hT, hreferences]
  cases hentries : (walkClosure T []).1.mapM (entryFromEdge S) with
  | error e =>
    obtain ⟨t, ht, herror⟩ := Support.exists_of_mapM_error hentries
    obtain ⟨pins, hpin⟩ := hpins t ((walked_of_unfolds hT).mem t ht)
    obtain ⟨entry, hentry⟩ := exists_entry_of_nodePins hpin
    cases herror.symm.trans hentry
  | ok dependencies => exact ⟨_, rfl⟩

variable (halike : ∀ t ∈ T.nodes, ∀ t' ∈ T.nodes, t.2.1.ref = t'.2.1.ref →
    nodePins S t = nodePins S t')
  (hpinned : ∀ w ∈ (walkClosure T []).1, ∃ entry, entryFromEdge S w = .ok entry)
include halike hpinned

/-- The walk meets the reference of every declaration: what it passes over it has
met, with the same dependencies, at another place. -/
theorem ref_mem_walkClosure {path : List String} {owner : Option DepKey} {b : String}
    {c : Contract} (hchain : Chain (depFetcher S) root base path owner b c) {d : Dependency}
    (hd : d ∈ c.dependencies) (href : d.ref ≠ "") : d.ref ∈ (walkClosure T []).2 := by
  have hwalk := walked_of_unfolds hT
  induction hchain generalizing d with
  | root =>
    obtain ⟨t, ht, heq⟩ := exists_child hT hd href
    exact heq ▸ hwalk.top t ht
  | step hchain hd' href' _ hfetch ih =>
    obtain ⟨D, hD, hsub⟩ := hchain.unfolds hT
    obtain ⟨-, bundle, childBase, D', hfetch', hmem, -, -⟩ := hD.exists_node hd' href'
    cases hfetch.symm.trans hfetch'
    obtain hnil | ⟨w, hw, heq⟩ := hwalk.listed _ (ih hd' href')
    · cases hnil
    · obtain ⟨entry, hentry⟩ := hpinned w hw
      obtain ⟨-, hpins, -⟩ := entryFromEdge_pins hentry
      have hsame := halike _ (hsub hmem) w (hwalk.mem w hw) heq.symm
      obtain ⟨_, _, _, _, d₂, _, _, -, -, -, hfetch₂, hedge, hnode, hD₂, -⟩ :=
        hT.of_mem_nodes .root (List.Subset.refl _) (hwalk.mem w hw)
      obtain ⟨e, node, D₂⟩ := w
      cases hedge
      cases hnode
      have hcontract := contract_eq_of_nodePins hfetch hfetch₂ heq.symm (hsame.trans hpins) hpins
      rw [hcontract] at hd
      obtain ⟨t, ht, heq'⟩ := exists_child hD₂ hd href
      exact heq' ▸ hwalk.below _ hw t ht

/-- Every node of the tree has a listed one of its reference. -/
theorem exists_listed {t : Edge × Node F × Edges F} (ht : t ∈ T.nodes) :
    ∃ w ∈ (walkClosure T []).1, t.2.1.ref = w.2.1.ref := by
  obtain ⟨_, _, _, _, d, _, _, hchain, hd, href, -, -, hnode, -⟩ :=
    hT.of_mem_nodes .root (List.Subset.refl _) ht
  have hmet := ref_mem_walkClosure hT halike hpinned hchain hd href
  obtain hnil | ⟨w, hw, heq⟩ := (walked_of_unfolds hT).listed _ hmet
  · cases hnil
  · exact ⟨w, hw, by rw [hnode, heq]; rfl⟩

theorem name_eq_of_ref_eq {t t' : Edge × Node F × Edges F} (ht : t ∈ T.nodes)
    (ht' : t' ∈ T.nodes) (heq : t.2.1.ref = t'.2.1.ref) : t.2.1.name = t'.2.1.name := by
  obtain ⟨w, hw, hrefw⟩ := exists_listed hT halike hpinned ht
  obtain ⟨entry, hentry⟩ := hpinned w hw
  obtain ⟨-, hpins, -⟩ := entryFromEdge_pins hentry
  have hmem := (walked_of_unfolds hT).mem w hw
  have hpins₁ := (halike t ht w hmem hrefw).trans hpins
  have hpins₂ := (halike t' ht' w hmem (heq.symm.trans hrefw)).trans hpins
  obtain ⟨_, _, _, _, d, _, _, -, -, -, hfetch, hedge, hnode, -⟩ :=
    hT.of_mem_nodes .root (List.Subset.refl _) ht
  obtain ⟨_, _, _, _, d', _, _, -, -, -, hfetch', hedge', hnode', -⟩ :=
    hT.of_mem_nodes .root (List.Subset.refl _) ht'
  obtain ⟨e, node, D⟩ := t
  obtain ⟨e', node', D'⟩ := t'
  cases hedge
  cases hnode
  cases hedge'
  cases hnode'
  have hcontract := contract_eq_of_nodePins hfetch hfetch' heq hpins₁ hpins₂
  exact congrArg Contract.name hcontract

end Trees

def writtenLock {Bytes : Type} (Y : Yaml Bytes) (S : Sources F) (version : String) (n : Nat)
    (root : Contract) (base : String) (schedule : List Nat) : Option (Except BuildError Bytes) :=
  (buildLock S version n root base schedule).map (Except.map (marshal Y))

/-- A library on disk that depends on another one, and two services in the
registry that share a third. -/
def diskSources : Sources String :=
  tableSources [("/w/lib", dependentBundle "lib" ["../core"]),
    ("/w/core", dependentBundle "core" [])]
    [("reg/app:1.0.0", dependentBundle "app" ["oci://reg/log"], "sha256:1"),
      ("reg/web:1.0.0", dependentBundle "web" ["oci://reg/log"], "sha256:2"),
      ("reg/log:1.0.0", dependentBundle "log" [], "sha256:3")] (by decide) (by decide)

def diskRoot : Contract := dependent "root" ["./lib", "oci://reg/app", "oci://reg/web"]

/-- A declaration as `dependent` makes it. -/
def declaring (ref base : String) : Edge := dependencyEdge { name := ref, ref := ref } base

def logTree : Edges String :=
  .resolved (declaring "oci://reg/log" ociBase) (nodeOf "oci://reg/log" (dependentBundle "log" []))
    .nil .nil

/-- The tree its declarations unfold to. -/
def diskTree : Edges String :=
  .resolved (declaring "./lib" "/w") (nodeOf "./lib" (dependentBundle "lib" ["../core"]))
    (.resolved (declaring "../core" "/w/lib") (nodeOf "../core" (dependentBundle "core" [])) .nil
      .nil)
    (.resolved (declaring "oci://reg/app" "/w")
      (nodeOf "oci://reg/app" (dependentBundle "app" ["oci://reg/log"])) logTree
      (.resolved (declaring "oci://reg/web" "/w")
        (nodeOf "oci://reg/web" (dependentBundle "web" ["oci://reg/log"])) logTree .nil))

theorem diskTree_unfolds :
    Unfolds (depFetcher diskSources) diskRoot.dependencies "/w" [diskRoot.name] diskTree := by
  have hlog : fetched (depFetcher diskSources) ociBase
      { name := "oci://reg/log", ref := "oci://reg/log" } =
      .ok (dependentBundle "log" [], ociBase) := by
    decide +kernel
  have hcore : fetched (depFetcher diskSources) "/w/lib" { name := "../core", ref := "../core" } =
      .ok (dependentBundle "core" [], "/w/core") := by
    decide +kernel
  have hlogTree : ∀ path, "oci://reg/log" ∉ path → Unfolds (depFetcher diskSources)
      [{ name := "oci://reg/log", ref := "oci://reg/log" }] ociBase path logTree :=
    fun path hpath => .node (by decide) hpath hlog .nil .nil
  exact .node (by decide) (by decide) (by decide +kernel)
    (.node (by decide) (by decide) hcore .nil .nil)
    (.node (by decide) (by decide) (by decide +kernel) (hlogTree _ (by decide))
      (.node (by decide) (by decide) (by decide +kernel) (hlogTree _ (by decide)) .nil))

theorem diskTree_sharesLeaves : SharesLeaves diskSources diskTree :=
  ⟨by decide +kernel, by decide +kernel⟩

/-- Two services share a third one, which depends on a fourth. -/
def sharedSources : Sources String :=
  registrySources [("reg/left:1.0.0", dependentBundle "left" ["oci://reg/shared"], "sha256:1"),
    ("reg/right:1.0.0", dependentBundle "right" ["oci://reg/shared"], "sha256:2"),
    ("reg/shared:1.0.0", dependentBundle "shared" ["oci://reg/core"], "sha256:3"),
    ("reg/core:1.0.0", dependentBundle "core" [], "sha256:4")] (by decide)

def sharedRoot : Contract := dependent "root" ["oci://reg/left", "oci://reg/right"]

end Pacto.Lock
