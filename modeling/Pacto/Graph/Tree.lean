import Pacto.Graph.Resolver
import Mathlib.Data.List.Perm.Basic

/-!
# The tree of a run

Whatever the schedule, the edges of a node are those its contract declares: each
waits, has failed for a reason that does not depend on the run, points at a node
that is known, or holds that node.  Every known node is held by exactly one edge.
-/

namespace Pacto.Graph

variable {F : Type} {fetch : Fetch F}

/-- The fetcher reads nothing of a dependency but its reference and constraint. -/
def ByKey (fetch : Fetch F) : Prop :=
  ∀ base d d', d.ref = d'.ref → d.compatibility = d'.compatibility → fetch base d = fetch base d'

theorem ByKey.fetched_eq (h : ByKey fetch) (base : String) {d d' : Dependency}
    (href : d.ref = d'.ref) (hcompat : d.compatibility = d'.compatibility) :
    fetched fetch base d = fetched fetch base d' := by
  unfold fetched
  rw [h base d d' href hcompat, href]

/-! ## The edges of a node -/

/-- The edges of a node under a base and a path, against the dependencies its
contract declares. -/
inductive Fits (fetch : Fetch F) (known : List DepKey) :
    List Dependency → String → List String → Edges F → Prop
  | nil {base path} : Fits fetch known [] base path .nil
  | waiting {d ds base path rest} (hrest : Fits fetch known ds base path rest) :
      Fits fetch known (d :: ds) base path (.waiting d base path rest)
  | external {d ds base path rest} (href : d.ref = "")
      (hrest : Fits fetch known ds base path rest) :
      Fits fetch known (d :: ds) base path (.bare (externalEdge d) rest)
  | cycle {d ds base path rest} (href : d.ref ≠ "") (hpath : d.ref ∈ path)
      (hrest : Fits fetch known ds base path rest) :
      Fits fetch known (d :: ds) base path
        (.bare { dependencyEdge d base with error := cycleError d.ref } rest)
  | failed {d ds base path rest reason} (href : d.ref ≠ "") (hpath : d.ref ∉ path)
      (hfetch : fetched fetch base d = .error reason)
      (hrest : Fits fetch known ds base path rest) :
      Fits fetch known (d :: ds) base path
        (.bare { dependencyEdge d base with error := reason } rest)
  | shared {d ds base path rest bundle childBase} (href : d.ref ≠ "") (hpath : d.ref ∉ path)
      (hfetch : fetched fetch base d = .ok (bundle, childBase))
      (hknown : (dependencyEdge d base).key ∈ known)
      (hrest : Fits fetch known ds base path rest) :
      Fits fetch known (d :: ds) base path
        (.resolved { dependencyEdge d base with shared := true } (nodeOf d.ref bundle).shallow .nil
          rest)
  | held {d ds base path rest bundle childBase dependencies} (href : d.ref ≠ "")
      (hpath : d.ref ∉ path) (hfetch : fetched fetch base d = .ok (bundle, childBase))
      (hknown : (dependencyEdge d base).key ∈ known)
      (hbelow : Fits fetch known bundle.contract.dependencies childBase (path ++ [d.ref])
        dependencies)
      (hrest : Fits fetch known ds base path rest) :
      Fits fetch known (d :: ds) base path
        (.resolved (dependencyEdge d base) (nodeOf d.ref bundle) dependencies rest)

theorem Fits.mono {known known' : List DepKey} (hle : known ⊆ known') {ds : List Dependency}
    {base : String} {path : List String} {E : Edges F} (h : Fits fetch known ds base path E) :
    Fits fetch known' ds base path E := by
  induction h with
  | nil => exact .nil
  | waiting _ ih => exact .waiting ih
  | external href _ ih => exact .external href ih
  | cycle href hpath _ ih => exact .cycle href hpath ih
  | failed href hpath hfetch _ ih => exact .failed href hpath hfetch ih
  | shared href hpath hfetch hknown _ ih => exact .shared href hpath hfetch (hle hknown) ih
  | held href hpath hfetch hknown _ _ ihbelow ihrest =>
    exact .held href hpath hfetch (hle hknown) ihbelow ihrest

theorem fits_resolveChildren (known : List DepKey) (ds : List Dependency) (base : String)
    (path : List String) : Fits fetch known ds base path (resolveChildren base path ds) := by
  induction ds with
  | nil => exact .nil
  | cons d ds ih => exact .waiting ih

/-- The identities of the nodes the tree holds. -/
def Edges.held (E : Edges F) : List DepKey :=
  (E.nodes.filter (!·.1.shared)).map (·.1.key)

@[simp] theorem held_nil : (.nil : Edges F).held = [] := rfl

@[simp] theorem held_waiting (d : Dependency) (base : String) (path : List String)
    (rest : Edges F) : (Edges.waiting d base path rest).held = rest.held := rfl

@[simp] theorem held_bare (e : Edge) (rest : Edges F) : (Edges.bare e rest).held = rest.held := rfl

@[simp] theorem held_resolved (e : Edge) (n : Node F) (dependencies rest : Edges F) :
    (Edges.resolved e n dependencies rest).held =
      (if e.shared then [] else [e.key]) ++ (dependencies.held ++ rest.held) := by
  cases hshared : e.shared <;> simp [Edges.held, Edges.nodes, hshared]

@[simp] theorem held_resolveChildren (base : String) (path : List String) (ds : List Dependency) :
    (resolveChildren base path ds : Edges F).held = [] := by
  induction ds with
  | nil => rfl
  | cons d ds ih => exact ih

/-! ## One step -/

def Known (fetch : Fetch F) (visited : List (DepKey × Node F)) : Prop :=
  ∀ key n, (key, n) ∈ visited → ∃ d bundle childBase, d.ref = key.ref ∧
    d.compatibility = key.constraint ∧ fetched fetch key.base d = .ok (bundle, childBase) ∧
    n = nodeOf key.ref bundle

/-- What one step makes of the edges of a node: they still fit, and at most one
node more is known, which one edge holds. -/
structure Advanced (fetch : Fetch F) (visited : List (DepKey × Node F)) (ds : List Dependency)
    (base : String) (path : List String) (E : Edges F) (r : Resolution F) : Prop where
  known : Known fetch r.visited
  fits : Fits fetch (r.visited.map Prod.fst) ds base path r.edges
  grown : (r.visited = visited ∧ r.edges.held = E.held) ∨
    ∃ key n, key ∉ visited.map Prod.fst ∧ r.visited = (key, n) :: visited ∧
      r.edges.held.Perm (key :: E.held)

theorem Advanced.subset {visited : List (DepKey × Node F)} {ds : List Dependency} {base : String}
    {path : List String} {E : Edges F} {r : Resolution F}
    (h : Advanced fetch visited ds base path E r) :
    visited.map Prod.fst ⊆ r.visited.map Prod.fst := by
  rcases h.grown with ⟨heq, -⟩ | ⟨key, n, -, heq, -⟩
  · rw [heq]
    exact List.Subset.refl _
  · rw [heq]
    exact List.subset_cons_self _ _

/-- A step among some edges is a step of the edges they belong to. -/
theorem Advanced.lift {visited : List (DepKey × Node F)} {ds ds' : List Dependency}
    {base base' : String} {path path' : List String} {E E' : Edges F} {r r' : Resolution F}
    (h : Advanced fetch visited ds base path E r) (hvisited : r'.visited = r.visited)
    (hfits : Fits fetch (r.visited.map Prod.fst) ds' base' path' r'.edges)
    (before after : List DepKey) (hheld : E'.held = before ++ (E.held ++ after))
    (hheld' : r'.edges.held = before ++ (r.edges.held ++ after)) :
    Advanced fetch visited ds' base' path' E' r' where
  known := hvisited ▸ h.known
  fits := hvisited ▸ hfits
  grown := by
    rcases h.grown with ⟨heq, hsame⟩ | ⟨key, n, hnew, heq, hperm⟩
    · exact .inl ⟨hvisited.trans heq, by rw [hheld', hsame, hheld]⟩
    · refine .inr ⟨key, n, hnew, hvisited.trans heq, ?_⟩
      rw [hheld, hheld']
      calc before ++ (r.edges.held ++ after)
          |>.Perm (before ++ ((key :: E.held) ++ after)) :=
            (hperm.append_right after).append_left before
        _ |>.Perm (key :: (before ++ (E.held ++ after))) := List.perm_middle

theorem resolveEdge_advanced (hkey : ByKey fetch) {visited : List (DepKey × Node F)}
    (hvisited : Known fetch visited) (d : Dependency) {ds : List Dependency} {base : String}
    {path : List String} {rest : Edges F}
    (hrest : Fits fetch (visited.map Prod.fst) ds base path rest) :
    Advanced fetch visited (d :: ds) base path (.waiting d base path rest)
      (resolveEdge fetch visited d base path rest) := by
  unfold resolveEdge
  split
  · rename_i href
    exact ⟨hvisited, .external href hrest, .inl ⟨rfl, rfl⟩⟩
  · rename_i href
    simp only
    split
    · rename_i hpath
      exact ⟨hvisited, .cycle href hpath hrest, .inl ⟨rfl, rfl⟩⟩
    · rename_i hpath
      split
      · rename_i n hfound
        have hmem := Support.mem_of_lookup_eq_some hfound
        obtain ⟨d', bundle, childBase, href', hcompat', hfetch, rfl⟩ := hvisited _ _ hmem
        rw [hkey.fetched_eq _ href' hcompat'] at hfetch
        refine ⟨hvisited, .shared href hpath hfetch ?_ hrest, .inl ⟨rfl, by simp⟩⟩
        exact List.mem_map_of_mem hmem
      · rename_i hnew
        split
        · rename_i reason hfetch
          exact ⟨hvisited, .failed href hpath hfetch hrest, .inl ⟨rfl, rfl⟩⟩
        · rename_i bundle childBase hfetch
          refine ⟨?_, ?_, .inr ⟨_, _, ?_, rfl, ?_⟩⟩
          · rintro key n (_ | ⟨_, hmem⟩)
            · exact ⟨d, bundle, childBase, rfl, rfl, hfetch, rfl⟩
            · exact hvisited key n hmem
          · exact .held href hpath hfetch List.mem_cons_self (fits_resolveChildren _ _ _ _)
              (hrest.mono (List.subset_cons_self _ _))
          · intro hmem
            obtain ⟨n, hn⟩ := Support.exists_lookup_of_mem_keys hmem
            exact absurd (hnew.symm.trans hn) nofun
          · simp [dependencyEdge]

/-- One step keeps the tree: a case for each kind of edge it may pass on the way
to the one it resolves. -/
theorem Fits.advance (hkey : ByKey fetch) {visited : List (DepKey × Node F)}
    (hvisited : Known fetch visited) {ds : List Dependency} {base : String} {path : List String}
    {E : Edges F} (h : Fits fetch (visited.map Prod.fst) ds base path E) (k : Nat) :
    Advanced fetch visited ds base path E (E.advance fetch visited k) := by
  induction h generalizing k with
  | nil => exact ⟨hvisited, .nil, .inl ⟨rfl, rfl⟩⟩
  | @waiting d ds base path rest hrest ih =>
    cases k with
    | zero => exact resolveEdge_advanced hkey hvisited d hrest
    | succ k => exact (ih k).lift rfl (.waiting (ih k).fits) [] [] (by simp) (by simp [Edges.advance])
  | external href hrest ih =>
    exact (ih k).lift rfl (.external href (ih k).fits) [] [] (by simp) (by simp [Edges.advance])
  | cycle href hpath hrest ih =>
    exact (ih k).lift rfl (.cycle href hpath (ih k).fits) [] [] (by simp) (by simp [Edges.advance])
  | failed href hpath hfetch hrest ih =>
    exact (ih k).lift rfl (.failed href hpath hfetch (ih k).fits) [] [] (by simp)
      (by simp [Edges.advance])
  | shared href hpath hfetch hknown hrest ih =>
    have hfits := Fits.shared href hpath hfetch ((ih k).subset hknown) (ih k).fits
    exact (ih k).lift rfl hfits [] [] (by simp) (by simp [Edges.advance, Edges.waitingCount])
  | @held d ds base path rest bundle childBase below href hpath hfetch hknown hbelow hrest
      ihbelow ihrest =>
      unfold Edges.advance
      split
      · have hstep := ihbelow k
        exact hstep.lift rfl (.held href hpath hfetch (hstep.subset hknown) hstep.fits
          (hrest.mono hstep.subset)) [(dependencyEdge d base).key] rest.held
          (by simp [dependencyEdge]) (by simp [dependencyEdge])
      · have hstep := ihrest (k - below.waitingCount)
        exact hstep.lift rfl (.held href hpath hfetch (hstep.subset hknown)
          (hbelow.mono hstep.subset) hstep.fits) ((dependencyEdge d base).key :: below.held) []
          (by simp [dependencyEdge]) (by simp [dependencyEdge])

/-! ## Whole runs -/

/-- What holds of a run at any time. -/
structure Resolution.Sound (fetch : Fetch F) (root : Contract) (base : String)
    (r : Resolution F) : Prop where
  known : Known fetch r.visited
  fits : Fits fetch (r.visited.map Prod.fst) root.dependencies base [root.name] r.edges
  held : r.edges.held.Perm (r.visited.map Prod.fst)
  nodup : (r.visited.map Prod.fst).Nodup

theorem Resolution.Sound.start (root : Contract) (base : String) :
    (start root base : Resolution F).Sound fetch root base where
  known := by
    intro key n h
    cases h
  fits := fits_resolveChildren _ _ _ _
  held := by simp [Graph.start]
  nodup := List.nodup_nil

theorem Resolution.Sound.advance (hkey : ByKey fetch) {root : Contract} {base : String}
    {r : Resolution F} (h : r.Sound fetch root base) (k : Nat) :
    (r.advance fetch k).Sound fetch root base := by
  have hstep := h.fits.advance hkey h.known k
  have hkeys : (r.advance fetch k).edges.held.Perm ((r.advance fetch k).visited.map Prod.fst) ∧
      ((r.advance fetch k).visited.map Prod.fst).Nodup := by
    unfold Resolution.advance
    rcases hstep.grown with ⟨heq, hheld⟩ | ⟨key, n, hnew, heq, hheld⟩
    · rw [heq, hheld]
      exact ⟨h.held, h.nodup⟩
    · rw [heq, List.map_cons]
      exact ⟨hheld.trans (h.held.cons key), List.nodup_cons.mpr ⟨hnew, h.nodup⟩⟩
  exact ⟨hstep.known, hstep.fits, hkeys.1, hkeys.2⟩

theorem sound_run (hkey : ByKey fetch) (root : Contract) (base : String) (schedule : List Nat) :
    (run fetch root base schedule).Sound fetch root base := by
  suffices h : ∀ r : Resolution F, r.Sound fetch root base →
      (schedule.foldl (Resolution.advance fetch) r).Sound fetch root base from
    h _ (.start root base)
  induction schedule with
  | nil => exact fun r hr => hr
  | cons k schedule ih => exact fun r hr => ih _ (hr.advance hkey k)

end Pacto.Graph
