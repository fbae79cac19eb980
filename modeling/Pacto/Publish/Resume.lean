import Pacto.Publish.Commit

/-!
# A publish that is resumed

A run adopts what an earlier one tagged and builds the rest anew, and a build may
give another digest each time.  The tags are written in the order the artifacts
are declared, the deploy artifact's last of all.  As long as no artifact is
declared after the deploy artifact, an artifact that has its tag was built
against the digests its predecessors are tagged with.

An artifact declared after it is tagged before it.  A run that stops in between
leaves that artifact with a deploy artifact that is built again.
-/

namespace Pacto.Publish

open Support Attempt

variable {C : Type}

/-! ## Prefixes -/

/-- A first part of a list that has an entry has all before it. -/
theorem subset_of_prefix {α : Type} {done before after : List α} {x : α}
    (hfirst : done <+: before ++ x :: after) (hnodup : (before ++ x :: after).Nodup)
    (hx : x ∈ done) : before ⊆ done := by
  rcases List.prefix_or_prefix_of_prefix hfirst (List.prefix_append before (x :: after)) with h | h
  · exact absurd rfl ((List.nodup_append.mp hnodup).2.2 x (h.subset hx) x List.mem_cons_self)
  · exact h.subset

/-! ## Builds that fit their tags -/

/-- Each artifact that got its tag since `r₀` was built against the digests its
predecessors are tagged with. -/
def Consistent (inp : Input C) (pub : Section) (r₀ : Registry C) (w : World C) : Prop :=
  ∀ before a after d, pub.artifacts = before ++ a :: after →
    r₀.tag (repo a.ref) inp.bundle.version = none →
    w.registry.tag (repo a.ref) inp.bundle.version = some d →
    ∃ D : String → String,
      (∀ b ∈ before, w.registry.tag (repo b.ref) inp.bundle.version = some (D b.name)) ∧
      lastBuild w.builds a.name d = some (buildEnv inp (before.map fun b => (b, D b.name)))

theorem consistent_self (inp : Input C) (pub : Section) (w : World C) :
    Consistent inp pub w.registry w := by
  intro before a after d _ hnone htag
  rw [hnone] at htag
  cases htag

def DeployLast (pub : Section) : Prop := ∀ a ∈ pub.artifacts.dropLast, a.name ≠ pub.deploy

section OneRun

variable {pkg : Packages C} {inp : Input C} {pub : Section} {r₀ : Registry C} {s₀ s t : Run C}
  {p : Plan} {bundle : Item} {D : String → String} {done : List (String × String)}

theorem Planned.split (h : Planned pkg inp pub s₀.registry p bundle) {before after : List Artifact}
    {a : Artifact} (hsplit : pub.artifacts = before ++ a :: after) :
    ∃ B it A, p.artifacts = B ++ (a, it) :: A ∧ B.map (·.1) = before ∧
      (a, it) ∈ p.artifacts := by
  rw [← h.artifacts] at hsplit
  obtain ⟨B, rest, hp, hB, hrest⟩ := List.map_eq_append_iff.mp hsplit
  obtain ⟨ai, A, rfl, rfl, -⟩ := List.map_eq_cons_iff.mp hrest
  refine ⟨B, ai.2, A, hp, hB, ?_⟩
  rw [hp]
  exact List.mem_append_right _ List.mem_cons_self

/-- What was tagged before a run keeps its build, when the run builds nothing
that has a tag. -/
theorem Consistent.keep {w : World C} (h : Consistent inp pub r₀ w)
    (hgrows : Grows w.registry t.registry) {before after : List Artifact} {a : Artifact}
    {d : String} (hsplit : pub.artifacts = before ++ a :: after)
    (hnone : r₀.tag (repo a.ref) inp.bundle.version = none)
    (htag : w.registry.tag (repo a.ref) inp.bundle.version = some d)
    (hbuilds : lastBuild t.builds a.name d = lastBuild w.builds a.name d) :
    ∃ D : String → String,
      (∀ b ∈ before, t.registry.tag (repo b.ref) inp.bundle.version = some (D b.name)) ∧
      lastBuild t.builds a.name d = some (buildEnv inp (before.map fun b => (b, D b.name))) := by
  obtain ⟨D, hbefore, hbuild⟩ := h before a after d hsplit hnone htag
  exact ⟨D, fun b hb => hgrows.tag _ _ _ (hbefore b hb), hbuilds.trans hbuild⟩

/-- A tag a run wrote comes after the tags of all artifacts before it. -/
theorem Reached.tag_before (h : Reached pkg inp pub s₀ p bundle D s done t)
    (hlast : DeployLast pub) {B A : List (Artifact × Item)} {ai : Artifact × Item}
    (hsplit : p.artifacts = B ++ ai :: A) (habsent : ai.2.state = .absent)
    (hmem : (repo ai.1.ref, D ai.1.name) ∈ done) {bi : Artifact × Item} (hbi : bi ∈ B) :
    t.registry.tag (repo bi.1.ref) inp.bundle.version = some (D bi.1.name) := by
  have hbi' : bi ∈ p.artifacts := by
    rw [hsplit]
    exact List.mem_append_left _ hbi
  have hai : ai ∈ p.artifacts := by
    rw [hsplit]
    exact List.mem_append_right _ List.mem_cons_self
  by_cases hpresent : bi.2.state = .absent
  · obtain ⟨hrepo, htells⟩ := h.planned.items bi hbi'
    refine h.tag_of_mem (o := (repo bi.1.ref, D bi.1.name))
      (hrepo ▸ htells.absent hpresent) ?_
    -- the artifact before it is not the deploy artifact, which is the last
    have hdeploy : bi.1.name ≠ pub.deploy := by
      refine hlast bi.1 ?_
      rw [← h.planned.artifacts, hsplit, List.map_append, List.map_cons,
        List.dropLast_append_of_ne_nil (List.cons_ne_nil _ _)]
      exact List.mem_append_left _ (List.mem_map_of_mem hbi)
    by_cases hself : ai.1.name = pub.deploy
    · have ha : ai.1 ∈ pub.artifacts := by
        rw [← h.planned.artifacts]
        exact List.mem_map_of_mem hai
      obtain ⟨hrepo', htells'⟩ := h.planned.items ai hai
      have hnone := hrepo' ▸ htells'.absent habsent
      have hall := h.all_of_deploy ha hself hnone (by rw [h.tag_of_mem hnone hmem]; simp)
      rw [hall]
      exact (mem_owedTags h.planned).mpr (.inl ⟨bi, hbi', hpresent, rfl⟩)
    · have howed : owedTags pub p bundle D =
          (B.filter (owesTag pub)).map (fun ci => (repo ci.1.ref, D ci.1.name)) ++
            (repo ai.1.ref, D ai.1.name) ::
              ((A.filter (owesTag pub)).map (fun ci => (repo ci.1.ref, D ci.1.name)) ++
                ((if bundle.state = .absent then [(repo pub.bundle, bundle.digest)] else []) ++
                ((p.artifacts.find? (owesDeploy pub)).map
                  fun ci => (repo ci.1.ref, D ci.1.name)).toList)) := by
        have howes : owesTag pub ai = true := by simp [owesTag, habsent, hself]
        unfold owedTags
        nth_rewrite 1 [hsplit]
        rw [List.filter_append, List.filter_cons_of_pos howes]
        simp
      have hfirst := h.first
      have hnodup : (owedTags pub p bundle D).Nodup := (nodup_owedTags h.planned).of_map _
      rw [howed] at hfirst hnodup
      exact subset_of_prefix hfirst hnodup hmem (List.mem_map.mpr ⟨bi, List.mem_filter.mpr
        ⟨hbi, by simp [owesTag, hpresent, hdeploy]⟩, rfl⟩)
  · exact h.tag_of_present hbi' hpresent

/-- A run that got to its tags keeps builds and tags together. -/
theorem Reached.consistent (h : Reached pkg inp pub s₀ p bundle D s done t)
    (hlast : DeployLast pub)
    (hc : Consistent inp pub r₀ { registry := s₀.registry, builds := s₀.builds }) :
    Consistent inp pub r₀ t.world := by
  intro before a after d hsplit hnone htag
  obtain ⟨B, it, A, hB, rfl, hai⟩ := h.planned.split hsplit
  obtain ⟨hrepo, htells⟩ := h.planned.items _ hai
  by_cases habsent : it.state = .absent
  · have hnone' : s₀.registry.tag (repo a.ref) inp.bundle.version = none :=
      hrepo ▸ htells.absent habsent
    -- the tag is one the run wrote, so its digest is the run's own
    have hlookup : done.lookup (repo a.ref) = some d := by
      have hwritten := h.written.tag (repo a.ref) inp.bundle.version
      rw [h.staged.adds.tag_eq, hnone', if_pos rfl, Option.none_or] at hwritten
      exact hwritten.symm.trans htag
    have hdone := mem_of_lookup_eq_some hlookup
    have hd : d = D a.name := by
      rcases (mem_owedTags h.planned).mp (h.first.subset hdone) with
        ⟨bi, hbi, -, heq⟩ | ⟨-, heq⟩
      · obtain ⟨hrepo', rfl⟩ := Prod.mk.inj heq
        rw [← List.inj_on_of_nodup_map h.planned.repos_nodup hai hbi hrepo']
      · exact absurd (Prod.mk.inj heq).1 (h.planned.repo_ne_bundle hai)
    subst hd
    refine ⟨D, fun b hb => ?_, ?_⟩
    · obtain ⟨bi, hbi, rfl⟩ := List.mem_map.mp hb
      exact h.tag_before hlast hB habsent hdone hbi
    · have hbuilt := h.staged.built B (a, it) A hB habsent
      rw [List.map_map]
      exact (congrArg (lastBuild · a.name (D a.name)) h.builds).trans hbuilt
  · have hpresent : s₀.registry.tag (repo a.ref) inp.bundle.version = some it.digest :=
      hrepo ▸ htells.present habsent
    have hd : d = it.digest :=
      Option.some.inj (htag.symm.trans (h.grows.tag _ _ _ hpresent))
    subst hd
    refine hc.keep h.grows hsplit hnone hpresent ?_
    rw [h.builds]
    exact h.staged.others _ hai habsent _

/-- A run that stopped keeps builds and tags together. -/
theorem Left.consistent (h : Left pkg inp s₀ t) (hpub : inp.bundle.publish = some pub)
    (hlast : DeployLast pub)
    (hc : Consistent inp pub r₀ { registry := s₀.registry, builds := s₀.builds }) :
    Consistent inp pub r₀ t.world := by
  cases h with
  | refused registry builds =>
    unfold Run.world
    rw [registry, builds]
    exact hc
  | unfinished hpub' hp h =>
    rw [hpub] at hpub'
    cases hpub'
    intro before a after d hsplit hnone htag
    obtain ⟨B, it, A, -, rfl, hai⟩ := hp.split hsplit
    obtain ⟨hrepo, htells⟩ := hp.items _ hai
    have htag' : s₀.registry.tag (repo a.ref) inp.bundle.version = some d :=
      (h.adds.tag_eq _ _).symm.trans htag
    have hpresent : it.state ≠ .absent := by
      intro habsent
      have hnone' := htells.absent habsent
      rw [hrepo, htag'] at hnone'
      cases hnone'
    exact hc.keep h.adds.toGrows hsplit hnone htag' (h.builds _ hai hpresent d)
  | reached hpub' h =>
    rw [hpub] at hpub'
    cases hpub'
    exact h.consistent hlast hc

end OneRun

/-! ## All runs -/

section Worlds

variable {pkg : Packages C} {inp : Input C} {pub : Section} {r₀ : Registry C}

theorem World.consistent_next {w : World C} (hpub : inp.bundle.publish = some pub)
    (hlast : DeployLast pub) (hc : Consistent inp pub r₀ w) (answers : List Answer) :
    Consistent inp pub r₀ (w.next pkg inp answers) := by
  have hrun := triple_run pkg inp w _ answers rfl
  unfold World.next World.apply
  split at hrun
  · next heq =>
    rw [heq]
    obtain ⟨pub', p, bundle, D, s, hpub', h⟩ := hrun
    rw [hpub] at hpub'
    cases hpub'
    exact h.consistent hlast hc
  · next heq =>
    rw [heq]
    exact hrun.consistent hpub hlast hc

theorem World.consistent_after {w : World C} (hpub : inp.bundle.publish = some pub)
    (hlast : DeployLast pub) (hc : Consistent inp pub r₀ w) (runs : List (List Answer)) :
    Consistent inp pub r₀ (w.after pkg inp runs) := by
  induction runs generalizing w with
  | nil => exact hc
  | cons answers runs ih => exact ih (World.consistent_next hpub hlast hc answers)

end Worlds

/-- After runs that stopped anywhere and one that succeeded, every artifact has
its tag, and one that had none at the start was built against the digests its
predecessors are now tagged with. -/
theorem resumed_builds_fit (pkg : Packages C) (inp : Input C) (pub : Section)
    (hpub : inp.bundle.publish = some pub) (hlast : DeployLast pub) (w : World C)
    (runs : List (List Answer)) (last : List Answer)
    (hok : ((w.after pkg inp runs).apply pkg inp last).1.isOk = true)
    (before : List Artifact) (a : Artifact) (after : List Artifact)
    (hsplit : pub.artifacts = before ++ a :: after)
    (hnone : w.registry.tag (repo a.ref) inp.bundle.version = none) :
    let final := (w.after pkg inp runs).next pkg inp last
    ∃ d, final.registry.tag (repo a.ref) inp.bundle.version = some d ∧
      ∃ D : String → String,
        (∀ b ∈ before, final.registry.tag (repo b.ref) inp.bundle.version = some (D b.name)) ∧
        lastBuild final.builds a.name d =
          some (buildEnv inp (before.map fun b => (b, D b.name))) := by
  intro final
  have hc : Consistent inp pub w.registry final :=
    World.consistent_next hpub hlast
      (World.consistent_after hpub hlast (consistent_self inp pub w) runs) last
  have htag : ∃ d, final.registry.tag (repo a.ref) inp.bundle.version = some d := by
    have hrun := triple_run pkg inp (w.after pkg inp runs) _ last rfl
    simp only [final]
    unfold World.apply at hok
    unfold World.next World.apply
    split at hrun
    · next heq =>
      rw [heq]
      obtain ⟨pub', p, bundle, D, s, hpub', h⟩ := hrun
      rw [hpub] at hpub'
      cases hpub'
      have ha : a ∈ pub.artifacts := by
        rw [hsplit]
        exact List.mem_append_right _ List.mem_cons_self
      exact ⟨_, h.tag_of_all (fun o ho => ho) ha⟩
    · next heq =>
      rw [heq] at hok
      cases hok
  obtain ⟨d, hd⟩ := htag
  exact ⟨d, hd, hc before a after d hsplit hnone hd⟩

def imageAndManifests (artifacts : List Artifact)
    (names_nodup : (artifacts.map (·.name)).Nodup)
    (deploy_manifests : ∃ a ∈ artifacts, a.name = "app" ∧ a.type = .manifests) : Section where
  bundle := "oci://registry/pacto/shop"
  deploy := "app"
  artifacts := artifacts
  sign := some { key := "cosign.key" }
  names_nodup := names_nodup
  deploy_manifests := fun _ => deploy_manifests

def webImage : Artifact := { name := "web", type := .image, ref := "oci://registry/web" }

def appManifests : Artifact := { name := "app", type := .manifests, ref := "oci://registry/app" }

/-- The manifests come last, as they should. -/
def manifestsLast : Section := imageAndManifests [webImage, appManifests] (by decide) (by decide)

def manifestsFirst : Section := imageAndManifests [appManifests, webImage] (by decide) (by decide)

/-- A run that builds two artifacts and stops before its last tag. -/
def stopsAtDeploy (first second : String) : List Answer :=
  List.replicate 5 default ++ [{ hash := first }, default, { hash := second }] ++
    List.replicate 15 default ++ [{ err := some "stopped" }]

/-- A run that builds one artifact. -/
def buildsOne (hash : String) : List Answer := List.replicate 5 default ++ [{ hash := hash }]

/-- The image is built once, and the manifests twice against it. -/
theorem resumed_builds_fit_image :
    let final := (World.after plainPackages (firstVersion manifestsLast) { registry := {} }
      [stopsAtDeploy "w1" "a1"]).next plainPackages (firstVersion manifestsLast) (buildsOne "a2")
    ∃ d, final.registry.tag (repo appManifests.ref) "1.0.0" = some d ∧
      ∃ D : String → String,
        (∀ b ∈ [webImage], final.registry.tag (repo b.ref) "1.0.0" = some (D b.name)) ∧
        lastBuild final.builds "app" d = some (buildEnv (firstVersion manifestsLast)
          ([webImage].map fun b => (b, D b.name))) :=
  resumed_builds_fit plainPackages (firstVersion manifestsLast) manifestsLast rfl
    (by unfold DeployLast; decide) { registry := {} } [stopsAtDeploy "w1" "a1"] (buildsOne "a2") (by decide +kernel)
    [webImage] appManifests [] rfl rfl

/-- The manifests come first: the image was built against the manifests of the
run that stopped, and the tag names the manifests of the next. -/
theorem resumed_builds_mix :
    let stopped := World.next plainPackages (firstVersion manifestsFirst) { registry := {} }
      (stopsAtDeploy "a1" "w1")
    let final := stopped.apply plainPackages (firstVersion manifestsFirst) (buildsOne "a2")
    final.1.isOk = true ∧
      final.2.1.registry.tag (repo appManifests.ref) "1.0.0" = some "sha256:a2" ∧
      final.2.1.registry.tag (repo webImage.ref) "1.0.0" = some "sha256:w1" ∧
      lastBuild final.2.1.builds "web" "sha256:w1" =
        some (buildEnv (firstVersion manifestsFirst) [(appManifests, "sha256:a1")]) := by
  decide +kernel

end Pacto.Publish
