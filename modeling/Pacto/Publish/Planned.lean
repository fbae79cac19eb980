import Pacto.Publish.Growth

/-!
# What a ready plan says

Planning reads the registry and changes nothing.  When the plan is ready, every
artifact and the bundle have a repository of their own, each item says whether
its tag is there and what it points at, and the version rule held against every
base it picked.
-/

namespace Pacto.Publish

open Support Diff Attempt

variable {C : Type}
variable {s₀ : Run C} {E : Run C → Prop}

/-! ## Items -/

/-- The item says what its tag holds. -/
structure Item.Tells (it : Item) (r : Registry C) (version : String) : Prop where
  absent : it.state = .absent → r.tag it.repo version = none
  present : it.state ≠ .absent → r.tag it.repo version = some it.digest

theorem item_tells (r : Registry C) (name repo version digest version' revision : String) :
    (item name repo (decideState (.ok (r.head repo version)) digest version' revision)
      (.ok (r.head repo version))).Tells r version := by
  cases hhead : r.head repo version with
  | none =>
    constructor
    · intro _
      exact Registry.head_eq_none hhead
    · intro habsent
      exact absurd rfl habsent
  | some m =>
    constructor
    · intro habsent
      simp only [item, decideState] at habsent
      split_ifs at habsent
    · intro _
      exact Registry.tag_of_head hhead

/-- A head that was read or could not be. -/
theorem triple_head (repo version : String) :
    Triple (· = s₀) (outcome (look (·.head repo version)) : Step C _)
      (fun remote s => s = s₀ ∧
        (remote = .ok (s₀.registry.head repo version) ∨ ∃ e, remote = .error e)) E := by
  refine Triple.outcome (E := (· = s₀)) (triple_look ?_ fun _ h => h) ?_
  · rintro s rfl
    exact ⟨rfl, .inl rfl⟩
  · rintro e s rfl
    exact ⟨rfl, .inr ⟨e, rfl⟩⟩

theorem triple_artifactItem (inp : Input C) (a : Artifact) :
    Triple (· = s₀) (artifactItem inp a)
      (fun it s => s = s₀ ∧ it.repo = repo a.ref ∧
        (it.state ≠ .unreadable → it.Tells s₀.registry inp.bundle.version)) E := by
  refine Triple.bind (triple_head (repo a.ref) inp.bundle.version) fun remote => Triple.pure ?_
  rintro s ⟨rfl, rfl | ⟨e, rfl⟩⟩
  · exact ⟨rfl, rfl, fun _ => item_tells s.registry _ _ _ _ _ _⟩
  · exact ⟨rfl, rfl, fun hread => absurd rfl hread⟩

/-- The bundle is never adopted: it carries no provenance. -/
theorem digest_of_decideState {m : Remote} {digest version : String}
    (hconflict : (decideState (.ok (some m)) digest version "").1 ≠ .conflict) :
    m.digest = digest := by
  by_contra hne
  simp [decideState, hne] at hconflict

/-- What the bundle's item says, when it could be read. -/
def BundleTells (pkg : Packages C) (inp : Input C) (pub : Section) (r : Registry C) (it : Item) :
    Prop :=
  it.repo = repo pub.bundle ∧
    (it.state ≠ .unreadable → it.state ≠ .conflict →
      it.Tells r inp.bundle.version ∧ it.digest = pkg.bundleDigest inp.bundle)

theorem bundleTells_item (pkg : Packages C) (inp : Input C) (pub : Section) (r : Registry C) :
    let remote := Except.ok (r.head (repo pub.bundle) inp.bundle.version)
    let digest := pkg.bundleDigest inp.bundle
    let it := item bundleItem (repo pub.bundle)
      (decideState remote digest inp.bundle.version "") remote
    BundleTells pkg inp pub r (if it.state = .absent then { it with digest } else it) := by
  intro remote digest it
  have htells : it.Tells r inp.bundle.version := item_tells r _ _ _ _ _ _
  split
  · next habsent =>
    exact ⟨rfl, fun _ _ => ⟨⟨htells.absent, fun hne => absurd habsent hne⟩, rfl⟩⟩
  · next habsent =>
    refine ⟨rfl, fun _ hconflict => ⟨htells, ?_⟩⟩
    cases hhead : r.head (repo pub.bundle) inp.bundle.version with
    | none =>
      refine absurd ?_ habsent
      simp only [it, remote, hhead]
      rfl
    | some m =>
      have hdigest : it.digest = m.digest := by simp only [it, remote, hhead, item]
      rw [hdigest]
      simp only [it, remote, hhead, item] at hconflict
      exact digest_of_decideState hconflict

theorem triple_bundleItemOf (pkg : Packages C) (inp : Input C)
    (pub : Section) :
    Triple (· = s₀) (bundleItemOf pkg inp pub)
      (fun it s => s = s₀ ∧ BundleTells pkg inp pub s₀.registry it) E := by
  have hpack : Triple (· = s₀)
      (outcome (look fun _ => pkg.bundleDigest inp.bundle) : Step C (Except String String))
      (fun packed s => s = s₀ ∧
        (packed = .ok (pkg.bundleDigest inp.bundle) ∨ ∃ e, packed = .error e)) E := by
    refine Triple.outcome (E := (· = s₀)) (triple_look ?_ fun _ h => h) ?_
    · rintro s rfl
      exact ⟨rfl, .inl rfl⟩
    · rintro e s rfl
      exact ⟨rfl, .inr ⟨e, rfl⟩⟩
  refine Triple.bind hpack fun packed => ?_
  refine Triple.bind ((triple_head (repo pub.bundle) inp.bundle.version).frame _) fun remote => ?_
  cases packed with
  | error e => exact Triple.pure fun s hs => ⟨hs.1.1, rfl, fun hread => absurd rfl hread⟩
  | ok digest =>
    refine Triple.pure ?_
    rintro s ⟨⟨rfl, rfl | ⟨e, rfl⟩⟩, hdigest | ⟨e, he⟩⟩
    · cases hdigest
      exact ⟨rfl, bundleTells_item pkg inp pub s.registry⟩
    · cases he
    · exact ⟨rfl, rfl, fun hread => absurd rfl hread⟩
    · cases he

/-! ## Repositories -/

theorem nodup_of_sharedRepo {seen : List (String × String)} {arts : List Artifact}
    (h : sharedRepo seen arts = none) :
    (arts.map fun a => repo a.ref).Nodup ∧
      ∀ a ∈ arts, repo a.ref ∉ seen.map Prod.fst := by
  induction arts generalizing seen with
  | nil => exact ⟨List.nodup_nil, fun a ha => absurd ha List.not_mem_nil⟩
  | cons a rest ih =>
    cases hseen : seen.lookup (repo a.ref) with
    | some other => simp [sharedRepo, hseen] at h
    | none =>
      simp only [sharedRepo, hseen] at h
      obtain ⟨hnodup, hrest⟩ := ih h
      have hnew : repo a.ref ∉ seen.map Prod.fst := by
        intro hmem
        obtain ⟨other, hother⟩ := exists_lookup_of_mem_keys hmem
        rw [hseen] at hother
        cases hother
      constructor
      · rw [List.map_cons, List.nodup_cons]
        refine ⟨fun hmem => ?_, hnodup⟩
        obtain ⟨b, hb, hrepo⟩ := List.mem_map.mp hmem
        exact hrest b hb (hrepo ▸ List.mem_cons_self)
      · intro b hb
        rcases List.mem_cons.mp hb with rfl | hb
        · exact hnew
        · exact fun hmem => hrest b hb (List.mem_cons_of_mem _ hmem)

/-- Every item has a repository of its own. -/
theorem nodup_of_refsCheck {pub : Section} (h : (refsCheck pub).passed = true) :
    (repo pub.bundle :: pub.artifacts.map fun a => repo a.ref).Nodup := by
  cases hshared : sharedRepo [(repo pub.bundle, bundleItem)] pub.artifacts with
  | some other => simp [refsCheck, hshared] at h
  | none =>
    obtain ⟨hnodup, hrest⟩ := nodup_of_sharedRepo hshared
    rw [List.nodup_cons]
    refine ⟨fun hmem => ?_, hnodup⟩
    obtain ⟨a, ha, hrepo⟩ := List.mem_map.mp hmem
    exact hrest a ha (hrepo ▸ List.mem_cons_self)

/-! ## The version rule -/

/-- The version rule holds against one published version. -/
def BumpOk (pkg : Packages C) (b : Bundle C) (repo : String) (r : Registry C) (base : String) :
    Prop :=
  ∃ old, r.pull repo base = some old ∧
    checkBump pkg.semver base b.version
      (requiredBump pkg.semver (pkg.compare old b) base) = none

/-- The version rule holds against every base it picks. -/
def VersionOk (pkg : Packages C) (b : Bundle C) (repo : String) (r : Registry C) : Prop :=
  ∀ base ∈ basesFrom pkg.semver b.version []
    (filterVersions pkg.semver (r.listTags repo)), BumpOk pkg b repo r base

def SameRest (p p' : Plan) : Prop := p'.version = p.version ∧ p'.checks = p.checks

theorem triple_bumpCheck (pkg : Packages C) (b : Bundle C)
    (repo : String) (p : Plan) (base : String) :
    Triple (· = s₀) (bumpCheck pkg b repo p base)
      (fun cp s => s = s₀ ∧ SameRest p cp.2 ∧
        (cp.1.passed = true → BumpOk pkg b repo s₀.registry base)) E := by
  refine Triple.bind (R := fun pulled s => s = s₀ ∧
    ∀ old, pulled = .ok old → s₀.registry.pull repo base = some old) ?_ fun pulled => ?_
  · refine Triple.outcome (E := (· = s₀)) (Triple.bind (R := fun pulled s =>
      s = s₀ ∧ pulled = s₀.registry.pull repo base) (triple_look ?_ fun _ h => h) fun pulled => ?_) ?_
    · rintro s rfl
      exact ⟨rfl, rfl⟩
    · cases pulled with
      | none => exact Triple.fail fun s hs => hs.1
      | some old =>
        refine Triple.pure fun s hs => ⟨hs.1, ?_⟩
        rintro old' heq
        cases heq
        exact hs.2.symm
    · rintro e s rfl
      exact ⟨rfl, nofun⟩
  cases pulled with
  | error e => exact Triple.pure fun s hs => ⟨hs.1, ⟨rfl, rfl⟩, nofun⟩
  | ok old =>
    cases hcheck : checkBump pkg.semver base b.version
        (requiredBump pkg.semver (pkg.compare old b) base) with
    | some e =>
      simp only [hcheck]
      exact Triple.pure fun s hs => ⟨hs.1, ⟨rfl, rfl⟩, nofun⟩
    | none =>
      simp only [hcheck]
      exact Triple.pure fun s hs => ⟨hs.1, ⟨rfl, rfl⟩, fun _ => ⟨old, hs.2 old rfl, hcheck⟩⟩

theorem triple_bumpChecks (pkg : Packages C) (b : Bundle C)
    (repo : String) (last : Check × Plan) (bases : List String) :
    Triple (· = s₀) (bumpChecks pkg b repo last bases)
      (fun cp s => s = s₀ ∧ SameRest last.2 cp.2 ∧
        (cp.1.passed = true → ∀ base ∈ bases, BumpOk pkg b repo s₀.registry base)) E := by
  induction bases generalizing last with
  | nil => exact Triple.pure fun s hs => ⟨hs, ⟨rfl, rfl⟩, fun _ _ hbase => absurd hbase List.not_mem_nil⟩
  | cons base rest ih =>
    refine Triple.bind (triple_bumpCheck pkg b repo last.2 base) fun cp => ?_
    obtain ⟨ch, p⟩ := cp
    refine Triple.ite (fun hpassed => ?_) fun hpassed => ?_
    · refine ((ih (ch, p)).frame _).weaken (fun _ h => h) ?_ fun _ h => h
      rintro cp' s ⟨⟨hs, hsame', hrest⟩, hsame, hbase⟩
      refine ⟨hs, ⟨hsame'.1.trans hsame.1, hsame'.2.trans hsame.2⟩, fun hok base' hmem => ?_⟩
      rcases List.mem_cons.mp hmem with rfl | hmem
      · exact hbase hpassed
      · exact hrest hok base' hmem
    · exact Triple.pure fun s hs => ⟨hs.1, hs.2.1, fun hok => absurd hok hpassed⟩

theorem triple_versionCheck (pkg : Packages C) (b : Bundle C)
    (repo : String) (p : Plan) :
    Triple (· = s₀) (versionCheck pkg b repo p)
      (fun cp s => s = s₀ ∧ SameRest p cp.2 ∧
        (cp.1.passed = true → VersionOk pkg b repo s₀.registry)) E := by
  have hlist : Triple (· = s₀) (outcome (look (·.listTags repo)) : Step C _)
      (fun tags s => s = s₀ ∧ ∀ l, tags = .ok l → l = s₀.registry.listTags repo) E := by
    refine Triple.outcome (E := (· = s₀)) (triple_look ?_ fun _ h => h) ?_
    · rintro s rfl
      refine ⟨rfl, fun l hl => ?_⟩
      cases hl
      rfl
    · rintro e s rfl
      exact ⟨rfl, nofun⟩
  refine Triple.bind hlist fun tags => ?_
  cases tags with
  | error e => exact Triple.pure fun s hs => ⟨hs.1, ⟨rfl, rfl⟩, nofun⟩
  | ok tags =>
    refine Triple.intro fun s hs => ?_
    obtain ⟨rfl, htags⟩ := hs
    cases htags tags rfl
    unfold VersionOk
    cases hbases : basesFrom pkg.semver b.version []
        (filterVersions pkg.semver (s.registry.listTags repo)) with
    | nil =>
      simp only [hbases]
      exact Triple.pure fun t ht => ⟨ht, ⟨rfl, rfl⟩, fun _ _ hbase => absurd hbase List.not_mem_nil⟩
    | cons base rest =>
      simp only [hbases]
      exact triple_bumpChecks pkg b repo ({ name := "version" }, p) (base :: rest)

/-! ## The plan -/

/-- What a ready plan says of the registry it was made from. -/
structure Planned (pkg : Packages C) (inp : Input C) (pub : Section) (r : Registry C) (p : Plan)
    (bundle : Item) : Prop where
  version : p.version = inp.bundle.version
  artifacts : p.artifacts.map (·.1) = pub.artifacts
  items : ∀ ai ∈ p.artifacts, ai.2.repo = repo ai.1.ref ∧ ai.2.Tells r inp.bundle.version
  repos : (repo pub.bundle :: pub.artifacts.map fun a => repo a.ref).Nodup
  bundle_repo : bundle.repo = repo pub.bundle
  bundle_tells : bundle.Tells r inp.bundle.version
  bundle_digest : bundle.digest = pkg.bundleDigest inp.bundle
  versions : VersionOk pkg inp.bundle (repo pub.bundle) r

section

variable {pkg : Packages C} {inp : Input C} {pub : Section} {r : Registry C} {p : Plan}
  {bundle : Item}

theorem Planned.names_nodup (h : Planned pkg inp pub r p bundle) :
    (p.artifacts.map fun ai => ai.1.name).Nodup := by
  have hpub := pub.names_nodup
  rw [← h.artifacts, List.map_map] at hpub
  exact hpub

theorem Planned.repos_nodup (h : Planned pkg inp pub r p bundle) :
    (p.artifacts.map fun ai => repo ai.1.ref).Nodup := by
  have hrepos := (List.nodup_cons.mp h.repos).2
  rw [← h.artifacts, List.map_map] at hrepos
  exact hrepos

theorem Planned.repo_ne_bundle (h : Planned pkg inp pub r p bundle) {ai : Artifact × Item}
    (hai : ai ∈ p.artifacts) : repo ai.1.ref ≠ repo pub.bundle := by
  intro heq
  refine (List.nodup_cons.mp h.repos).1 ?_
  rw [← heq, ← h.artifacts]
  exact List.mem_map_of_mem (List.mem_map_of_mem hai)

theorem Planned.exists_item (h : Planned pkg inp pub r p bundle) {a : Artifact}
    (ha : a ∈ pub.artifacts) : ∃ it, (a, it) ∈ p.artifacts := by
  rw [← h.artifacts] at ha
  obtain ⟨⟨b, it⟩, hmem, rfl⟩ := List.mem_map.mp ha
  exact ⟨it, hmem⟩

end

theorem triple_artifactItems (inp : Input C)
    (arts : List Artifact) :
    Triple (· = s₀)
      (loop (fun items a => do
        let it ← artifactItem inp a
        pure (items ++ [(a, it)])) [] arts)
      (fun items s => s = s₀ ∧ items.map (·.1) = arts ∧
        ∀ ai ∈ items, ai.2.repo = repo ai.1.ref ∧
          (ai.2.state ≠ .unreadable → ai.2.Tells s₀.registry inp.bundle.version)) E := by
  refine (Triple.loop (fun done items s => s = s₀ ∧ items.map (·.1) = done ∧
    ∀ ai ∈ items, ai.2.repo = repo ai.1.ref ∧
      (ai.2.state ≠ .unreadable → ai.2.Tells s₀.registry inp.bundle.version)) ?_).weaken ?_
    (fun _ _ h => h) fun _ h => h
  · intro done a rest items _
    refine Triple.bind ((triple_artifactItem inp a).frame _) fun it => Triple.pure ?_
    rintro s ⟨⟨rfl, hrepo, hit⟩, hitems, htells⟩
    refine ⟨rfl, ?_, ?_⟩
    · rw [List.map_append, hitems]
      rfl
    · intro ai hai
      rcases List.mem_append.mp hai with hai | hai
      · exact htells ai hai
      · cases List.mem_singleton.mp hai
        exact ⟨hrepo, hit⟩
  · rintro s rfl
    exact ⟨rfl, rfl, fun ai hai => absurd hai List.not_mem_nil⟩

theorem checks_of_ready {p : Plan} {arts : List (Artifact × Item)} {bundle : Item}
    {preflight : Plan → List Check}
    (h : ((p.withItems arts bundle).withPreflight preflight).ready = true) :
    (∀ it ∈ arts.map (·.2) ++ [bundle], it.state ≠ .conflict ∧ it.state ≠ .unreadable) ∧
      ∀ ch ∈ p.checks, ch.passed = true := by
  simp only [Plan.withPreflight, Plan.withItems, Plan.items, Option.toList_some,
    Bool.and_eq_true, List.all_eq_true] at h
  obtain ⟨hitems, hchecks⟩ := h
  constructor
  · intro it hit
    have hstate := hitems it hit
    simp only [decide_eq_true_eq] at hstate
    exact hstate
  · intro ch hch
    exact hchecks ch (List.mem_append_left _ hch)

theorem triple_makePlan (pkg : Packages C) (inp : Input C) :
    Triple (· = s₀) (makePlan pkg inp)
      (fun p s => s = s₀ ∧ (p.ready = true → ∃ pub bundle, inp.bundle.publish = some pub ∧
        p.bundle = some bundle ∧ Planned pkg inp pub s₀.registry p bundle)) E := by
  unfold makePlan
  cases hpub : inp.bundle.publish with
  | none => exact Triple.pure fun s hs => ⟨hs, nofun⟩
  | some pub =>
    refine Triple.bind (triple_versionCheck pkg inp.bundle (repo pub.bundle) _) fun cp => ?_
    obtain ⟨version, p⟩ := cp
    refine Triple.bind ((triple_artifactItems inp pub.artifacts).frame _) fun arts => ?_
    refine Triple.intro fun s hs => ?_
    obtain ⟨⟨rfl, harts, hitems⟩, hsame, hversion⟩ := hs
    refine Triple.bind (triple_bundleItemOf pkg inp pub) fun bundle => Triple.pure ?_
    rintro s ⟨rfl, hrepo, hbundle⟩
    refine ⟨rfl, fun hready => ⟨pub, bundle, rfl, rfl, ?_⟩⟩
    obtain ⟨hstates, hchecks⟩ := checks_of_ready hready
    have hchecked : ∀ ch ∈ [signCheck pub, refsCheck pub, sbomCheck pub,
        revisionCheck inp.revision, version], ch.passed = true :=
      fun ch hch => hchecks ch (List.mem_append_right _ hch)
    have hmem : bundle ∈ arts.map (·.2) ++ [bundle] :=
      List.mem_append_right _ (List.mem_singleton.mpr rfl)
    obtain ⟨htells, hdigest⟩ := hbundle (hstates bundle hmem).2 (hstates bundle hmem).1
    exact
      { version := hsame.1
        artifacts := harts
        items := fun ai hai => ⟨(hitems ai hai).1, (hitems ai hai).2
          (hstates ai.2 (List.mem_append_left _ (List.mem_map_of_mem hai))).2⟩
        repos := nodup_of_refsCheck (hchecked _ (by simp))
        bundle_repo := hrepo
        bundle_tells := htells
        bundle_digest := hdigest
        versions := hversion (hchecked _ (by simp)) }

/-! ## Adopting -/

theorem adoptItem_eq {r : Registry C} {it : Item} (h : (adoptItem r it).state ≠ .conflict) :
    adoptItem r it = it := by
  unfold adoptItem at h ⊢
  split
  · next hadopt =>
    rw [if_pos hadopt] at h
    cases hverify : r.verify it.repo it.digest with
    | none => rfl
    | some e =>
      rw [hverify] at h
      exact absurd rfl h
  · rfl

theorem adoptOnlySigned_eq {r : Registry C} {p : Plan}
    (h : (adoptOnlySigned r p).ready = true) : adoptOnlySigned r p = p := by
  have hready : p.ready = true ∧ ∀ it ∈ p.items, (adoptItem r it).state ≠ .conflict := by
    simpa [adoptOnlySigned] using h
  have hitems : ∀ it ∈ p.items, adoptItem r it = it := fun it hit => adoptItem_eq (hready.2 it hit)
  have harts : (p.artifacts.map fun ai => (ai.1, adoptItem r ai.2)) = p.artifacts := by
    refine (List.map_congr_left fun ai hai => ?_).trans (List.map_id _)
    rw [hitems ai.2 (List.mem_append_left _ (List.mem_map_of_mem hai))]
    rfl
  have hbundle : p.bundle.map (adoptItem r) = p.bundle := by
    cases hb : p.bundle with
    | none => rfl
    | some b =>
      have hmem : b ∈ p.items := List.mem_append_right _ (by simp [hb])
      rw [Option.map_some, hitems b hmem]
  have hok : (p.ready && p.items.all fun it => (adoptItem r it).state ≠ .conflict) = true := h
  unfold adoptOnlySigned
  rw [harts, hbundle, hok, ← hready.1]

/-! ## A run -/

def Run.withPlan (s : Run C) (p : Plan) : Run C := { s with res := { s.res with plan := p } }

theorem triple_apply {Q : Unit → Run C → Prop}
    {pkg : Packages C} {inp : Input C} (hrefused : ∀ p, E (s₀.withPlan p))
    (hcarry : ∀ pub p bundle, inp.bundle.publish = some pub →
      Planned pkg inp pub s₀.registry p bundle →
      Triple (· = s₀.withPlan p) (carryOut inp pub p bundle) Q E) :
    Triple (· = s₀) (apply pkg inp) Q E := by
  refine Triple.bind (triple_makePlan pkg inp) fun p => ?_
  refine Triple.bind (R := fun p' s => s = s₀ ∧ (p'.ready = true → ∃ pub bundle,
    inp.bundle.publish = some pub ∧ p'.bundle = some bundle ∧
    Planned pkg inp pub s₀.registry p' bundle)) (Triple.read ?_) fun p' => ?_
  · rintro s ⟨rfl, hplanned⟩
    refine ⟨rfl, fun hready => ?_⟩
    by_cases hp : p.ready = true
    · rw [if_pos hp] at hready ⊢
      rw [adoptOnlySigned_eq hready]
      exact hplanned hp
    · rw [if_neg hp] at hready
      exact absurd hready hp
  refine Triple.bind (R := fun _ s => s = s₀.withPlan p' ∧ (p'.ready = true → ∃ pub bundle,
    inp.bundle.publish = some pub ∧ p'.bundle = some bundle ∧
    Planned pkg inp pub s₀.registry p' bundle)) (Triple.modify ?_) fun _ => ?_
  · rintro s ⟨rfl, hplanned⟩
    exact ⟨rfl, hplanned⟩
  refine Triple.intro fun s hs => ?_
  obtain ⟨rfl, hplanned⟩ := hs
  split
  · next pub bundle hready hpub hbundle =>
    obtain ⟨pub', bundle', hpub', hbundle', hp⟩ := hplanned hready
    rw [hpub] at hpub'
    rw [hbundle] at hbundle'
    cases hpub'
    cases hbundle'
    exact hcarry pub p' bundle hpub hp
  · refine Triple.fail ?_
    rintro s rfl
    exact hrefused p'

end Pacto.Publish
