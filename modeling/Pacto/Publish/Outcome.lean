import Pacto.Publish.Prepare

/-!
# What a run leaves

A run that stops before its tags has only added to the registry.  A run that
reaches them has everything stored and signed, and leaves a first part of the
tags it owes; all of them when it succeeds.
-/

namespace Pacto.Publish

open Support Attempt

variable {C : Type}
variable {s₀ s : Run C} {version : String} {o : String × String}

/-! ## The bundle -/

def owedTags (pub : Section) (p : Plan) (bundle : Item) (D : String → String) :
    List (String × String) :=
  (p.artifacts.filter (owesTag pub)).map (fun ai => (repo ai.1.ref, D ai.1.name)) ++
    (if bundle.state = .absent then [(repo pub.bundle, bundle.digest)] else []) ++
    ((p.artifacts.find? (owesDeploy pub)).map fun ai => (repo ai.1.ref, D ai.1.name)).toList

/-- Everything is pushed: each artifact has one digest in `D`. -/
structure Staged (inp : Input C) (pub : Section) (p : Plan) (bundle : Item) (s₀ : Run C)
    (D : String → String) (s : Run C) : Prop where
  adds : Adds s₀.registry s.registry
  kept : ∀ ai ∈ p.artifacts, ai.2.state ≠ .absent → D ai.1.name = ai.2.digest
  built : ∀ before ai after, p.artifacts = before ++ ai :: after → ai.2.state = .absent →
    lastBuild s.builds ai.1.name (D ai.1.name) =
      some (buildEnv inp (before.map fun bi => (bi.1, D bi.1.name)))
  others : ∀ ai ∈ p.artifacts, ai.2.state ≠ .absent →
    ∀ d, lastBuild s.builds ai.1.name d = lastBuild s₀.builds ai.1.name d
  stored : ∀ ai ∈ p.artifacts, s.registry.holds (repo ai.1.ref) (D ai.1.name) = true
  bundle_stored : s.registry.holds (repo pub.bundle) bundle.digest = true
  attached : ∀ ai ∈ p.artifacts, ai.1.sbom ≠ "" →
    ∃ sbom, s.res.sboms.lookup ai.1.name = some sbom ∧
      ((repo ai.1.ref, D ai.1.name, sbomType ai.1.sbom), sbom) ∈ s.registry.referrers ∧
      ((repo ai.1.ref, sbom) ∈ s.registry.signed ∨ sbom ≠ "")
  digest : ∀ name, name ≠ bundleItem → s.digest name = D name
  bundle_digest : s.digest bundleItem = bundle.digest
  owed : s.owed = owedTags pub p bundle D

theorem Staged.unfinished {inp : Input C} {pub : Section} {p : Plan} {bundle : Item}
    {D : String → String} (h : Staged inp pub p bundle s₀ D s) :
    Unfinished p s₀ s :=
  ⟨h.adds, h.others⟩

/-- Writing beside it leaves everything staged. -/
theorem Staged.beside {inp : Input C} {pub : Section} {p : Plan} {bundle : Item}
    {s' : Run C} {D : String → String} (h : Staged inp pub p bundle s₀ D s)
    (hbeside : Beside s s') (hsboms : s'.res.sboms = s.res.sboms) :
    Staged inp pub p bundle s₀ D s' := by
  have hdigest : ∀ name, s'.digest name = s.digest name := by
    intro name
    unfold Run.digest
    rw [hbeside.digests]
  constructor
  case adds => exact h.adds.trans hbeside.adds
  case kept => exact h.kept
  case built =>
    rw [hbeside.builds]
    exact h.built
  case others =>
    rw [hbeside.builds]
    exact h.others
  case stored => exact fun ai hai => hbeside.adds.toGrows.holds (h.stored ai hai)
  case bundle_stored => exact hbeside.adds.toGrows.holds h.bundle_stored
  case attached =>
    intro ai hai hsbom
    obtain ⟨sbom, hlookup, hmem, hsigned⟩ := h.attached ai hai hsbom
    exact ⟨sbom, hsboms ▸ hlookup, hbeside.adds.referrer _ hmem,
      hsigned.imp_left (hbeside.adds.signed _)⟩
  case digest =>
    intro name hname
    rw [hdigest]
    exact h.digest name hname
  case bundle_digest =>
    rw [hdigest]
    exact h.bundle_digest
  case owed =>
    obtain ⟨htags, hdeploy⟩ := Prod.mk.inj hbeside.owed
    unfold Run.owed
    rw [htags, hdeploy]
    exact h.owed

theorem Prepared.staged {pkg : Packages C} {inp : Input C} {pub : Section} {p : Plan}
    {bundle : Item} {s' : Run C} {env : List String}
    (h : Prepared inp pub s₀ p.artifacts env s) (hp : Planned pkg inp pub s₀.registry p bundle)
    (hadds : Adds s.registry s'.registry) (hbuilds : s'.builds = s.builds)
    (hdigests : s'.res.digests = (bundleItem, bundle.digest) :: s.res.digests)
    (hsboms : s'.res.sboms = s.res.sboms) (hdeploy : s'.deployTag = s.deployTag)
    (htags : s'.tags = s.tags ++
      if bundle.state = .absent then [(repo pub.bundle, bundle.digest)] else [])
    (hstored : s'.registry.holds (repo pub.bundle) bundle.digest = true) :
    Staged inp pub p bundle s₀ s.digest s' := by
  constructor
  case adds => exact h.adds.trans hadds
  case kept => exact h.kept
  case built =>
    rw [hbuilds]
    exact h.built
  case others =>
    rw [hbuilds]
    exact (h.unfinished (fun _ hai => hai) hp.names_nodup).builds
  case stored => exact fun ai hai => hadds.toGrows.holds (h.stored ai hai)
  case bundle_stored => exact hstored
  case attached =>
    intro ai hai hsbom
    obtain ⟨sbom, hlookup, hmem, hsigned⟩ := h.attached ai hai hsbom
    exact ⟨sbom, hsboms ▸ hlookup, hadds.referrer _ hmem, hsigned.imp_left (hadds.signed _)⟩
  case digest =>
    intro name hname
    have hbeq : (name == bundleItem) = false := by simpa using hname
    unfold Run.digest
    rw [hdigests, List.lookup_cons, hbeq]
  case bundle_digest => simp [Run.digest, hdigests]
  case owed =>
    unfold Run.owed owedTags
    rw [htags, hdeploy, h.tags, h.deployTag]

theorem triple_pushBundle {pkg : Packages C} {inp : Input C} {pub : Section} {p : Plan}
    {bundle : Item} {env : List String}
    (hp : Planned pkg inp pub s₀.registry p bundle)
    (h : Prepared inp pub s₀ p.artifacts env s) :
    Triple (· = s) (pushBundle inp pub bundle)
      (fun _ => Staged inp pub p bundle s₀ s.digest) (Unfinished p s₀) := by
  have hstop : ∀ t : Run C, Adds s.registry t.registry → t.builds = s.builds →
      Unfinished p s₀ t := by
    intro t hadds hbuilds
    have hs := h.unfinished (fun _ hai => hai) hp.names_nodup
    refine ⟨hs.adds.trans hadds, ?_⟩
    rw [hbuilds]
    exact hs.builds
  refine Triple.bind Triple.modify_eq fun _ => ?_
  refine Triple.ite (fun habsent => ?_) fun hpresent => ?_
  · refine Triple.bind (Triple.inContext (triple_look (Q := fun _ t => t = _) (fun _ h => h) ?_))
      fun _ => ?_
    · rintro t rfl
      exact hstop _ (Adds.refl _) rfl
    refine Triple.bind (Triple.inContext (triple_put (Q := fun _ t => t = { s with
      registry := s.registry.write (repo pub.bundle) bundle.digest { bundle := some inp.bundle }
      res := { s.res with digests := (bundleItem, bundle.digest) :: s.res.digests } }) ?_ ?_ ?_))
      fun _ => ?_
    · rintro t rfl
      rfl
    · rintro t rfl
      exact hstop _ (Registry.adds_write _ _ _) rfl
    · rintro t rfl
      exact hstop _ (Adds.refl _) rfl
    refine Triple.bind Triple.modify_eq fun _ => Triple.modify ?_
    rintro t rfl
    exact h.staged hp (Registry.adds_write _ _ _) rfl rfl rfl rfl (by rw [if_pos habsent]; rfl)
      (Registry.holds_write _ _ _ _)
  · refine Triple.pure ?_
    rintro t rfl
    refine h.staged hp (Adds.refl _) rfl rfl rfl rfl (by simp [hpresent]) ?_
    rw [← hp.bundle_repo]
    exact h.adds.toGrows.holds (Registry.holds_of_tag (hp.bundle_tells.present hpresent))

/-! ## Signatures -/

theorem triple_signRef (ref : String × String) :
    Triple (· = s) (signRef ref)
      (fun _ t => (Beside s t ∧ t.res.sboms = s.res.sboms) ∧ ref ∈ t.registry.signed)
      (fun t => Beside s t ∧ t.res.sboms = s.res.sboms) := by
  have hstop : ∀ t, t = s → Beside s t ∧ t.res.sboms = s.res.sboms := by
    rintro t rfl
    exact ⟨⟨Adds.refl _, rfl, rfl, rfl⟩, rfl⟩
  refine Triple.bind (Triple.read (Q := fun unsigned t => t = s ∧
    (unsigned = false → ref ∈ s.registry.signed)) ?_) fun unsigned => ?_
  · rintro t rfl
    refine ⟨rfl, fun h => ?_⟩
    rw [Option.isSome_eq_false_iff, Option.isNone_iff_eq_none] at h
    exact Registry.verify_eq_none.mp h
  refine Triple.ite (fun _ => ?_) fun hsigned => ?_
  · refine Triple.bind (Triple.inContext (Triple.bind (triple_look (Q := fun _ t => t = s)
      (fun _ h => h.1) fun t h => hstop t h.1) fun found => Triple.bind
      (Triple.demand fun _ => hstop) fun _ => triple_put (Q := fun _ t => (Beside s t ∧
        t.res.sboms = s.res.sboms) ∧ ref ∈ t.registry.signed) ?_ ?_ fun t h => hstop t h.1))
      fun _ => Triple.modify ?_
    · rintro t ⟨rfl, -⟩
      exact ⟨⟨⟨Registry.adds_sign _ _, rfl, rfl, rfl⟩, rfl⟩, List.mem_cons_self⟩
    · rintro t ⟨rfl, -⟩
      exact ⟨⟨Registry.adds_sign _ _, rfl, rfl, rfl⟩, rfl⟩
    · rintro t ⟨⟨hbeside, hsboms⟩, hmem⟩
      exact ⟨⟨⟨hbeside.adds, hbeside.builds, hbeside.digests, hbeside.owed⟩, hsboms⟩, hmem⟩
  · refine Triple.pure fun t ht => ⟨hstop t ht.1, ?_⟩
    have hmem := ht.2 (by simpa using hsigned)
    rw [ht.1]
    exact hmem

/-- Everything published is signed. -/
theorem triple_signAll {inp : Input C} {pub : Section} {p : Plan} {bundle : Item}
    {D : String → String} (h : Staged inp pub p bundle s₀ D s) :
    Triple (· = s) (signAll pub)
      (fun _ t => Staged inp pub p bundle s₀ D t ∧
        ∀ ref ∈ signRefs pub t.res, ref ∈ t.registry.signed)
      (Unfinished p s₀) := by
  refine Triple.bind (Triple.read (Q := fun refs t => t = s ∧ refs = signRefs pub s.res) ?_)
    fun refs => ?_
  · rintro t rfl
    exact ⟨rfl, rfl⟩
  refine Triple.intro fun t ht => ?_
  obtain ⟨rfl, rfl⟩ := ht
  refine (Triple.loop (fun done _ u => (Beside t u ∧ u.res.sboms = t.res.sboms) ∧
    ∀ ref ∈ done, ref ∈ u.registry.signed) ?_).weaken ?_ ?_ fun _ h => h
  · intro done ref rest _ _
    refine Triple.intro fun u hu => ?_
    obtain ⟨⟨hbeside, hsboms⟩, hdone⟩ := hu
    have htrans : ∀ v, Beside u v → v.res.sboms = u.res.sboms →
        Beside t v ∧ v.res.sboms = t.res.sboms := fun v hv hv' =>
      ⟨⟨hbeside.adds.trans hv.adds, hv.builds.trans hbeside.builds,
        hv.digests.trans hbeside.digests, hv.owed.trans hbeside.owed⟩, hv'.trans hsboms⟩
    refine (triple_signRef ref).weaken (fun _ h => h) ?_ ?_
    · rintro _ v ⟨⟨hv, hv'⟩, hmem⟩
      refine ⟨htrans v hv hv', fun ref' href' => ?_⟩
      rcases List.mem_append.mp href' with href' | href'
      · exact hv.adds.signed _ (hdone ref' href')
      · cases List.mem_singleton.mp href'
        exact hmem
    · rintro v ⟨hv, hv'⟩
      obtain ⟨hbeside', hsboms'⟩ := htrans v hv hv'
      exact (h.beside hbeside' hsboms').unfinished
  · rintro u rfl
    exact ⟨⟨⟨Adds.refl _, rfl, rfl, rfl⟩, rfl⟩, fun ref href => absurd href List.not_mem_nil⟩
  · rintro _ u ⟨⟨hbeside, hsboms⟩, hsigned⟩
    refine ⟨h.beside hbeside hsboms, fun ref href => hsigned ref ?_⟩
    have hrefs : signRefs pub u.res = signRefs pub t.res := by
      unfold signRefs
      rw [hbeside.digests, hsboms]
    rw [← hrefs]
    exact href

/-! ## Tags -/

/-- The registry `r` with some tags of the version, and nothing else new. -/
structure Written (version : String) (r : Registry C) (tags : List (String × String))
    (r' : Registry C) : Prop where
  tag : ∀ repo tag, r'.tag repo tag =
    (r.tag repo tag).or (if tag = version then tags.lookup repo else none)
  manifests : r'.manifests = r.manifests
  referrers : r'.referrers = r.referrers
  signed : r'.signed = r.signed

theorem Written.nil (version : String) (r : Registry C) : Written version r [] r := by
  refine ⟨fun repo tag => ?_, rfl, rfl, rfl⟩
  simp

theorem Written.grows {r r' : Registry C} {tags : List (String × String)}
    (h : Written version r tags r') : Grows r r' := by
  refine ⟨fun repo tag d hd => ?_, fun k m hm => ?_, fun e he => ?_, fun e he => ?_⟩
  · rw [h.tag, hd]
    rfl
  · rw [h.manifests]
    exact hm
  · rw [h.referrers]
    exact he
  · rw [h.signed]
    exact he

theorem Written.setTag {r r' : Registry C} {tags : List (String × String)}
    (h : Written version r tags r') (hnone : r.tag o.1 version = none)
    (hnew : o.1 ∉ tags.map Prod.fst) (hstored : r.holds o.1 o.2 = true) :
    Written version r (tags ++ [o]) (r'.setTag o.1 o.2 version) := by
  obtain ⟨name, digest⟩ := o
  dsimp only at hnone hnew hstored ⊢
  have hlookup : tags.lookup name = none := by
    rw [List.lookup_eq_none_iff]
    intro e he
    have hne : name ≠ e.1 := fun heq => hnew (heq ▸ List.mem_map_of_mem he)
    simpa using hne
  have hstored' : r'.holds name digest = true := h.grows.holds hstored
  refine ⟨fun repo tag => ?_, ?_, ?_, ?_⟩
  · by_cases hself : (repo, tag) = (name, version)
    · cases hself
      rw [Registry.tag_setTag_self hstored', hnone, if_pos rfl, List.lookup_append, hlookup]
      simp
    · rw [Registry.tag_setTag_of_ne hself, h.tag]
      by_cases htag : tag = version
      · have hrepo : (repo == name) = false := by
          have hne : repo ≠ name := fun heq => hself (by rw [heq, htag])
          simpa using hne
        rw [if_pos htag, if_pos htag, List.lookup_append]
        simp [List.lookup_cons, hrepo]
      · rw [if_neg htag, if_neg htag]
  · rw [Registry.manifests_setTag]
    exact h.manifests
  · rw [Registry.referrers_setTag]
    exact h.referrers
  · rw [Registry.signed_setTag]
    exact h.signed

/-- What a run leaves when it stops while it writes its tags. -/
def TagsLeft (version : String) (owed : List (String × String)) (s t : Run C) : Prop :=
  t.builds = s.builds ∧ ∃ done, done <+: owed ∧ Written version s.registry done t.registry

theorem triple_tagOwed {t : Run C} {done : List (String × String)}
    {owed : List (String × String)} (hdone : done ++ [o] <+: owed)
    (hbuilds : t.builds = s.builds) (h : Written version s.registry done t.registry)
    (hnone : s.registry.tag o.1 version = none) (hnew : o.1 ∉ done.map Prod.fst)
    (hstored : s.registry.holds o.1 o.2 = true) :
    Triple (· = t) (tagOwed version o)
      (fun _ u => u.builds = s.builds ∧ Written version s.registry (done ++ [o]) u.registry)
      (TagsLeft version owed s) := by
  have hstop : ∀ u, u = t → TagsLeft version owed s u := by
    rintro u rfl
    exact ⟨hbuilds, done, (List.prefix_append done [o]).trans hdone, h⟩
  have htag : t.registry.tag o.1 version = none := by
    rw [h.tag, hnone, if_pos rfl, Option.none_or, List.lookup_eq_none_iff]
    intro e he
    have hne : o.1 ≠ e.1 := fun heq => hnew (heq ▸ List.mem_map_of_mem he)
    simpa using hne
  refine Triple.inContext (Triple.bind (triple_look (Q := fun now u => u = t ∧
    now = t.registry.head o.1 version) ?_ hstop) fun now => ?_)
  · rintro u rfl
    exact ⟨rfl, rfl⟩
  cases now with
  | none =>
    refine Triple.bind (triple_look (Q := fun _ u => u = t) (fun _ h => h.1)
      fun u h => hstop u h.1) fun found => ?_
    refine Triple.bind (Triple.demand fun _ => hstop) fun _ => ?_
    refine triple_put ?_ ?_ fun u hu => hstop u hu.1
    · rintro u ⟨rfl, -⟩
      exact ⟨hbuilds, h.setTag hnone hnew hstored⟩
    · rintro u ⟨rfl, -⟩
      exact ⟨hbuilds, done ++ [o], hdone, h.setTag hnone hnew hstored⟩
  | some now =>
    refine Triple.intro fun u hu => ?_
    have hsome := Registry.tag_of_head hu.2.symm
    rw [htag] at hsome
    cases hsome

/-- The tags of distinct repositories that have none yet, in order. -/
theorem triple_writeTags
    (hnodup : (s.owed.map Prod.fst).Nodup)
    (hnone : ∀ o ∈ s.owed, s.registry.tag o.1 version = none)
    (hstored : ∀ o ∈ s.owed, s.registry.holds o.1 o.2 = true) :
    Triple (· = s) (writeTags version)
      (fun _ t => t.builds = s.builds ∧ Written version s.registry s.owed t.registry)
      (TagsLeft version s.owed s) := by
  refine Triple.bind (Triple.read (Q := fun owed t => t = s ∧ owed = s.owed) ?_) fun owed => ?_
  · rintro t rfl
    exact ⟨rfl, rfl⟩
  refine Triple.intro fun t ht => ?_
  obtain ⟨rfl, rfl⟩ := ht
  refine Triple.bind (R := fun _ u => u.builds = t.builds ∧
    Written version t.registry t.owed u.registry) ((Triple.loop (fun done _ u =>
      u.builds = t.builds ∧ Written version t.registry done u.registry) ?_).weaken ?_
      (fun _ _ h => h) fun _ h => h) fun _ => ?_
  · intro done o rest _ hsplit
    have hmem : o ∈ t.owed := by
      rw [hsplit]
      exact List.mem_append_right _ List.mem_cons_self
    have hnew : o.1 ∉ done.map Prod.fst := by
      intro hin
      rw [hsplit, List.map_append, List.map_cons] at hnodup
      exact (List.nodup_append.mp hnodup).2.2 _ hin _ List.mem_cons_self rfl
    have hdone : done ++ [o] <+: t.owed := ⟨rest, by rw [hsplit]; simp⟩
    refine Triple.intro fun u hu => ?_
    exact triple_tagOwed hdone hu.1 hu.2 (hnone o hmem) hnew (hstored o hmem)
  · rintro u rfl
    exact ⟨rfl, Written.nil version u.registry⟩
  · exact Triple.ite (fun _ => Triple.modify fun u hu => hu) fun _ => Triple.pure fun u hu => hu

/-! ## The tags a plan owes -/

section Owed

variable {pkg : Packages C} {inp : Input C} {pub : Section} {r : Registry C} {p : Plan}
  {bundle : Item} {D : String → String}

theorem mem_owedTags (hp : Planned pkg inp pub r p bundle) :
    o ∈ owedTags pub p bundle D ↔
      (∃ ai ∈ p.artifacts, ai.2.state = .absent ∧ o = (repo ai.1.ref, D ai.1.name)) ∨
        bundle.state = .absent ∧ o = (repo pub.bundle, bundle.digest) := by
  unfold owedTags
  rw [List.mem_append, List.mem_append]
  constructor
  · rintro ((h | h) | h)
    · obtain ⟨ai, hai, rfl⟩ := List.mem_map.mp h
      obtain ⟨hmem, howes⟩ := List.mem_filter.mp hai
      simp only [owesTag, Bool.and_eq_true, decide_eq_true_eq] at howes
      exact .inl ⟨ai, hmem, howes.1, rfl⟩
    · split at h
      · next habsent => exact .inr ⟨habsent, List.mem_singleton.mp h⟩
      · cases h
    · rw [Option.mem_toList, Option.map_eq_some_iff] at h
      obtain ⟨ai, hfind, rfl⟩ := h
      have howes := List.find?_some hfind
      simp only [owesDeploy, Bool.and_eq_true, decide_eq_true_eq] at howes
      exact .inl ⟨ai, List.mem_of_find?_eq_some hfind, howes.1, rfl⟩
  · rintro (⟨ai, hai, habsent, rfl⟩ | ⟨habsent, rfl⟩)
    · by_cases hdeploy : ai.1.name = pub.deploy
      · -- the deploy artifact is the only one of its name
        have hsome : (p.artifacts.find? (owesDeploy pub)).isSome = true :=
          List.find?_isSome.mpr ⟨ai, hai, by simp [owesDeploy, habsent, hdeploy]⟩
        obtain ⟨bi, hbi⟩ := Option.isSome_iff_exists.mp hsome
        have howes := List.find?_some hbi
        simp only [owesDeploy, Bool.and_eq_true, decide_eq_true_eq] at howes
        have heq := List.inj_on_of_nodup_map hp.names_nodup (List.mem_of_find?_eq_some hbi) hai
          (howes.2.trans hdeploy.symm)
        subst heq
        refine .inr ?_
        rw [hbi]
        simp
      · exact .inl (.inl (List.mem_map.mpr
          ⟨ai, List.mem_filter.mpr ⟨hai, by simp [owesTag, habsent, hdeploy]⟩, rfl⟩))
    · exact .inl (.inr (by simp [habsent]))

theorem nodup_owedTags (hp : Planned pkg inp pub r p bundle) :
    ((owedTags pub p bundle D).map Prod.fst).Nodup := by
  have hfilter : (((p.artifacts.filter (owesTag pub)).map
      fun ai => (repo ai.1.ref, D ai.1.name)).map Prod.fst).Nodup := by
    rw [List.map_map]
    exact hp.repos_nodup.sublist (List.filter_sublist.map _)
  unfold owedTags
  rw [List.map_append, List.map_append]
  refine List.nodup_append.mpr ⟨List.nodup_append.mpr ⟨hfilter, ?_, ?_⟩, ?_, ?_⟩
  · split <;> simp
  · intro x hx y hy heq
    subst heq
    obtain ⟨o, ho, rfl⟩ := List.mem_map.mp hx
    obtain ⟨ai, hai, rfl⟩ := List.mem_map.mp ho
    split at hy
    · exact hp.repo_ne_bundle (List.mem_filter.mp hai).1 (by simpa using hy)
    · simp at hy
  · cases p.artifacts.find? (owesDeploy pub) <;> simp
  · intro x hx y hy heq
    subst heq
    simp only [List.mem_map, Option.mem_toList, Option.map_eq_some_iff] at hy
    obtain ⟨o, ⟨ai, hfind, rfl⟩, rfl⟩ := hy
    have hai := List.mem_of_find?_eq_some hfind
    have howes := List.find?_some hfind
    simp only [owesDeploy, Bool.and_eq_true, decide_eq_true_eq] at howes
    rcases List.mem_append.mp hx with hx | hx
    · obtain ⟨o, ho, hrepo⟩ := List.mem_map.mp hx
      obtain ⟨bi, hbi, rfl⟩ := List.mem_map.mp ho
      obtain ⟨hmem, hother⟩ := List.mem_filter.mp hbi
      have heq := List.inj_on_of_nodup_map hp.repos_nodup hmem hai hrepo
      subst heq
      simp only [owesTag, Bool.and_eq_true, decide_eq_true_eq] at hother
      exact hother.2 howes.2
    · split at hx
      · exact hp.repo_ne_bundle hai (by simpa using hx)
      · simp at hx

end Owed

/-! ## A run -/

/-- A run that got to its tags, everything signed, and wrote some of them. -/
structure Reached (pkg : Packages C) (inp : Input C) (pub : Section) (s₀ : Run C) (p : Plan)
    (bundle : Item) (D : String → String) (s : Run C) (done : List (String × String))
    (t : Run C) : Prop where
  planned : Planned pkg inp pub s₀.registry p bundle
  staged : Staged inp pub p bundle s₀ D s
  signed : ∀ ref ∈ signRefs pub s.res, ref ∈ s.registry.signed
  builds : t.builds = s.builds
  first : done <+: owedTags pub p bundle D
  written : Written inp.bundle.version s.registry done t.registry

/-- What a run that stopped leaves. -/
inductive Left (pkg : Packages C) (inp : Input C) (s₀ t : Run C) : Prop where
  | refused (registry : t.registry = s₀.registry) (builds : t.builds = s₀.builds)
  | unfinished {pub : Section} {p : Plan} {bundle : Item} (publish : inp.bundle.publish = some pub)
      (planned : Planned pkg inp pub s₀.registry p bundle) (h : Unfinished p s₀ t)
  | reached {pub : Section} {p : Plan} {bundle : Item} {D : String → String} {s : Run C}
      {done : List (String × String)} (publish : inp.bundle.publish = some pub)
      (h : Reached pkg inp pub s₀ p bundle D s done t)

/-- What a run that succeeded leaves: all its tags. -/
def Finished (pkg : Packages C) (inp : Input C) (s₀ t : Run C) : Prop :=
  ∃ pub p bundle D s, inp.bundle.publish = some pub ∧
    Reached pkg inp pub s₀ p bundle D s (owedTags pub p bundle D) t

theorem triple_carryOut {pkg : Packages C} {inp : Input C} {pub : Section}
    {p : Plan} {bundle : Item} (hpub : inp.bundle.publish = some pub)
    (hp : Planned pkg inp pub s₀.registry p bundle) (htags : s₀.tags = [])
    (hdeploy : s₀.deployTag = none) :
    Triple (· = s₀.withPlan p) (carryOut inp pub p bundle)
      (fun _ => Finished pkg inp s₀) (Left pkg inp s₀) := by
  have hstop : ∀ t, Unfinished p (s₀.withPlan p) t → Left pkg inp s₀ t :=
    fun t h => .unfinished hpub hp ⟨h.adds, h.builds⟩
  refine Triple.bind ((triple_artifacts (s := s₀.withPlan p) hp htags hdeploy).weaken
    (fun _ h => h) (fun _ _ h => h) hstop) fun env => ?_
  refine Triple.intro fun t ht => ?_
  have hplanned : Planned pkg inp pub (s₀.withPlan p).registry p bundle := hp
  refine Triple.bind ((triple_pushBundle hplanned ht).weaken (fun _ h => h) (fun _ _ h => h)
    hstop) fun _ => ?_
  refine Triple.intro fun u hu => ?_
  refine Triple.bind ((triple_signAll hu).weaken (fun _ h => h) (fun _ _ h => h) hstop)
    fun _ => ?_
  refine Triple.intro fun v hv => ?_
  obtain ⟨hstaged, hsigned⟩ := hv
  have hstaged' : Staged inp pub p bundle s₀ t.digest v := { hstaged with }
  have hnodup : (v.owed.map Prod.fst).Nodup := by
    rw [hstaged.owed]
    exact nodup_owedTags hp
  have howed : ∀ o ∈ v.owed,
      v.registry.tag o.1 p.version = none ∧ v.registry.holds o.1 o.2 = true := by
    intro o ho
    rw [hstaged.owed] at ho
    rw [hp.version, hstaged'.adds.tag_eq]
    rcases (mem_owedTags hp).mp ho with ⟨ai, hai, habsent, rfl⟩ | ⟨habsent, rfl⟩
    · obtain ⟨hrepo, htells⟩ := hp.items ai hai
      exact ⟨hrepo ▸ htells.absent habsent, hstaged.stored ai hai⟩
    · exact ⟨hp.bundle_repo ▸ hp.bundle_tells.absent habsent, hstaged.bundle_stored⟩
  refine (triple_writeTags hnodup (fun o ho => (howed o ho).1) fun o ho => (howed o ho).2).weaken
    (fun _ h => h) ?_ ?_
  · rintro _ w ⟨hbuilds, hwritten⟩
    rw [hstaged.owed, hp.version] at hwritten
    exact ⟨pub, p, bundle, t.digest, v, hpub, hp, hstaged', hsigned, hbuilds, List.prefix_rfl,
      hwritten⟩
  · rintro w ⟨hbuilds, done, hdone, hwritten⟩
    rw [hstaged.owed] at hdone
    rw [hp.version] at hwritten
    exact .reached hpub ⟨hp, hstaged', hsigned, hbuilds, hdone, hwritten⟩

/-- A run that succeeds has written all its tags, and one that fails was
refused, stopped before its tags or among them. -/
theorem triple_run (pkg : Packages C) (inp : Input C) (w : World C) :
    Triple (· = { registry := w.registry, builds := w.builds }) (apply pkg inp)
      (fun _ => Finished pkg inp { registry := w.registry, builds := w.builds })
      (Left pkg inp { registry := w.registry, builds := w.builds }) :=
  triple_apply (fun _ => .refused rfl rfl)
    fun _ _ _ hpub hp => triple_carryOut hpub hp rfl rfl

end Pacto.Publish
