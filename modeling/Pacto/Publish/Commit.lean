import Pacto.Publish.Outcome

/-!
# The deploy tag is the commit point

Runs of one publish never move a tag.  Once a run has written the tag that
deploys the version, every artifact, its SBOM and the bundle are stored, signed
and tagged, wherever that run or a later one stopped; and a run after one that
succeeded writes nothing.

An artifact may be named as the bundle is among the items.  Then the two share
one entry of the digests that are signed, and the artifact's own digest is not.
-/

namespace Pacto.Publish

open Support Attempt

variable {C : Type}
variable {ai : Artifact × Item} {a : Artifact} {w : World C}

/-! ## What the deploy tag stands for -/

/-- The manifest is stored and signed. -/
def Vouched (r : Registry C) (repo digest : String) : Prop :=
  r.holds repo digest = true ∧ (repo, digest) ∈ r.signed

/-- Everything the version stands for is there. -/
structure Complete (pkg : Packages C) (inp : Input C) (pub : Section) (r : Registry C) : Prop where
  artifact : ∀ a ∈ pub.artifacts, ∃ d, r.tag (repo a.ref) inp.bundle.version = some d ∧
    Vouched r (repo a.ref) d ∧
    (a.sbom ≠ "" → ∃ sbom, ((repo a.ref, d, sbomType a.sbom), sbom) ∈ r.referrers ∧
      Vouched r (repo a.ref) sbom)
  bundle : r.tag (repo pub.bundle) inp.bundle.version = some (pkg.bundleDigest inp.bundle) ∧
    Vouched r (repo pub.bundle) (pkg.bundleDigest inp.bundle)

theorem Vouched.grows {r r' : Registry C} {repo digest : String} (h : Vouched r repo digest)
    (hgrows : Grows r r') : Vouched r' repo digest :=
  ⟨hgrows.holds h.1, hgrows.signed _ h.2⟩

theorem Complete.grows {pkg : Packages C} {inp : Input C} {pub : Section} {r r' : Registry C}
    (h : Complete pkg inp pub r) (hgrows : Grows r r') : Complete pkg inp pub r' := by
  constructor
  · intro a ha
    obtain ⟨d, htag, hvouched, hsbom⟩ := h.artifact a ha
    refine ⟨d, hgrows.tag _ _ _ htag, hvouched.grows hgrows, fun hne => ?_⟩
    obtain ⟨sbom, hmem, hvouched'⟩ := hsbom hne
    exact ⟨sbom, hgrows.referrer _ hmem, hvouched'.grows hgrows⟩
  · exact ⟨hgrows.tag _ _ _ h.bundle.1, h.bundle.2.grows hgrows⟩

section Reached

variable {pkg : Packages C} {inp : Input C} {pub : Section} {s₀ s t : Run C} {p : Plan}
  {bundle : Item} {D : String → String} {done : List (String × String)}
  (h : Reached pkg inp pub s₀ p bundle D s done t)

include h

theorem Reached.grows : Grows s₀.registry t.registry :=
  h.staged.adds.toGrows.trans h.written.grows

theorem Reached.tag_of_present (hai : ai ∈ p.artifacts) (hpresent : ai.2.state ≠ .absent) :
    t.registry.tag (repo ai.1.ref) inp.bundle.version = some (D ai.1.name) := by
  obtain ⟨hrepo, htells⟩ := h.planned.items ai hai
  rw [h.staged.kept ai hai hpresent, ← hrepo]
  exact h.grows.tag _ _ _ (htells.present hpresent)

/-- A tag that was written is the one owed. -/
theorem Reached.tag_of_mem {o : String × String}
    (hnone : s₀.registry.tag o.1 inp.bundle.version = none)
    (ho : o ∈ done) : t.registry.tag o.1 inp.bundle.version = some o.2 := by
  have hnodup : (done.map Prod.fst).Nodup :=
    (nodup_owedTags h.planned).sublist (h.first.sublist.map _)
  rw [h.written.tag, h.staged.adds.tag_eq, hnone, if_pos rfl, Option.none_or]
  exact lookup_eq_some_of_mem hnodup ho

/-- No artifact takes the bundle's place among the digests that are signed. -/
theorem Reached.digest_signed (hname : ∀ a ∈ pub.artifacts, a.name ≠ bundleItem)
    (ha : a ∈ pub.artifacts) :
    (repo a.ref, D a.name) ∈ s.registry.signed := by
  refine h.signed _ (List.mem_append_left _ (List.mem_flatMap.mpr ⟨a, ha, ?_⟩))
  rw [← h.staged.digest a.name (hname a ha)]
  exact List.mem_cons_self

theorem Reached.sbom_signed (ha : a ∈ pub.artifacts) {sbom : String}
    (hlookup : s.res.sboms.lookup a.name = some sbom) (hne : sbom ≠ "") : (repo a.ref, sbom) ∈ s.registry.signed := by
  refine h.signed _ (List.mem_append_left _ (List.mem_flatMap.mpr ⟨a, ha, ?_⟩))
  simp [hlookup, hne]

theorem Reached.bundle_signed : (repo pub.bundle, bundle.digest) ∈ s.registry.signed := by
  refine h.signed _ (List.mem_append_right _ (List.mem_singleton.mpr ?_))
  rw [← h.staged.bundle_digest]
  rfl

/-- Once all tags are written, every artifact has the one in `D`. -/
theorem Reached.tag_of_all (hall : ∀ o ∈ owedTags pub p bundle D, o ∈ done)
    (ha : a ∈ pub.artifacts) :
    t.registry.tag (repo a.ref) inp.bundle.version = some (D a.name) := by
  obtain ⟨it, hai⟩ := h.planned.exists_item ha
  by_cases habsent : it.state = .absent
  · obtain ⟨hrepo, htells⟩ := h.planned.items _ hai
    have howed := (mem_owedTags (D := D) h.planned).mpr (.inl ⟨_, hai, habsent, rfl⟩)
    exact h.tag_of_mem (hrepo ▸ htells.absent habsent) (hall _ howed)
  · exact h.tag_of_present hai habsent

/-- Once all tags are written, everything is there. -/
theorem Reached.complete (hname : ∀ a ∈ pub.artifacts, a.name ≠ bundleItem)
    (hall : ∀ o ∈ owedTags pub p bundle D, o ∈ done) : Complete pkg inp pub t.registry := by
  have hgrows : Grows s.registry t.registry := h.written.grows
  constructor
  · intro a ha
    obtain ⟨it, hai⟩ := h.planned.exists_item ha
    have htag := h.tag_of_all hall ha
    refine ⟨D a.name, htag, ⟨Registry.holds_of_tag htag,
      hgrows.signed _ (h.digest_signed hname ha)⟩, fun hsbom => ?_⟩
    obtain ⟨sbom, hlookup, hmem, hsigned⟩ := h.staged.attached _ hai hsbom
    refine ⟨sbom, hgrows.referrer _ hmem,
      Registry.holds_of_referrer (hgrows.referrer _ hmem), hgrows.signed _ ?_⟩
    exact hsigned.elim id (h.sbom_signed ha hlookup)
  · have htag : t.registry.tag (repo pub.bundle) inp.bundle.version = some bundle.digest := by
      have hrepo := h.planned.bundle_repo
      by_cases habsent : bundle.state = .absent
      · have howed := (mem_owedTags (D := D) h.planned).mpr (.inr ⟨habsent, rfl⟩)
        exact h.tag_of_mem (hrepo ▸ h.planned.bundle_tells.absent habsent) (hall _ howed)
      · rw [← hrepo]
        exact h.grows.tag _ _ _ (h.planned.bundle_tells.present habsent)
    rw [← h.planned.bundle_digest]
    exact ⟨htag, Registry.holds_of_tag htag, hgrows.signed _ h.bundle_signed⟩

theorem Reached.all_of_deploy (ha : a ∈ pub.artifacts) (hdeploy : a.name = pub.deploy)
    (hnone : s₀.registry.tag (repo a.ref) inp.bundle.version = none)
    (htag : t.registry.tag (repo a.ref) inp.bundle.version ≠ none) :
    done = owedTags pub p bundle D := by
  obtain ⟨it, hai⟩ := h.planned.exists_item ha
  obtain ⟨hrepo, htells⟩ := h.planned.items _ hai
  have habsent : it.state = .absent := by
    by_contra hpresent
    have hsome := htells.present hpresent
    rw [hrepo, hnone] at hsome
    cases hsome
  have hfind : p.artifacts.find? (owesDeploy pub) = some (a, it) := by
    have hsome : (p.artifacts.find? (owesDeploy pub)).isSome = true :=
      List.find?_isSome.mpr ⟨(a, it), hai, by simp [owesDeploy, habsent, hdeploy]⟩
    obtain ⟨bi, hbi⟩ := Option.isSome_iff_exists.mp hsome
    have howes := List.find?_some hbi
    simp only [owesDeploy, Bool.and_eq_true, decide_eq_true_eq] at howes
    rw [hbi, List.inj_on_of_nodup_map h.planned.names_nodup (List.mem_of_find?_eq_some hbi) hai
      (howes.2.trans hdeploy.symm)]
  have hkey : repo a.ref ∈ done.map Prod.fst := by
    rw [h.written.tag, h.staged.adds.tag_eq, hnone, if_pos rfl, Option.none_or] at htag
    obtain ⟨d, hd⟩ := Option.ne_none_iff_exists'.mp htag
    exact mem_keys_of_lookup hd
  obtain ⟨rest, hrest⟩ := h.first
  have hnodup := nodup_owedTags (D := D) h.planned
  rw [← hrest, List.map_append] at hnodup
  -- a tag after the last one written would be the deploy artifact's again
  rcases List.eq_nil_or_concat rest with rfl | ⟨rest', last, rfl⟩
  · rw [← hrest, List.append_nil]
  · have hlast : last = (repo a.ref, D a.name) := by
      have heq := hrest
      unfold owedTags at heq
      rw [hfind, List.concat_eq_append, ← List.append_assoc] at heq
      have hend := (List.append_inj' heq rfl).2
      simpa using hend
    have hmem : repo a.ref ∈ (rest'.concat last).map Prod.fst := by
      rw [hlast]
      simp
    exact absurd rfl ((List.nodup_append.mp hnodup).2.2 _ hkey _ hmem)

end Reached

/-! ## One run -/

section OneRun

variable {pkg : Packages C} {inp : Input C} {pub : Section} {s₀ t : Run C}

theorem Left.grows (h : Left pkg inp s₀ t) : Grows s₀.registry t.registry := by
  cases h with
  | refused registry =>
    rw [registry]
    exact Grows.refl _
  | unfinished _ _ h => exact h.adds.toGrows
  | reached _ h => exact h.grows

/-- A run that stopped wrote the deploy tag only once everything was there. -/
theorem Left.complete (h : Left pkg inp s₀ t) (hpub : inp.bundle.publish = some pub)
    (hname : ∀ a ∈ pub.artifacts, a.name ≠ bundleItem) (ha : a ∈ pub.artifacts)
    (hdeploy : a.name = pub.deploy)
    (hnone : s₀.registry.tag (repo a.ref) inp.bundle.version = none)
    (htag : t.registry.tag (repo a.ref) inp.bundle.version ≠ none) :
    Complete pkg inp pub t.registry := by
  cases h with
  | refused registry =>
    rw [registry] at htag
    exact absurd hnone htag
  | unfinished _ _ h =>
    rw [h.adds.tag_eq] at htag
    exact absurd hnone htag
  | reached hpub' h =>
    rw [hpub] at hpub'
    cases hpub'
    refine h.complete hname fun o ho => ?_
    rw [h.all_of_deploy ha hdeploy hnone htag]
    exact ho

theorem Finished.complete (h : Finished pkg inp s₀ t) (hpub : inp.bundle.publish = some pub)
    (hname : ∀ a ∈ pub.artifacts, a.name ≠ bundleItem) : Complete pkg inp pub t.registry := by
  obtain ⟨pub', p, bundle, D, s, hpub', h⟩ := h
  rw [hpub] at hpub'
  cases hpub'
  exact h.complete hname fun o ho => ho

theorem Finished.grows (h : Finished pkg inp s₀ t) : Grows s₀.registry t.registry := by
  obtain ⟨pub', p, bundle, D, s, -, h⟩ := h
  exact h.grows

end OneRun

section Worlds

variable (pkg : Packages C) (inp : Input C)

theorem World.grows_next (w : World C) (answers : List Answer) :
    Grows w.registry (w.next pkg inp answers).registry := by
  have hrun := triple_run pkg inp w _ answers rfl
  unfold World.next World.apply
  split at hrun
  · next heq =>
    rw [heq]
    exact hrun.grows
  · next heq =>
    rw [heq]
    exact hrun.grows

theorem World.grows_after (w : World C) (runs : List (List Answer)) :
    Grows w.registry (w.after pkg inp runs).registry := by
  induction runs generalizing w with
  | nil => exact Grows.refl _
  | cons answers runs ih => exact (w.grows_next pkg inp answers).trans (ih _)

variable {pkg inp} {pub : Section}
    (hpub : inp.bundle.publish = some pub) (hname : ∀ a ∈ pub.artifacts, a.name ≠ bundleItem)
    (ha : a ∈ pub.artifacts) (hdeploy : a.name = pub.deploy)
    (hnone : w.registry.tag (repo a.ref) inp.bundle.version = none)

include hpub hname ha hdeploy hnone

theorem World.complete_next {answers : List Answer}
    (htag : (w.next pkg inp answers).registry.tag (repo a.ref) inp.bundle.version ≠ none) :
    Complete pkg inp pub (w.next pkg inp answers).registry := by
  have hrun := triple_run pkg inp w _ answers rfl
  unfold World.next World.apply at htag ⊢
  split at hrun
  · next heq =>
    rw [heq]
    exact hrun.complete hpub hname
  · next heq =>
    rw [heq] at htag ⊢
    exact hrun.complete hpub hname ha hdeploy hnone htag

theorem World.complete_after {runs : List (List Answer)}
    (htag : (w.after pkg inp runs).registry.tag (repo a.ref) inp.bundle.version ≠ none) :
    Complete pkg inp pub (w.after pkg inp runs).registry := by
  induction runs generalizing w with
  | nil => exact absurd hnone htag
  | cons answers runs ih =>
    by_cases hnext : (w.next pkg inp answers).registry.tag (repo a.ref) inp.bundle.version = none
    · exact ih hnext htag
    · exact (World.complete_next hpub hname ha hdeploy hnone hnext).grows
        (World.grows_after pkg inp _ runs)

end Worlds

/-! ## A run after one that succeeded -/

/-- Nothing was written. -/
def Still (r : Registry C) (s : Run C) : Prop := s.registry = r ∧ s.res.actions = []

/-- Nothing was written, and the SBOMs that were found are signed. -/
def Quiet (pub : Section) (r : Registry C) (s : Run C) : Prop :=
  Still r s ∧ ∀ a ∈ pub.artifacts, ∀ sbom, s.res.sboms.lookup a.name = some sbom →
    (repo a.ref, sbom) ∈ r.signed

theorem triple_attachSBOM_signed {s : Run C} {path repo digest sbom : String}
    (version revision : String)
    (hmem : ((repo, digest, sbomType path), sbom) ∈ s.registry.referrers)
    (hsigned : (repo, sbom) ∈ s.registry.signed) :
    Triple (· = s) (attachSBOM path repo digest version revision)
      (fun h t => t = s ∧ (repo, h) ∈ s.registry.signed) (· = s) := by
  refine Triple.bind (triple_look (Q := fun there t => t = s ∧
    there = s.registry.referrersOf repo digest (sbomType path)) ?_ fun _ h => h) fun there => ?_
  · rintro t rfl
    exact ⟨rfl, rfl⟩
  refine Triple.bind (Triple.read (Q := fun signed t => t = s ∧
    ∃ h, signed = some h ∧ (repo, h) ∈ s.registry.signed) ?_) fun signed => ?_
  · rintro t ⟨rfl, rfl⟩
    have hsome : ((t.registry.referrersOf repo digest (sbomType path)).find?
        fun h => t.registry.verify repo h = none).isSome = true :=
      List.find?_isSome.mpr ⟨sbom, Registry.mem_referrersOf.mpr hmem,
        decide_eq_true (Registry.verify_eq_none.mpr hsigned)⟩
    obtain ⟨h, hfind⟩ := Option.isSome_iff_exists.mp hsome
    have hverify := List.find?_some hfind
    exact ⟨rfl, h, hfind, Registry.verify_eq_none.mp (of_decide_eq_true hverify)⟩
  cases signed with
  | none => exact Triple.intro fun t ⟨_, h, hh, _⟩ => nomatch hh
  | some h =>
    refine Triple.pure ?_
    rintro t ⟨rfl, h', hh, hsigned'⟩
    cases hh
    exact ⟨rfl, hsigned'⟩

theorem triple_signAll_signed {s : Run C} {pub : Section}
    (h : ∀ ref ∈ signRefs pub s.res, ref ∈ s.registry.signed) :
    Triple (· = s) (signAll pub) (fun _ => (· = s)) (· = s) := by
  refine Triple.bind (Triple.read (Q := fun refs t => t = s ∧ refs = signRefs pub s.res) ?_)
    fun refs => ?_
  · rintro t rfl
    exact ⟨rfl, rfl⟩
  refine Triple.intro fun t ht => ?_
  obtain ⟨rfl, rfl⟩ := ht
  refine Triple.loop (fun _ _ u => u = t) fun done ref rest _ hsplit => ?_
  have hsigned : ref ∈ t.registry.signed := by
    refine h ref ?_
    rw [hsplit]
    exact List.mem_append_right _ List.mem_cons_self
  refine Triple.bind (Triple.read (Q := fun unsigned u => u = t ∧ unsigned = false) ?_)
    fun unsigned => ?_
  · rintro u rfl
    refine ⟨rfl, ?_⟩
    rw [Registry.verify_eq_none.mpr hsigned]
    rfl
  refine Triple.intro fun u hu => ?_
  obtain ⟨rfl, rfl⟩ := hu
  exact Triple.pure fun _ h => h

section Again

variable {pkg : Packages C} {inp : Input C} {pub : Section} {s₀ : Run C} {p : Plan}
  {bundle : Item}

section Planned

variable (h : Complete pkg inp pub s₀.registry) (hp : Planned pkg inp pub s₀.registry p bundle)

include hp

theorem Planned.mem_artifacts (hai : ai ∈ p.artifacts) : ai.1 ∈ pub.artifacts := by
  rw [← hp.artifacts]
  exact List.mem_map_of_mem hai

include h

/-- Nothing is absent where everything is there. -/
theorem Complete.present :
    (∀ ai ∈ p.artifacts, ai.2.state ≠ .absent) ∧ bundle.state ≠ .absent := by
  constructor
  · intro ai hai habsent
    obtain ⟨d, htag, -⟩ := h.artifact ai.1 (hp.mem_artifacts hai)
    obtain ⟨hrepo, htells⟩ := hp.items ai hai
    have hnone := htells.absent habsent
    rw [hrepo, htag] at hnone
    cases hnone
  · intro habsent
    have hnone := hp.bundle_tells.absent habsent
    rw [hp.bundle_repo, h.bundle.1] at hnone
    cases hnone

/-- The digest of an item is the one its tag holds. -/
theorem Complete.artifact_of_item (hai : ai ∈ p.artifacts) :
    ai.1 ∈ pub.artifacts ∧ (repo ai.1.ref, ai.2.digest) ∈ s₀.registry.signed ∧
      (ai.1.sbom ≠ "" → ∃ sbom,
        ((repo ai.1.ref, ai.2.digest, sbomType ai.1.sbom), sbom) ∈ s₀.registry.referrers ∧
        (repo ai.1.ref, sbom) ∈ s₀.registry.signed) := by
  have ha := hp.mem_artifacts hai
  obtain ⟨d, htag, hvouched, hsbom⟩ := h.artifact ai.1 ha
  obtain ⟨hrepo, htells⟩ := hp.items ai hai
  have hdigest := htells.present ((h.present hp).1 ai hai)
  rw [hrepo, htag, Option.some.injEq] at hdigest
  subst hdigest
  refine ⟨ha, hvouched.2, fun hne => ?_⟩
  obtain ⟨sbom, hmem, hvouched'⟩ := hsbom hne
  exact ⟨sbom, hmem, hvouched'.2⟩

theorem triple_artifactStep_quiet (env : List String) (hai : ai ∈ p.artifacts) :
    Triple (Quiet pub s₀.registry) (artifactStep inp pub bundle.digest env ai)
      (fun _ => Quiet pub s₀.registry) (Still s₀.registry) := by
  obtain ⟨ha, -, hsbom⟩ := h.artifact_of_item hp hai
  have hobtain : obtain inp pub bundle.digest env ai.1 ai.2 = (pure ai.2.digest : Step C String) :=
    if_neg ((h.present hp).1 ai hai)
  unfold artifactStep
  rw [hobtain]
  refine Triple.bind (Triple.pure (Q := fun d s => d = ai.2.digest ∧ Quiet pub s₀.registry s)
    fun _ hs => ⟨rfl, hs⟩) fun d => ?_
  refine Triple.bind (Triple.modify (Q := fun _ s => d = ai.2.digest ∧ Quiet pub s₀.registry s)
    fun _ hs => hs) fun _ => ?_
  refine Triple.bind (R := fun _ => Quiet pub s₀.registry) ?_ fun _ => Triple.pure fun _ h => h
  refine Triple.intro fun s hs => ?_
  obtain ⟨rfl, hquiet⟩ := hs
  obtain ⟨⟨hregistry, hactions⟩, hsboms⟩ := hquiet
  unfold attachDeclared
  refine Triple.ite (fun _ => Triple.pure ?_) fun hne => ?_
  · rintro t rfl
    exact ⟨⟨hregistry, hactions⟩, hsboms⟩
  · obtain ⟨sbom, hmem, hsigned⟩ := hsbom hne
    rw [← hregistry] at hmem hsigned
    refine Triple.bind (Triple.inContext ((triple_attachSBOM_signed inp.bundle.version
      inp.revision hmem hsigned).weaken (fun _ h => h) (fun _ _ h => h) ?_)) fun sbom' =>
      Triple.modify ?_
    · rintro t rfl
      exact ⟨hregistry, hactions⟩
    · rintro t ⟨rfl, hsigned'⟩
      refine ⟨⟨hregistry, hactions⟩, fun a ha' sbom'' hlookup => ?_⟩
      by_cases hname : a.name = ai.1.name
      · have heq := List.inj_on_of_nodup_map pub.names_nodup ha' ha hname
        subst heq
        simp only [List.lookup_cons, beq_self_eq_true, Option.some.injEq] at hlookup
        subst hlookup
        rw [← hregistry]
        exact hsigned'
      · have hbeq : (a.name == ai.1.name) = false := by simpa using hname
        simp only [List.lookup_cons, hbeq] at hlookup
        exact hsboms a ha' sbom'' hlookup

/-- Where everything is there, a run writes nothing. -/
theorem triple_carryOut_quiet (hname : ∀ a ∈ pub.artifacts, a.name ≠ bundleItem)
    (htags : s₀.tags = []) (hdeploy : s₀.deployTag = none) (hactions : s₀.res.actions = [])
    (hsboms : s₀.res.sboms = []) :
    Triple (· = s₀.withPlan p) (carryOut inp pub p bundle)
      (fun _ => Still s₀.registry) (Still s₀.registry) := by
  obtain ⟨hpresent, hbundle⟩ := h.present hp
  have hloop : Triple (Quiet pub s₀.registry)
      (loop (artifactStep inp pub bundle.digest) (baseEnv inp) p.artifacts)
      (fun _ => Quiet pub s₀.registry) (Still s₀.registry) :=
    Triple.loop (fun _ _ => Quiet pub s₀.registry) fun done ai rest env hsplit =>
      triple_artifactStep_quiet h hp env (by rw [hsplit]; simp)
  have hstart : Quiet pub s₀.registry (s₀.withPlan p) := by
    refine ⟨⟨rfl, hactions⟩, fun a _ sbom hlookup => ?_⟩
    simp [Run.withPlan, hsboms] at hlookup
  refine Triple.bind (((triple_artifacts (s := s₀.withPlan p) hp htags hdeploy).and hloop).weaken
    (fun s hs => ⟨hs, hs ▸ hstart⟩) (fun _ _ h => h) fun _ h => h.2) fun env => ?_
  refine Triple.intro fun s hs => ?_
  obtain ⟨hprepared, ⟨hregistry, hactions'⟩, hfound⟩ := hs
  -- no artifact is absent, so no tag is owed
  have htags' : s.tags = [] := by
    rw [hprepared.tags, List.filter_eq_nil_iff.mpr, List.map_nil]
    intro ai hai
    simp [owesTag, hpresent ai hai]
  have hdeploy' : s.deployTag = none := by
    rw [hprepared.deployTag, List.find?_eq_none.mpr, Option.map_none]
    intro ai hai
    simp [owesDeploy, hpresent ai hai]
  refine Triple.bind (R := fun _ t => t = { s with
    res := { s.res with digests := (bundleItem, bundle.digest) :: s.res.digests } }) ?_ fun _ => ?_
  · exact Triple.bind Triple.modify_eq fun _ =>
      Triple.ite (fun habsent => absurd habsent hbundle) fun _ => Triple.pure fun _ h => h
  refine Triple.bind ((triple_signAll_signed ?_).weaken (fun _ h => h) (fun _ _ h => h) ?_)
    fun _ => ?_
  · intro ref href
    rw [hregistry]
    rcases List.mem_append.mp href with href | href
    · obtain ⟨a, ha, href⟩ := List.mem_flatMap.mp href
      obtain ⟨it, hai⟩ := hp.exists_item ha
      rcases List.mem_cons.mp href with rfl | href
      · have hbeq : (a.name == bundleItem) = false := by simpa using hname a ha
        have hdigest : (s.res.digests.lookup a.name).getD "" = it.digest :=
          hprepared.kept _ hai (hpresent _ hai)
        simp only [List.lookup_cons, hbeq]
        rw [hdigest]
        exact (h.artifact_of_item hp hai).2.1
      · split at href
        · next hne =>
          cases List.mem_singleton.mp href
          obtain ⟨sbom, hlookup⟩ : ∃ sbom, s.res.sboms.lookup a.name = some sbom := by
            cases hlook : s.res.sboms.lookup a.name with
            | none => simp [hlook] at hne
            | some sbom => exact ⟨sbom, rfl⟩
          simp only [hlookup, Option.getD_some]
          exact hfound a ha sbom hlookup
        · cases href
    · cases List.mem_singleton.mp href
      simp only [List.lookup_cons, beq_self_eq_true, Option.getD_some]
      rw [hp.bundle_digest]
      exact h.bundle.2.2
  · rintro t rfl
    exact ⟨hregistry, hactions'⟩
  · refine Triple.bind (Triple.read (Q := fun owed t => owed = [] ∧ Still s₀.registry t) ?_)
      fun owed => Triple.intro fun t ht => ?_
    · rintro t rfl
      refine ⟨?_, hregistry, hactions'⟩
      simp [Run.owed, htags', hdeploy']
    · obtain ⟨rfl, hstill⟩ := ht
      exact Triple.pure fun u hu => hu ▸ hstill

end Planned

/-- A run writes nothing where everything is there. -/
theorem World.still_apply (h : Complete pkg inp pub w.registry)
    (hpub : inp.bundle.publish = some pub) (hname : ∀ a ∈ pub.artifacts, a.name ≠ bundleItem)
    (answers : List Answer) : Still w.registry (w.apply pkg inp answers).2.1 := by
  have hrun : Triple (· = { registry := w.registry, builds := w.builds }) (Publish.apply pkg inp)
      (fun _ => Still w.registry) (Still w.registry) := by
    refine triple_apply (fun p => ⟨rfl, rfl⟩) fun pub' p bundle hpub' hp => ?_
    rw [hpub] at hpub'
    cases hpub'
    exact triple_carryOut_quiet h hp hname rfl rfl rfl rfl
  have hend := hrun _ answers rfl
  unfold World.apply
  split at hend
  · next heq =>
    rw [heq]
    exact hend
  · next heq =>
    rw [heq]
    exact hend

end Again

/-! ## The commit point -/

/-- Runs of one publish never move a tag.  Once they have written the tag that
deploys the version, all it stands for is there, and after a run that succeeded
the next one writes nothing. -/
theorem deploy_tag_commits (pkg : Packages C) (inp : Input C) (pub : Section)
    (hpub : inp.bundle.publish = some pub)
    (hname : ∀ a ∈ pub.artifacts, a.name ≠ bundleItem) (w : World C)
    (runs : List (List Answer)) :
    (∀ repo tag d, w.registry.tag repo tag = some d →
      (w.after pkg inp runs).registry.tag repo tag = some d) ∧
    (∀ a ∈ pub.artifacts, a.name = pub.deploy →
      w.registry.tag (repo a.ref) inp.bundle.version = none →
      (w.after pkg inp runs).registry.tag (repo a.ref) inp.bundle.version ≠ none →
      Complete pkg inp pub (w.after pkg inp runs).registry) ∧
    (∀ last next : List Answer, ((w.after pkg inp runs).apply pkg inp last).1.isOk = true →
      Still ((w.after pkg inp runs).next pkg inp last).registry
        (((w.after pkg inp runs).next pkg inp last).apply pkg inp next).2.1) := by
  refine ⟨(w.grows_after pkg inp runs).tag, fun a ha hdeploy hnone htag =>
    World.complete_after hpub hname ha hdeploy hnone htag, fun last next hok => ?_⟩
  refine World.still_apply ?_ hpub hname next
  have hrun := triple_run pkg inp (w.after pkg inp runs) _ last rfl
  unfold World.apply at hok
  unfold World.next World.apply
  split at hrun
  · next heq =>
    rw [heq]
    exact hrun.complete hpub hname
  · next heq =>
    rw [heq] at hok
    cases hok

def plainPackages : Packages Unit where
  semver := .plain fun _ => none
  compare := fun _ _ => .nonBreaking
  bundleHash := fun _ => "b"

/-- A service that publishes its manifests, under the given name. -/
def manifestsNamed (name : String) : Section where
  bundle := "oci://registry/pacto/payments"
  deploy := name
  artifacts := [{ name, type := .manifests, ref := "oci://registry/deploy/payments" }]
  sign := some { key := "cosign.key" }
  names_nodup := List.nodup_singleton name
  deploy_manifests := fun _ => ⟨_, List.mem_singleton.mpr rfl, rfl, rfl⟩

def firstVersion (pub : Section) : Input Unit where
  bundle := { service := "payments", version := "1.0.0", publish := some pub, content := () }
  revision := "abc123"

/-- A first run that stops at its last tag, and a second one. -/
def stoppedOnce : List (List Answer) :=
  [List.replicate 17 default ++ [{ err := some "stopped" }], []]

/-- What the two runs leave in an empty registry. -/
def publishedManifests : World Unit :=
  World.after plainPackages (firstVersion (manifestsNamed "manifests")) { registry := {} }
    stoppedOnce

theorem publishedManifests_tag :
    publishedManifests.registry.tag (repo "oci://registry/deploy/payments") "1.0.0" ≠ none := by
  decide +kernel

/-- The deploy tag the second run wrote stands for everything. -/
theorem deploy_tag_commits_manifests :
    Complete plainPackages (firstVersion (manifestsNamed "manifests"))
      (manifestsNamed "manifests") publishedManifests.registry :=
  (deploy_tag_commits plainPackages (firstVersion (manifestsNamed "manifests"))
    (manifestsNamed "manifests") rfl (by decide) { registry := {} } stoppedOnce).2.1
    { name := "manifests", type := .manifests, ref := "oci://registry/deploy/payments" }
    List.mem_cons_self rfl rfl publishedManifests_tag

/-- The manifests are named `bundle`, and their repository holds the manifest of
the contract bundle already: that one is signed twice over, and the deploy tag
names manifests that carry no signature. -/
theorem deploy_tag_unsigned :
    let pub := manifestsNamed "bundle"
    let before : Registry Unit :=
      { manifests := [(("registry/deploy/payments", "sha256:b"), {})] }
    let after := World.apply plainPackages (firstVersion pub) { registry := before }
      (List.replicate 4 default ++ [{ hash := "m" }])
    before.tag "registry/deploy/payments" "1.0.0" = none ∧ after.1.isOk = true ∧
      after.2.1.registry.tag "registry/deploy/payments" "1.0.0" = some "sha256:m" ∧
      ("registry/deploy/payments", "sha256:m") ∉ after.2.1.registry.signed := by
  decide +kernel

end Pacto.Publish
