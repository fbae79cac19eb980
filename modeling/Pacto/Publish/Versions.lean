import Pacto.Publish.Outcome

/-!
# What version numbers say

Each publish compares its contract with the highest version already published
below it, and with the highest final one.  So of two final versions with no
other between them, the later published one that is higher has the bump its
change needs.

A version published between two others comes too late for the higher one, which
was compared with the lower only.
-/

namespace Pacto.Publish

open Support Diff Attempt

variable {C : Type}
variable {r : Registry C} {tag a : String} {w : World C} {tags : List String} {va vb : Version}
  {history : List (Input C × List Answer)}

/-! ## What a run brings to a repository -/

/-- The repository gains at most the bundle, under its digest. -/
def Brings (R digest : String) (b : Bundle C) (s s' : Run C) : Prop :=
  ∀ d m, s'.registry.manifests.lookup (R, d) = some m →
    s.registry.manifests.lookup (R, d) = some m ∨ d = digest ∧ m.bundle = some b

section Brings

variable {R digest : String} {b : Bundle C}

instance : Std.Refl (Brings R digest b) := ⟨fun _ _ _ h => .inl h⟩

instance : IsTrans (Run C) (Brings R digest b) where
  trans _ _ _ h h' d m hm := (h' d m hm).elim (h d m) .inr

theorem Registry.lookup_write {repo digest : String} {m m' : Manifest C}
    {k : String × String} (h : (r.write repo digest m).manifests.lookup k = some m') :
    r.manifests.lookup k = some m' ∨ k = (repo, digest) ∧ m' = m := by
  rcases Registry.write_eq_or repo digest m with heq | ⟨-, heq⟩
  · rw [heq] at h
    exact .inl h
  · rw [heq, List.lookup_cons] at h
    split at h
    · next hk => exact .inr ⟨by simpa using hk, (Option.some.inj h).symm⟩
    · exact .inl h

theorem brings_write_other {s : Run C} {repo d : String} {m : Manifest C} (hne : repo ≠ R) :
    Brings R digest b s { s with registry := s.registry.write repo d m } := by
  intro d' m' hm
  rcases Registry.lookup_write hm with h | ⟨h, -⟩
  · exact .inl h
  · exact absurd (Prod.mk.inj h).1.symm hne

theorem keeps_put {r : Run C → Run C → Prop} [Std.Refl r] {f : Registry C → Registry C}
    (h : ∀ s, r s { s with registry := f s.registry }) : Keeps r (put f) :=
  keeps_iff.mpr fun s => triple_put (fun _ hs => hs ▸ h s) (fun _ hs => hs ▸ h s)
    fun _ hs => hs ▸ refl_of r s

theorem keeps_make {r : Run C → Run C → Prop} [Std.Refl r] : Keeps r (make : Step C String) :=
  keeps_iff.mpr fun s => triple_make (fun _ _ hs => hs ▸ refl_of r s)
    fun _ hs => hs ▸ refl_of r s

/-- A step that leaves the manifests alone. -/
theorem keeps_modify_brings {f : Run C → Run C}
    (h : ∀ s, (f s).registry.manifests = s.registry.manifests) :
    Keeps (Brings R digest b) (Attempt.modify f : Step C Unit) :=
  Keeps.modify fun s d m hm => .inl (by rwa [h s] at hm)

theorem keeps_artifactStep (inp : Input C) (pub : Section) (bundleDigest : String)
    (env : List String) {ai : Artifact × Item} (hne : repo ai.1.ref ≠ R) :
    Keeps (Brings R digest b) (artifactStep inp pub bundleDigest env ai) := by
  have hobtain : Keeps (Brings R digest b)
      (obtain inp pub bundleDigest env ai.1 ai.2 : Step C String) := by
    refine Keeps.ite (Keeps.bind (Keeps.inContext ?_) fun d => ?_) (Keeps.pure _)
    · refine Keeps.bind keeps_make fun d => Keeps.bind (keeps_modify_brings fun _ => rfl) fun _ =>
        Keeps.bind (Keeps.inContext (keeps_put fun s => brings_write_other hne)) fun _ =>
        Keeps.pure _
    · refine Keeps.bind (keeps_modify_brings fun _ => rfl) fun _ =>
        Keeps.bind (keeps_modify_brings fun s => ?_) fun _ => Keeps.pure _
      split <;> rfl
  have hsbom : ∀ d, Keeps (Brings R digest b) (attachSBOM ai.1.sbom (repo ai.1.ref) d
      inp.bundle.version inp.revision : Step C String) := by
    intro d
    refine Keeps.bind (keeps_look _) fun there => Keeps.bind (Keeps.read _) fun signed => ?_
    cases signed with
    | some h => exact Keeps.pure h
    | none =>
      exact Keeps.bind (keeps_look _) fun found => Keeps.bind (Keeps.demand _ _) fun _ =>
        Keeps.bind keeps_make fun sbom => Keeps.bind
          (keeps_put fun s => brings_write_other hne) fun _ =>
          Keeps.bind (keeps_modify_brings fun _ => rfl) fun _ => Keeps.pure _
  refine Keeps.bind hobtain fun d => Keeps.bind (keeps_modify_brings fun _ => rfl) fun _ =>
    Keeps.bind ?_ fun _ => Keeps.pure _
  exact Keeps.ite (Keeps.pure ()) (Keeps.bind (Keeps.inContext (hsbom d)) fun sbom =>
    keeps_modify_brings fun _ => rfl)

theorem keeps_pushBundle (inp : Input C) (pub : Section) (it : Item) :
    Keeps (Brings R it.digest inp.bundle) (pushBundle inp pub it) := by
  refine Keeps.bind (keeps_modify_brings fun _ => rfl) fun _ => Keeps.ite ?_ (Keeps.pure ())
  refine Keeps.bind (Keeps.inContext (keeps_look _)) fun _ =>
    Keeps.bind (Keeps.inContext (keeps_put fun s => ?_)) fun _ =>
    Keeps.bind (keeps_modify_brings fun _ => rfl) fun _ => keeps_modify_brings fun s => rfl
  intro d m hm
  rcases Registry.lookup_write hm with h | ⟨h, rfl⟩
  · exact .inl h
  · exact .inr ⟨(Prod.mk.inj h).2, rfl⟩

theorem keeps_signAll (pub : Section) :
    Keeps (Brings R digest b) (signAll pub : Step C Unit) := by
  refine Keeps.bind (Keeps.read _) fun refs => Keeps.loop (fun ref _ _ => ?_) ()
  refine Keeps.bind (Keeps.read _) fun unsigned => Keeps.ite ?_ (Keeps.pure ())
  exact Keeps.bind (Keeps.inContext (Keeps.bind (keeps_look _) fun found =>
    Keeps.bind (Keeps.demand _ _) fun _ => keeps_put fun s d m hm => .inl hm)) fun _ =>
    keeps_modify_brings fun _ => rfl

theorem keeps_writeTags (version : String) :
    Keeps (Brings R digest b) (writeTags version : Step C Unit) := by
  refine Keeps.bind (Keeps.read _) fun tags => Keeps.bind (Keeps.loop (fun o _ _ => ?_) ()) fun _ =>
    Keeps.ite (keeps_modify_brings fun _ => rfl) (Keeps.pure ())
  refine Keeps.inContext (Keeps.bind (keeps_look _) fun now => ?_)
  cases now with
  | none =>
    refine Keeps.bind (keeps_look _) fun found => Keeps.bind (Keeps.demand _ _) fun _ =>
      keeps_put fun s d m hm => .inl ?_
    rwa [Registry.manifests_setTag] at hm
  | some now => exact Keeps.ite (Keeps.fail _) (Keeps.pure ())

end Brings

theorem triple_brings (pkg : Packages C) (inp : Input C) (s₀ : Run C) {pub : Section}
    (hpub : inp.bundle.publish = some pub) :
    Triple (· = s₀) (apply pkg inp)
      (fun _ => Brings (repo pub.bundle) (pkg.bundleDigest inp.bundle) inp.bundle s₀)
      (Brings (repo pub.bundle) (pkg.bundleDigest inp.bundle) inp.bundle s₀) := by
  refine triple_apply (fun p d m hm => .inl hm) fun pub' p bundle hpub' hp => ?_
  rw [hpub] at hpub'
  cases hpub'
  have hkeeps : Keeps (Brings (repo pub.bundle) (pkg.bundleDigest inp.bundle) inp.bundle)
      (carryOut inp pub p bundle) := by
    refine Keeps.bind (Keeps.loop (fun ai hai env =>
      keeps_artifactStep inp pub bundle.digest env (hp.repo_ne_bundle hai)) _) fun _ =>
      Keeps.bind ?_ fun _ => Keeps.bind (keeps_signAll pub) fun _ => keeps_writeTags p.version
    rw [← hp.bundle_digest]
    exact keeps_pushBundle inp pub bundle
  exact (keeps_iff.mp hkeeps (s₀.withPlan p)).weaken (fun _ h => h) (fun _ _ h => h) fun _ h => h

/-- A tag in the repository of the bundle is an earlier one, or the bundle's
under a version rule that held. -/
theorem Reached.tag_bundle {pkg : Packages C} {inp : Input C} {pub : Section} {s₀ s t : Run C}
    {p : Plan} {bundle : Item} {D : String → String} {done : List (String × String)}
    (h : Reached pkg inp pub s₀ p bundle D s done t) {d : String}
    (htag : t.registry.tag (repo pub.bundle) tag = some d) :
    s₀.registry.tag (repo pub.bundle) tag = some d ∨
      tag = inp.bundle.version ∧ d = pkg.bundleDigest inp.bundle ∧
        VersionOk pkg inp.bundle (repo pub.bundle) s₀.registry := by
  rw [h.written.tag, h.staged.adds.tag_eq] at htag
  cases hold : s₀.registry.tag (repo pub.bundle) tag with
  | some e =>
    rw [hold] at htag
    exact .inl htag
  | none =>
    rw [hold, Option.none_or] at htag
    split at htag
    · next hversion =>
      have hmem := h.first.subset (mem_of_lookup_eq_some htag)
      rcases (mem_owedTags h.planned).mp hmem with ⟨ai, hai, -, heq⟩ | ⟨-, heq⟩
      · exact absurd (Prod.mk.inj heq).1.symm (h.planned.repo_ne_bundle hai)
      · refine .inr ⟨hversion, ?_, h.planned.versions⟩
        rw [(Prod.mk.inj heq).2, h.planned.bundle_digest]
    · cases htag

/-! ## A repository of bundles -/

/-- The repository holds bundles of `S`, under their digests. -/
def Bundles (pkg : Packages C) (S : Set (Bundle C)) (R : String) (r : Registry C) : Prop :=
  ∀ d m, r.manifests.lookup (R, d) = some m →
    ∃ b ∈ S, m.bundle = some b ∧ d = pkg.bundleDigest b

/-- Digests tell the bundles of `S` apart. -/
def Packages.Distinguishes (pkg : Packages C) (S : Set (Bundle C)) : Prop :=
  Set.InjOn pkg.bundleHash S

theorem Packages.Distinguishes.bundle_eq {pkg : Packages C} {S : Set (Bundle C)}
    (h : pkg.Distinguishes S) {b b' : Bundle C} (hb : b ∈ S) (hb' : b' ∈ S)
    (heq : pkg.bundleDigest b = pkg.bundleDigest b') : b = b' := by
  refine h hb hb' ?_
  have hlist := congrArg String.toList heq
  simp only [Packages.bundleDigest, digestOf, String.toList_append] at hlist
  exact String.toList_inj.mp (List.append_cancel_left hlist)

theorem Bundles.pull {pkg : Packages C} {S : Set (Bundle C)} {R : String}
    (h : Bundles pkg S R r) (hpkg : pkg.Distinguishes S) {b : Bundle C} (hb : b ∈ S)
    (htag : r.tag R tag = some (pkg.bundleDigest b)) : r.pull R tag = some b := by
  obtain ⟨m, hm⟩ := Option.isSome_iff_exists.mp (Registry.holds_of_tag htag)
  obtain ⟨b', hS, hb', hd⟩ := h _ m hm
  rw [hpkg.bundle_eq hb hS hd]
  simp [Registry.pull, htag, hm, hb']

theorem Registry.pull_grows {r' : Registry C} (h : Grows r r') {R : String} {b : Bundle C}
    (hb : r.pull R tag = some b) : r'.pull R tag = some b := by
  simp only [Registry.pull, Option.bind_eq_bind, Option.bind_eq_some_iff] at hb ⊢
  obtain ⟨d, hd, m, hm, hbundle⟩ := hb
  exact ⟨d, h.tag _ _ _ hd, m, h.manifest _ m hm, hbundle⟩

theorem Registry.mem_listTags {R : String} :
    tag ∈ r.listTags R ↔ ∃ d, r.tag R tag = some d := by
  constructor
  · intro h
    obtain ⟨⟨⟨R', tag'⟩, d⟩, he, rfl⟩ := List.mem_map.mp h
    obtain ⟨hmem, hR⟩ := List.mem_filter.mp he
    have hR' : R' = R := of_decide_eq_true hR
    subst hR'
    exact Option.isSome_iff_exists.mp (isSome_lookup_of_mem hmem)
  · rintro ⟨d, hd⟩
    exact List.mem_map.mpr ⟨((R, tag), d), List.mem_filter.mpr
      ⟨mem_of_lookup_eq_some hd, by simp⟩, rfl⟩

theorem Registry.listTags_grows {r' : Registry C} (h : Grows r r') {R : String}
    (htag : tag ∈ r.listTags R) : tag ∈ r'.listTags R := by
  obtain ⟨d, hd⟩ := Registry.mem_listTags.mp htag
  exact Registry.mem_listTags.mpr ⟨d, h.tag _ _ _ hd⟩

/-! ## A history of publishes -/

def World.publishes (pkg : Packages C) (w : World C) (history : List (Input C × List Answer)) :
    World C :=
  history.foldl (fun w q => w.next pkg q.1 q.2) w

def PublishesTo (R : String) (inp : Input C) : Prop :=
  ∃ pub, inp.bundle.publish = some pub ∧ repo pub.bundle = R

section OneRun

variable {S : Set (Bundle C)} {R : String} {inp : Input C}

/-- One publish adds to the registry, and what it adds to the repository is its
bundle under a version rule that held. -/
theorem World.next_spec (pkg : Packages C) (w : World C) (answers : List Answer)
    (h : PublishesTo R inp) :
    Grows w.registry (w.next pkg inp answers).registry ∧
    (∀ d m, (w.next pkg inp answers).registry.manifests.lookup (R, d) = some m →
      w.registry.manifests.lookup (R, d) = some m ∨
        d = pkg.bundleDigest inp.bundle ∧ m.bundle = some inp.bundle) ∧
    ∀ tag d, (w.next pkg inp answers).registry.tag R tag = some d →
      w.registry.tag R tag = some d ∨ tag = inp.bundle.version ∧
        d = pkg.bundleDigest inp.bundle ∧ VersionOk pkg inp.bundle R w.registry := by
  obtain ⟨pub, hpub, rfl⟩ := h
  have hrun := ((triple_run pkg inp w).and (triple_brings pkg inp _ hpub)) _ answers ⟨rfl, rfl⟩
  unfold World.next World.apply
  split at hrun
  · next heq =>
    rw [heq]
    obtain ⟨⟨pub', p, bundle, D, s, hpub', hreached⟩, hbrings⟩ := hrun
    rw [hpub] at hpub'
    cases hpub'
    exact ⟨hreached.staged.adds.toGrows.trans hreached.written.grows, hbrings,
      fun tag d htag => hreached.tag_bundle htag⟩
  · next heq =>
    rw [heq]
    obtain ⟨hleft, hbrings⟩ := hrun
    cases hleft with
    | refused registry builds =>
      change _ = w.registry at registry
      unfold Run.world
      rw [registry]
      refine ⟨Grows.refl _, fun d m hm => .inl hm, fun tag d htag => .inl htag⟩
    | unfinished _ _ h =>
      refine ⟨h.adds.toGrows, hbrings, fun tag d htag => .inl ?_⟩
      exact (h.adds.tag_eq _ _).symm.trans htag
    | reached hpub' h =>
      rw [hpub] at hpub'
      cases hpub'
      exact ⟨h.staged.adds.toGrows.trans h.written.grows, hbrings,
        fun tag d htag => h.tag_bundle htag⟩

theorem Bundles.next {pkg : Packages C} {answers : List Answer}
    (h : PublishesTo R inp) (hS : inp.bundle ∈ S) (hw : Bundles pkg S R w.registry) :
    Bundles pkg S R (w.next pkg inp answers).registry := by
  obtain ⟨-, hmanifest, -⟩ := World.next_spec pkg w answers h
  intro d m hm
  rcases hmanifest d m hm with hold | ⟨rfl, hb⟩
  · exact hw d m hold
  · exact ⟨inp.bundle, hS, hb, rfl⟩

end OneRun

/-- Nothing is there yet. -/
theorem bundles_of_empty {pkg : Packages C} {S : Set (Bundle C)} {R : String}
    (h : ∀ d, r.holds R d = false) : Bundles pkg S R r := by
  intro d m hm
  have hempty := h d
  simp [Registry.holds, hm] at hempty

/-! ## The base that is compared -/

section Bases

variable {semver : Semver} {version : String}

/-- A final version below is picked when only candidates below stand before it. -/
theorem mem_basesFrom {bases before after : List String}
    (hbefore : ∀ c ∈ before, compareVersions semver c version ≠ .lt ∨
      prerelease semver c = true ∨ c = a)
    (hlt : compareVersions semver a version = .lt) (hfinal : prerelease semver a = false) :
    a ∈ basesFrom semver version bases (before ++ a :: after) := by
  induction before generalizing bases with
  | nil =>
    rw [List.nil_append, basesFrom, if_neg (by simp [hlt])]
    simp [hfinal]
  | cons c before ih =>
    rw [List.cons_append, basesFrom]
    split
    · exact ih fun c' hc' => hbefore c' (List.mem_cons_of_mem _ hc')
    · next hge =>
      dsimp only
      rcases (hbefore c List.mem_cons_self).resolve_left hge with hpre | rfl
      · rw [if_pos hpre]
        exact ih fun c' hc' => hbefore c' (List.mem_cons_of_mem _ hc')
      · simp [hfinal]

end Bases

/-- The versions among the tags are in descending order. -/
theorem filterVersions_split {semver : Semver} (hsemver : semver.Documented)
    {v : Version} (ha : a ∈ tags) (hv : semver.newVersion a = some v) :
    ∃ before after, filterVersions semver tags = before ++ a :: after ∧
      ∀ c ∈ before, c ∈ tags ∧ ∃ u, semver.newVersion c = some u ∧ semver.atLeast u v := by
  let r : String × Version → String × Version → Prop := fun x y => semver.atLeast x.2 y.2
  have htotal : Std.Total r := ⟨fun x y => hsemver.total.total x.2 y.2⟩
  have htrans : IsTrans _ r := ⟨fun x y z => hsemver.trans.trans x.2 y.2 z.2⟩
  let read := tags.filterMap fun t => (semver.newVersion t).map (t, ·)
  have hsorted : (read.insertionSort r).Pairwise r := List.pairwise_insertionSort r read
  have hread : ∀ x ∈ read.insertionSort r, x.1 ∈ tags ∧ semver.newVersion x.1 = some x.2 := by
    intro x hx
    obtain ⟨t, ht, hmap⟩ := List.mem_filterMap.mp ((List.mem_insertionSort r).mp hx)
    obtain ⟨u, hu, rfl⟩ := Option.map_eq_some_iff.mp hmap
    exact ⟨ht, hu⟩
  have hmem : (a, v) ∈ read.insertionSort r :=
    (List.mem_insertionSort r).mpr (List.mem_filterMap.mpr ⟨a, ha, by simp [hv]⟩)
  obtain ⟨before, after, hsplit⟩ := List.append_of_mem hmem
  refine ⟨before.map (·.1), after.map (·.1), ?_, ?_⟩
  · change (read.insertionSort r).map (·.1) = _
    rw [hsplit, List.map_append, List.map_cons]
  · intro c hc
    obtain ⟨x, hx, rfl⟩ := List.mem_map.mp hc
    have hx' : x ∈ read.insertionSort r := by
      rw [hsplit]
      exact List.mem_append_left _ hx
    rw [hsplit] at hsorted
    exact ⟨(hread x hx').1, x.2, (hread x hx').2,
      (List.pairwise_append.mp hsorted).2.2 x hx (a, v) List.mem_cons_self⟩

/-! ## Neighbours -/

/-- `a` is published and no other version of its precedence is, nor a final one
between it and `b`. -/
structure Neighbours (semver : Semver) (tags : List String) (a b : String) (va vb : Version) :
    Prop where
  read_a : semver.newVersion a = some va
  read_b : semver.newVersion b = some vb
  final_a : va.prerelease = ""
  lt : semver.before va vb = true
  between : ∀ c ∈ tags, ∀ vc, semver.newVersion c = some vc → vc.prerelease = "" →
    ¬ (semver.before va vc = true ∧ semver.before vc vb = true)
  unique : ∀ c ∈ tags, ∀ vc, semver.newVersion c = some vc → semver.compare vc va = .eq → c = a

/-- The version rule picks the neighbour below. -/
theorem Neighbours.mem_bases {semver : Semver} (hsemver : semver.Documented)
    {b : String} (h : Neighbours semver tags a b va vb)
    {earlier : List String} (hsub : ∀ c ∈ earlier, c ∈ tags) (ha : a ∈ earlier) :
    a ∈ basesFrom semver b [] (filterVersions semver earlier) := by
  obtain ⟨before, after, hsplit, hbefore⟩ := filterVersions_split hsemver ha h.read_a
  have hfinal : prerelease semver a = false := by simp [prerelease, h.read_a, h.final_a]
  have hlt : compareVersions semver a b = .lt := by
    simp only [compareVersions, h.read_a, h.read_b]
    exact of_decide_eq_true h.lt
  rw [hsplit]
  refine mem_basesFrom (fun c hc => ?_) hlt hfinal
  obtain ⟨hmem, u, hu, hle⟩ := hbefore c hc
  by_cases hpre : u.prerelease = ""
  · by_cases hbelow : semver.before u vb = true
    · rcases hsemver.before_or_eq hle with hbetween | heq
      · exact absurd ⟨hbetween, hbelow⟩ (h.between c (hsub c hmem) u hu hpre)
      · exact .inr (.inr (h.unique c (hsub c hmem) u hu heq))
    · refine .inl fun hcompare => hbelow ?_
      simp only [compareVersions, hu, h.read_b] at hcompare
      exact decide_eq_true hcompare
  · exact .inr (.inl (by simp [prerelease, hu, hpre]))

/-- A publish of `b` after `a` has the bump its change from `a` needs. -/
theorem bump_of_publish {pkg : Packages C} {S : Set (Bundle C)} (hpkg : pkg.Distinguishes S)
    (hsemver : pkg.semver.Documented)
    {R : String} {inp : Input C} {answers : List Answer} (hinp : PublishesTo R inp)
    (hS : inp.bundle ∈ S) (hw : Bundles pkg S R w.registry) {b : String}
    (h : Neighbours pkg.semver tags a b va vb)
    (hsub : ∀ c ∈ w.registry.listTags R, c ∈ tags) (ha : a ∈ w.registry.listTags R)
    (hb : b ∉ w.registry.listTags R) (hb' : b ∈ (w.next pkg inp answers).registry.listTags R) :
    ∃ A B, w.registry.pull R a = some A ∧ (w.next pkg inp answers).registry.pull R b = some B ∧
      checkBump pkg.semver a b (requiredBump pkg.semver (pkg.compare A B) a) = none := by
  obtain ⟨d, hd⟩ := Registry.mem_listTags.mp hb'
  obtain ⟨-, -, htag⟩ := World.next_spec pkg w answers hinp
  rcases htag b d hd with hold | ⟨rfl, rfl, hok⟩
  · exact absurd (Registry.mem_listTags.mpr ⟨d, hold⟩) hb
  · obtain ⟨A, hA, hcheck⟩ := hok a (h.mem_bases hsemver hsub ha)
    exact ⟨A, inp.bundle, hA, (hw.next hinp hS).pull hpkg hS hd, hcheck⟩

def PublishedBefore (pkg : Packages C) (w : World C) (history : List (Input C × List Answer))
    (R a b : String) : Prop :=
  ∃ earlier later, history = earlier ++ later ∧
    a ∈ (w.publishes pkg earlier).registry.listTags R ∧
    b ∉ (w.publishes pkg earlier).registry.listTags R

section History

variable {pkg : Packages C} {S : Set (Bundle C)} {R : String}

theorem World.grows_publishes
    (h : ∀ q ∈ history, PublishesTo R q.1) :
    Grows w.registry (w.publishes pkg history).registry := by
  induction history generalizing w with
  | nil => exact Grows.refl _
  | cons q history ih =>
    exact (World.next_spec pkg w q.2 (h q List.mem_cons_self)).1.trans
      (ih fun q' hq' => h q' (List.mem_cons_of_mem _ hq'))

theorem Bundles.publishes
    (h : ∀ q ∈ history, PublishesTo R q.1 ∧ q.1.bundle ∈ S) (hw : Bundles pkg S R w.registry) :
    Bundles pkg S R (w.publishes pkg history).registry := by
  induction history generalizing w with
  | nil => exact hw
  | cons q history ih =>
    obtain ⟨hq, hS⟩ := h q List.mem_cons_self
    exact ih (fun q' hq' => h q' (List.mem_cons_of_mem _ hq')) (hw.next hq hS)

/-- Somewhere in the rest of the history `b` is published, by a run that saw
`a`. -/
theorem bump_of_history (hpkg : pkg.Distinguishes S) (hsemver : pkg.semver.Documented)
    (h : ∀ q ∈ history, PublishesTo R q.1 ∧ q.1.bundle ∈ S) (hw : Bundles pkg S R w.registry) {b : String}
    (hn : Neighbours pkg.semver tags a b va vb)
    (hsub : ∀ c ∈ (w.publishes pkg history).registry.listTags R, c ∈ tags)
    (ha : a ∈ w.registry.listTags R) (hb : b ∉ w.registry.listTags R)
    (hb' : b ∈ (w.publishes pkg history).registry.listTags R) :
    ∃ A B, (w.publishes pkg history).registry.pull R a = some A ∧
      (w.publishes pkg history).registry.pull R b = some B ∧
      checkBump pkg.semver a b (requiredBump pkg.semver (pkg.compare A B) a) = none := by
  induction history generalizing w with
  | nil => exact absurd hb' hb
  | cons q history ih =>
    obtain ⟨hq, hS⟩ := h q List.mem_cons_self
    have hrest : ∀ q' ∈ history, PublishesTo R q'.1 ∧ q'.1.bundle ∈ S :=
      fun q' hq' => h q' (List.mem_cons_of_mem _ hq')
    have hgrows := (World.next_spec pkg w q.2 hq).1
    by_cases hnext : b ∈ (w.next pkg q.1 q.2).registry.listTags R
    · have hlater : Grows (w.next pkg q.1 q.2).registry
          (w.publishes pkg (q :: history)).registry :=
        World.grows_publishes fun q' hq' => (hrest q' hq').1
      obtain ⟨A, B, hA, hB, hcheck⟩ := bump_of_publish hpkg hsemver hq hS hw hn
        (fun c hc => hsub c (Registry.listTags_grows (hgrows.trans hlater) hc)) ha hb hnext
      exact ⟨A, B, Registry.pull_grows (hgrows.trans hlater) hA,
        Registry.pull_grows hlater hB, hcheck⟩
    · exact ih hrest (hw.next hq hS) hsub (Registry.listTags_grows hgrows ha) hnext hb'

end History

/-- Of two neighbouring final versions, the higher has the bump its change needs
when it was published after the lower. -/
theorem published_bump (pkg : Packages C) (hsemver : pkg.semver.Documented) (R : String) (w : World C)
    (hempty : ∀ d, w.registry.holds R d = false) (history : List (Input C × List Answer))
    (hpkg : pkg.Distinguishes {b | ∃ q ∈ history, q.1.bundle = b})
    (hhistory : ∀ q ∈ history, PublishesTo R q.1) (a b : String) (va vb : Version)
    (hn : Neighbours pkg.semver ((w.publishes pkg history).registry.listTags R) a b va vb)
    (hb : b ∈ (w.publishes pkg history).registry.listTags R)
    (hbefore : PublishedBefore pkg w history R a b) :
    ∃ A B, (w.publishes pkg history).registry.pull R a = some A ∧
      (w.publishes pkg history).registry.pull R b = some B ∧
      checkBump pkg.semver a b (requiredBump pkg.semver (pkg.compare A B) a) = none := by
  obtain ⟨earlier, later, rfl, ha, hb'⟩ := hbefore
  have hsplit : w.publishes pkg (earlier ++ later) =
      (w.publishes pkg earlier).publishes pkg later := List.foldl_append
  rw [hsplit] at hn hb ⊢
  have hall : ∀ q ∈ earlier ++ later, PublishesTo R q.1 ∧
      q.1.bundle ∈ {b | ∃ q' ∈ earlier ++ later, q'.1.bundle = b} :=
    fun q hq => ⟨hhistory q hq, q, hq, rfl⟩
  exact bump_of_history hpkg hsemver (fun q hq => hall q (List.mem_append_right _ hq))
    ((bundles_of_empty hempty).publishes fun q hq => hall q (List.mem_append_left _ hq))
    hn (fun _ hc => hc) ha hb' hb

/-- Contracts that count their endpoints: one that has fewer breaks. -/
def endpointPackages : Packages Nat where
  semver := .plain fun
    | "1.0.0" => some { major := 1, minor := 0, patch := 0 }
    | "v1.0.0" => some { major := 1, minor := 0, patch := 0 }
    | "1.1.0" => some { major := 1, minor := 1, patch := 0 }
    | "1.2.0" => some { major := 1, minor := 2, patch := 0 }
    | _ => none
  compare old new := if new.content < old.content then .breaking else .nonBreaking
  bundleHash b := b.version

def endpoints (version : String) (n : Nat) : Input Nat × List Answer :=
  ({ bundle :=
      { service := "payments", version
        publish := some { bundle := "oci://registry/pacto/payments"
                          sign := some { key := "cosign.key" } }
        content := n }
     revision := "abc123" }, [])

theorem endpoints_publishesTo (version : String) (n : Nat) :
    PublishesTo (repo "oci://registry/pacto/payments") (endpoints version n).1 :=
  ⟨_, rfl, rfl⟩

def inOrder : List (Input Nat × List Answer) := [endpoints "1.0.0" 1, endpoints "1.1.0" 2]

theorem inOrder_tags : (World.publishes endpointPackages { registry := {} } inOrder).registry.listTags
    (repo "oci://registry/pacto/payments") = ["1.1.0", "1.0.0"] := by
  decide +kernel

/-- 1.1.0 after 1.0.0 has the bump it needs. -/
theorem published_bump_inOrder :
    ∃ A B, (World.publishes endpointPackages { registry := {} } inOrder).registry.pull
        (repo "oci://registry/pacto/payments") "1.0.0" = some A ∧
      (World.publishes endpointPackages { registry := {} } inOrder).registry.pull
        (repo "oci://registry/pacto/payments") "1.1.0" = some B ∧
      checkBump endpointPackages.semver "1.0.0" "1.1.0"
        (requiredBump endpointPackages.semver (endpointPackages.compare A B) "1.0.0") = none :=
  published_bump endpointPackages (Semver.plain_documented _) (repo "oci://registry/pacto/payments") { registry := {} }
    (fun _ => rfl) inOrder
    (by
      rintro b ⟨q, hq, rfl⟩ b' ⟨q', hq', rfl⟩ hhash
      rcases List.mem_pair.mp hq with rfl | rfl <;> rcases List.mem_pair.mp hq' with rfl | rfl
      · rfl
      · exact absurd hhash (by decide)
      · exact absurd hhash (by decide)
      · rfl)
    (by
      intro q hq
      rcases List.mem_pair.mp hq with rfl | rfl
      · exact endpoints_publishesTo "1.0.0" 1
      · exact endpoints_publishesTo "1.1.0" 2)
    "1.0.0" "1.1.0" { major := 1, minor := 0, patch := 0 } { major := 1, minor := 1, patch := 0 }
    (by
      rw [inOrder_tags]
      refine ⟨rfl, rfl, rfl, by decide, fun c hc vc hvc _ => ?_, fun c hc vc hvc heq => ?_⟩
      · rcases List.mem_pair.mp hc with rfl | rfl <;> cases hvc <;> decide
      · rcases List.mem_pair.mp hc with rfl | rfl
        · cases hvc
          exact absurd heq (by decide)
        · rfl)
    (by rw [inOrder_tags]; decide)
    ⟨[endpoints "1.0.0" 1], [endpoints "1.1.0" 2], rfl, by decide +kernel, by decide +kernel⟩

/-- 1.1.0 is published after 1.2.0, which has fewer endpoints. -/
def outOfOrder : List (Input Nat × List Answer) :=
  [endpoints "1.0.0" 1, endpoints "1.2.0" 1, endpoints "1.1.0" 2]

/-- Two spellings of one version, of which the second has fewer endpoints. -/
def twoSpellings : List (Input Nat × List Answer) :=
  [endpoints "1.0.0" 2, endpoints "v1.0.0" 1, endpoints "1.1.0" 1]

/-- Every publish of the history succeeds, and `b` breaks `a` with less than the
bump that needs. -/
def Underbumped (history : List (Input Nat × List Answer)) (a b : String) : Prop :=
  let R := repo "oci://registry/pacto/payments"
  let w := World.publishes endpointPackages { registry := {} } history
  (∀ n < history.length, (((World.publishes endpointPackages { registry := {} } (history.take n)).apply
    endpointPackages ((history.map (·.1)).getD n (endpoints "1.0.0" 1).1) []).1.isOk = true)) ∧
    ((w.registry.pull R a).bind fun A => (w.registry.pull R b).bind fun B =>
      checkBump endpointPackages.semver a b
        (requiredBump endpointPackages.semver (endpointPackages.compare A B) a)) =
      some (b ++ " needs a major bump over " ++ a ++ ": publish 2.0.0 or higher")

/-- 1.2.0 breaks 1.1.0, which came later, with a minor bump; and so does 1.1.0 to
1.0.0, since it was compared with the other spelling. -/
theorem published_bump_outOfOrder :
    Underbumped outOfOrder "1.1.0" "1.2.0" ∧
      (World.publishes endpointPackages { registry := {} } outOfOrder).registry.listTags
        (repo "oci://registry/pacto/payments") = ["1.1.0", "1.2.0", "1.0.0"] ∧
      Underbumped twoSpellings "1.0.0" "1.1.0" ∧
      (World.publishes endpointPackages { registry := {} } twoSpellings).registry.listTags
        (repo "oci://registry/pacto/payments") = ["1.1.0", "v1.0.0", "1.0.0"] := by
  unfold Underbumped
  decide +kernel

end Pacto.Publish
