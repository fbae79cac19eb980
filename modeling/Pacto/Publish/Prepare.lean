import Pacto.Publish.Planned

/-!
# What is ready before the tags

Up to its tags, a run builds and pushes what is absent, keeps what is there and
attaches the SBOMs.  `Prepared` says what holds after some of the artifacts: each
has one digest, that of its tag if it had one and that of its latest build
otherwise, and every build was told the digests of the artifacts before it.
-/

namespace Pacto.Publish

open Support Attempt

variable {C : Type}

/-! ## Digests and builds -/

/-- The digest a run publishes an artifact under. -/
def Run.digest (s : Run C) (name : String) : String := (s.res.digests.lookup name).getD ""

/-- The environment of the latest build of an artifact that gave the digest. -/
def lastBuild (builds : List Build) (name digest : String) : Option (List String) :=
  (builds.find? fun b => b.artifact = name && b.digest = digest).map (·.env)

/-- What a build is told once the given artifacts have their digests. -/
def buildEnv (inp : Input C) (before : List (Artifact × String)) : List String :=
  baseEnv inp ++ before.flatMap fun ad => envOf ad.1 ad.2

theorem lastBuild_cons_self (b : Build) (builds : List Build) :
    lastBuild (b :: builds) b.artifact b.digest = some b.env := by
  simp [lastBuild]

theorem lastBuild_cons_of_ne {b : Build} {name : String} (builds : List Build) (digest : String)
    (h : b.artifact ≠ name) :
    lastBuild (b :: builds) name digest = lastBuild builds name digest := by
  simp [lastBuild, h]

theorem buildEnv_append (inp : Input C) (before : List (Artifact × String)) (a : Artifact)
    (d : String) :
    buildEnv inp (before ++ [(a, d)]) = buildEnv inp before ++ envOf a d := by
  simp [buildEnv]

/-! ## One artifact -/

def Run.Attached (s : Run C) (a : Artifact) : Prop :=
  ∃ sbom, s.res.sboms.lookup a.name = some sbom ∧
    ((repo a.ref, s.digest a.name, sbomType a.sbom), sbom) ∈ s.registry.referrers ∧
    ((repo a.ref, sbom) ∈ s.registry.signed ∨ sbom ≠ "")

/-- The tag of an artifact joins the ones a run owes. -/
def Run.owing (s : Run C) (pub : Section) (a : Artifact) (d : String) :
    List (String × String) × Option (String × String) :=
  if a.name = pub.deploy then (s.tags, some (repo a.ref, d))
  else (s.tags ++ [(repo a.ref, d)], s.deployTag)

/-- What one artifact's part of the loop does. -/
structure Stepped (pub : Section) (env : List String) (ai : Artifact × Item) (d : String)
    (s s' : Run C) : Prop where
  adds : Adds s.registry s'.registry
  digests : s'.res.digests = (ai.1.name, d) :: s.res.digests
  kept : ai.2.state ≠ .absent → d = ai.2.digest ∧ s'.builds = s.builds ∧
    (s'.tags, s'.deployTag) = (s.tags, s.deployTag)
  built : ai.2.state = .absent →
    s'.builds = { artifact := ai.1.name, digest := d, env } :: s.builds ∧
    s'.registry.holds (repo ai.1.ref) d = true ∧
    (s'.tags, s'.deployTag) = s.owing pub ai.1 d
  sboms : ∀ name, name ≠ ai.1.name → s'.res.sboms.lookup name = s.res.sboms.lookup name
  attached : ai.1.sbom ≠ "" → s'.Attached ai.1

/-- What a loop that stopped at an artifact may have done. -/
structure Stopped (ai : Artifact × Item) (s s' : Run C) : Prop where
  adds : Adds s.registry s'.registry
  builds : ∀ name, (ai.2.state = .absent → ai.1.name ≠ name) →
    ∀ d, lastBuild s'.builds name d = lastBuild s.builds name d

def Run.pushed (s : Run C) (pub : Section) (a : Artifact) (env : List String)
    (m : Manifest C) (d line : String) : Run C :=
  { s with
    registry := s.registry.write (repo a.ref) d m
    builds := { artifact := a.name, digest := d, env } :: s.builds
    res := { s.res with actions := s.res.actions ++ [line] }
    tags := (s.owing pub a d).1
    deployTag := (s.owing pub a d).2 }

theorem triple_buildAndPush {s : Run C} (a : Artifact) (env : List String)
    (ann : List (String × String)) :
    Triple (· = s) (buildAndPush a env ann)
      (fun d t => t = { s with
        registry := s.registry.write (repo a.ref) d { annotations := ann }
        builds := { artifact := a.name, digest := d, env } :: s.builds })
      (fun t => t = s ∨ ∃ d r, Adds s.registry r ∧
        t = { s with registry := r
                     builds := { artifact := a.name, digest := d, env } :: s.builds }) := by
  refine Triple.bind (triple_make (Q := fun _ t => t = s) (fun _ _ h => h) fun _ h => .inl h)
    fun d => ?_
  refine Triple.bind Triple.modify_eq fun _ => ?_
  refine Triple.bind (R := fun _ t => t = { s with
    registry := s.registry.write (repo a.ref) d { annotations := ann }
    builds := { artifact := a.name, digest := d, env } :: s.builds })
    (Triple.inContext (triple_put ?_ ?_ ?_)) fun _ => Triple.pure fun _ h => h
  · rintro t rfl
    rfl
  · rintro t rfl
    exact .inr ⟨d, _, Registry.adds_write _ _ _, rfl⟩
  · rintro t rfl
    exact .inr ⟨d, _, Adds.refl _, rfl⟩

theorem triple_obtain {s : Run C} (inp : Input C) (pub : Section) (bundleDigest : String)
    (env : List String) (ai : Artifact × Item) :
    Triple (· = s) (obtain inp pub bundleDigest env ai.1 ai.2)
      (fun d t => (ai.2.state ≠ .absent ∧ d = ai.2.digest ∧ t = s) ∨
        (ai.2.state = .absent ∧ ∃ m line, t = s.pushed pub ai.1 env m d line))
      (Stopped ai s) := by
  unfold obtain
  refine Triple.ite (fun habsent => ?_) fun hpresent => ?_
  · refine Triple.bind (Triple.inContext ((triple_buildAndPush ai.1 env _).weaken (fun _ h => h)
      (fun _ _ h => h) ?_)) fun d => ?_
    · rintro t (rfl | ⟨d, r, hadds, rfl⟩)
      · exact ⟨Adds.refl _, fun _ _ _ => rfl⟩
      · exact ⟨hadds, fun name hname d' => lastBuild_cons_of_ne _ _ (hname habsent)⟩
    · refine Triple.bind Triple.modify_eq fun _ => ?_
      refine Triple.bind Triple.modify_eq fun _ => Triple.pure ?_
      rintro t rfl
      refine .inr ⟨habsent, { annotations := annotationsOf inp pub bundleDigest ai.1 },
        "pushed " ++ ai.1.name ++ " " ++ repo ai.1.ref ++ "@" ++ d, ?_⟩
      by_cases hdeploy : ai.1.name = pub.deploy
      · simp [Run.pushed, Run.owing, hdeploy]
      · simp [Run.pushed, Run.owing, hdeploy]
  · exact Triple.pure fun t ht => .inl ⟨hpresent, rfl, ht⟩

/-- A run beside one that only adds to the registry and tells of it. -/
structure Beside (s s' : Run C) : Prop where
  adds : Adds s.registry s'.registry
  builds : s'.builds = s.builds
  digests : s'.res.digests = s.res.digests
  owed : (s'.tags, s'.deployTag) = (s.tags, s.deployTag)

theorem digestOf_ne (hash : String) : digestOf hash ≠ "" := by
  intro h
  have hlist := congrArg String.toList h
  simp [digestOf] at hlist

theorem triple_attachSBOM {s : Run C} (path repo digest version revision : String) :
    Triple (· = s) (attachSBOM path repo digest version revision)
      (fun sbom t => Beside s t ∧ t.res.sboms = s.res.sboms ∧
        ((repo, digest, sbomType path), sbom) ∈ t.registry.referrers ∧
        ((repo, sbom) ∈ t.registry.signed ∨ sbom ≠ ""))
      (fun t => Adds s.registry t.registry ∧ t.builds = s.builds) := by
  have hstop : ∀ t, t = s → Adds s.registry t.registry ∧ t.builds = s.builds := by
    rintro t rfl
    exact ⟨Adds.refl _, rfl⟩
  refine Triple.bind (triple_look (Q := fun there t => t = s ∧
    there = s.registry.referrersOf repo digest (sbomType path)) ?_ hstop) fun there => ?_
  · rintro t rfl
    exact ⟨rfl, rfl⟩
  refine Triple.bind (Triple.read (Q := fun signed t => t = s ∧ ∀ h, signed = some h →
    ((repo, digest, sbomType path), h) ∈ s.registry.referrers ∧
    (repo, h) ∈ s.registry.signed) ?_) fun signed => ?_
  · rintro t ⟨rfl, rfl⟩
    refine ⟨rfl, fun h hfind => ?_⟩
    have hverify := List.find?_some hfind
    exact ⟨Registry.mem_referrersOf.mp (List.mem_of_find?_eq_some hfind),
      Registry.verify_eq_none.mp (of_decide_eq_true hverify)⟩
  cases signed with
  | some h =>
    refine Triple.pure ?_
    rintro t ⟨rfl, hsigned⟩
    exact ⟨⟨Adds.refl _, rfl, rfl, rfl⟩, rfl, (hsigned h rfl).1, .inl (hsigned h rfl).2⟩
  | none =>
    refine Triple.bind (triple_look (Q := fun _ t => t = s) (fun _ h => h.1)
      fun t h => hstop t h.1) fun found => ?_
    refine Triple.bind (Triple.demand fun _ => hstop) fun _ => ?_
    refine Triple.bind (triple_make (Q := fun sbom t => t = s ∧ sbom ≠ "")
      (fun t hash h => ⟨h.1, digestOf_ne hash⟩) fun t h => hstop t h.1) fun sbom => ?_
    refine Triple.bind (R := fun _ t => Beside s t ∧ t.res.sboms = s.res.sboms ∧
      ((repo, digest, sbomType path), sbom) ∈ t.registry.referrers ∧ sbom ≠ "")
      (triple_put ?_ ?_ fun t h => hstop t h.1) fun _ => ?_
    · rintro t ⟨rfl, hne⟩
      exact ⟨⟨Registry.adds_attach _ _ _ _ _, rfl, rfl, rfl⟩, rfl,
        Registry.mem_referrers_attach _ _ _ _ _, hne⟩
    · rintro t ⟨rfl, -⟩
      exact ⟨Registry.adds_attach _ _ _ _ _, rfl⟩
    · refine Triple.bind (Triple.modify (Q := fun _ t => Beside s t ∧
        t.res.sboms = s.res.sboms ∧ ((repo, digest, sbomType path), sbom) ∈ t.registry.referrers ∧
        ((repo, sbom) ∈ t.registry.signed ∨ sbom ≠ "")) ?_) fun _ => Triple.pure fun _ h => h
      rintro t ⟨hbeside, hsboms, hmem, hne⟩
      exact ⟨⟨hbeside.adds, hbeside.builds, hbeside.digests, hbeside.owed⟩, hsboms, hmem,
        .inr hne⟩

theorem triple_attachDeclared {s : Run C} (inp : Input C) (a : Artifact) {d : String}
    (hd : s.digest a.name = d) :
    Triple (· = s) (attachDeclared inp a d)
      (fun _ t => Beside s t ∧ (a.sbom ≠ "" → t.Attached a) ∧
        ∀ name, name ≠ a.name → t.res.sboms.lookup name = s.res.sboms.lookup name)
      (fun t => Adds s.registry t.registry ∧ t.builds = s.builds) := by
  unfold attachDeclared
  refine Triple.ite (fun hnone => ?_) fun hsbom => ?_
  · refine Triple.pure ?_
    rintro t rfl
    exact ⟨⟨Adds.refl _, rfl, rfl, rfl⟩, fun h => absurd hnone h, fun _ _ => rfl⟩
  · refine Triple.bind (Triple.inContext (triple_attachSBOM a.sbom (repo a.ref) d
      inp.bundle.version inp.revision)) fun sbom => Triple.modify ?_
    rintro t ⟨hbeside, hsboms, hmem, hsigned⟩
    refine ⟨⟨hbeside.adds, hbeside.builds, hbeside.digests, hbeside.owed⟩, fun _ => ?_,
      fun name hname => ?_⟩
    · refine ⟨sbom, by simp, ?_, hsigned⟩
      have hdigest : ({ t with res := { t.res with
          sboms := (a.name, sbom) :: t.res.sboms } } : Run C).digest a.name = d := by
        unfold Run.digest at hd ⊢
        rw [← hd]
        exact congrArg (fun l => (l.lookup a.name).getD "") hbeside.digests
      rw [hdigest]
      exact hmem
    · have hne : (name == a.name) = false := by simpa using hname
      rw [← hsboms]
      simp only [List.lookup_cons, hne]

theorem triple_artifactStep {s : Run C} (inp : Input C) (pub : Section) (bundleDigest : String)
    (env : List String) (ai : Artifact × Item) :
    Triple (· = s) (artifactStep inp pub bundleDigest env ai)
      (fun env' t => ∃ d, env' = env ++ envOf ai.1 d ∧ Stepped pub env ai d s t)
      (Stopped ai s) := by
  refine Triple.bind (triple_obtain inp pub bundleDigest env ai) fun d => ?_
  refine Triple.intro fun t ht => ?_
  -- the digest is noted before the SBOM is attached to it
  refine Triple.bind Triple.modify_eq fun _ => ?_
  refine Triple.bind ((triple_attachDeclared inp ai.1 ?_).weaken (fun _ h => h)
    (fun _ _ h => h) ?_) fun _ => Triple.pure ?_
  · simp [Run.digest]
  · rintro u ⟨hadds, hbuilds⟩
    rcases ht with ⟨hpresent, rfl, rfl⟩ | ⟨habsent, m, line, rfl⟩
    · exact ⟨hadds, fun name _ d' => by rw [hbuilds]⟩
    · refine ⟨(Registry.adds_write _ _ _).trans hadds, fun name hname d' => ?_⟩
      rw [hbuilds]
      exact lastBuild_cons_of_ne _ _ (hname habsent)
  · rintro u ⟨hbeside, hattached, hsboms⟩
    refine ⟨d, rfl, ?_⟩
    rcases ht with ⟨hpresent, rfl, rfl⟩ | ⟨habsent, m, line, rfl⟩
    · exact
        { adds := hbeside.adds
          digests := hbeside.digests
          kept := fun _ => ⟨rfl, hbeside.builds, hbeside.owed⟩
          built := fun habsent => absurd habsent hpresent
          sboms := hsboms
          attached := hattached }
    · exact
        { adds := (Registry.adds_write _ _ _).trans hbeside.adds
          digests := hbeside.digests
          kept := fun hpresent => absurd habsent hpresent
          built := fun _ => ⟨hbeside.builds,
            hbeside.adds.toGrows.holds (Registry.holds_write _ _ _ _), hbeside.owed⟩
          sboms := hsboms
          attached := hattached }

/-! ## All artifacts -/

def Run.given (s : Run C) (done : List (Artifact × Item)) : List (Artifact × String) :=
  done.map fun ai => (ai.1, s.digest ai.1.name)

def owesTag (pub : Section) (ai : Artifact × Item) : Bool :=
  ai.2.state = .absent && ai.1.name ≠ pub.deploy

/-- The deploy artifact's tag is owed. -/
def owesDeploy (pub : Section) (ai : Artifact × Item) : Bool :=
  ai.2.state = .absent && ai.1.name = pub.deploy

/-- What holds once some of the artifacts are done. -/
structure Prepared (inp : Input C) (pub : Section) (s₀ : Run C) (done : List (Artifact × Item))
    (env : List String) (s : Run C) : Prop where
  adds : Adds s₀.registry s.registry
  env_eq : env = buildEnv inp (s.given done)
  kept : ∀ ai ∈ done, ai.2.state ≠ .absent → s.digest ai.1.name = ai.2.digest
  built : ∀ before ai after, done = before ++ ai :: after → ai.2.state = .absent →
    lastBuild s.builds ai.1.name (s.digest ai.1.name) = some (buildEnv inp (s.given before))
  stored : ∀ ai ∈ done, s.registry.holds (repo ai.1.ref) (s.digest ai.1.name) = true
  attached : ∀ ai ∈ done, ai.1.sbom ≠ "" → s.Attached ai.1
  tags : s.tags = (done.filter (owesTag pub)).map
    fun ai => (repo ai.1.ref, s.digest ai.1.name)
  deployTag : s.deployTag = (done.find? (owesDeploy pub)).map
    fun ai => (repo ai.1.ref, s.digest ai.1.name)
  others : ∀ name, (∀ ai ∈ done, ai.2.state = .absent → ai.1.name ≠ name) →
    ∀ d, lastBuild s.builds name d = lastBuild s₀.builds name d

section OneMore

variable {inp : Input C} {pub : Section} {s₀ s s' : Run C} {done : List (Artifact × Item)}
  {env : List String} {ai : Artifact × Item} {d : String}

theorem Stepped.digest_self (h : Stepped pub env ai d s s') : s'.digest ai.1.name = d := by
  simp [Run.digest, h.digests]

theorem Stepped.digest_of_ne (h : Stepped pub env ai d s s') {name : String}
    (hne : name ≠ ai.1.name) : s'.digest name = s.digest name := by
  have hbeq : (name == ai.1.name) = false := by simpa using hne
  simp [Run.digest, h.digests, List.lookup_cons, hbeq]

theorem Stepped.lastBuild_of_ne (h : Stepped pub env ai d s s') {name : String}
    (hne : ai.2.state = .absent → ai.1.name ≠ name) (digest : String) :
    lastBuild s'.builds name digest = lastBuild s.builds name digest := by
  by_cases habsent : ai.2.state = .absent
  · rw [(h.built habsent).1]
    exact lastBuild_cons_of_ne _ _ (hne habsent)
  · rw [(h.kept habsent).2.1]

theorem Stepped.given_eq (h : Stepped pub env ai d s s') {l : List (Artifact × Item)}
    (hfresh : ∀ bi ∈ l, bi.1.name ≠ ai.1.name) : s'.given l = s.given l := by
  refine List.map_congr_left fun bi hbi => ?_
  rw [h.digest_of_ne (hfresh bi hbi)]

/-- One more artifact is done. -/
theorem Prepared.step (h : Prepared inp pub s₀ done env s) (hstep : Stepped pub env ai d s s')
    (hfresh : ∀ bi ∈ done, bi.1.name ≠ ai.1.name)
    (hthere : ai.2.state ≠ .absent → s₀.registry.holds (repo ai.1.ref) ai.2.digest = true) :
    Prepared inp pub s₀ (done ++ [ai]) (env ++ envOf ai.1 d) s' := by
  have hgiven : s'.given (done ++ [ai]) = s.given done ++ [(ai.1, d)] := by
    rw [Run.given, List.map_append, ← hstep.digest_self]
    exact congrArg (· ++ [(ai.1, s'.digest ai.1.name)]) (hstep.given_eq hfresh)
  have howed : ∀ l : List (Artifact × Item), (∀ bi ∈ l, bi ∈ done) →
      (l.map fun bi => (repo bi.1.ref, s'.digest bi.1.name)) =
        l.map fun bi => (repo bi.1.ref, s.digest bi.1.name) := by
    intro l hl
    refine List.map_congr_left fun bi hbi => ?_
    rw [hstep.digest_of_ne (hfresh bi (hl bi hbi))]
  constructor
  case adds => exact h.adds.trans hstep.adds
  case env_eq => rw [hgiven, buildEnv_append, ← h.env_eq]
  case kept =>
    intro bi hbi hpresent
    rcases List.mem_append.mp hbi with hbi | hbi
    · rw [hstep.digest_of_ne (hfresh bi hbi)]
      exact h.kept bi hbi hpresent
    · cases List.mem_singleton.mp hbi
      rw [hstep.digest_self]
      exact (hstep.kept hpresent).1
  case built =>
    intro before bi after hsplit habsent
    rcases List.eq_nil_or_concat after with rfl | ⟨after', last, rfl⟩
    · obtain ⟨rfl, hbi⟩ := List.append_inj' hsplit rfl
      cases hbi
      rw [hstep.digest_self, (hstep.built habsent).1, hstep.given_eq hfresh, ← h.env_eq]
      exact lastBuild_cons_self _ _
    · rw [List.concat_eq_append, ← List.cons_append, ← List.append_assoc] at hsplit
      obtain ⟨hdone, -⟩ := List.append_inj' hsplit rfl
      have hmem : bi ∈ done := by
        rw [hdone]
        exact List.mem_append_right _ List.mem_cons_self
      have hbefore : ∀ ci ∈ before, ci.1.name ≠ ai.1.name := by
        intro ci hci
        refine hfresh ci ?_
        rw [hdone]
        exact List.mem_append_left _ hci
      rw [hstep.digest_of_ne (hfresh bi hmem),
        hstep.lastBuild_of_ne (fun _ => (hfresh bi hmem).symm), hstep.given_eq hbefore]
      exact h.built before bi after' hdone habsent
  case stored =>
    intro bi hbi
    rcases List.mem_append.mp hbi with hbi | hbi
    · rw [hstep.digest_of_ne (hfresh bi hbi)]
      exact hstep.adds.toGrows.holds (h.stored bi hbi)
    · cases List.mem_singleton.mp hbi
      rw [hstep.digest_self]
      by_cases habsent : ai.2.state = .absent
      · exact (hstep.built habsent).2.1
      · rw [(hstep.kept habsent).1]
        exact (h.adds.trans hstep.adds).toGrows.holds (hthere habsent)
  case attached =>
    intro bi hbi hsbom
    rcases List.mem_append.mp hbi with hbi | hbi
    · obtain ⟨sbom, hlookup, hmem, hsigned⟩ := h.attached bi hbi hsbom
      refine ⟨sbom, (hstep.sboms _ (hfresh bi hbi)).trans hlookup, ?_,
        hsigned.imp_left (hstep.adds.signed _)⟩
      rw [hstep.digest_of_ne (hfresh bi hbi)]
      exact hstep.adds.referrer _ hmem
    · cases List.mem_singleton.mp hbi
      exact hstep.attached hsbom
  case tags =>
    rw [List.filter_append, List.map_append,
      howed _ fun bi hbi => (List.mem_filter.mp hbi).1, ← h.tags]
    by_cases habsent : ai.2.state = .absent
    · have hpair := (hstep.built habsent).2.2
      by_cases hdeploy : ai.1.name = pub.deploy
      · rw [Run.owing, if_pos hdeploy] at hpair
        simp [owesTag, hdeploy, (Prod.mk.inj hpair).1]
      · rw [Run.owing, if_neg hdeploy] at hpair
        simp [owesTag, habsent, hdeploy, (Prod.mk.inj hpair).1, hstep.digest_self]
    · simp [owesTag, habsent, (Prod.mk.inj (hstep.kept habsent).2.2).1]
  case deployTag =>
    have hkeep : (done.find? (owesDeploy pub)).map
        (fun bi => (repo bi.1.ref, s'.digest bi.1.name)) = s.deployTag := by
      rw [h.deployTag]
      cases hfind : done.find? (owesDeploy pub) with
      | none => rfl
      | some bi =>
        rw [Option.map_some, Option.map_some,
          hstep.digest_of_ne (hfresh bi (List.mem_of_find?_eq_some hfind))]
    rw [List.find?_append]
    by_cases habsent : ai.2.state = .absent
    · have hpair := (hstep.built habsent).2.2
      by_cases hdeploy : ai.1.name = pub.deploy
      · have hnone : done.find? (owesDeploy pub) = none := by
          rw [List.find?_eq_none]
          intro bi hbi
          simp [owesDeploy, ← hdeploy, hfresh bi hbi]
        rw [Run.owing, if_pos hdeploy] at hpair
        simp [hnone, owesDeploy, habsent, hdeploy, (Prod.mk.inj hpair).2, ← hstep.digest_self]
      · rw [Run.owing, if_neg hdeploy] at hpair
        simp [owesDeploy, hdeploy, (Prod.mk.inj hpair).2, hkeep]
    · simp [owesDeploy, habsent, (Prod.mk.inj (hstep.kept habsent).2.2).2, hkeep]
  case others =>
    intro name hname digest
    rw [hstep.lastBuild_of_ne
      (hname ai (List.mem_append_right _ (List.mem_singleton.mpr rfl))) digest]
    exact h.others name (fun bi hbi => hname bi (List.mem_append_left _ hbi)) digest

end OneMore

/-- A run that stopped before its tags added to the registry, and built nothing
that had a tag. -/
structure Unfinished (p : Plan) (s₀ s : Run C) : Prop where
  adds : Adds s₀.registry s.registry
  builds : ∀ ai ∈ p.artifacts, ai.2.state ≠ .absent →
    ∀ d, lastBuild s.builds ai.1.name d = lastBuild s₀.builds ai.1.name d

theorem Prepared.unfinished {inp : Input C} {pub : Section} {s₀ s : Run C} {p : Plan}
    {done : List (Artifact × Item)} {env : List String} (h : Prepared inp pub s₀ done env s)
    (hdone : ∀ ai ∈ done, ai ∈ p.artifacts)
    (hnames : (p.artifacts.map fun ai => ai.1.name).Nodup) : Unfinished p s₀ s := by
  refine ⟨h.adds, fun ai hai hpresent d => h.others _ (fun bi hbi habsent hname => ?_) d⟩
  have heq := List.inj_on_of_nodup_map hnames (hdone bi hbi) hai hname
  subst heq
  exact hpresent habsent

/-- The artifacts of a ready plan, from a run that owes nothing yet. -/
theorem triple_artifacts {pkg : Packages C} {inp : Input C} {pub : Section} {s : Run C}
    {p : Plan} {bundle : Item} (hp : Planned pkg inp pub s.registry p bundle)
    (htags : s.tags = []) (hdeploy : s.deployTag = none) :
    Triple (· = s) (loop (artifactStep inp pub bundle.digest) (baseEnv inp) p.artifacts)
      (Prepared inp pub s p.artifacts) (Unfinished p s) := by
  have hnames := hp.names_nodup
  have hstart : Prepared inp pub s [] (baseEnv inp) s := by
    constructor
    case adds => exact Adds.refl _
    case env_eq => simp [buildEnv, Run.given]
    case kept => exact fun ai hai => absurd hai List.not_mem_nil
    case built =>
      intro before ai after hsplit
      simp at hsplit
    case stored => exact fun ai hai => absurd hai List.not_mem_nil
    case attached => exact fun ai hai => absurd hai List.not_mem_nil
    case tags => exact htags
    case deployTag => exact hdeploy
    case others => exact fun _ _ _ => rfl
  refine (Triple.loop (Prepared inp pub s) ?_).weaken (fun t ht => ?_) (fun _ _ h => h) fun _ h => h
  · intro done ai rest env hsplit
    have hsub : ∀ bi ∈ done, bi ∈ p.artifacts := by
      intro bi hbi
      rw [hsplit]
      exact List.mem_append_left _ hbi
    have hmem : ai ∈ p.artifacts := by
      rw [hsplit]
      exact List.mem_append_right _ List.mem_cons_self
    have hfresh : ∀ bi ∈ done, bi.1.name ≠ ai.1.name := by
      intro bi hbi heq
      rw [hsplit, List.map_append, List.map_cons] at hnames
      exact (List.nodup_append.mp hnames).2.2 _ (List.mem_map_of_mem hbi) _
        List.mem_cons_self heq
    refine Triple.intro fun t ht => ?_
    refine (triple_artifactStep inp pub bundle.digest env ai).weaken (fun _ h => h) ?_ ?_
    · rintro env' u ⟨d, rfl, hstep⟩
      refine ht.step hstep hfresh fun hpresent => ?_
      obtain ⟨hrepo, htells⟩ := hp.items ai hmem
      rw [← hrepo]
      exact Registry.holds_of_tag (htells.present hpresent)
    · intro u hstopped
      have hbefore := ht.unfinished hsub hnames
      refine ⟨hbefore.adds.trans hstopped.adds, fun bi hbi hpresent d => ?_⟩
      rw [hstopped.builds bi.1.name ?_ d]
      · exact hbefore.builds bi hbi hpresent d
      · intro habsent hname
        have heq := List.inj_on_of_nodup_map hnames hmem hbi hname
        subst heq
        exact hpresent habsent
  · subst ht
    exact hstart

end Pacto.Publish
