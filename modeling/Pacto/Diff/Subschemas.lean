import Pacto.Diff.Keywords

/-!
# The keywords that hold schemas

A keyword that holds a schema, a list of schemas or a map of schemas refines when
the schemas inside do and the walk over it is uneventful.  `Substitutes` says of
two schemas that they refine wherever they stand.
-/

namespace Pacto.Diff

open Delivery Support DottedPath Schema

/-- A path a schema stands at: none of the keywords whose own value is ranked. -/
structure SchemaAt (path : String) : Prop extends Graded path where
  neutral : lastSegment path ∉ upperBounds ++ lowerBounds ++ ["uniqueItems", "nullable", "properties"]

variable {check : String → Json → Json → Bool} {dir : Direction} {path k : String}
  {A B : List (String × Json)} {a b : Option Json} {v w x : Json}

theorem SchemaAt.last (h : SchemaAt path) : lastSegment path ≠ "properties" := by
  intro hlast
  exact h.neutral (by simp [hlast])

theorem SchemaAt.keyword (h : SchemaAt path) (hk : Keyword k)
    (hneutral : k ∉ upperBounds ++ lowerBounds ++ ["uniqueItems", "nullable", "properties"]) :
    SchemaAt (path ++ "." ++ k) := by
  refine ⟨h.toGraded.child hk.plain (.inl hk.undocumented), ?_⟩
  rwa [lastSegment_child hk.plain]

theorem SchemaAt.entry (h : SchemaAt path) (i : ℕ) :
    SchemaAt (path ++ "[" ++ toString i ++ "]") := by
  refine ⟨h.toGraded.entry (notMem_toString i), ?_⟩
  rw [lastSegment_entry h.closed (notMem_toString i)]
  exact h.neutral

/-- A property name the walk cannot mistake for a keyword. -/
def PlainName (n : String) : Prop :=
  Plain n ∧ n ∉ upperBounds ++ lowerBounds ++ ["uniqueItems", "nullable", "properties"]

instance (n : String) : Decidable (PlainName n) := inferInstanceAs (Decidable (_ ∧ _))

theorem SchemaAt.property (h : SchemaAt path) {n : String} (hn : PlainName n) :
    SchemaAt (path ++ ".properties" ++ "." ++ n) := by
  have hproperties : Graded (path ++ "." ++ "properties") :=
    h.toGraded.child (by decide) (.inl (by decide))
  have hlast : lastSegment (path ++ "." ++ "properties") = "properties" :=
    lastSegment_child (by decide)
  have hpath : path ++ "." ++ "properties" = path ++ ".properties" := by
    rw [String.append_assoc]
    rfl
  rw [← hpath]
  refine ⟨hproperties.child hn.1 (.inr (by rw [hlast]; decide)), ?_⟩
  rw [lastSegment_child hn.1]
  exact hn.2

/-- Two schemas refine wherever the walk over them is uneventful. -/
def Substitutes (check : String → Json → Json → Bool) (dir : Direction) (v w : Json) : Prop :=
  ∀ path, SchemaAt path → Clean (diffJSON dir v path w) →
    ∀ x, dir.Refines (accepts check v x = true) (accepts check w x = true)

/-! ## Schemas of which one is a boolean -/

theorem openness_sound (hv : v.schemaLike = true) (hw : w.schemaLike = true) (hunlike : ¬ Alike v w) :
    (rank (openness v) (openness w)).Sound (accepts check v x = true) (accepts check w x = true) := by
  match v, w with
  | .bool false, .bool false | .bool false, .bool true | .bool false, .obj _
  | .bool true, .bool false | .bool true, .bool true | .bool true, .obj _
  | .obj _, .bool false | .obj _, .bool true => norm_num [openness, rank, Effect.Sound]
  | .obj fs, .obj gs => exact absurd (.inl ⟨fs, gs, rfl, rfl⟩) hunlike

theorem schemaEffect_sound {last : String}
    (hneutral : last ∉ upperBounds ++ lowerBounds ++ ["uniqueItems", "nullable", "properties"])
    (hv : v.schemaLike = true) (hw : w.schemaLike = true) (hunlike : ¬ Alike v w) :
    (keywordEffect last false .modified v w).Sound (accepts check v x = true)
      (accepts check w x = true) := by
  have hnull : ∀ u : Json, u.schemaLike = true → u ≠ .null ∧ typeSet u = none := by
    intro u hu
    cases u <;> simp_all [Json.schemaLike, typeSet]
  simp only [List.mem_append, not_or] at hneutral
  have hbounds : (upperBounds.contains last || lowerBounds.contains last) = false := by
    simpa using hneutral.1
  have hflags : last ≠ "uniqueItems" ∧ last ≠ "nullable" := by
    simp only [List.mem_cons, not_or] at hneutral
    exact ⟨hneutral.2.1, hneutral.2.2.1⟩
  simp only [keywordEffect, Bool.false_eq_true, if_false, hbounds, hflags.1, hflags.2,
    (hnull v hv).1, (hnull w hw).1, decide_false, Bool.or_false, Bool.and_false]
  split
  · simp [typeEffect, (hnull v hv).2, Effect.Sound]
  · split
    · exact openness_sound hv hw hunlike
    · exact trivial

theorem substitutes_of_unlike (hv : v.schemaLike = true) (hw : w.schemaLike = true)
    (hunlike : ¬ Alike v w) : Substitutes check dir v w := by
  intro path h hclean x
  by_cases hne : v = w
  · exact .of_iff (by rw [hne])
  · rw [diffJSON_of_unlike hne hunlike] at hclean
    have hgrade := byPosition_of_nonBreaking h.toGraded (hclean _ (List.mem_singleton_self _))
      (.inr (.inl rfl))
    exact (schemaEffect_sound h.neutral hv hw hunlike).refines hgrade

/-! ## Keywords of one schema -/

/-- The keyword, if it is there, accepts every part of the instance it is
about. -/
def Covers (check : String → Json → Json → Bool) (about : Json → Prop) (a : Option Json) : Prop :=
  ∀ v, a = some v → ∀ y, about y → accepts check v y = true

section OneSchema

variable {about : Json → Prop}

theorem covers_refines (h : ∀ y, dir.Refines (accepts check v y = true) (accepts check w y = true)) :
    dir.Refines (Covers check about (some v)) (Covers check about (some w)) := by
  have hcovers : ∀ u, Covers check about (some u) ↔ ∀ y, about y → accepts check u y = true := by
    simp [Covers]
  refine Direction.Refines.congr (.all fun y => ?_) (hcovers v) (hcovers w)
  exact (h y).imp (.of_iff Iff.rfl)

theorem oneSided_sound (ha : ∀ v, a = some v → v.schemaLike = true)
    (hb : ∀ w, b = some w → w.schemaLike = true) (hone : a = none ∨ b = none) :
    (rank (openness (a.getD .null)) (openness (b.getD .null))).Sound (Covers check about a)
      (Covers check about b) := by
  have hnone : Covers check about none := nofun
  have hbool : Covers check about (some (.bool true)) := by simp [Covers]
  match a, b with
  | none, none => norm_num [openness, rank, Effect.Sound, hnone]
  | none, some (.bool true) => norm_num [openness, rank, Effect.Sound, hnone, hbool]
  | none, some (.bool false) | none, some (.obj _) => norm_num [openness, rank, Effect.Sound, hnone]
  | some (.bool true), none => norm_num [openness, rank, Effect.Sound, hnone, hbool]
  | some (.bool false), none | some (.obj _), none => norm_num [openness, rank, Effect.Sound, hnone]
  | none, some .null | none, some (.num _) | none, some (.str _) | none, some (.arr _) =>
    exact absurd (hb _ rfl) (by simp [Json.schemaLike])
  | some .null, none | some (.num _), none | some (.str _), none | some (.arr _), none =>
    exact absurd (ha _ rfl) (by simp [Json.schemaLike])
  | some _, some _ => simp at hone

theorem keywordEffect_openness
    (hk : k ∈ ["additionalProperties", "unevaluatedProperties", "items"]) (ct : ChangeType) :
    keywordEffect k false ct v w = rank (openness v) (openness w) := by
  simp only [List.mem_cons, List.not_mem_nil, or_false] at hk
  rcases hk with rfl | rfl | rfl <;> simp [keywordEffect, upperBounds, lowerBounds]

/-- A keyword that holds one schema, ranked by its openness or by being
there. -/
theorem oneSchema_refines (h : SchemaAt path) (hk : Keyword k)
    (hneutral : k ∉ upperBounds ++ lowerBounds ++ ["uniqueItems", "nullable", "properties"])
    (hranked : k ∈ ["additionalProperties", "unevaluatedProperties", "items"] ∨ k ∈ presenceKeywords)
    (ha : ∀ v, a = some v → v.schemaLike = true) (hb : ∀ w, b = some w → w.schemaLike = true)
    (hsub : ∀ v w, a = some v → b = some w → Substitutes check dir v w)
    (hclean : KeyClean dir path k a b) :
    dir.Refines (Covers check about a) (Covers check about b) := by
  by_cases hone : a = none ∨ b = none
  · have hsound : ∀ ct, (keywordEffect k false ct (a.getD .null) (b.getD .null)).Sound
        (Covers check about a) (Covers check about b) := by
      intro ct
      rcases hranked with hopenness | hpresence
      · rw [keywordEffect_openness hopenness]
        exact oneSided_sound ha hb hone
      · apply presence_sound hpresence
        · rintro rfl
          exact absurd (ha _ rfl) (by simp [Json.schemaLike])
        · rintro rfl
          exact absurd (hb _ rfl) (by simp [Json.schemaLike])
        · rintro rfl
          exact nofun
        · rintro rfl
          exact nofun
    refine hclean.refines hk h.toGraded h.last (by rintro rfl; rfl) ?_ hsound
    rintro v w rfl rfl
    simp at hone
  · match a, b with
    | none, _ => simp at hone
    | some _, none => simp at hone
    | some v, some w =>
      exact covers_refines (hsub v w rfl rfl _ (h.keyword hk hneutral) hclean)

end OneSchema

/-! ## Properties -/

theorem properties_refines (h : SchemaAt path) {ps qs : List (String × Json)}
    (hnames : ∀ n, n ∈ ps.map Prod.fst ↔ n ∈ qs.map Prod.fst)
    (hplain : ∀ n ∈ ps.map Prod.fst, PlainName n)
    (hsub : ∀ n s t, ps.lookup n = some s → qs.lookup n = some t → Substitutes check dir s t)
    (hclean : Clean (diffJSON dir (.obj ps) (path ++ ".properties") (.obj qs))) :
    dir.Refines (HoldsAt check A "properties" (some (.obj ps)) x)
      (HoldsAt check A "properties" (some (.obj qs)) x) := by
  have hholds : ∀ rs : List (String × Json), HoldsAt check A "properties" (some (.obj rs)) x ↔
      ∀ n y, x.fields.lookup n = some y → ∀ s, rs.lookup n = some s → accepts check s y = true := by
    intro rs
    rw [holdsAt_some, holds_properties]
    exact ⟨fun h n y hy s hs => h n s y hs hy, fun h n s y hs hy => h n y hy s hs⟩
  refine Direction.Refines.congr (.all fun n => .all fun y => .all fun _ => ?_) (hholds ps)
    (hholds qs)
  cases hs : ps.lookup n with
  | none =>
    have hnone : qs.lookup n = none := by
      by_contra hsome
      obtain ⟨t, ht⟩ := Option.ne_none_iff_exists'.mp hsome
      obtain ⟨s, hs'⟩ := exists_lookup_of_mem_keys ((hnames n).mpr (mem_keys_of_lookup ht))
      rw [hs] at hs'
      cases hs'
    exact .of_iff (by simp [hnone])
  | some s =>
    obtain ⟨t, ht⟩ := exists_lookup_of_mem_keys ((hnames n).mp (mem_keys_of_lookup hs))
    have hwalk := clean_both hclean hs ht
    have hrefines := hsub n s t hs ht _ (h.property (hplain n (mem_keys_of_lookup hs))) hwalk y
    simpa [ht] using hrefines

/-! ## Lists of schemas -/

section Lists

variable {ss ts : List Json} (h : SchemaAt path) (hk : Keyword k)
  (hneutral : k ∉ upperBounds ++ lowerBounds ++ ["uniqueItems", "nullable", "properties"])
  (hsub : ∀ (i : ℕ) s t, ss[i]? = some s → ts[i]? = some t → Substitutes check dir s t)
  (hclean : Clean (diffJSON dir (.arr ss) (path ++ "." ++ k) (.arr ts)))

include h hk hneutral hsub hclean

/-- What depends on the schemas at a position refines when the effects of adding
and removing one are sound. -/
theorem entry_refines (hne : ss ≠ ts) (hscalars : ¬ (scalars ss = true ∧ scalars ts = true))
    {P : Option Json → Prop} (hadded : ∀ t, (entryEffect k .added).Sound (P none) (P (some t)))
    (hremoved : ∀ s, (entryEffect k .removed).Sound (P (some s)) (P none))
    (hboth : ∀ s, P (some s) ↔ accepts check s x = true) (i : ℕ) :
    dir.Refines (P ss[i]?) (P ts[i]?) := by
  have heffect : ∀ {ct old new},
      classifySchemaChange dir (path ++ "." ++ k) true ct old new = .nonBreaking →
        byPosition dir (entryEffect k ct) = .nonBreaking :=
    byPosition_of_keyword h.toGraded hk.plain hk.undocumented h.last hk.ne
  have hentry := fun hi => clean_entry hclean hne hscalars (i := i) hi
  cases hs : ss[i]? with
  | none =>
    cases ht : ts[i]? with
    | none => exact .of_iff Iff.rfl
    | some t =>
      have hi := (List.getElem?_eq_some_iff.mp ht).1
      have hwalk := hentry (lt_of_lt_of_le hi (le_max_right _ _))
      rw [hs, ht] at hwalk
      exact (hadded t).refines (heffect (hwalk _ (List.mem_singleton_self _)))
  | some s =>
    have hi := (List.getElem?_eq_some_iff.mp hs).1
    have hwalk := hentry (lt_of_lt_of_le hi (le_max_left _ _))
    rw [hs] at hwalk
    cases ht : ts[i]? with
    | none =>
      rw [ht] at hwalk
      exact (hremoved s).refines (heffect (hwalk _ (List.mem_singleton_self _)))
    | some t =>
      rw [ht] at hwalk
      exact (hsub i s t hs ht _ ((h.keyword hk hneutral).entry i) hwalk x).congr (hboth s) (hboth t)

/-- A list of alternative schemas refines. -/
theorem anyOf_refines (hgrows : ∀ ct, entryEffect k ct = grows ct) :
    dir.Refines (∃ s ∈ ss, accepts check s x = true) (∃ t ∈ ts, accepts check t x = true) := by
  by_cases hne : ss = ts
  · exact .of_iff (by rw [hne])
  by_cases hscalars : scalars ss = true ∧ scalars ts = true
  · have hgraded := entriesGraded hk h.toGraded h.last hscalars.1 hscalars.2 hclean
    exact .any fun s => hgraded.refines (P := (· ∧ accepts check s x = true))
      (by simp [hgrows, grows, Effect.Sound]) (by simp [hgrows, grows, Effect.Sound]) s
  have hindex : ∀ l : List Json, (∃ s ∈ l, accepts check s x = true) ↔
      ∃ i : ℕ, ∃ s, l[i]? = some s ∧ accepts check s x = true := by
    intro l
    simp only [List.mem_iff_getElem?]
    constructor
    · rintro ⟨s, ⟨i, hi⟩, hs⟩
      exact ⟨i, s, hi, hs⟩
    · rintro ⟨i, s, hi, hs⟩
      exact ⟨s, ⟨i, hi⟩, hs⟩
  refine Direction.Refines.congr (.any fun i => ?_) (hindex ss) (hindex ts)
  refine entry_refines (P := fun c => ∃ s, c = some s ∧ accepts check s x = true) h hk hneutral hsub
    hclean hne hscalars ?_ ?_ (x := x) ?_ i
  all_goals simp [hgrows, grows, Effect.Sound]

theorem allOf_refines
    (hconditions : ∀ ct, entryEffect k ct = if ct = .added then .narrow else .widen) :
    dir.Refines (∀ s ∈ ss, accepts check s x = true) (∀ t ∈ ts, accepts check t x = true) := by
  by_cases hne : ss = ts
  · exact .of_iff (by rw [hne])
  by_cases hscalars : scalars ss = true ∧ scalars ts = true
  · have hgraded := entriesGraded hk h.toGraded h.last hscalars.1 hscalars.2 hclean
    exact .all fun s => hgraded.refines (P := (· → accepts check s x = true))
      (by simp [hconditions, Effect.Sound]) (by simp [hconditions, Effect.Sound]) s
  have hindex : ∀ l : List Json, (∀ s ∈ l, accepts check s x = true) ↔
      ∀ i : ℕ, ∀ s, l[i]? = some s → accepts check s x = true := by
    intro l
    simp only [List.mem_iff_getElem?]
    constructor
    · exact fun h i s hi => h s ⟨i, hi⟩
    · rintro h s ⟨i, hi⟩
      exact h i s hi
  refine Direction.Refines.congr (.all fun i => ?_) (hindex ss) (hindex ts)
  refine entry_refines (P := fun c => ∀ s, c = some s → accepts check s x = true) h hk hneutral hsub
    hclean hne hscalars ?_ ?_ (x := x) ?_ i
  all_goals simp [hconditions, Effect.Sound]

end Lists

end Pacto.Diff
