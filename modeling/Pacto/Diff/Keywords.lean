import Mathlib.Tactic.Linarith
import Pacto.Diff.Position

/-!
# The keywords that hold no schema

Each keyword that constrains an instance by a value of its own (a type, a bound,
a list of values or names, a flag or a check left open) refines where the walk
grades its edit `NON_BREAKING`, if its value has the shape the keyword asks for.
-/

namespace Pacto.Diff

open Delivery Support DottedPath Schema

/-- A number. -/
def isNum : Json → Bool
  | .num _ => true
  | _ => false

/-- The values a keyword without schemas takes. -/
def leafShape (k : String) (v : Json) : Bool :=
  if upper.contains k || lower.contains k || ["minContains", "maxContains"].contains k then isNum v
  else
    match k, v with
    | "type", .str _ => true
    | "type", .arr ts => ts.all (·.isStr)
    | "enum", .arr xs => scalars xs
    | "required", .arr xs => xs.all (·.isStr)
    | "uniqueItems", .bool _ => true
    | "const", v | "pattern", v | "format", v | "multipleOf", v => v.scalar && v ≠ .null
    | _, _ => false

variable {check : String → Json → Json → Bool} {dir : Direction} {path k : String}
  {A B : List (String × Json)} {a b : Option Json} {v w x : Json}

def HoldsAt (check : String → Json → Json → Bool) (siblings : List (String × Json)) (k : String)
    (a : Option Json) (x : Json) : Prop :=
  ∀ v, a = some v → holds check siblings k v (reading check v) x = true

theorem holdsAt_none : HoldsAt check A k none x := nofun

theorem holdsAt_some : HoldsAt check A k (some v) x ↔
    holds check A k v (reading check v) x = true := by
  simp [HoldsAt]

theorem accepts_obj_iff : accepts check (.obj A) x = true ↔
    ∀ k, HoldsAt check A k (A.lookup k) x :=
  accepts_obj

/-- Most keywords do not read their neighbours. -/
theorem holdsAt_siblings (hadditional : k ≠ "additionalProperties") (hcontains : k ≠ "contains") :
    HoldsAt check A k a x ↔ HoldsAt check B k a x := by
  have hholds : ∀ v r, holds check A k v r x = holds check B k v r x := by
    intro v r
    unfold holds
    split_ifs with hupper hlower
    · rfl
    · rfl
    · split <;> first | rfl | contradiction
  simp only [HoldsAt, hholds]

/-! ## One key of an uneventful walk -/

/-- What an uneventful walk says about one key. -/
def KeyClean (dir : Direction) (path k : String) (a b : Option Json) : Prop :=
  match a, b with
  | none, none => True
  | none, some w =>
    classifySchemaChange dir (path ++ "." ++ k) false .added .null w = .nonBreaking
  | some v, none =>
    classifySchemaChange dir (path ++ "." ++ k) false .removed v .null = .nonBreaking
  | some v, some w => Clean (diffJSON dir v (path ++ "." ++ k) w)

theorem keyClean_of_clean (h : Clean (diffJSON dir (.obj A) path (.obj B))) (k : String) :
    KeyClean dir path k (A.lookup k) (B.lookup k) := by
  cases hold : A.lookup k with
  | none =>
    cases hnew : B.lookup k with
    | none => exact trivial
    | some w => exact clean_added h hold hnew
  | some v =>
    cases hnew : B.lookup k with
    | none => exact clean_removed h hold hnew
    | some w => exact clean_both h hold hnew

/-- A keyword whose edits are graded by their effect. -/
structure Keyword (k : String) : Prop where
  plain : Plain k
  undocumented : k ∉ docKeywords
  ne : k ≠ "properties"

instance (k : String) : Decidable (Keyword k) :=
  decidable_of_iff (Plain k ∧ k ∉ docKeywords ∧ k ≠ "properties")
    ⟨fun h => ⟨h.1, h.2.1, h.2.2⟩, fun h => ⟨h.plain, h.undocumented, h.ne⟩⟩

/-- Two objects or two arrays, which are compared part by part. -/
def Alike (v w : Json) : Prop :=
  (∃ fs gs, v = .obj fs ∧ w = .obj gs) ∨ ∃ xs ys, v = .arr xs ∧ w = .arr ys

theorem diffJSON_of_unlike (hne : v ≠ w) (h : ¬ Alike v w) :
    diffJSON dir v path w = [specChange dir path .modified v w] := by
  cases v <;> cases w <;> simp_all [diffJSON, Alike]

/-- An uneventful key is unchanged, compared part by part, or one edit with a
harmless effect. -/
theorem KeyClean.cases (hclean : KeyClean dir path k a b) (hk : Keyword k) (h : Graded path)
    (hlast : lastSegment path ≠ "properties") :
    a = b ∨ (∃ v w, a = some v ∧ b = some w ∧ Alike v w ∧
        Clean (diffJSON dir v (path ++ "." ++ k) w)) ∨
      ∃ ct, byPosition dir (keywordEffect k false ct (a.getD .null) (b.getD .null)) =
        .nonBreaking := by
  have heffect : ∀ {ct old new},
      classifySchemaChange dir (path ++ "." ++ k) false ct old new = .nonBreaking →
        byPosition dir (keywordEffect k false ct old new) = .nonBreaking :=
    byPosition_of_keyword h hk.plain hk.undocumented hlast hk.ne
  match a, b with
  | none, none => exact .inl rfl
  | none, some w => exact .inr (.inr ⟨_, heffect hclean⟩)
  | some v, none => exact .inr (.inr ⟨_, heffect hclean⟩)
  | some v, some w =>
    by_cases hne : v = w
    · exact .inl (by rw [hne])
    · right
      by_cases halike : Alike v w
      · exact .inl ⟨v, w, rfl, rfl, halike, hclean⟩
      · right
        have hone : Clean (diffJSON dir v (path ++ "." ++ k) w) := hclean
        rw [diffJSON_of_unlike hne halike] at hone
        exact ⟨_, heffect (hone _ (List.mem_singleton_self _))⟩

/-! ## Bounds and flags -/

theorem keyword_of_upper (hk : k ∈ upper) : Keyword k := by
  simp only [upper, List.mem_cons, List.not_mem_nil, or_false] at hk
  rcases hk with rfl | rfl | rfl | rfl <;> decide

theorem keyword_of_lower (hk : k ∈ lower) : Keyword k := by
  simp only [lower, List.mem_cons, List.not_mem_nil, or_false] at hk
  rcases hk with rfl | rfl | rfl | rfl <;> decide

theorem bound_sound {sign : ℚ} {bounded : Json → Prop}
    (hmono : ∀ p q : ℚ, sign * p ≤ sign * q → bounded (.num p) → bounded (.num q))
    (ha : ∀ v, a = some v → isNum v = true) (hb : ∀ w, b = some w → isNum w = true) :
    (rank (number (a.getD .null) sign) (number (b.getD .null) sign)).Sound
      (∀ v, a = some v → bounded v) (∀ w, b = some w → bounded w) := by
  have hvalue : ∀ {c : Option Json}, (∀ v, c = some v → isNum v = true) →
      c = none ∨ ∃ q, c = some (.num q) := by
    intro c hc
    match c with
    | none => exact .inl rfl
    | some (.num q) => exact .inr ⟨q, rfl⟩
    | some .null | some (.bool _) | some (.str _) | some (.arr _) | some (.obj _) =>
      exact absurd (hc _ rfl) (by simp [isNum])
  rcases hvalue ha with rfl | ⟨p, rfl⟩ <;> rcases hvalue hb with rfl | ⟨q, rfl⟩ <;>
    apply rank_sound <;> simp [number]
  exact ⟨hmono p q, hmono q p⟩

theorem upper_sound (hk : k ∈ upper) (ha : ∀ v, a = some v → isNum v = true)
    (hb : ∀ w, b = some w → isNum w = true) (ct : ChangeType) :
    (keywordEffect k false ct (a.getD .null) (b.getD .null)).Sound (HoldsAt check A k a x)
      (HoldsAt check A k b x) := by
  have heffect : ∀ v w, keywordEffect k false ct v w = rank (number v 1) (number w 1) := by
    simp only [upper, List.mem_cons, List.not_mem_nil, or_false] at hk
    intro v w
    rcases hk with rfl | rfl | rfl | rfl <;>
      simp [keywordEffect, boundEffect, upperBounds, hasPrefix]
  have hholds : ∀ v, holds check A k v (reading check v) x = atMost v (measure k x) := by
    simp [holds, hk]
  rw [heffect]
  simp only [HoldsAt, hholds]
  apply bound_sound _ ha hb
  intro p q hpq
  cases measure k x with
  | none => simp [atMost]
  | some m =>
    simp only [atMost, decide_eq_true_eq]
    intro hm
    linarith

theorem lower_sound (hk : k ∈ lower) (ha : ∀ v, a = some v → isNum v = true)
    (hb : ∀ w, b = some w → isNum w = true) (ct : ChangeType) :
    (keywordEffect k false ct (a.getD .null) (b.getD .null)).Sound (HoldsAt check A k a x)
      (HoldsAt check A k b x) := by
  have heffect : ∀ v w, keywordEffect k false ct v w = rank (number v (-1)) (number w (-1)) := by
    simp only [lower, List.mem_cons, List.not_mem_nil, or_false] at hk
    intro v w
    rcases hk with rfl | rfl | rfl | rfl <;>
      simp [keywordEffect, boundEffect, upperBounds, lowerBounds, hasPrefix]
  have hholds : ∀ v, holds check A k v (reading check v) x = atLeast v (measure k x) := by
    have hupper : k ∉ upper := by
      simp only [lower, List.mem_cons, List.not_mem_nil, or_false] at hk
      rcases hk with rfl | rfl | rfl | rfl <;> decide
    simp [holds, hk, hupper]
  rw [heffect]
  simp only [HoldsAt, hholds]
  apply bound_sound _ ha hb
  intro p q hpq
  cases measure k x with
  | none => simp [atLeast]
  | some m =>
    simp only [atLeast, decide_eq_true_eq]
    intro hm
    linarith

theorem uniqueItems_sound (ha : ∀ v, a = some v → isBool v = true)
    (hb : ∀ w, b = some w → isBool w = true) (ct : ChangeType) :
    (keywordEffect "uniqueItems" false ct (a.getD .null) (b.getD .null)).Sound
      (HoldsAt check A "uniqueItems" a x) (HoldsAt check A "uniqueItems" b x) := by
  have hvalue : ∀ {c : Option Json}, (∀ v, c = some v → isBool v = true) →
      c = none ∨ ∃ flag, c = some (.bool flag) := by
    intro c hc
    match c with
    | none => exact .inl rfl
    | some (.bool flag) => exact .inr ⟨flag, rfl⟩
    | some .null | some (.num _) | some (.str _) | some (.arr _) | some (.obj _) =>
      exact absurd (hc _ rfl) (by simp [isBool])
  have heffect : ∀ v w, keywordEffect "uniqueItems" false ct v w =
      rank (flag v true) (flag w true) := by
    simp [keywordEffect, upperBounds, lowerBounds]
  have hholds : ∀ v, holds check A "uniqueItems" v (reading check v) x =
      (v ≠ .bool true || decide x.elements.Nodup) := by
    simp [holds, upper, lower]
  rw [heffect]
  simp only [HoldsAt, hholds]
  rcases hvalue ha with rfl | ⟨_ | _, rfl⟩ <;> rcases hvalue hb with rfl | ⟨_ | _, rfl⟩ <;>
    simp [flag, rank, Effect.Sound, not_lt.mpr (zero_le_one (α := ℚ))]

/-! ## Keywords that constrain by being there -/

theorem keywordEffect_presence (hk : k ∈ presenceKeywords) {ct : ChangeType} :
    keywordEffect k false ct v w =
      if v = .null || w = .null then rank (presence v) (presence w) else .unknown := by
  simp only [presenceKeywords, List.mem_cons, List.not_mem_nil, or_false] at hk
  rcases hk with rfl | rfl | rfl | rfl | rfl | rfl | rfl | rfl | rfl | rfl | rfl | rfl <;>
    simp [keywordEffect, upperBounds, lowerBounds, presenceKeywords]

theorem presence_sound {P Q : Prop} (hk : k ∈ presenceKeywords) (ha : a ≠ some .null)
    (hb : b ≠ some .null) (hP : a = none → P) (hQ : b = none → Q) (ct : ChangeType) :
    (keywordEffect k false ct (a.getD .null) (b.getD .null)).Sound P Q := by
  rw [keywordEffect_presence hk]
  match a, b with
  | none, none => simp [presence, rank, Effect.Sound, hP rfl, hQ rfl]
  | none, some w =>
    have hw : w ≠ .null := by simpa using hb
    simp [presence, rank, Effect.Sound, hw, hP rfl, not_lt.mpr (zero_le_one (α := ℚ))]
  | some v, none =>
    have hv : v ≠ .null := by simpa using ha
    simp [presence, rank, Effect.Sound, hv, hQ rfl]
  | some v, some w =>
    have hv : v ≠ .null := by simpa using ha
    have hw : w ≠ .null := by simpa using hb
    simp [hv, hw, Effect.Sound]

/-! ## Types -/

theorem toStringSlice_eq {ts : List Json} (hts : ts.all (·.isStr) = true) :
    toStringSlice ts = some (typeNames (.arr ts)) := by
  induction ts with
  | nil => rfl
  | cons t ts ih =>
    rw [List.all_cons, Bool.and_eq_true] at hts
    cases t with
    | str s => simp [toStringSlice, ih hts.2, typeNames]
    | _ => simp [Json.isStr] at hts

theorem hasType_of_cover {n o : List String} (hcover : typesCover (some n) (some o) = true)
    (h : ∃ t ∈ o, hasType x t = true) : ∃ t ∈ n, hasType x t = true := by
  obtain ⟨t, ht, hx⟩ := h
  have hcovered := List.all_eq_true.mp hcover t ht
  simp only [Bool.or_eq_true, List.contains_iff_mem, Bool.and_eq_true, decide_eq_true_eq] at hcovered
  rcases hcovered with hmem | ⟨rfl, hmem⟩
  · exact ⟨t, hmem, hx⟩
  · refine ⟨"number", hmem, ?_⟩
    cases x <;> simp_all [hasType]

theorem type_sound (ha : ∀ v, a = some v → leafShape "type" v = true)
    (hb : ∀ w, b = some w → leafShape "type" w = true) (ct : ChangeType) :
    (keywordEffect "type" false ct (a.getD .null) (b.getD .null)).Sound
      (HoldsAt check A "type" a x) (HoldsAt check A "type" b x) := by
  have hset : ∀ {c : Option Json}, (∀ v, c = some v → leafShape "type" v = true) →
      typeSet (c.getD .null) = some (c.map typeNames) := by
    intro c hc
    rcases c with _ | _ | _ | _ | t | ts | _
    · rfl
    · exact absurd (hc _ rfl) (by simp [leafShape, upper, lower])
    · exact absurd (hc _ rfl) (by simp [leafShape, upper, lower])
    · exact absurd (hc _ rfl) (by simp [leafShape, upper, lower])
    · rfl
    · have hts : ts.all (·.isStr) = true := by simpa [leafShape, upper, lower] using hc _ rfl
      simp [typeSet, toStringSlice_eq hts]
    · exact absurd (hc _ rfl) (by simp [leafShape, upper, lower])
  have heffect : keywordEffect "type" false ct (a.getD .null) (b.getD .null) =
      typeEffect (a.getD .null) (b.getD .null) := by
    simp [keywordEffect, upperBounds, lowerBounds]
  have hholds : ∀ v, holds check A "type" v (reading check v) x = true ↔
      ∃ t ∈ typeNames v, hasType x t = true := by
    simp [holds, upper, lower]
  rw [heffect, typeEffect, hset ha, hset hb]
  simp only [HoldsAt, hholds]
  rcases a with _ | v <;> rcases b with _ | w
  · simp [typesCover, Effect.Sound]
  · simp [typesCover, Effect.Sound]
  · simp [typesCover, Effect.Sound]
  · simp only [Option.map_some, Option.some.injEq, forall_eq']
    cases hwiden : typesCover (some (typeNames w)) (some (typeNames v)) <;>
      cases hnarrow : typesCover (some (typeNames v)) (some (typeNames w))
    · exact trivial
    · exact hasType_of_cover hnarrow
    · exact hasType_of_cover hwiden
    · exact ⟨hasType_of_cover hwiden, hasType_of_cover hnarrow⟩

/-! ## Lists compared as sets -/

section Sets

variable {xs ys : List Json}

/-- What only one of two lists holds is an edit with a harmless effect. -/
structure EntriesGraded (dir : Direction) (k : String) (xs ys : List Json) : Prop where
  added : ∀ s ∈ ys, s ∉ xs → byPosition dir (entryEffect k .added) = .nonBreaking
  removed : ∀ s ∈ xs, s ∉ ys → byPosition dir (entryEffect k .removed) = .nonBreaking

/-- An uneventful walk over two lists of scalars. -/
theorem entriesGraded (hk : Keyword k) (h : Graded path) (hlast : lastSegment path ≠ "properties")
    (hxs : scalars xs = true) (hys : scalars ys = true)
    (hclean : Clean (diffJSON dir (.arr xs) (path ++ "." ++ k) (.arr ys))) :
    EntriesGraded dir k xs ys := by
  by_cases hne : xs = ys
  · subst hne
    exact ⟨fun s hs hnot => absurd hs hnot, fun s hs hnot => absurd hs hnot⟩
  have hsets := clean_sets hclean hne hxs hys
  have heffect : ∀ {ct old new},
      classifySchemaChange dir (path ++ "." ++ k) true ct old new = .nonBreaking →
        byPosition dir (entryEffect k ct) = .nonBreaking :=
    byPosition_of_keyword h hk.plain hk.undocumented hlast hk.ne
  constructor
  · intro s hs hnot
    have hmem : s ∈ ys.filter fun s => !xs.contains s :=
      List.mem_filter.mpr ⟨hs, by simpa using hnot⟩
    exact heffect (hsets _ (List.mem_append_left _ (List.mem_map_of_mem hmem)))
  · intro s hs hnot
    have hmem : s ∈ xs.filter fun s => !ys.contains s :=
      List.mem_filter.mpr ⟨hs, by simpa using hnot⟩
    exact heffect (hsets _ (List.mem_append_right _ (List.mem_map_of_mem hmem)))

/-- What depends on an entry being there refines when the effects of adding and
removing it are sound. -/
theorem EntriesGraded.refines {P : Prop → Prop} (h : EntriesGraded dir k xs ys)
    (hadded : (entryEffect k .added).Sound (P False) (P True))
    (hremoved : (entryEffect k .removed).Sound (P True) (P False)) (s : Json) :
    dir.Refines (P (s ∈ xs)) (P (s ∈ ys)) := by
  by_cases hold : s ∈ xs <;> by_cases hnew : s ∈ ys <;> simp only [hold, hnew]
  · exact .of_iff Iff.rfl
  · exact hremoved.refines (h.removed s hold hnew)
  · exact hadded.refines (h.added s hnew hold)
  · exact .of_iff Iff.rfl

end Sets

theorem scalars_of_strings {xs : List Json} (h : xs.all (·.isStr) = true) : scalars xs = true := by
  rw [scalars, List.all_eq_true]
  intro x hx
  have hstr := List.all_eq_true.mp h x hx
  cases x <;> simp_all [Json.isStr, Json.scalar]

theorem holdsAt_enum : HoldsAt check A "enum" (some v) x ↔ x ∈ v.elements := by
  simp [holdsAt_some, holds, upper, lower]

theorem enum_entries_refines {xs ys : List Json} (h : EntriesGraded dir "enum" xs ys) :
    dir.Refines (HoldsAt check A "enum" (some (.arr xs)) x)
      (HoldsAt check A "enum" (some (.arr ys)) x) := by
  refine Direction.Refines.congr ?_ holdsAt_enum holdsAt_enum
  exact h.refines (P := id) (by simp [entryEffect, grows, Effect.Sound])
    (by simp [entryEffect, grows, Effect.Sound]) x

theorem type_refines {xs ys : List Json} (h : EntriesGraded dir "type" xs ys) :
    dir.Refines (HoldsAt check A "type" (some (.arr xs)) x)
      (HoldsAt check A "type" (some (.arr ys)) x) := by
  have hnames : ∀ (zs : List Json) t, t ∈ typeNames (.arr zs) ↔ Json.str t ∈ zs := by
    intro zs t
    simp only [typeNames, List.mem_filterMap]
    constructor
    · rintro ⟨s, hs, heq⟩
      split at heq <;> simp_all
    · exact fun ht => ⟨_, ht, rfl⟩
  have hholds : ∀ zs : List Json, HoldsAt check A "type" (some (.arr zs)) x ↔
      ∃ t, Json.str t ∈ zs ∧ hasType x t = true := by
    intro zs
    simp [holdsAt_some, holds, upper, lower, hnames]
  refine Direction.Refines.congr (.any fun t => ?_) (hholds xs) (hholds ys)
  exact h.refines (P := (· ∧ hasType x t = true)) (by simp [entryEffect, grows, Effect.Sound])
    (by simp [entryEffect, grows, Effect.Sound]) (.str t)

theorem required_refines {xs ys : List Json} (h : EntriesGraded dir "required" xs ys) :
    dir.Refines (HoldsAt check A "required" (some (.arr xs)) x)
      (HoldsAt check A "required" (some (.arr ys)) x) := by
  have hholds : ∀ zs : List Json, HoldsAt check A "required" (some (.arr zs)) x ↔
      ∀ s, s ∈ zs → hasNames [s] x = true := by
    intro zs
    cases x <;> simp [holdsAt_some, holds, upper, lower, Json.elements, hasNames]
  refine Direction.Refines.congr (.all fun s => ?_) (hholds xs) (hholds ys)
  exact h.refines (P := (· → hasNames [s] x = true)) (by simp [entryEffect, Effect.Sound])
    (by simp [entryEffect, Effect.Sound]) s

/-! ## Any of them -/

/-- An uneventful key refines when its edits have a sound effect and so have
the comparisons part by part. -/
theorem KeyClean.refines {P Q : Prop} (hclean : KeyClean dir path k a b) (hk : Keyword k)
    (h : Graded path) (hlast : lastSegment path ≠ "properties") (hsame : a = b → (P ↔ Q))
    (hparts : ∀ v w, a = some v → b = some w → Alike v w →
      Clean (diffJSON dir v (path ++ "." ++ k) w) → dir.Refines P Q)
    (hsound : ∀ ct, (keywordEffect k false ct (a.getD .null) (b.getD .null)).Sound P Q) :
    dir.Refines P Q := by
  rcases hclean.cases hk h hlast with heq | ⟨v, w, hv, hw, halike, hparted⟩ | ⟨ct, hgrade⟩
  · exact .of_iff (hsame heq)
  · exact hparts v w hv hw halike hparted
  · exact (hsound ct).refines hgrade

theorem leaf_cases (h : leafShape k v = true) :
    k ∈ upper ∨ k ∈ lower ∨ k ∈ ["minContains", "maxContains"] ∨
      k ∈ ["type", "enum", "required", "uniqueItems", "const", "pattern", "format", "multipleOf"] := by
  unfold leafShape at h
  split at h
  · next hbound =>
    simp only [Bool.or_eq_true, List.contains_iff_mem] at hbound
    rcases hbound with (hk | hk) | hk
    · exact .inl hk
    · exact .inr (.inl hk)
    · exact .inr (.inr (.inl hk))
  · split at h <;> simp_all

theorem isNum_of_leaf (h : leafShape k v = true)
    (hk : k ∈ upper ∨ k ∈ lower ∨ k ∈ ["minContains", "maxContains"]) : isNum v = true := by
  have hbound : (upper.contains k || lower.contains k ||
      ["minContains", "maxContains"].contains k) = true := by
    simpa [or_assoc] using hk
  unfold leafShape at h
  rwa [if_pos hbound] at h

theorem not_alike_of_num (hv : isNum v = true) : ¬ Alike v w := by
  cases v <;> simp_all [isNum, Alike]

theorem not_alike_of_scalar (hv : v.scalar = true) : ¬ Alike v w := by
  cases v <;> simp_all [Json.scalar, Alike]

theorem ne_null_of_leaf (ha : ∀ v, a = some v → leafShape k v = true)
    (hk : k ∈ presenceKeywords) : a ≠ some .null := by
  have hnull : leafShape k .null = false := by
    simp only [presenceKeywords, List.mem_cons, List.not_mem_nil, or_false] at hk
    rcases hk with rfl | rfl | rfl | rfl | rfl | rfl | rfl | rfl | rfl | rfl | rfl | rfl <;> decide
  rintro rfl
  exact absurd (ha _ rfl) (by simp [hnull])

section Leaves

variable (h : Graded path) (hlast : lastSegment path ≠ "properties")
  (ha : ∀ v, a = some v → leafShape k v = true) (hb : ∀ w, b = some w → leafShape k w = true)
  (hclean : KeyClean dir path k a b)

include h hlast ha hb hclean

theorem bound_leaf (hk : k ∈ upper ∨ k ∈ lower) :
    dir.Refines (HoldsAt check A k a x) (HoldsAt check A k b x) := by
  have hnum : ∀ v, leafShape k v = true → isNum v = true := fun v hv =>
    isNum_of_leaf hv (hk.imp_right .inl)
  have hparts : ∀ v w, a = some v → b = some w → Alike v w →
      Clean (diffJSON dir v (path ++ "." ++ k) w) →
        dir.Refines (HoldsAt check A k a x) (HoldsAt check A k b x) :=
    fun v w hv _ halike => absurd halike (not_alike_of_num (hnum v (ha v hv)))
  have hna := fun v hv => hnum v (ha v hv)
  have hnb := fun w hw => hnum w (hb w hw)
  rcases hk with hk | hk
  · exact hclean.refines (keyword_of_upper hk) h hlast (by rintro rfl; rfl) hparts
      (upper_sound hk hna hnb)
  · exact hclean.refines (keyword_of_lower hk) h hlast (by rintro rfl; rfl) hparts
      (lower_sound hk hna hnb)

/-- A keyword that holds a list compared as a set. -/
theorem list_leaf (hk : Keyword k) (hobj : ∀ fs, leafShape k (.obj fs) = false)
    (harr : ∀ xs, leafShape k (.arr xs) = true → scalars xs = true)
    (hsound : ∀ ct, (keywordEffect k false ct (a.getD .null) (b.getD .null)).Sound
      (HoldsAt check A k a x) (HoldsAt check A k b x))
    (hlists : ∀ xs ys, EntriesGraded dir k xs ys →
      dir.Refines (HoldsAt check A k (some (.arr xs)) x) (HoldsAt check A k (some (.arr ys)) x)) :
    dir.Refines (HoldsAt check A k a x) (HoldsAt check A k b x) := by
  refine hclean.refines hk h hlast (by rintro rfl; rfl) ?_ hsound
  rintro v w rfl rfl (⟨fs, gs, rfl, rfl⟩ | ⟨xs, ys, rfl, rfl⟩) hparts
  · exact absurd (ha _ rfl) (by simp [hobj])
  · exact hlists xs ys (entriesGraded hk h hlast (harr xs (ha _ rfl)) (harr ys (hb _ rfl)) hparts)

theorem type_leaf (hk : k = "type") :
    dir.Refines (HoldsAt check A k a x) (HoldsAt check A k b x) := by
  subst hk
  refine list_leaf h hlast ha hb hclean (by decide) (by simp [leafShape, upper, lower]) ?_
    (type_sound ha hb) fun _ _ => type_refines
  exact fun xs hxs => scalars_of_strings (by simpa [leafShape, upper, lower] using hxs)

theorem required_leaf (hk : k = "required") :
    dir.Refines (HoldsAt check A k a x) (HoldsAt check A k b x) := by
  subst hk
  refine list_leaf h hlast ha hb hclean (by decide) (by simp [leafShape, upper, lower]) ?_ ?_
    fun _ _ => required_refines
  · exact fun xs hxs => scalars_of_strings (by simpa [leafShape, upper, lower] using hxs)
  · exact presence_sound (by decide) (ne_null_of_leaf ha (by decide))
      (ne_null_of_leaf hb (by decide)) (fun hnone => hnone ▸ holdsAt_none)
      fun hnone => hnone ▸ holdsAt_none

theorem uniqueItems_leaf (hk : k = "uniqueItems") :
    dir.Refines (HoldsAt check A k a x) (HoldsAt check A k b x) := by
  subst hk
  have hbool : ∀ v, leafShape "uniqueItems" v = true → isBool v = true := by
    intro v hv
    cases v <;> simp_all [leafShape, upper, lower, isBool]
  refine hclean.refines (by decide) h hlast (by rintro rfl; rfl) ?_
    (uniqueItems_sound (fun v hv => hbool v (ha v hv)) fun w hw => hbool w (hb w hw))
  intro v w hv _ halike
  refine absurd halike (not_alike_of_scalar ?_)
  have hv' := hbool v (ha v hv)
  cases v <;> simp_all [isBool, Json.scalar]

theorem scalar_leaf (hk : k ∈ ["pattern", "format", "multipleOf"]) :
    dir.Refines (HoldsAt check A k a x) (HoldsAt check A k b x) := by
  have hpresence : k ∈ presenceKeywords ∧ Keyword k ∧ ∀ v, leafShape k v = true → v.scalar = true := by
    simp only [List.mem_cons, List.not_mem_nil, or_false] at hk
    rcases hk with rfl | rfl | rfl <;>
      exact ⟨by decide, by decide, fun v hv => by simp_all [leafShape, upper, lower]⟩
  obtain ⟨hpresent, hkeyword, hscalar⟩ := hpresence
  refine hclean.refines hkeyword h hlast (by rintro rfl; rfl) ?_
    (presence_sound hpresent (ne_null_of_leaf ha hpresent) (ne_null_of_leaf hb hpresent)
      (fun hnone => hnone ▸ holdsAt_none) fun hnone => hnone ▸ holdsAt_none)
  exact fun v w hv _ halike => absurd halike (not_alike_of_scalar (hscalar v (ha v hv)))

/-- Two values of a keyword that holds neither schemas nor instances refine where the
walk is uneventful. -/
theorem leaf_refines (hvalue : k ∉ ["const", "enum"]) :
    dir.Refines (HoldsAt check A k a x) (HoldsAt check A k b x) := by
  by_cases hsame : a = b
  · exact .of_iff (by rw [hsame])
  obtain ⟨v, hv⟩ : ∃ v, leafShape k v = true := by
    match a, b with
    | none, none => exact absurd rfl hsame
    | some v, _ => exact ⟨v, ha v rfl⟩
    | none, some w => exact ⟨w, hb w rfl⟩
  rcases leaf_cases hv with hk | hk | hk | hk
  · exact bound_leaf h hlast ha hb hclean (.inl hk)
  · exact bound_leaf h hlast ha hb hclean (.inr hk)
  · -- the bounds on `contains` constrain nothing themselves
    have hholds : ∀ c, HoldsAt check A k c x := by
      simp only [List.mem_cons, List.not_mem_nil, or_false] at hk
      rcases hk with rfl | rfl <;> simp [HoldsAt, holds, upper, lower]
    exact .of_iff ⟨fun _ => hholds b, fun _ => hholds a⟩
  · rw [List.mem_cons, List.mem_cons, List.mem_cons, List.mem_cons] at hk
    rcases hk with hk | hk | hk | hk | hk
    · exact type_leaf h hlast ha hb hclean hk
    · exact absurd (by simp [hk]) hvalue
    · exact required_leaf h hlast ha hb hclean hk
    · exact uniqueItems_leaf h hlast ha hb hclean hk
    · rcases List.mem_cons.mp hk with hk | hk
      · exact absurd (by simp [hk]) hvalue
      · exact scalar_leaf h hlast ha hb hclean hk

end Leaves

end Pacto.Diff
