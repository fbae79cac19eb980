import Pacto.Diff.Subschemas

/-!
# Counting keywords

`oneOf` counts the branches that accept an instance and `contains` the elements
it accepts.  Neither follows from its schemas alone: a branch that accepts more can
make a second one accept, and an element more can pass the most that is allowed.
Where one side leaves the least number of elements to its default, the walk ranks it
as no bound at all.  `CountsKept` says that none of this happens.
-/

namespace Pacto.Diff

open Delivery Support DottedPath Schema

variable {check : String → Json → Json → Bool} {dir : Direction} {path k : String}
  {A B : List (String × Json)} {a b : Option Json} {v w x : Json}

/-- The branches of a list of schemas that accept an instance. -/
def branches (check : String → Json → Json → Bool) (v x : Json) : ℕ :=
  v.elements.countP fun s => accepts check s x

/-- What the counting keywords of one side accept is not lost to the counts of the
other.  What exactly one branch accepts is not accepted by two.  `contains` accepts
the same elements where there is a most.  A least number below the default is not
dropped. -/
structure CountsKept (check : String → Json → Json → Bool) (A B : List (String × Json)) :
    Prop where
  oneOf : ∀ v w, A.lookup "oneOf" = some v → B.lookup "oneOf" = some w →
    ∀ x, branches check v x = 1 → branches check w x ≤ 1
  most : ∀ v w, A.lookup "contains" = some v → B.lookup "contains" = some w →
    numberOf B "maxContains" = none ∨ ∀ y, accepts check v y = accepts check w y
  least : ∀ v w, A.lookup "contains" = some v → B.lookup "contains" = some w →
    ∀ q, numberOf A "minContains" = some q → numberOf B "minContains" = none → 1 ≤ q

theorem numberOf_congr (h : A.lookup k = B.lookup k) : numberOf A k = numberOf B k := by
  rw [numberOf, numberOf, h]

/-- Nothing is lost where the counts do not change. -/
theorem CountsKept.of_same (hone : A.lookup "oneOf" = B.lookup "oneOf")
    (hcontains : A.lookup "contains" = B.lookup "contains")
    (hleast : A.lookup "minContains" = B.lookup "minContains") : CountsKept check A B := by
  constructor
  · intro v w hv hw x hx
    rw [hone, hw] at hv
    cases hv
    exact hx.le
  · intro v w hv hw
    rw [hcontains, hw] at hv
    cases hv
    exact .inr fun _ => rfl
  · intro _ _ _ _ q hq hnone
    rw [numberOf_congr hleast, hnone] at hq
    cases hq

/-! ## Branches -/

theorem holdsAt_oneOf : HoldsAt check A "oneOf" (some v) x ↔ branches check v x = 1 := by
  rw [holdsAt_some, holds_oneOf, branches]

theorem oneOf_refines (hkept : dir.Asks (CountsKept check) A B) (hv : A.lookup "oneOf" = some v)
    (hw : B.lookup "oneOf" = some w)
    (hsome : dir.Refines (∃ s ∈ v.elements, accepts check s x = true)
      (∃ t ∈ w.elements, accepts check t x = true)) :
    dir.Refines (HoldsAt check A "oneOf" (some v) x) (HoldsAt check A "oneOf" (some w) x) := by
  have hpos : ∀ {u : Json}, (∃ s ∈ u.elements, accepts check s x = true) ↔ 0 < branches check u x :=
    fun {u} => List.countP_pos_iff.symm
  rw [hpos, hpos] at hsome
  refine Direction.Refines.congr (.of_sides (fun hdir hone => ?_) fun hdir hone => ?_)
    holdsAt_oneOf holdsAt_oneOf
  · have hle := (hkept.1 hdir).oneOf v w hv hw x hone
    have hlt := hsome.forward hdir (by omega)
    omega
  · have hle := (hkept.2 hdir).oneOf w v hw hv x hone
    have hlt := hsome.backward hdir (by omega)
    omega

/-! ## Elements that are counted -/

/-- The least number of elements `contains` accepts, one where nothing is
said. -/
def least (siblings : List (String × Json)) : ℚ := (numberOf siblings "minContains").getD 1

/-- At most so many elements are accepted. -/
def Within (siblings : List (String × Json)) (n : ℚ) : Prop :=
  ∀ q, numberOf siblings "maxContains" = some q → n ≤ q

theorem countOk_iff {n : ℕ} : countOk A n = true ↔ least A ≤ n ∧ Within A n := by
  unfold countOk least Within
  cases numberOf A "maxContains" <;> simp

/-- A bound on `contains` is the same on both sides or was ranked. -/
def BoundPair (dir : Direction) (path k : String) (a b : Option Json) : Prop :=
  a = b ∨ (∀ v, a = some v → isNum v = true) ∧ (∀ w, b = some w → isNum w = true) ∧
    KeyClean dir path k a b

theorem within_refines (h : SchemaAt path)
    (hpair : BoundPair dir path "maxContains" (A.lookup "maxContains") (B.lookup "maxContains"))
    (n : ℚ) : dir.Refines (Within A n) (Within B n) := by
  rcases hpair with hsame | ⟨ha, hb, hclean⟩
  · exact .of_iff (by rw [Within, Within, numberOf_congr hsame])
  · have hwithin : ∀ {C : List (String × Json)},
        (∀ v, C.lookup "maxContains" = some v → isNum v = true) →
          (Within C n ↔ ∀ v, C.lookup "maxContains" = some v → atMost v (some n) = true) := by
      intro C hC
      unfold Within numberOf
      cases hv : C.lookup "maxContains" with
      | none => simp
      | some v =>
        have hnum := hC v hv
        cases v <;> simp_all [isNum, atMost]
    refine Direction.Refines.congr ?_ (hwithin ha) (hwithin hb)
    refine hclean.refines (by decide) h.toGraded h.last (by intro heq; rw [heq]) ?_ ?_
    · exact fun v w hv _ halike => absurd halike (not_alike_of_num (ha v hv))
    · intro ct
      have heffect : ∀ v w, keywordEffect "maxContains" false ct v w =
          rank (number v 1) (number w 1) := by
        simp [keywordEffect, boundEffect, upperBounds, hasPrefix]
      rw [heffect]
      apply bound_sound _ ha hb
      intro p q hpq
      simp only [atMost, decide_eq_true_eq]
      intro hm
      linarith

theorem le_of_rank {p q : ℚ} :
    (rank (.finite p) (.finite q) = .none ∨ rank (.finite p) (.finite q) = .widen → p ≤ q) ∧
      (rank (.finite p) (.finite q) = .none ∨ rank (.finite p) (.finite q) = .narrow → q ≤ p) := by
  simp only [rank]
  constructor <;> split_ifs with hlt hgt <;> simp <;> linarith

/-- A keyword that holds a number is there with it or not at all. -/
theorem numberOf_cases (h : ∀ v, A.lookup k = some v → isNum v = true) :
    (A.lookup k = none ∧ numberOf A k = none) ∨
      ∃ q, A.lookup k = some (.num q) ∧ numberOf A k = some q := by
  unfold numberOf
  cases hv : A.lookup k with
  | none => simp
  | some v =>
    have hnum := h v hv
    cases v <;> simp_all [isNum]

/-- As many elements as one side asks for are enough for the other. -/
theorem least_refines (h : SchemaAt path) (hkept : dir.Asks (CountsKept check) A B)
    (hv : A.lookup "contains" = some v) (hw : B.lookup "contains" = some w)
    (hpair : BoundPair dir path "minContains" (A.lookup "minContains") (B.lookup "minContains"))
    (n : ℚ) : dir.Refines (least A ≤ n) (least B ≤ n) := by
  rcases hpair with hsame | ⟨ha, hb, hclean⟩
  · exact .of_iff (by rw [least, least, numberOf_congr hsame])
  rcases hclean.cases (by decide) h.toGraded h.last with heq | ⟨v', w', hv', -, halike, -⟩ |
    ⟨ct, hgrade⟩
  · exact .of_iff (by rw [least, least, numberOf_congr heq])
  · exact absurd halike (not_alike_of_num (ha v' hv'))
  have heffect : ∀ v w, keywordEffect "minContains" false ct v w =
      rank (number v (-1)) (number w (-1)) := by
    simp [keywordEffect, boundEffect, upperBounds, lowerBounds, hasPrefix]
  rw [heffect] at hgrade
  obtain ⟨hup, hdown⟩ := effect_of_nonBreaking hgrade
  rw [least, least]
  rcases numberOf_cases ha with ⟨hA, hnA⟩ | ⟨p, hA, hnA⟩ <;>
    rcases numberOf_cases hb with ⟨hB, hnB⟩ | ⟨q, hB, hnB⟩ <;>
    rw [hA, hB] at hup hdown <;> rw [hnA, hnB] <;>
    simp only [Option.getD_none, Option.getD_some, number] at hup hdown ⊢
  · exact .of_iff Iff.rfl
  · refine .of_sides (fun hdir => ?_) fun hdir hq => ?_
    · simpa [rank] using hup hdir
    · exact ((hkept.2 hdir).least w v hw hv q hnB hnA).trans hq
  · refine .of_sides (fun hdir hp => ?_) fun hdir => ?_
    · exact ((hkept.1 hdir).least v w hv hw p hnA hnB).trans hp
    · simpa [rank] using hdown hdir
  · refine .of_sides (fun hdir hp => ?_) fun hdir hq => ?_
    · have hle := le_of_rank.1 (hup hdir)
      linarith
    · have hle := le_of_rank.2 (hdown hdir)
      linarith

theorem holdsAt_contains {xs : List Json} : HoldsAt check A "contains" (some v) (.arr xs) ↔
    least A ≤ xs.countP (accepts check v) ∧ Within A (xs.countP (accepts check v)) := by
  rw [holdsAt_some, holds_contains, countOk_iff]

/-- A schema that accepts more counts enough, and not too many where it accepts the
same or there is no most. -/
theorem count_kept {xs : List Json}
    (hpoint : ∀ y, accepts check v y = true → accepts check w y = true)
    (hleast : ∀ n, least A ≤ n → least B ≤ n) (hwithin : ∀ n, Within A n → Within B n)
    (hmost : numberOf B "maxContains" = none ∨ ∀ y, accepts check v y = accepts check w y)
    (hcount : least A ≤ xs.countP (accepts check v) ∧ Within A (xs.countP (accepts check v))) :
    least B ≤ xs.countP (accepts check w) ∧ Within B (xs.countP (accepts check w)) := by
  rcases hmost with hnone | hsame
  · refine ⟨(hleast _ hcount.1).trans ?_, by simp [Within, hnone]⟩
    exact_mod_cast List.countP_mono_left fun y _ => hpoint y
  · rw [← funext hsame]
    exact ⟨hleast _ hcount.1, hwithin _ hcount.2⟩

theorem contains_refines (h : SchemaAt path) (hkept : dir.Asks (CountsKept check) A B)
    (hmin : BoundPair dir path "minContains" (A.lookup "minContains") (B.lookup "minContains"))
    (hmax : BoundPair dir path "maxContains" (A.lookup "maxContains") (B.lookup "maxContains"))
    (hschemas : A.lookup "contains" = B.lookup "contains" ∨
      (∀ v, A.lookup "contains" = some v → v.schemaLike = true) ∧
        (∀ w, B.lookup "contains" = some w → w.schemaLike = true) ∧
        ∀ v w, A.lookup "contains" = some v → B.lookup "contains" = some w →
          Substitutes check dir v w)
    (hclean : KeyClean dir path "contains" (A.lookup "contains") (B.lookup "contains")) :
    dir.Refines (HoldsAt check A "contains" (A.lookup "contains") x)
      (HoldsAt check B "contains" (B.lookup "contains") x) := by
  match x with
  | .null | .bool _ | .num _ | .str _ | .obj _ =>
    exact .of_iff (by simp [HoldsAt, holds, upper, lower])
  | .arr xs =>
    have hnull : ∀ {C : List (String × Json)},
        (∀ v, C.lookup "contains" = some v → v.schemaLike = true) →
          C.lookup "contains" ≠ some .null :=
      fun hC hnull => absurd (hC _ hnull) (by simp [Json.schemaLike])
    by_cases hone : A.lookup "contains" = none ∨ B.lookup "contains" = none
    · rcases hschemas with hsame | ⟨ha, hb, -⟩
      · have hnone : B.lookup "contains" = none := by simpa [hsame] using hone
        exact .of_iff (by simp [hsame, hnone, holdsAt_none])
      · refine hclean.refines (by decide) h.toGraded h.last ?_ ?_ ?_
        · intro heq
          have hnone : B.lookup "contains" = none := by simpa [heq] using hone
          simp [heq, hnone, holdsAt_none]
        · intro v w hv hw
          simp [hv, hw] at hone
        · exact presence_sound (by decide) (hnull ha) (hnull hb) (fun hnone => hnone ▸ holdsAt_none)
            fun hnone => hnone ▸ holdsAt_none
    · rw [not_or] at hone
      obtain ⟨v, hv⟩ := Option.ne_none_iff_exists'.mp hone.1
      obtain ⟨w, hw⟩ := Option.ne_none_iff_exists'.mp hone.2
      have hpoint : ∀ y, dir.Refines (accepts check v y = true) (accepts check w y = true) := by
        rcases hschemas with hsame | ⟨-, -, hsub⟩
        · rw [hv, hw] at hsame
          cases hsame
          exact fun y => .of_iff Iff.rfl
        · rw [hv, hw] at hclean
          exact hsub v w hv hw _ (h.keyword (by decide) (by decide)) hclean
      have hleast := least_refines h hkept hv hw hmin
      have hwithin := within_refines h hmax
      rw [hv, hw]
      refine Direction.Refines.congr (.of_sides (fun hdir hcount => ?_) fun hdir hcount => ?_)
        holdsAt_contains holdsAt_contains
      · exact count_kept (fun y => (hpoint y).forward hdir) (fun n => (hleast n).forward hdir)
          (fun n => (hwithin n).forward hdir) ((hkept.1 hdir).most v w hv hw) hcount
      · exact count_kept (fun y => (hpoint y).backward hdir) (fun n => (hleast n).backward hdir)
          (fun n => (hwithin n).backward hdir) ((hkept.2 hdir).most w v hw hv) hcount

end Pacto.Diff
