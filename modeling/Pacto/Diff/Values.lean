import Pacto.Diff.Subschemas

/-!
# Values that are data

`const` and `enum` hold instances, and the walk reads them like any part of a schema.
A null is taken for a keyword that is not there, and two objects or two lists are
compared inside, where a member can pass for documentation and an order for nothing.
A value that goes is seen where none of this happens to it.
-/

namespace Pacto.Diff

open Delivery Support DottedPath Schema

variable {check : String → Json → Json → Bool} {dir : Direction} {path k : String}
  {A : List (String × Json)} {a b : Option Json} {v w x : Json}

instance : Decidable (Alike v w) :=
  match v, w with
  | .obj fs, .obj gs => isTrue (.inl ⟨fs, gs, rfl, rfl⟩)
  | .arr xs, .arr ys => isTrue (.inr ⟨xs, ys, rfl, rfl⟩)
  | .obj _, .arr _ | .arr _, .obj _ => isFalse (by simp [Alike])
  | .null, _ | .bool _, _ | .num _, _ | .str _, _ => isFalse (by simp [Alike])
  | .obj _, .null | .obj _, .bool _ | .obj _, .num _ | .obj _, .str _ => isFalse (by simp [Alike])
  | .arr _, .null | .arr _, .bool _ | .arr _, .num _ | .arr _, .str _ => isFalse (by simp [Alike])

theorem Alike.symm (h : Alike v w) : Alike w v := by
  rcases h with ⟨fs, gs, rfl, rfl⟩ | ⟨xs, ys, rfl, rfl⟩
  · exact .inl ⟨gs, fs, rfl, rfl⟩
  · exact .inr ⟨ys, xs, rfl, rfl⟩

/-! ## What the walk sees -/

/-- The values `enum` lists. -/
def listed (a : Option Json) : List Json := (a.getD .null).elements

/-- The walk sees it if the value of `const` goes: the new one is neither null nor
compared with it inside. -/
def ConstSeen (a b : Option Json) : Prop :=
  ∀ w ∈ b, a = some w ∨ (w ≠ .null ∧ ∀ v ∈ a, ¬ Alike v w)

/-- The walk sees it if a value of `enum` goes: the list does not become null, and in
lists compared by position neither does the value nor is it compared inside. -/
def EnumSeen (a b : Option Json) : Prop :=
  (b = some .null → a ≠ none ∧ listed a = []) ∧
    ((scalars (listed a) = true ∧ scalars (listed b) = true) ∨
      ∀ e ∈ (listed a).zip (listed b), e.1 ∈ listed b ∨ (e.2 ≠ .null ∧ ¬ Alike e.1 e.2))

/-- The walk sees every value go that a schema no longer lists. -/
def ValuesSeen (A B : List (String × Json)) : Prop :=
  ConstSeen (A.lookup "const") (B.lookup "const") ∧ EnumSeen (A.lookup "enum") (B.lookup "enum")

instance : Decidable (ConstSeen a b) := inferInstanceAs (Decidable (∀ w ∈ b, _))

instance : Decidable (EnumSeen a b) := inferInstanceAs (Decidable (_ ∧ _))

instance : DecidableRel ValuesSeen := fun _ _ => inferInstanceAs (Decidable (_ ∧ _))

theorem ConstSeen.refl : ConstSeen a a := fun _ hw => .inl hw

theorem EnumSeen.refl : EnumSeen a a := by
  refine ⟨?_, .inr fun e he => .inl (List.of_mem_zip he).1⟩
  rintro rfl
  exact ⟨nofun, rfl⟩

/-- Only a value that is null lets the presence of a keyword pass. -/
theorem null_of_presence (hk : k ∈ presenceKeywords) {ct : ChangeType}
    (hgrade : byPosition dir (keywordEffect k false ct v w) = .nonBreaking) :
    (dir ≠ .response → w = .null) ∧ (dir ≠ .request → v = .null) := by
  obtain ⟨hup, hdown⟩ := effect_of_nonBreaking hgrade
  rw [keywordEffect_presence hk] at hup hdown
  by_cases hv : v = .null <;> by_cases hw : w = .null <;>
    simp_all [presence, rank, not_lt.mpr (zero_le_one (α := ℚ))]

/-- What keeps a keyword that becomes null keeps it where its presence passes. -/
theorem refines_of_presence (hk : k ∈ presenceKeywords) {seen : Option Json → Option Json → Prop}
    (hseen : dir.Asks seen a b)
    (hkept : ∀ {c d}, seen c d → d.getD .null = .null →
      HoldsAt check A k c x → HoldsAt check A k d x) {ct : ChangeType}
    (hgrade : byPosition dir (keywordEffect k false ct (a.getD .null) (b.getD .null)) =
      .nonBreaking) :
    dir.Refines (HoldsAt check A k a x) (HoldsAt check A k b x) := by
  obtain ⟨hnew, hold⟩ := null_of_presence hk hgrade
  exact .of_sides (fun hdir => hkept (hseen.1 hdir) (hnew hdir))
    fun hdir => hkept (hseen.2 hdir) (hold hdir)

/-! ## One value -/

theorem const_refines (h : SchemaAt path) (hseen : dir.Asks ConstSeen a b)
    (hclean : KeyClean dir path "const" a b) :
    dir.Refines (HoldsAt check A "const" a x) (HoldsAt check A "const" b x) := by
  have hkept : ∀ {c d : Option Json}, ConstSeen c d → d.getD .null = .null →
      HoldsAt check A "const" c x → HoldsAt check A "const" d x := by
    intro c d hcd hnull hc
    cases d with
    | none => exact holdsAt_none
    | some w =>
      rcases hcd w rfl with rfl | ⟨hw, -⟩
      · exact hc
      · exact absurd hnull hw
  rcases hclean.cases (by decide) h.toGraded h.last with rfl | ⟨v, w, rfl, rfl, halike, -⟩ |
    ⟨ct, hgrade⟩
  · exact .of_iff Iff.rfl
  · refine .of_sides (fun hdir => ?_) fun hdir => ?_
    · rcases hseen.1 hdir w rfl with heq | ⟨-, hunlike⟩
      · rw [heq]
        exact id
      · exact absurd halike (hunlike v rfl)
    · rcases hseen.2 hdir v rfl with heq | ⟨-, hunlike⟩
      · rw [heq]
        exact id
      · exact absurd halike.symm (hunlike w rfl)
  · exact refines_of_presence (by decide) hseen hkept hgrade

/-! ## Lists of values -/

section Lists

variable {xs ys : List Json} (h : SchemaAt path)

include h

/-- An entry of `enum` rewritten to a value of another kind passes only for null. -/
theorem null_of_entry {i : ℕ} (hne : v ≠ w) (hunlike : ¬ Alike v w)
    (hclean : Clean (diffJSON dir v (path ++ "." ++ "enum" ++ "[" ++ toString i ++ "]") w)) :
    (dir ≠ .response → w = .null) ∧ (dir ≠ .request → v = .null) := by
  have hentry : SchemaAt (path ++ "." ++ "enum" ++ "[" ++ toString i ++ "]") :=
    (h.keyword (by decide) (by decide)).entry i
  have hlast : lastSegment (path ++ "." ++ "enum" ++ "[" ++ toString i ++ "]") = "enum" := by
    rw [lastSegment_entry (h.closed.child (by decide)) (notMem_toString i),
      lastSegment_child (by decide)]
  rw [diffJSON_of_unlike hne hunlike] at hclean
  have hgrade := byPosition_of_nonBreaking hentry.toGraded (hclean _ (List.mem_singleton_self _))
    (.inr (.inl rfl))
  rw [hlast] at hgrade
  exact null_of_presence (by decide) hgrade

variable (hclean : Clean (diffJSON dir (.arr xs) (path ++ "." ++ "enum") (.arr ys)))
  (hscalars : ¬ (scalars xs = true ∧ scalars ys = true))

include hclean hscalars

/-- A value of an old list compared by position is in the new one. -/
theorem mem_new_of_seen (hdir : dir ≠ .response)
    (hseen : EnumSeen (some (.arr xs)) (some (.arr ys))) (hx : x ∈ xs) : x ∈ ys := by
  by_cases hne : xs = ys
  · rwa [← hne]
  obtain ⟨i, hi⟩ := List.mem_iff_getElem?.mp hx
  have hwalk := clean_entry hclean hne hscalars
    (lt_of_lt_of_le (List.getElem?_eq_some_iff.mp hi).1 (le_max_left _ _))
  rw [hi] at hwalk
  cases hw : ys[i]? with
  | none =>
    rw [hw] at hwalk
    have hgrade : byPosition dir (entryEffect "enum" .removed) = .nonBreaking :=
      byPosition_of_keyword h.toGraded (by decide) (by decide) h.last (by decide)
        (hwalk _ (List.mem_singleton_self _))
    have heffect := (effect_of_nonBreaking hgrade).1 hdir
    simp [entryEffect, grows] at heffect
  | some w =>
    rw [hw] at hwalk
    have hzip : (x, w) ∈ xs.zip ys :=
      List.mem_iff_getElem?.mpr ⟨i, List.getElem?_zip_eq_some.mpr ⟨hi, hw⟩⟩
    rcases (hseen.2.resolve_left hscalars) (x, w) hzip with hmem | ⟨hnull, hunlike⟩
    · exact hmem
    · by_contra hnot
      have hne : x ≠ w := by
        rintro rfl
        exact hnot (List.mem_of_getElem? hw)
      exact hnull ((null_of_entry h hne hunlike hwalk).1 hdir)

/-- A value of a new list compared by position was in the old one. -/
theorem mem_old_of_seen (hdir : dir ≠ .request)
    (hseen : EnumSeen (some (.arr ys)) (some (.arr xs))) (hx : x ∈ ys) : x ∈ xs := by
  by_cases hne : xs = ys
  · rwa [hne]
  obtain ⟨i, hi⟩ := List.mem_iff_getElem?.mp hx
  have hwalk := clean_entry hclean hne hscalars
    (lt_of_lt_of_le (List.getElem?_eq_some_iff.mp hi).1 (le_max_right _ _))
  rw [hi] at hwalk
  cases hv : xs[i]? with
  | none =>
    rw [hv] at hwalk
    have hgrade : byPosition dir (entryEffect "enum" .added) = .nonBreaking :=
      byPosition_of_keyword h.toGraded (by decide) (by decide) h.last (by decide)
        (hwalk _ (List.mem_singleton_self _))
    have heffect := (effect_of_nonBreaking hgrade).2 hdir
    simp [entryEffect, grows] at heffect
  | some v =>
    rw [hv] at hwalk
    have hzip : (x, v) ∈ ys.zip xs :=
      List.mem_iff_getElem?.mpr ⟨i, List.getElem?_zip_eq_some.mpr ⟨hi, hv⟩⟩
    rcases (hseen.2.resolve_left fun hs => hscalars hs.symm) (x, v) hzip with
      hmem | ⟨hnull, hunlike⟩
    · exact hmem
    · by_contra hnot
      have hne : v ≠ x := by
        rintro rfl
        exact hnot (List.mem_of_getElem? hv)
      have hunlike' : ¬ Alike v x := fun halike => hunlike halike.symm
      exact hnull ((null_of_entry h hne hunlike' hwalk).2 hdir)

end Lists

theorem enum_refines (h : SchemaAt path) (hseen : dir.Asks EnumSeen a b)
    (hclean : KeyClean dir path "enum" a b) :
    dir.Refines (HoldsAt check A "enum" a x) (HoldsAt check A "enum" b x) := by
  have hkept : ∀ {c d : Option Json}, EnumSeen c d → d.getD .null = .null →
      HoldsAt check A "enum" c x → HoldsAt check A "enum" d x := by
    intro c d hcd hnull hc
    cases d with
    | none => exact holdsAt_none
    | some w =>
      obtain rfl : w = .null := hnull
      obtain ⟨hsome, hnil⟩ := hcd.1 rfl
      obtain ⟨v, rfl⟩ := Option.ne_none_iff_exists'.mp hsome
      rw [holdsAt_enum] at hc
      rw [listed, Option.getD_some] at hnil
      exact absurd hc (by simp [hnil])
  rcases hclean.cases (by decide) h.toGraded h.last with
    rfl | ⟨v, w, rfl, rfl, ⟨fs, gs, rfl, rfl⟩ | ⟨xs, ys, rfl, rfl⟩, hparts⟩ | ⟨ct, hgrade⟩
  · exact .of_iff Iff.rfl
  · -- an object lists no value
    exact .of_iff (by simp [holdsAt_enum, Json.elements])
  · by_cases hscalars : scalars xs = true ∧ scalars ys = true
    · exact enum_entries_refines
        (entriesGraded (by decide) h.toGraded h.last hscalars.1 hscalars.2 hparts)
    · refine Direction.Refines.congr ?_ holdsAt_enum holdsAt_enum
      exact .of_sides (fun hdir => mem_new_of_seen h hparts hscalars hdir (hseen.1 hdir))
        fun hdir => mem_old_of_seen h hparts hscalars hdir (hseen.2 hdir)
  · exact refines_of_presence (by decide) hseen hkept hgrade

end Pacto.Diff
