import Mathlib.Algebra.Order.Ring.Rat
import Pacto.Support.JsonSchema
import Pacto.Diff.Schema

/-!
# What a grade says about the position of a schema

A request schema may only accept more, a response schema only less and a record
schema the same: `Refines` says so of one property of the two sides.  An edit with
a sound effect that is graded `NON_BREAKING` refines.  A change is graded by its
effect wherever its path is not in the table and passes through no documentation,
which every path below such a path inherits.
-/

namespace Pacto.Diff

open Delivery Support DottedPath

/-! ## Refinement in a position -/

/-- What a position allows of a property of the old and the new side. -/
def Direction.Refines (dir : Direction) (P Q : Prop) : Prop :=
  match dir with
  | .request => P → Q
  | .response => Q → P
  | .record | .unknown => P ↔ Q

namespace Direction.Refines

variable {dir : Direction} {P Q P' Q' : Prop}

theorem of_iff (h : P ↔ Q) : dir.Refines P Q := by
  cases dir with
  | request => exact h.mp
  | response => exact h.mpr
  | record => exact h
  | unknown => exact h

theorem congr (h : dir.Refines P Q) (hP : P' ↔ P) (hQ : Q' ↔ Q) : dir.Refines P' Q' := by
  rw [propext hP, propext hQ]
  exact h

theorem all {α : Sort*} {P Q : α → Prop} (h : ∀ a, dir.Refines (P a) (Q a)) :
    dir.Refines (∀ a, P a) (∀ a, Q a) := by
  cases dir with
  | request => exact fun hP a => h a (hP a)
  | response => exact fun hQ a => h a (hQ a)
  | record => exact forall_congr' h
  | unknown => exact forall_congr' h

theorem any {α : Sort*} {P Q : α → Prop} (h : ∀ a, dir.Refines (P a) (Q a)) :
    dir.Refines (∃ a, P a) (∃ a, Q a) := by
  cases dir with
  | request => exact fun ⟨a, ha⟩ => ⟨a, h a ha⟩
  | response => exact fun ⟨a, ha⟩ => ⟨a, h a ha⟩
  | record => exact exists_congr h
  | unknown => exact exists_congr h

/-- A condition of a property refines the other way. -/
theorem imp (h : dir.Refines P Q) (h' : dir.Refines Q' P') : dir.Refines (P' → P) (Q' → Q) := by
  cases dir with
  | request => exact fun hP hQ' => h (hP (h' hQ'))
  | response => exact fun hQ hP' => h (hQ (h' hP'))
  | record => exact imp_congr h'.symm h
  | unknown => exact imp_congr h'.symm h

/-- A position asks for one inclusion or for both. -/
theorem of_sides (hold : dir ≠ .response → P → Q) (hnew : dir ≠ .request → Q → P) :
    dir.Refines P Q := by
  cases dir with
  | request => exact hold (by decide)
  | response => exact hnew (by decide)
  | record => exact ⟨hold (by decide), hnew (by decide)⟩
  | unknown => exact ⟨hold (by decide), hnew (by decide)⟩

theorem forward (h : dir.Refines P Q) (hdir : dir ≠ .response) : P → Q := by
  cases dir with
  | request => exact h
  | response => exact absurd rfl hdir
  | record => exact h.mp
  | unknown => exact h.mp

theorem backward (h : dir.Refines P Q) (hdir : dir ≠ .request) : Q → P := by
  cases dir with
  | request => exact absurd rfl hdir
  | response => exact h
  | record => exact h.mpr
  | unknown => exact h.mpr

end Direction.Refines

/-- A condition on what one side has to go on accepting of the other, asked of the sides
that a position asks it of. -/
def Direction.Asks {α : Type*} (dir : Direction) (keeps : α → α → Prop) (a b : α) : Prop :=
  (dir ≠ .response → keeps a b) ∧ (dir ≠ .request → keeps b a)

/-- What an effect says about a property of the accepted values. -/
def Effect.Sound (e : Effect) (P Q : Prop) : Prop :=
  match e with
  | .unknown => True
  | .none => P ↔ Q
  | .widen => P → Q
  | .narrow => Q → P

theorem Effect.Sound.refines {e : Effect} {P Q : Prop} {dir : Direction} (h : e.Sound P Q)
    (hgrade : byPosition dir e = .nonBreaking) : dir.Refines P Q := by
  cases e with
  | none => exact .of_iff h
  | unknown => simp [byPosition] at hgrade
  | widen =>
    cases dir with
    | request => exact h
    | _ => simp [byPosition] at hgrade
  | narrow =>
    cases dir with
    | response => exact h
    | _ => simp [byPosition] at hgrade

/-- The effects a position lets pass. -/
theorem effect_of_nonBreaking {e : Effect} {dir : Direction}
    (hgrade : byPosition dir e = .nonBreaking) :
    (dir ≠ .response → e = .none ∨ e = .widen) ∧ (dir ≠ .request → e = .none ∨ e = .narrow) := by
  cases e <;> cases dir <;> simp [byPosition] at hgrade ⊢

/-- A keyword with an ordered openness has a sound effect when more openness
accepts more. -/
theorem rank_sound {a b : Openness} {P Q : Prop}
    (hle : ∀ x y, a = .finite x → b = .finite y → (x ≤ y → P → Q) ∧ (y ≤ x → Q → P))
    (hopen : b = .infinite → Q) (hopen' : a = .infinite → P) : (rank a b).Sound P Q := by
  cases a with
  | nan => exact trivial
  | infinite =>
    cases b with
    | nan => exact trivial
    | infinite => exact ⟨fun _ => hopen rfl, fun _ => hopen' rfl⟩
    | finite y => exact fun _ => hopen' rfl
  | finite x =>
    cases b with
    | nan => exact trivial
    | infinite => exact fun _ => hopen rfl
    | finite y =>
      obtain ⟨hup, hdown⟩ := hle x y rfl rfl
      simp only [rank]
      split
      · next h => exact hup (le_of_lt h)
      · next h =>
        split
        · next h' => exact hdown (le_of_lt h')
        · next h' => exact ⟨hup (not_lt.mp h'), hdown (not_lt.mp h)⟩

/-! ## Paths graded by position -/

def lastSegment (path : String) : String := (segments path).getLastD ""

/-- A path the table does not reach and that passes through no documentation. -/
structure Graded (path : String) : Prop where
  closed : Closed path
  undocumented : isDocOnly (segments path) = false
  unruled : ∀ r ∈ rules, ¬ segments path <+: (split r.1.1.toList).map String.ofList

theorem passes_append {word : String → Bool} {named : Bool} {segs : List String} {k : String} :
    passes word named (segs ++ [k]) =
      (passes word named segs ||
        (word k && !((segs.getLast?.map nameKeys.contains).getD named))) := by
  induction segs generalizing named with
  | nil => simp [passes]
  | cons s segs ih =>
    rw [List.cons_append, passes, passes, ih, Bool.or_assoc]
    cases segs with
    | nil => simp
    | cons t segs => simp [List.getLast?_cons]

variable {path k i : String} {dir : Direction} {elem : Bool} {ct : ChangeType} {old new : Json}

theorem segments_ne_nil (path : String) : segments path ≠ [] := by
  simp [segments, split_ne_nil]

theorem lastSegment_child (hk : Plain k) : lastSegment (path ++ "." ++ k) = k := by
  simp [lastSegment, segments_child hk]

theorem lastSegment_entry (hpath : Closed path) (hi : ']' ∉ i.toList) :
    lastSegment (path ++ "[" ++ i ++ "]") = lastSegment path := by
  rw [lastSegment, segments_entry hpath hi, lastSegment]

theorem Graded.child (h : Graded path) (hk : Plain k)
    (hdoc : k ∉ docKeywords ∨ lastSegment path ∈ nameKeys) :
    Graded (path ++ "." ++ k) := by
  refine ⟨h.closed.child hk, ?_, ?_⟩
  · have hlast : (segments path).getLast? = some (lastSegment path) := by
      rw [lastSegment, List.getLastD_eq_getLast?, List.getLast?_eq_some_getLast (segments_ne_nil path)]
      rfl
    rw [segments_child hk, isDocOnly, passes_append, hlast, ← isDocOnly, h.undocumented]
    rcases hdoc with hdoc | hname
    · simp [hdoc]
    · simp [hname]
  · intro r hr hprefix
    rw [segments_child hk] at hprefix
    exact h.unruled r hr ((List.prefix_append _ _).trans hprefix)

theorem Graded.entry (h : Graded path) (hi : ']' ∉ i.toList) :
    Graded (path ++ "[" ++ i ++ "]") := by
  have hsegs := segments_entry h.closed hi
  refine ⟨h.closed.entry hi, ?_, ?_⟩
  · rw [hsegs]
    exact h.undocumented
  · rw [hsegs]
    exact h.unruled

theorem notMem_toString (n : ℕ) : ']' ∉ (toString n).toList := by
  intro h
  have hdigits : (toString n).toList = Nat.toDigits 10 n := by simp
  rw [hdigits] at h
  have hdigit := Nat.isDigit_of_mem_toDigits (by omega) (by omega) h
  exact absurd hdigit (by decide)

/-! ## What a `NON_BREAKING` grade comes from -/

theorem lookup_rules (h : Graded path) : rules.lookup (strip path, ct) = none := by
  cases hlookup : rules.lookup (strip path, ct) with
  | none => rfl
  | some c =>
    have hmem : ((strip path, ct), c) ∈ rules := mem_of_lookup_eq_some hlookup
    exact absurd List.prefix_rfl (h.unruled ((strip path, ct), c) hmem)

theorem capped_eq {c : Classification} : capped c = .nonBreaking ↔ c = .nonBreaking := by
  cases c <;> simp [capped]

theorem positional_of_nonBreaking (h : Graded path)
    (hgrade : classifySchemaChange dir path elem ct old new = .nonBreaking) :
    positional dir (strip path) elem ct old new = .nonBreaking := by
  rw [classifySchemaChange, lookup_rules h] at hgrade
  dsimp only at hgrade
  rw [h.undocumented] at hgrade
  simp only [Bool.false_eq_true, if_false] at hgrade
  split at hgrade
  · cases hgrade
  · split at hgrade
    · split at hgrade
      · exact capped_eq.mp hgrade
      · exact hgrade
    · split at hgrade
      · cases hgrade
      · split at hgrade
        · cases hgrade
        · split at hgrade <;> cases hgrade

theorem byPosition_of_nonBreaking (h : Graded path)
    (hgrade : classifySchemaChange dir path elem ct old new = .nonBreaking)
    (hproperty : elem = true ∨ ct = .modified ∨
      lastSegment path ≠ "properties" ∧ isSchemaProperty (strip path) = false) :
    byPosition dir (keywordEffect (lastSegment path) elem ct old new) = .nonBreaking := by
  have hpositional := positional_of_nonBreaking h hgrade
  unfold positional at hpositional
  dsimp only at hpositional
  split at hpositional
  · cases hpositional
  · split at hpositional
    · next hblock =>
      rcases hproperty with helem | hct | ⟨hkw, hprop⟩
      · simp [helem] at hblock
      · simp [hct] at hblock
      · rw [hprop, Bool.or_false, Bool.and_eq_true] at hblock
        exact absurd (of_decide_eq_true hblock.2) hkw
    · exact hpositional

theorem cut_dot {s : List Char} (rest : List Char) (hs : '.' ∉ s) :
    cut ['.'] (s ++ '.' :: rest) = some (s, rest) := by
  induction s with
  | nil => simp [cut]
  | cons c s ih =>
    simp only [List.mem_cons, not_or] at hs
    have hc : (['.'] : List Char).isPrefixOf (c :: (s ++ '.' :: rest)) = false := by
      simpa [List.isPrefixOf] using hs.1
    rw [List.cons_append, cut, hc, ih hs.2]
    rfl

/-- Only an entry of a `properties` map is named after `properties`. -/
theorem isSchemaProperty_child (hk : Plain k) (hlast : lastSegment path ≠ "properties") :
    isSchemaProperty (strip (path ++ "." ++ k)) = false := by
  have hcut : cutLast ['.'] (strip (path ++ "." ++ k)).toList =
      some ((strip path).toList, k.toList) := by
    rw [strip_child hk]
    have hreverse : (strip path ++ "." ++ k).toList.reverse =
        k.toList.reverse ++ '.' :: (strip path).toList.reverse := by simp
    rw [cutLast, hreverse]
    simp [cut_dot, hk.1]
  rw [isSchemaProperty, hcut]
  dsimp only
  rw [Bool.and_eq_false_iff]
  right
  by_contra hsuffix
  rw [Bool.not_eq_false, hasSuffix, List.isSuffixOf_iff_suffix] at hsuffix
  obtain ⟨before, hbefore⟩ := hsuffix
  apply hlast
  have hlist : ".properties".toList = '.' :: "properties".toList := rfl
  rw [lastSegment, segments, ← hbefore, hlist, split_append_dot,
    split_of_notMem (b := "properties".toList) (by decide)]
  simp

theorem byPosition_of_keyword (h : Graded path) (hk : Plain k)
    (hdoc : k ∉ docKeywords) (hlast : lastSegment path ≠ "properties")
    (hne : k ≠ "properties")
    (hgrade : classifySchemaChange dir (path ++ "." ++ k) elem ct old new = .nonBreaking) :
    byPosition dir (keywordEffect k elem ct old new) = .nonBreaking := by
  have hchild := h.child hk (.inl hdoc)
  have heffect := byPosition_of_nonBreaking hchild hgrade
  rw [lastSegment_child hk] at heffect
  exact heffect (.inr (.inr ⟨hne, isSchemaProperty_child hk hlast⟩))

end Pacto.Diff
