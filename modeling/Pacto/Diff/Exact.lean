import Mathlib.Data.List.Perm.Basic
import Mathlib.Data.String.Basic
import Pacto.Diff.Schema
import Pacto.Support.Sequence

/-!
# The walk over two documents is exact and symmetric

`diffJSON` reports nothing exactly when the two documents are the same up to the order
and the repetition of the elements of arrays of scalars, which it compares as sets.  In
the opposite order it reports the same paths, with what was added removed and the other
way round.

Both are read off the marks of a list of changes: where each of them is and of which
type.
-/

namespace Pacto.Diff

open Delivery Support

/-- Equality of documents, with arrays of scalars as sets.  The members of an object are
read by name. -/
inductive SameDocument : Json → Json → Prop
  | refl (v : Json) : SameDocument v v
  | sets {old new : List Json} (hold : scalars old = true) (hnew : scalars new = true)
      (h : ∀ x, x ∈ old ↔ x ∈ new) : SameDocument (.arr old) (.arr new)
  | entries {old new : List Json} (hscalars : ¬(scalars old = true ∧ scalars new = true))
      (hlength : ∀ i : ℕ, old[i]?.isSome = new[i]?.isSome)
      (h : ∀ (i : ℕ) v w, old[i]? = some v → new[i]? = some w → SameDocument v w) :
      SameDocument (.arr old) (.arr new)
  | members {old new : List (String × Json)}
      (hkeys : ∀ k, (old.lookup k).isSome = (new.lookup k).isSome)
      (h : ∀ k v w, old.lookup k = some v → new.lookup k = some w → SameDocument v w) :
      SameDocument (.obj old) (.obj new)

/-! ## Marks -/

/-- The path and the type of a change. -/
abbrev Mark : Type := String × ChangeType

def marks (changes : List SpecChange) : List Mark := changes.map fun c => (c.path, c.type)

/-- A change seen from the other side. -/
def mirrored : ChangeType → ChangeType
  | .added => .removed
  | .removed => .added
  | .modified => .modified

def Mark.mirror (m : Mark) : Mark := (m.1, mirrored m.2)

/-- The marks at a place both sides, one side or neither side has. -/
def markAt (path : String) (below : Json → Json → List Mark) :
    Option Json → Option Json → List Mark
  | none, none => []
  | none, some _ => [(path, .added)]
  | some _, none => [(path, .removed)]
  | some v, some w => below v w

variable {dir : Direction} {path : String} {below below' : Json → Json → List Mark}
  {o n : Option Json}

theorem markAt_eq_nil_iff :
    markAt path below o n = [] ↔
      o.isSome = n.isSome ∧ ∀ v w, o = some v → n = some w → below v w = [] := by
  cases o <;> cases n <;> simp [markAt]

theorem markAt_mirror
    (h : ∀ v w, o = some v → n = some w → (below' w v).Perm ((below v w).map Mark.mirror)) :
    (markAt path below' n o).Perm ((markAt path below o n).map Mark.mirror) := by
  cases o with
  | none => cases n <;> exact .refl _
  | some v =>
    cases n with
    | none => exact .refl _
    | some w => exact h v w rfl rfl

section Places

variable {ι : Type} {places : List ι} {at₁ at₂ : ι → Option Json} {name : ι → String}
  {below below' : ι → Json → Json → List Mark}

theorem places_eq_nil_iff (hplaces : ∀ i, (at₁ i).isSome ∨ (at₂ i).isSome → i ∈ places) :
    (places.flatMap fun i => markAt (name i) (below i) (at₁ i) (at₂ i)) = [] ↔
      (∀ i, (at₁ i).isSome = (at₂ i).isSome) ∧
        ∀ i v w, at₁ i = some v → at₂ i = some w → below i v w = [] := by
  rw [List.flatMap_eq_nil_iff, ← forall_and]
  refine forall_congr' fun i => ?_
  rw [markAt_eq_nil_iff]
  refine ⟨fun h => ?_, fun h _ => h⟩
  by_cases hi : i ∈ places
  · exact h hi
  · -- neither side has anything at this place
    have hnone := mt (hplaces i) hi
    simp only [not_or, Option.not_isSome_iff_eq_none] at hnone
    simp [hnone.1, hnone.2]

theorem places_mirror (h : ∀ i v w, at₁ i = some v → at₂ i = some w →
      (below' i w v).Perm ((below i v w).map Mark.mirror)) :
    (places.flatMap fun i => markAt (name i) (below' i) (at₂ i) (at₁ i)).Perm
      ((places.flatMap fun i => markAt (name i) (below i) (at₁ i) (at₂ i)).map Mark.mirror) := by
  rw [List.map_flatMap]
  exact List.Perm.flatMap_left _ fun i _ => markAt_mirror (h i)

end Places

theorem marks_eq_nil_iff {changes : List SpecChange} : marks changes = [] ↔ changes = [] := by
  simp [marks]

theorem marks_closedObject (old : List (String × Json)) (changes : List SpecChange) :
    marks (closedObject dir path old changes) = marks changes := by
  unfold closedObject marks
  split
  · rfl
  · rw [List.map_map]
    refine List.map_congr_left fun c _ => ?_
    dsimp only [Function.comp]
    split <;> rfl

/-! ## The marks of the walk -/

section Objects

variable {old new : List (String × Json)}

theorem marks_diffJSON_obj :
    marks (diffJSON dir (.obj old) path (.obj new)) = (mergedKeys old new).flatMap fun k =>
      markAt (path ++ "." ++ k) (fun v w => marks (diffJSON dir v (path ++ "." ++ k) w))
        (old.lookup k) (new.lookup k) := by
  by_cases heq : Json.obj old = .obj new
  · cases heq
    rw [diffJSON_self]
    refine (List.flatMap_eq_nil_iff.mpr fun k _ => markAt_eq_nil_iff.mpr ⟨rfl, ?_⟩).symm
    rintro v w hv hw
    rw [Option.some.inj (hv.symm.trans hw), diffJSON_self]
    rfl
  · rw [diffJSON, if_neg heq]
    change marks (closedObject dir path old _) = _
    rw [marks_closedObject, marks, List.map_flatMap]
    refine List.flatMap_congr fun k _ => ?_
    dsimp only
    rw [walkFields_eq, lookup_map_snd]
    cases old.lookup k <;> cases new.lookup k <;> rfl

theorem sameDocument_obj_iff :
    SameDocument (.obj old) (.obj new) ↔ (∀ k, (old.lookup k).isSome = (new.lookup k).isSome) ∧
      ∀ k v w, old.lookup k = some v → new.lookup k = some w → SameDocument v w := by
  constructor
  · rintro (_ | _ | _ | ⟨hkeys, h⟩)
    · exact ⟨fun _ => rfl, fun k v w hv hw => Option.some.inj (hv.symm.trans hw) ▸ .refl v⟩
    · exact ⟨hkeys, h⟩
  · exact fun h => .members h.1 h.2

theorem mergedKeys_comm : mergedKeys old new = mergedKeys new old := by
  unfold mergedKeys
  apply insertionSort_eq_of_perm (α := String)
  rw [List.perm_ext_iff_of_nodup (List.nodup_dedup _) (List.nodup_dedup _)]
  intro k
  simp [or_comm]

/-- A name neither object has is not walked. -/
theorem mem_mergedKeys_of_isSome {k : String}
    (h : (old.lookup k).isSome ∨ (new.lookup k).isSome) : k ∈ mergedKeys old new := by
  simp only [Option.isSome_iff_exists] at h
  exact mem_mergedKeys.mpr (h.imp (fun ⟨_, h⟩ => mem_keys_of_lookup h)
    fun ⟨_, h⟩ => mem_keys_of_lookup h)

end Objects

section Arrays

variable {old new : List Json}

theorem marks_diffJSON_sets (hold : scalars old = true) (hnew : scalars new = true) :
    marks (diffJSON dir (.arr old) path (.arr new)) =
      ((new.filter fun s => !old.contains s).map fun s => (path ++ "[" ++ s.text ++ "]", .added)) ++
        (old.filter fun s => !new.contains s).map fun s => (path ++ "[" ++ s.text ++ "]", .removed) := by
  by_cases heq : old = new
  · subst heq
    simp [diffJSON_self, marks]
  · rw [diffJSON, if_neg (by simpa using heq), diffJSONArrays, if_pos (by simp [hold, hnew])]
    simp [marks, diffScalarArrayAsSets, entryChange, Function.comp_def]

theorem marks_diffJSON_entries (hscalars : ¬(scalars old = true ∧ scalars new = true)) :
    marks (diffJSON dir (.arr old) path (.arr new)) =
      (List.range (max old.length new.length)).flatMap fun i =>
        markAt (path ++ "[" ++ toString i ++ "]")
          (fun v w => marks (diffJSON dir v (path ++ "[" ++ toString i ++ "]") w))
          old[i]? new[i]? := by
  by_cases heq : old = new
  · subst heq
    rw [diffJSON_self]
    refine (List.flatMap_eq_nil_iff.mpr fun i _ => markAt_eq_nil_iff.mpr ⟨rfl, ?_⟩).symm
    rintro v w hv hw
    rw [Option.some.inj (hv.symm.trans hw), diffJSON_self]
    rfl
  · rw [diffJSON, if_neg (by simpa using heq), diffJSONArrays, if_neg (by simpa using hscalars),
      marks, List.map_flatMap]
    refine List.flatMap_congr fun i _ => ?_
    dsimp only
    rw [walkList_eq, List.getElem?_map]
    cases old[i]? <;> cases new[i]? <;> rfl

theorem mem_range_of_isSome (i : ℕ) (h : old[i]?.isSome ∨ new[i]?.isSome) :
    i ∈ List.range (max old.length new.length) := by
  simpa using h

theorem sameDocument_sets_iff (hold : scalars old = true) (hnew : scalars new = true) :
    SameDocument (.arr old) (.arr new) ↔ ∀ x, x ∈ old ↔ x ∈ new := by
  constructor
  · rintro (_ | ⟨-, -, h⟩ | ⟨hscalars, -, -⟩)
    · exact fun _ => Iff.rfl
    · exact h
    · exact absurd ⟨hold, hnew⟩ hscalars
  · exact .sets hold hnew

theorem sameDocument_entries_iff (hscalars : ¬(scalars old = true ∧ scalars new = true)) :
    SameDocument (.arr old) (.arr new) ↔ (∀ i : ℕ, old[i]?.isSome = new[i]?.isSome) ∧
      ∀ (i : ℕ) v w, old[i]? = some v → new[i]? = some w → SameDocument v w := by
  constructor
  · rintro (_ | ⟨hold, hnew, -⟩ | ⟨-, hlength, h⟩)
    · exact ⟨fun _ => rfl, fun i v w hv hw => Option.some.inj (hv.symm.trans hw) ▸ .refl v⟩
    · exact absurd ⟨hold, hnew⟩ hscalars
    · exact ⟨hlength, h⟩
  · exact fun h => .entries hscalars h.1 h.2

end Arrays

/-! ## Exact and symmetric -/

/-- The walk compares the two values as they are: they are neither both arrays nor both
objects. -/
def Unlike (old new : Json) : Prop :=
  (∀ xs ys, old = .arr xs → new ≠ .arr ys) ∧ ∀ xs ys, old = .obj xs → new ≠ .obj ys

/-- Induction over two documents along the places both of them have. -/
theorem induct₂ {P : Json → Json → Prop} (other : ∀ {old new}, Unlike old new → P old new)
    (arr : ∀ {old new : List Json}, (∀ (i : ℕ) v w, old[i]? = some v → new[i]? = some w → P v w) →
      P (.arr old) (.arr new))
    (obj : ∀ {old new : List (String × Json)}, (∀ k v w, old.lookup k = some v →
      new.lookup k = some w → P v w) → P (.obj old) (.obj new)) (old new : Json) : P old new := by
  induction old using Json.induct generalizing new with
  | arr old ih =>
    cases new with
    | arr new => exact arr fun i v w hv _ => ih v (List.mem_of_getElem? hv) w
    | _ => exact other ⟨nofun, nofun⟩
  | obj old ih =>
    cases new with
    | obj new => exact obj fun k v w hv _ => ih (k, v) (mem_of_lookup_eq_some hv) w
    | _ => exact other ⟨nofun, nofun⟩
  | _ => exact other ⟨nofun, nofun⟩

theorem Unlike.diffJSON_eq {old new : Json} (h : Unlike old new) :
    diffJSON dir old path new =
      if old = new then [] else [specChange dir path .modified old new] := by
  cases old with
  | arr xs =>
    cases new with
    | arr ys => exact absurd rfl (h.1 xs ys rfl)
    | _ => rfl
  | obj xs =>
    cases new with
    | obj ys => exact absurd rfl (h.2 xs ys rfl)
    | _ => rfl
  | _ => rfl

theorem Unlike.symm {old new : Json} (h : Unlike old new) : Unlike new old :=
  ⟨fun xs ys hnew hold => h.1 ys xs hold hnew, fun xs ys hnew hold => h.2 ys xs hold hnew⟩

theorem Unlike.sameDocument_iff {old new : Json} (h : Unlike old new) :
    SameDocument old new ↔ old = new := by
  refine ⟨?_, fun heq => heq ▸ .refl old⟩
  rintro (_ | _ | _ | _)
  · rfl
  · exact absurd rfl (h.1 _ _ rfl)
  · exact absurd rfl (h.1 _ _ rfl)
  · exact absurd rfl (h.2 _ _ rfl)

theorem diffJSON_eq_nil_iff (old : Json) (path : String) (new : Json) :
    diffJSON dir old path new = [] ↔ SameDocument old new := by
  induction old, new using induct₂ generalizing path with
  | other h =>
    rw [h.diffJSON_eq, h.sameDocument_iff]
    simp
  | @arr old new ih =>
    rw [← marks_eq_nil_iff]
    by_cases hscalars : scalars old = true ∧ scalars new = true
    · rw [marks_diffJSON_sets hscalars.1 hscalars.2, sameDocument_sets_iff hscalars.1 hscalars.2]
      simp [iff_def, forall_and, and_comm]
    · rw [marks_diffJSON_entries hscalars, sameDocument_entries_iff hscalars,
        places_eq_nil_iff mem_range_of_isSome]
      refine and_congr_right fun _ => ?_
      exact forall₅_congr fun i v w hv hw => marks_eq_nil_iff.trans (ih i v w hv hw _)
  | obj ih =>
    rw [← marks_eq_nil_iff, marks_diffJSON_obj, sameDocument_obj_iff,
      places_eq_nil_iff fun _ => mem_mergedKeys_of_isSome]
    refine and_congr_right fun _ => ?_
    exact forall₅_congr fun k v w hv hw => marks_eq_nil_iff.trans (ih k v w hv hw _)

theorem marks_mirror (old : Json) (path : String) (new : Json) :
    (marks (diffJSON dir new path old)).Perm
      ((marks (diffJSON dir old path new)).map Mark.mirror) := by
  induction old, new using induct₂ generalizing path with
  | @other old new h =>
    rw [h.diffJSON_eq, h.symm.diffJSON_eq]
    by_cases heq : old = new
    · simp [heq, marks]
    · rw [if_neg heq, if_neg (Ne.symm heq)]
      exact .refl _
  | @arr old new ih =>
    by_cases hscalars : scalars old = true ∧ scalars new = true
    · rw [marks_diffJSON_sets hscalars.1 hscalars.2, marks_diffJSON_sets hscalars.2 hscalars.1]
      simp only [List.map_append, List.map_map]
      exact List.perm_append_comm
    · rw [marks_diffJSON_entries hscalars, marks_diffJSON_entries (mt And.symm hscalars),
        Nat.max_comm]
      exact places_mirror fun i v w hv hw => ih i v w hv hw _
  | obj ih =>
    rw [marks_diffJSON_obj, marks_diffJSON_obj, mergedKeys_comm]
    exact places_mirror fun k v w hv hw => ih k v w hv hw _

end Pacto.Diff
