import Mathlib.Data.List.Basic

/-!
# Association lists

A list of pairs read by key: the first entry of a key counts.
-/

namespace Pacto.Support

variable {α β : Type*} [BEq α] [LawfulBEq α] {l : List (α × β)} {a : α} {b : β}

theorem mem_of_lookup_eq_some (h : l.lookup a = some b) : (a, b) ∈ l := by
  induction l with
  | nil => cases h
  | cons r l ih =>
    obtain ⟨a', b'⟩ := r
    by_cases ha : a = a'
    · subst ha
      simp only [List.lookup_cons, beq_self_eq_true, Option.some.injEq] at h
      rw [h]
      exact List.mem_cons_self
    · have hne : (a == a') = false := by simpa using ha
      rw [List.lookup_cons, hne] at h
      exact List.mem_cons_of_mem _ (ih h)

theorem isSome_lookup_of_mem (h : (a, b) ∈ l) : (l.lookup a).isSome := by
  induction l with
  | nil => exact absurd h List.not_mem_nil
  | cons r l ih =>
    obtain ⟨a', b'⟩ := r
    rw [List.lookup_cons]
    rcases List.mem_cons.mp h with heq | h
    · cases heq
      simp
    · split
      · rfl
      · exact ih h

/-- Dropping entries of other keys changes nothing for a key. -/
theorem lookup_filter_fst {p : α → Bool} (ha : p a = true) :
    (l.filter fun r => p r.1).lookup a = l.lookup a := by
  induction l with
  | nil => rfl
  | cons r l ih =>
    obtain ⟨a', b'⟩ := r
    by_cases haa : a = a'
    · subst haa
      simp [ha]
    · have hne : (a == a') = false := by simpa using haa
      cases hp : p a' with
      | true => simp [hp, List.lookup_cons, hne, ih]
      | false => simp [hp, List.lookup_cons, hne, ih]

theorem lookup_map_snd {γ : Type*} (f : β → γ) :
    (l.map fun r => (r.1, f r.2)).lookup a = (l.lookup a).map f := by
  induction l with
  | nil => rfl
  | cons r l ih =>
    obtain ⟨a', b'⟩ := r
    by_cases ha : a = a'
    · simp [ha]
    · have hne : (a == a') = false := by simpa using ha
      simp only [List.map_cons, List.lookup_cons, hne, ih]

/-- With one entry a key, every entry is the one found. -/
theorem lookup_eq_some_of_mem (h : (l.map Prod.fst).Nodup) (hmem : (a, b) ∈ l) :
    l.lookup a = some b := by
  induction l with
  | nil => exact absurd hmem List.not_mem_nil
  | cons r l ih =>
    obtain ⟨a', b'⟩ := r
    rw [List.map_cons, List.nodup_cons] at h
    rcases List.mem_cons.mp hmem with heq | hmem
    · cases heq
      simp
    · have hne : (a == a') = false := by
        have hkey : a ≠ a' := fun heq => h.1 (heq ▸ List.mem_map.mpr ⟨(a, b), hmem, rfl⟩)
        simpa using hkey
      rw [List.lookup_cons, hne]
      exact ih h.2 hmem

theorem mem_keys_of_lookup (h : l.lookup a = some b) : a ∈ l.map Prod.fst :=
  List.mem_map.mpr ⟨(a, b), mem_of_lookup_eq_some h, rfl⟩

theorem exists_lookup_of_mem_keys (h : a ∈ l.map Prod.fst) : ∃ b, l.lookup a = some b := by
  obtain ⟨⟨a', b⟩, hmem, rfl⟩ := List.mem_map.mp h
  exact Option.isSome_iff_exists.mp (isSome_lookup_of_mem hmem)

end Pacto.Support
