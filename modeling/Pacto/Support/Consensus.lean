import Mathlib.Data.List.Basic

/-!
# Agreement of several contributors

Contributors are heard one after another, and each says a value or nothing.  What they
said so far is agreed on, contested, or nothing; once it is contested it stays so.
-/

namespace Pacto.Support

variable {κ : Type}

inductive Consensus (κ : Type) where
  | unsaid
  | agreed (k : κ)
  | contested

namespace Consensus

@[simp] def hear [DecidableEq κ] : Consensus κ → Option κ → Consensus κ
  | c, none => c
  | .unsaid, some k => .agreed k
  | .agreed k, some k' => if k = k' then .agreed k else .contested
  | .contested, some _ => .contested

/-- What a verdict says of the values that were said. -/
@[simp] def Judges (ks : List κ) : Consensus κ → Prop
  | .unsaid => ks = []
  | .agreed k => k ∈ ks ∧ ∀ k' ∈ ks, k' = k
  | .contested => ∃ k ∈ ks, ∃ k' ∈ ks, k ≠ k'

theorem Judges.hear [DecidableEq κ] {γ : Type} {said : γ → Option κ} {heard : List γ}
    {c : Consensus κ} (h : Judges (heard.filterMap said) c) (x : γ) :
    Judges ((heard ++ [x]).filterMap said) (c.hear (said x)) := by
  rw [List.filterMap_append]
  cases hsaid : said x with
  | none => simpa [hsaid] using h
  | some k' =>
    have hlast : [x].filterMap said = [k'] := by simp [hsaid]
    rw [hlast]
    cases c with
    | unsaid =>
      have hnil : heard.filterMap said = [] := h
      simp [hnil]
    | agreed k =>
      obtain ⟨hk, hall⟩ := h
      simp only [Consensus.hear]
      split_ifs with heq
      · subst heq
        refine ⟨List.mem_append_left _ hk, fun k' hk' => ?_⟩
        exact (List.mem_append.mp hk').elim (hall k') List.mem_singleton.mp
      · exact ⟨k, List.mem_append_left _ hk, k', by simp, heq⟩
    | contested =>
      obtain ⟨k, hk, l, hl, hne⟩ := h
      exact ⟨k, List.mem_append_left _ hk, l, List.mem_append_left _ hl, hne⟩

/-- The values decide the verdict. -/
theorem Judges.contested_iff {ks : List κ} {c : Consensus κ} (h : Judges ks c) :
    c = .contested ↔ ∃ k ∈ ks, ∃ k' ∈ ks, k ≠ k' := by
  cases c with
  | unsaid =>
    have hnil : ks = [] := h
    simp [hnil]
  | agreed k =>
    refine iff_of_false nofun ?_
    rintro ⟨k₁, hk₁, k₂, hk₂, hne⟩
    exact hne ((h.2 k₁ hk₁).trans (h.2 k₂ hk₂).symm)
  | contested => exact iff_of_true rfl h

theorem Judges.agreed_iff {ks : List κ} {c : Consensus κ} (h : Judges ks c) :
    (∃ k, c = .agreed k) ↔ ks ≠ [] ∧ ∀ k ∈ ks, ∀ k' ∈ ks, k = k' := by
  cases c with
  | unsaid =>
    have hnil : ks = [] := h
    simp [hnil]
  | agreed k =>
    exact iff_of_true ⟨k, rfl⟩ ⟨List.ne_nil_of_mem h.1,
      fun k₁ hk₁ k₂ hk₂ => (h.2 k₁ hk₁).trans (h.2 k₂ hk₂).symm⟩
  | contested =>
    obtain ⟨k, hk, k', hk', hne⟩ := h
    exact iff_of_false nofun fun hall => hne (hall.2 k hk k' hk')

end Consensus

end Pacto.Support
