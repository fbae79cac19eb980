import Mathlib.Data.List.Infix

/-!
# Prefix codes

A code replaces every symbol by a word.  When no word begins another one, a text
is determined by its encoding.  Percent-escaping is such a code.
-/

namespace Pacto.Support

variable {α β : Type*}

/-- Words are not empty and no word begins the word of another symbol. -/
structure PrefixCode (code : α → List β) : Prop where
  ne_nil : ∀ a, code a ≠ []
  eq_of_prefix : ∀ a b, code a <+: code b → a = b

variable {code : α → List β}

theorem PrefixCode.flatMap_injective (h : PrefixCode code) :
    Function.Injective fun l : List α => l.flatMap code := by
  intro l
  induction l with
  | nil =>
    intro m heq
    cases m with
    | nil => rfl
    | cons b m => exact absurd heq.symm (by simp [h.ne_nil b])
  | cons a l ih =>
    intro m heq
    cases m with
    | nil => exact absurd heq (by simp [h.ne_nil a])
    | cons b m =>
      simp only [List.flatMap_cons] at heq
      -- both encodings begin the same text, so one word begins the other
      have hleft : code a <+: code b ++ m.flatMap code := heq ▸ List.prefix_append _ _
      have hab : a = b := by
        rcases List.prefix_or_prefix_of_prefix hleft (List.prefix_append _ _) with hp | hp
        · exact h.eq_of_prefix a b hp
        · exact (h.eq_of_prefix b a hp).symm
      subst hab
      exact congrArg (a :: ·) (ih (List.append_cancel_left heq))

/-- A symbol that occurs in no word does not occur in an encoding. -/
theorem not_mem_flatMap_of_forall {b : β} (h : ∀ a, b ∉ code a) (l : List α) :
    b ∉ l.flatMap code := by
  simpa using fun a _ => h a

end Pacto.Support
