import Mathlib.Data.List.Basic

/-!
# Cutting a list at a separator

`splitFirst` and `splitLast` split a list at the first and at the last occurrence of
a separator and drop it.  Each is determined by its result: what is put together
around a separator comes apart the same way as long as the right half, or the
left one, is free of it.
-/

namespace Pacto.Support

variable {α : Type*} [DecidableEq α]

/-- What precedes the first `sep` and what follows it. -/
def splitFirst (sep : α) : List α → Option (List α × List α)
  | [] => none
  | a :: rest =>
    if a = sep then some ([], rest)
    else (splitFirst sep rest).map fun p => (a :: p.1, p.2)

/-- What precedes the last `sep` and what follows it. -/
def splitLast (sep : α) : List α → Option (List α × List α)
  | [] => none
  | a :: rest =>
    match splitLast sep rest with
    | some p => some (a :: p.1, p.2)
    | none => if a = sep then some ([], rest) else none

variable {sep : α} {l front back : List α}

theorem splitFirst_append_sep (h : sep ∉ front) :
    splitFirst sep (front ++ sep :: back) = some (front, back) := by
  induction front with
  | nil => simp [splitFirst]
  | cons a front ih =>
    obtain ⟨ha, hfront⟩ : sep ≠ a ∧ sep ∉ front := by simpa using h
    simp [splitFirst, Ne.symm ha, ih hfront]

/-- Around a separator both halves are determined when the left ones are free of
it. -/
theorem append_sep_inj_left {front' back' : List α} (h : sep ∉ front) (h' : sep ∉ front')
    (heq : front ++ sep :: back = front' ++ sep :: back') : front = front' ∧ back = back' := by
  have hcut : splitFirst sep (front ++ sep :: back) = some (front, back) := splitFirst_append_sep h
  rw [heq, splitFirst_append_sep h'] at hcut
  simpa [eq_comm] using hcut

end Pacto.Support
