import Mathlib.Data.List.Basic

/-!
# Dotted paths

A location in a document is written as its keys joined by dots, with the entries
of a list in brackets.  `segments` drops the brackets and splits at the dots.  A
key without a dot or a bracket adds one segment and an entry adds none, so long
as no bracket is left open.
-/

namespace Pacto.Support
namespace DottedPath

/-! ## Dropping the brackets -/

/-- Drops every bracket up to the one that closes it.  A bracket that is never
closed stays. -/
def stripFrom : Bool → List Char → List Char
  | _, [] => []
  | false, c :: cs =>
    if c = '[' ∧ ']' ∈ cs then stripFrom true cs else c :: stripFrom false cs
  | true, c :: cs => stripFrom (c ≠ ']') cs

/-- A path without its brackets. -/
def strip (path : String) : String := String.ofList (stripFrom false path.toList)

attribute [local simp] stripFrom

theorem stripFrom_append {s : List Char} (hopen : '[' ∉ s) (hclose : ']' ∉ s) (p : List Char) :
    ∀ inside, (inside = true → ']' ∈ p) →
      stripFrom inside (p ++ s) = stripFrom inside p ++ s := by
  have hs : stripFrom false s = s := by
    induction s with
    | nil => rfl
    | cons c s ih =>
      simp only [List.mem_cons, not_or] at hopen hclose
      have hc : ¬ (c = '[' ∧ ']' ∈ s) := fun h => hopen.1 h.1.symm
      rw [stripFrom, if_neg hc, ih hopen.2 hclose.2]
  induction p with
  | nil =>
    intro inside hinside
    cases inside with
    | false => simp [hs]
    | true => exact absurd (hinside rfl) List.not_mem_nil
  | cons c p ih =>
    intro inside hinside
    cases inside with
    | false =>
      have hmem : ']' ∈ p ++ s ↔ ']' ∈ p := by simp [hclose]
      simp only [List.cons_append, stripFrom, hmem]
      split
      · next h => exact ih true fun _ => h.2
      · rw [ih false (by simp), List.cons_append]
    | true =>
      simp only [List.cons_append, stripFrom]
      apply ih
      intro hne
      have hne' : c ≠ ']' := by simpa using hne
      exact (List.mem_cons.mp (hinside rfl)).resolve_left fun h => hne' h.symm

theorem stripFrom_true {i rest : List Char} (hi : ']' ∉ i) :
    stripFrom true (i ++ ']' :: rest) = stripFrom false rest := by
  induction i with
  | nil => simp
  | cons c i ih =>
    simp only [List.mem_cons, not_or] at hi
    have hc : decide (c ≠ ']') = true := by simpa using fun h => hi.1 h.symm
    rw [List.cons_append, stripFrom, hc, ih hi.2]

theorem stripFrom_entry {i : List Char} (hi : ']' ∉ i) (p : List Char) :
    ∀ inside, (inside = true → ']' ∈ p) → '[' ∉ stripFrom inside p →
      stripFrom inside (p ++ '[' :: i ++ [']']) = stripFrom inside p := by
  induction p with
  | nil =>
    intro inside hinside _
    cases inside with
    | true => exact absurd (hinside rfl) List.not_mem_nil
    | false =>
      simp only [List.nil_append, List.cons_append, stripFrom, true_and]
      rw [if_pos (by simp), stripFrom_true hi]
      rfl
  | cons c p ih =>
    intro inside hinside hclosed
    cases inside with
    | false =>
      simp only [List.cons_append, stripFrom] at hclosed ⊢
      split at hclosed
      · next h =>
        rw [if_pos h, if_pos ⟨h.1, by simp⟩]
        exact ih true (fun _ => h.2) hclosed
      · next h =>
        simp only [List.mem_cons, not_or] at hclosed
        have hc : ¬ (c = '[' ∧ ']' ∈ p ++ '[' :: i ++ [']']) := fun h => hclosed.1 h.1.symm
        rw [if_neg h, if_neg hc, ih false (by simp) hclosed.2]
    | true =>
      simp only [List.cons_append, stripFrom] at hclosed ⊢
      refine ih _ (fun hne => ?_) hclosed
      have hne' : c ≠ ']' := by simpa using hne
      exact (List.mem_cons.mp (hinside rfl)).resolve_left fun h => hne' h.symm

/-! ## Splitting at the dots -/

/-- The words between the dots. -/
def split : List Char → List (List Char)
  | [] => [[]]
  | c :: cs =>
    if c = '.' then [] :: split cs
    else
      match split cs with
      | [] => [[c]]
      | w :: ws => (c :: w) :: ws

attribute [local simp] split

theorem split_ne_nil (cs : List Char) : split cs ≠ [] := by
  cases cs with
  | nil => simp
  | cons c cs =>
    rw [split]
    split
    · simp
    · split <;> simp

theorem split_append_dot (a b : List Char) : split (a ++ '.' :: b) = split a ++ split b := by
  induction a with
  | nil => simp
  | cons c a ih =>
    rw [List.cons_append, split, split, ih]
    split
    · rfl
    · cases hsplit : split a with
      | nil => exact absurd hsplit (split_ne_nil a)
      | cons w ws => rfl

theorem split_of_notMem {b : List Char} (h : '.' ∉ b) : split b = [b] := by
  induction b with
  | nil => rfl
  | cons c b ih =>
    simp only [List.mem_cons, not_or] at h
    rw [split, if_neg fun hc => h.1 hc.symm, ih h.2]

/-! ## The segments of a path -/

/-- The keys a path passes through. -/
def segments (path : String) : List String :=
  (split (strip path).toList).map String.ofList

/-- A key that can be told from the rest of a path. -/
def Plain (k : String) : Prop := '.' ∉ k.toList ∧ '[' ∉ k.toList ∧ ']' ∉ k.toList

instance (k : String) : Decidable (Plain k) := inferInstanceAs (Decidable (_ ∧ _))

/-- No bracket of the path is left open. -/
def Closed (path : String) : Prop := '[' ∉ (strip path).toList

instance (path : String) : Decidable (Closed path) := inferInstanceAs (Decidable (¬ _))

variable {path k i : String}

theorem toList_strip : (strip path).toList = stripFrom false path.toList := by simp [strip]

theorem strip_child (hk : Plain k) : strip (path ++ "." ++ k) = strip path ++ "." ++ k := by
  have hopen : '[' ∉ ".".toList ++ k.toList := by simpa using hk.2.1
  have hclose : ']' ∉ ".".toList ++ k.toList := by simpa using hk.2.2
  apply String.toList_inj.mp
  simp only [toList_strip, String.toList_append, List.append_assoc]
  exact stripFrom_append hopen hclose _ false (by simp)

theorem segments_child (hk : Plain k) : segments (path ++ "." ++ k) = segments path ++ [k] := by
  have hlist : (strip path ++ "." ++ k).toList = (strip path).toList ++ '.' :: k.toList := by simp
  rw [segments, strip_child hk, hlist, split_append_dot, split_of_notMem hk.1, List.map_append]
  simp [segments]

theorem strip_entry (hpath : Closed path) (hi : ']' ∉ i.toList) :
    strip (path ++ "[" ++ i ++ "]") = strip path := by
  apply String.toList_inj.mp
  rw [Closed, toList_strip] at hpath
  rw [toList_strip, toList_strip]
  have hlist : (path ++ "[" ++ i ++ "]").toList = path.toList ++ '[' :: i.toList ++ [']'] := by simp
  rw [hlist]
  exact stripFrom_entry hi _ false (by simp) hpath

theorem segments_entry (hpath : Closed path) (hi : ']' ∉ i.toList) :
    segments (path ++ "[" ++ i ++ "]") = segments path := by
  rw [segments, strip_entry hpath hi, segments]

theorem Closed.child (hpath : Closed path) (hk : Plain k) : Closed (path ++ "." ++ k) := by
  rw [Closed, strip_child hk]
  simpa using ⟨hpath, hk.2.1⟩

theorem Closed.entry (hpath : Closed path) (hi : ']' ∉ i.toList) :
    Closed (path ++ "[" ++ i ++ "]") := by
  rwa [Closed, strip_entry hpath hi]

/-! ## Cutting -/

/-- What stands before and after the first occurrence of a text. -/
def cut (sep : List Char) : List Char → Option (List Char × List Char)
  | [] => if sep = [] then some ([], []) else none
  | c :: cs =>
    if sep.isPrefixOf (c :: cs) then some ([], (c :: cs).drop sep.length)
    else (cut sep cs).map fun (before, after) => (c :: before, after)

/-- What stands before and after the last occurrence of a text. -/
def cutLast (sep s : List Char) : Option (List Char × List Char) :=
  (cut sep.reverse s.reverse).map fun (after, before) => (before.reverse, after.reverse)

end DottedPath
end Pacto.Support
