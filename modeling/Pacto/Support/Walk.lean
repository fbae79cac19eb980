import Mathlib.Data.List.Basic
import Mathlib.Logic.Relation

/-!
# Walks that mark what they pass

A walk follows a partial function from a start and marks every point it passes.
It ends at a point that leads nowhere or is marked already, so it ends on every
finite graph, cycles included, and several walks that share their marks mark
exactly what the starts reach.
-/

namespace Pacto.Support

variable {α : Type*} {next : α → Option α}
variable {a x : α} {marked : List α}

/-! ## Points and where they lead -/

/-- `x` leads on, and following `next` from `a` passes it. -/
def Reaches (next : α → Option α) (a x : α) : Prop :=
  Relation.ReflTransGen (fun a b => next a = some b) a x ∧ (next x).isSome

theorem Reaches.of_step {b : α} (h : next a = some b) (hx : Reaches next b x) :
    Reaches next a x :=
  ⟨.head h hx.1, hx.2⟩

/-- Whatever reaches a point leads on itself. -/
theorem Reaches.isSome (h : Reaches next a x) : (next a).isSome := by
  obtain ⟨hpath, hx⟩ := h
  rcases hpath.cases_head with rfl | ⟨b, hb, -⟩
  · exact hx
  · simp [hb]

/-- A path is still there once more points lead on. -/
theorem Reaches.mono {next' : α → Option α} (hle : ∀ a b, next a = some b → next' a = some b)
    (h : Reaches next a x) : Reaches next' a x := by
  obtain ⟨hpath, hx⟩ := h
  obtain ⟨b, hb⟩ := Option.isSome_iff_exists.mp hx
  exact ⟨Relation.ReflTransGen.mono hle _ _ hpath, by simp [hle x b hb]⟩

/-- The marks hold whatever they lead to, except for the point `a` itself. -/
def ClosedTo (next : α → Option α) (marked : List α) (a : α) : Prop :=
  ∀ x ∈ marked, ∀ y, next x = some y → (next y).isSome → y ∈ marked ∨ y = a

/-- The marks hold whatever they lead to. -/
def Closed (next : α → Option α) (marked : List α) : Prop :=
  ∀ x ∈ marked, ∀ y, next x = some y → (next y).isSome → y ∈ marked

theorem Closed.closedTo (h : Closed next marked) (a : α) :
    ClosedTo next marked a :=
  fun x hx y hy hsome => .inl (h x hx y hy hsome)

theorem Closed.mem_of_reaches (h : Closed next marked)
    (ha : a ∈ marked) (hx : Reaches next a x) : x ∈ marked := by
  obtain ⟨hpath, hsome⟩ := hx
  induction hpath using Relation.ReflTransGen.head_induction_on with
  | refl => exact ha
  | head hstep hrest ih => exact ih (h _ ha _ hstep (Reaches.isSome ⟨hrest, hsome⟩))

/-- A walk stands where it ends by its own rule. -/
def Stopped (next : α → Option α) (s : List α × α) : Prop := s.2 ∈ s.1 ∨ next s.2 = none

/-- A walk that ended left nothing unmarked behind. -/
theorem ClosedTo.closed (h : ClosedTo next marked a)
    (hstopped : Stopped next (marked, a)) : Closed next marked := by
  intro x hx y hy hsome
  rcases h x hx y hy hsome with hmem | rfl
  · exact hmem
  · rcases hstopped with hmem | hnone
    · exact hmem
    · simp [hnone] at hsome

/-- Marking a point leaves where it leads to be marked. -/
theorem ClosedTo.mark {b : α} (h : ClosedTo next marked a)
    (hb : next a = some b) : ClosedTo next (marked ++ [a]) b := by
  intro x hx y hy hsome
  rcases List.mem_append.mp hx with hx | hx
  · rcases h x hx y hy hsome with hmem | rfl
    · exact .inl (List.mem_append_left _ hmem)
    · exact .inl (by simp)
  · rw [List.mem_singleton.mp hx, hb] at hy
    exact .inr (Option.some.inj hy).symm

/-! ## Walking -/

variable [DecidableEq α]

/-- At most `n` steps of a walk from `a`: the marks it leaves and where it
stands. -/
def walk (next : α → Option α) : Nat → List α → α → List α × α
  | 0, marked, a => (marked, a)
  | n + 1, marked, a =>
    if a ∈ marked then (marked, a)
    else
      match next a with
      | none => (marked, a)
      | some b => walk next n (marked ++ [a]) b

def walkAll (next : α → Option α) (n : Nat) (starts : List α) : List α :=
  starts.foldl (fun marked a => (walk next n marked a).1) []

theorem subset_walk (n : Nat) (marked : List α) (a : α) : marked ⊆ (walk next n marked a).1 := by
  induction n generalizing marked a with
  | zero => exact List.Subset.refl _
  | succ n ih =>
    unfold walk
    split
    · exact List.Subset.refl _
    · split
      · exact List.Subset.refl _
      · exact List.Subset.trans (List.subset_append_left _ _) (ih _ _)

theorem reaches_of_mem_walk (n : Nat) (marked : List α) (a : α)
    (h : x ∈ (walk next n marked a).1) : x ∈ marked ∨ Reaches next a x := by
  induction n generalizing marked a with
  | zero => exact .inl h
  | succ n ih =>
    unfold walk at h
    split at h
    · exact .inl h
    · split at h
      · exact .inl h
      · rename_i b hb
        rcases ih _ _ h with hmem | hreach
        · rcases List.mem_append.mp hmem with hmem | hmem
          · exact .inl hmem
          · rw [List.mem_singleton.mp hmem]
            exact .inr ⟨.refl, by simp [hb]⟩
        · exact .inr (hreach.of_step hb)

/-- The marks a walk that ended leaves hold whatever they lead to. -/
theorem walk_closed (n : Nat) (marked : List α) (a : α) (h : ClosedTo next marked a)
    (hstopped : Stopped next (walk next n marked a)) : Closed next (walk next n marked a).1 := by
  induction n generalizing marked a with
  | zero => exact h.closed hstopped
  | succ n ih =>
    unfold walk at hstopped ⊢
    split
    · exact h.closed (.inl ‹_›)
    · rename_i ha
      rw [if_neg ha] at hstopped
      cases hb : next a with
      | none => exact h.closed (.inr hb)
      | some b =>
        simp only [hb] at hstopped ⊢
        exact ih _ _ (h.mark hb) hstopped

/-- A walk that ended marked its start, if that leads anywhere. -/
theorem start_mem_walk (n : Nat) (marked : List α) (a : α) (ha : (next a).isSome)
    (hstopped : Stopped next (walk next n marked a)) : a ∈ (walk next n marked a).1 := by
  obtain ⟨b, hb⟩ := Option.isSome_iff_exists.mp ha
  cases n with
  | zero => exact hstopped.resolve_right (by simp [walk, hb])
  | succ n =>
    unfold walk
    split
    · exact ‹_›
    · simp only [hb]
      exact subset_walk n _ b (by simp)

/-! ## Finite graphs -/

theorem length_unmarked_lt {dom : List α} (hdom : a ∈ dom) (ha : a ∉ marked) :
    (dom.filter (· ∉ marked ++ [a])).length < (dom.filter (· ∉ marked)).length := by
  have hfewer : dom.filter (· ∉ marked ++ [a]) = (dom.filter (· ∉ marked)).filter (· ≠ a) := by
    rw [List.filter_filter]
    congr 1
    funext x
    simp [not_or, and_comm]
  rw [hfewer]
  exact List.length_filter_lt_length_iff_exists.mpr ⟨a, by simp [hdom, ha], by simp⟩

section Finite

variable {dom : List α} (hdom : ∀ a, (next a).isSome → a ∈ dom)

include hdom

/-- A walk ends once it may take as many steps as there are unmarked points. -/
theorem walk_stopped (n : Nat) (marked : List α) (a : α)
    (hn : (dom.filter (· ∉ marked)).length ≤ n) : Stopped next (walk next n marked a) := by
  induction n generalizing marked a with
  | zero =>
    by_cases ha : a ∈ marked
    · exact .inl ha
    · refine .inr (Option.not_isSome_iff_eq_none.mp fun hsome => ?_)
      have hmem : a ∈ dom.filter (· ∉ marked) := by simp [hdom a hsome, ha]
      rw [List.length_eq_zero_iff.mp (Nat.le_zero.mp hn)] at hmem
      cases hmem
  | succ n ih =>
    unfold walk
    split
    · exact .inl ‹_›
    · rename_i ha
      cases hb : next a with
      | none => exact .inr hb
      | some b =>
        have hlt := length_unmarked_lt (hdom a (by simp [hb])) ha
        exact ih _ _ (by omega)

/-- One walk adds to closed marks exactly what its start reaches, and leaves
them closed. -/
theorem mem_walk_iff {n : Nat} (hn : dom.length ≤ n) (h : Closed next marked)
    (a : α) :
    Closed next (walk next n marked a).1 ∧
      ∀ x, x ∈ (walk next n marked a).1 ↔ x ∈ marked ∨ Reaches next a x := by
  have hstopped := walk_stopped hdom n marked a (Nat.le_trans (List.length_filter_le _ _) hn)
  have hclosed := walk_closed n marked a (h.closedTo a) hstopped
  refine ⟨hclosed, fun x => ⟨reaches_of_mem_walk n marked a, ?_⟩⟩
  rintro (hmem | hreach)
  · exact subset_walk n marked a hmem
  · exact hclosed.mem_of_reaches (start_mem_walk n marked a hreach.isSome hstopped) hreach

/-- Walks that share their marks mark exactly what their starts reach. -/
theorem mem_walkAll_iff {n : Nat} (hn : dom.length ≤ n) (starts : List α) (x : α) :
    x ∈ walkAll next n starts ↔ ∃ a ∈ starts, Reaches next a x := by
  suffices h : ∀ marked : List α, Closed next marked →
      (x ∈ starts.foldl (fun marked a => (walk next n marked a).1) marked ↔
        x ∈ marked ∨ ∃ a ∈ starts, Reaches next a x) by
    simpa [walkAll] using h [] (by intro y hy; cases hy)
  intro marked hmarked
  induction starts generalizing marked with
  | nil => simp
  | cons a starts ih =>
    obtain ⟨hclosed, hmem⟩ := mem_walk_iff hdom hn hmarked a
    rw [List.foldl_cons, ih _ hclosed, hmem]
    simp [or_assoc]

end Finite

end Pacto.Support
