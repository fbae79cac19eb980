import Pacto.Promoter.FailedDigest

/-!
# Frozen Stages

A frozen Stage gives the pointer lock to no promote.  The swap that moves the
pointer comes later, in another reconcile, and looks at the lock only, so a
promote that took the lock before the freeze still ships.
-/

namespace Pacto.Promoter

open Delivery Support

variable {r : Reconciler} {s s' : Store}

/-- A step that freezes the Stage leaves no promote in the pointer lock. -/
def Unlocked (s s' : Store) : Prop :=
  s.status.frozen = false → s'.status.frozen = true →
    ∀ cell ∈ s.ops s'.holder, cell.latest.spec.type ≠ .promote

instance (s s' : Store) : Decidable (Unlocked s s') := by
  unfold Unlocked
  infer_instance

/-- `X` is an operation of the given type. -/
def Store.IsOf (s : Store) (X : String) (p : TypeID → Prop) : Prop :=
  ∃ cell, s.ops X = some cell ∧ p cell.latest.spec.type

/-- An operation keeps its type. -/
theorem Store.IsOf.step {X : String} {p : TypeID → Prop} (h : s.IsOf X p) (hstep : Step r s s') :
    s'.IsOf X p :=
  hstep.intent (P := fun spec => p spec.type) h

/-- The pointer lock names an operation that exists and, once the Stage is
frozen, no promote. -/
structure Grounded (s : Store) : Prop where
  stored : s.holder ≠ "" → s.IsOf s.holder fun _ => True
  frozen : s.status.frozen = true → s.holder ≠ "" → s.IsOf s.holder (· ≠ .promote)

theorem Grounded.fresh (metadata : ObjectMeta) (spec : StageSpec) :
    Grounded (Store.fresh metadata spec) :=
  ⟨fun hne => absurd rfl hne, fun _ hne => absurd rfl hne⟩

/-- Whoever comes to hold the pointer on a frozen Stage is no promote. -/
theorem StageStep.taken_of_frozen (h : StageStep r s s') (hfrozen : s.status.frozen = true)
    (hne : s'.holder ≠ "") : s'.holder = s.holder ∨ s.IsOf s'.holder (· ≠ .promote) := by
  by_cases hsame : s'.holder = s.holder
  · exact .inl hsame
  obtain ⟨op, hev, -, hfree, -⟩ := h.taken hsame hne
  obtain ⟨cell, hcell, -, hspec, -⟩ := hev.cell
  refine .inr ⟨cell, hcell, fun hpromote => hfree ⟨hfrozen, ?_⟩⟩
  rw [hspec]
  exact hpromote

theorem Grounded.step (h : Grounded s) (hunlocked : Unlocked s s') (hstep : Step r s s') :
    Grounded s' := by
  have hstored : s'.holder ≠ "" → s.IsOf s'.holder fun _ => True := by
    intro hne
    cases hstep.stageStep.lockStep with
    | kept hsame =>
      rw [hsame] at hne ⊢
      exact h.stored hne
    | released hempty => exact absurd hempty hne
    | taken X op hev hfacet hfrom hX =>
      obtain ⟨cell, hcell, -⟩ := hev.cell
      exact ⟨cell, hX ▸ hcell, trivial⟩
  refine ⟨fun hne => (hstored hne).step hstep, fun hfrozen hne => ?_⟩
  by_cases hbefore : s.status.frozen = true
  · rcases hstep.stageStep.taken_of_frozen hbefore hne with hsame | hother
    · rw [hsame] at hne ⊢
      exact (h.frozen hbefore hne).step hstep
    · exact hother.step hstep
  · obtain ⟨cell, hcell, -⟩ := hstored hne
    have hother := hunlocked (Bool.eq_false_of_not_eq_true hbefore) hfrozen cell hcell
    exact Store.IsOf.step ⟨cell, hcell, hother⟩ hstep

/-- In every run in which each step that freezes the Stage leaves no promote in
the pointer lock, no promote sets the pointer of a frozen Stage. -/
theorem not_frozen_of_unlocked {metadata : ObjectMeta} {spec : StageSpec}
    {σ : System.Config api String} (hrun : r.Runs Unlocked metadata spec σ) :
    ∀ e σ' X cell, r.system.exec σ e = some σ' → SetsPointer r e X σ.shared σ'.shared →
      σ.shared.ops X = some cell → cell.latest.spec.type = .promote →
        σ.shared.status.frozen = false := by
  obtain ⟨hinv, hgrounded⟩ := runs_keep (P := Grounded) hrun (.fresh metadata spec)
    fun s s' _ h hunlocked hstep => h.step hunlocked hstep
  intro e σ' X cell hexec hsets hcell hpromote
  by_contra hfrozen
  obtain ⟨cell', hcell', hother⟩ := hgrounded.frozen (by simpa using hfrozen)
    (by rw [hsets.before]; exact hinv.ne_empty hcell)
  rw [hsets.before] at hcell'
  cases hcell.symm.trans hcell'
  exact hother hpromote

/-! ## A freeze between the lock and the move -/

/-- A person freezes the Stage and unfreezes it between an agent's promotes. -/
def thawedPromote : List (System.Event quietReconciler.system) :=
  agentShips ++ quietReconciler.personally "f1" .freeze (digestOf 'a') 6 ++
    quietReconciler.personally "f2" .unfreeze (digestOf 'a') 7 ++ startsSecond ++
    quietReconciler.reconciles "p2" (List.replicate 4 {})

/-- The second promote ships once the Stage is frozen no longer. -/
theorem not_frozen_thawedPromote :
    ∃ σ σ' cell, quietReconciler.Runs Unlocked quietStage autonomousStage σ ∧
      quietReconciler.system.exec σ (.call "p2" {}) = some σ' ∧
      SetsPointer quietReconciler (.call "p2" {}) "p2" σ.shared σ'.shared ∧
      σ.shared.ops "p2" = some cell ∧ cell.latest.spec.type = .promote ∧
      σ.shared.stage.versions.any (·.status.frozen) = true ∧ σ.shared.status.frozen = false := by
  obtain ⟨σ, σ', hrun, hexec, hend⟩ := quietReconciler.exists_step Unlocked quietStage
    autonomousStage thawedPromote (.call "p2" {})
    (fun s s' => (pointerSwap "p2" s s', s.stage.versions.any (·.status.frozen)))
    (⟨"p2", "p2", "p2", (9, 10), some (.promote, digestOf 'b'), []⟩, true) (by decide +kernel)
  obtain ⟨hswap, hfrozen⟩ := Prod.mk.inj hend
  obtain ⟨hsets, -, cell, hcell, htype, -⟩ := setsPointer_of_eq rfl (by decide) hswap
  exact ⟨σ, σ', cell, hrun, hexec, hsets, hcell, htype, hfrozen,
    not_frozen_of_unlocked hrun _ σ' "p2" cell hexec hsets hcell htype⟩

/-- A person's freeze concludes between the promote's lock and its move. -/
def frozenPromote : List (System.Event quietReconciler.system) :=
  agentPromotes ++ quietReconciler.personally "f1" .freeze (digestOf 'a') 6 ++
    quietReconciler.reconciles "p2" (List.replicate 4 {})

/-- The promote sets the pointer of the frozen Stage. -/
theorem frozen_frozenPromote :
    ∃ σ σ' cell, quietReconciler.Runs (fun _ _ => True) quietStage autonomousStage σ ∧
      quietReconciler.system.exec σ (.call "p2" {}) = some σ' ∧
      SetsPointer quietReconciler (.call "p2" {}) "p2" σ.shared σ'.shared ∧
      σ.shared.ops "p2" = some cell ∧ cell.latest.spec.type = .promote ∧
      σ.shared.status.frozen = true := by
  obtain ⟨σ, σ', hrun, hexec, hend⟩ := quietReconciler.exists_step (fun _ _ => True) quietStage
    autonomousStage frozenPromote (.call "p2" {})
    (fun s s' => (pointerSwap "p2" s s', s.status.frozen))
    (⟨"p2", "p2", "p2", (8, 9), some (.promote, digestOf 'b'), []⟩, true) (by decide +kernel)
  obtain ⟨hswap, hfrozen⟩ := Prod.mk.inj hend
  obtain ⟨hsets, -, cell, hcell, htype, -⟩ := setsPointer_of_eq rfl (by decide) hswap
  exact ⟨σ, σ', cell, hrun, hexec, hsets, hcell, htype, hfrozen⟩

end Pacto.Promoter
