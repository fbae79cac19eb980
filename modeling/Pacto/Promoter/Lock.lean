import Pacto.Promoter.OneSeq

/-!
# Who holds the pointer

The pointer lock names the operation that may move the pointer.  An operation
takes it by compare-and-swap, gives it up when it concludes, and loses it to a
rollback or override once it has moved the pointer.
-/

namespace Pacto.Promoter

open Delivery Support

variable {r : Reconciler} {s s' : Store}

def Store.holder (s : Store) : String := s.status.locks.get .pointer

@[simp] theorem holder_write (s : Store) (st : Stage) :
    (s.setStage (s.stage.write st)).holder = st.status.locks.get .pointer := by
  simp [Store.holder]

theorem holder_congr (h : s'.stage.versions = s.stage.versions) : s'.holder = s.holder := by
  simp only [Store.holder, status_congr h]

/-- A step, by what it does to the pointer lock. -/
inductive LockStep (s s' : Store) : Prop where
  | kept (h : s'.holder = s.holder)
  | released (h : s'.holder = "")
  | taken (X : String) (op : Operation) (hev : LockEvidence X op s)
      (hfacet : op.spec.facet = .pointer) (hfrom : s.status.pointer = op.spec.params.from)
      (h : s'.holder = X)

/-- Only the swap that takes the pointer lock gives it to somebody else. -/
theorem StageStep.taken (h : StageStep r s s') (hnew : s'.holder ≠ s.holder)
    (hne : s'.holder ≠ "") :
    ∃ op, LockEvidence s'.holder op s ∧ op.spec.facet = .pointer ∧
      ¬(s.status.frozen = true ∧ op.spec.type = .promote) ∧
      s.status.pointer = op.spec.params.from := by
  cases h with
  | quiet hversions => exact absurd (holder_congr hversions) hnew
  | aside st hs' haside =>
    refine absurd ?_ hnew
    rw [hs', holder_write, haside.locks]
    rfl
  | lock X op hev hlock hs' =>
    by_cases hfacet : op.spec.facet = .pointer
    · have hX : s'.holder = X := by
        rw [hs', holder_write, ← hev.uid]
        exact hfacet ▸ Locks.get_set_self _ _ _
      rw [hX]
      exact ⟨op, hev, hfacet, hlock⟩
    · refine absurd ?_ hnew
      rw [hs', holder_write]
      exact Locks.get_set_of_ne _ _ (Ne.symm hfacet)
  | move X op hev hheld hs' =>
    refine absurd ?_ hnew
    rw [hs', holder_write]
    rfl
  | finish X op c squat hev hs' =>
    obtain ⟨-, -, -, -, hlocks⟩ := finishOn_keeps op c squat s.stage.latest
    rw [hs', holder_write, hlocks] at hnew hne
    exact absurd (releaseLock_get op s.stage.latest .pointer) (not_or.mpr ⟨hnew, hne⟩)

theorem StageStep.lockStep (h : StageStep r s s') : LockStep s s' := by
  by_cases hsame : s'.holder = s.holder
  · exact .kept hsame
  by_cases hempty : s'.holder = ""
  · exact .released hempty
  obtain ⟨op, hev, hfacet, -, hfrom⟩ := h.taken hsame hempty
  exact .taken s'.holder op hev hfacet hfrom rfl

/-- A conclusion the Stage gives an operation is the operation's own doing. -/
theorem StageStep.given (h : StageStep r s s') {X : String} {e : Concluded}
    (he : s'.Given X e) :
    s.Given X e ∨ ∃ op c squat, FinishEvidence r X op c s ∧ concludedOn s.status X = none ∧
      e = concludedEntry op (settled op c s.stage.latest) (s.status.stream.seq + 1) ∧
      s' = s.setStage (s.stage.write (finishOn squat (op, c) s.stage.latest).2) := by
  have hold : ∀ st : Stage, s' = s.setStage (s.stage.write st) →
      st.status.stream.concluded = s.status.stream.concluded → s.Given X e := by
    rintro st rfl hsame
    exact (given_write_of_eq hsame X e).mp he
  cases h with
  | quiet hversions => exact .inl ((given_congr hversions X e).mp he)
  | aside st hs' haside => exact .inl (hold st hs' haside.concluded)
  | lock Y op hev hlock hs' => exact .inl (hold _ hs' rfl)
  | move Y op hev hheld hs' => exact .inl (hold _ hs' rfl)
  | finish Y op c squat hev hs' =>
    rw [hs', given_write] at he
    rcases he with hgiven | ⟨huid, hmem⟩
    · exact .inl hgiven
    rcases mem_finishOn_concluded hmem with hmem | ⟨hopen, rfl⟩
    · exact .inl (Store.given_of_mem huid hmem)
    · obtain rfl : Y = X := hev.uid.symm.trans huid
      rw [hev.uid] at hopen
      exact .inr ⟨op, c, squat, hev, hopen, rfl, hs'⟩

/-- No operation takes the pointer lock after the Stage concluded it. -/
def Retired (s s' : Store) : Prop :=
  s'.holder ≠ s.holder →
    ∀ st ∈ s.stage.versions, ∀ e ∈ st.status.stream.concluded, e.uid ≠ s'.holder

instance (s s' : Store) : Decidable (Retired s s') := by
  unfold Retired
  infer_instance

/-- `X` moves the pointer and the Stage has not concluded it. -/
structure Holding (s : Store) (X : String) (cell : Cell) : Prop where
  stored : s.ops X = some cell
  facet : cell.latest.spec.facet = .pointer
  isOpen : ∀ e, ¬s.Given X e

/-- Whoever is in the pointer lock is not concluded. -/
def HolderOpen (s : Store) : Prop := s.holder ≠ "" → ∃ cell, Holding s s.holder cell

theorem Holding.released {X : String} {cell : Cell} (h : Holding s X cell) {op : Operation}
    {c : Conclusion} (hev : FinishEvidence r X op c s) (squat : String) (hX : X ≠ "") :
    (s.setStage (s.stage.write (finishOn squat (op, c) s.stage.latest).2)).holder ≠ X := by
  have hfacet : op.spec.facet = .pointer := by
    rw [hev.spec h.stored]
    exact h.facet
  obtain ⟨-, -, -, -, hlocks⟩ := finishOn_keeps op c squat s.stage.latest
  rw [holder_write, hlocks, ← hfacet, ← hev.uid]
  exact releaseLock_get_self (by rw [hev.uid]; exact hX)

theorem HolderOpen.holding (h : HolderOpen s) (hinv : Inv r s) {X : String} {cell : Cell}
    (hcell : s.ops X = some cell) (hheld : s.holder = X) : Holding s X cell := by
  obtain ⟨cell', hholding⟩ := h (by rw [hheld]; exact hinv.ne_empty hcell)
  rw [hheld] at hholding
  cases hcell.symm.trans hholding.stored
  exact hholding

theorem HolderOpen.step (h : HolderOpen s) (hretired : Retired s s') (hstep : Step r s s') :
    HolderOpen s' := by
  intro hne
  -- An open operation stays open while it stays in the lock.
  have hstill : ∀ cell, Holding s s'.holder cell → ∃ cell', Holding s' s'.holder cell' := by
    intro cell hholding
    obtain ⟨cell', hcell', hspec, -⟩ := hstep.cell hholding.stored
    refine ⟨cell', hcell', by rw [hspec]; exact hholding.facet, fun e he => ?_⟩
    rcases hstep.stageStep.given he with hold | ⟨op, c, squat, hev, -, -, hs'⟩
    · exact hholding.isOpen e hold
    · have hreleased := hholding.released hev squat hne
      rw [← hs'] at hreleased
      exact hreleased rfl
  by_cases hsame : s'.holder = s.holder
  · obtain ⟨cell, hholding⟩ := h (by rw [← hsame]; exact hne)
    rw [← hsame] at hholding
    exact hstill cell hholding
  · obtain ⟨op, hev, hfacet, -⟩ := hstep.stageStep.taken hsame hne
    obtain ⟨cell, hcell, -, hspec, -⟩ := hev.cell
    refine hstill cell ⟨hcell, by rw [← hspec]; exact hfacet, ?_⟩
    rintro e ⟨huid, st, hst, hmem⟩
    exact hretired hsame st hst e hmem huid

theorem HolderOpen.fresh (metadata : ObjectMeta) (spec : StageSpec) :
    HolderOpen (Store.fresh metadata spec) :=
  fun hne => absurd rfl hne

end Pacto.Promoter
