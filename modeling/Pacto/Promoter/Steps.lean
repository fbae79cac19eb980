import Pacto.Promoter.Contract

/-!
# What one step changes

A step of a run seen from the Stage, and seen from one operation.
-/

namespace Pacto.Promoter

open Delivery Support

variable {r : Reconciler} {s s' : Store}

inductive StageStep (r : Reconciler) (s s' : Store) : Prop where
  | quiet (hversions : s'.stage.versions = s.stage.versions)
  | aside (st : Stage) (hs' : s' = s.setStage (s.stage.write st))
      (haside : Aside s.stage.latest.spec s.status st.status)
  | lock (X : String) (op : Operation) (hev : LockEvidence X op s)
      (hlock : ¬(s.status.frozen = true ∧ op.spec.type = .promote) ∧
        s.status.pointer = op.spec.params.from)
      (hs' : s' = s.setStage (s.stage.write { s.stage.latest with
        status := { s.status with locks := s.status.locks.set op.spec.facet op.uid } }))
  | move (X : String) (op : Operation) (hev : MoveEvidence X op s)
      (hheld : s.status.locks.get .pointer = X)
      (hs' : s' = s.setStage (s.stage.write { s.stage.latest with
        status := { s.status with pointer := op.spec.params.to, lastOp := X } }))
  | finish (X : String) (op : Operation) (c : Conclusion) (squat : String)
      (hev : FinishEvidence r X op c s)
      (hs' : s' = s.setStage (s.stage.write (finishOn squat (op, c) s.stage.latest).2))

theorem Step.stageStep (h : Step r s s') : StageStep r s s' := by
  cases h with
  | idle h => exact .quiet (by rw [h])
  | move X h =>
    cases h with
    | idle => exact .quiet rfl
    | read => exact .quiet rfl
    | lock op st hlock hev =>
      obtain ⟨hfree, hfrom, rfl⟩ := lockOn_eq_ok_iff.mp hlock
      exact .lock X op hev ⟨hfree, hfrom⟩ rfl
    | move op st hmove hev =>
      obtain ⟨hheld, rfl⟩ := moveOn_eq_ok_iff.mp hmove
      rw [hev.uid] at hheld
      exact .move X op hev hheld (by rw [hev.uid]; rfl)
    | finish op c squat hev => exact .finish X op c squat hev rfl
    | save cell op hcell hgone hstep hclass => exact .quiet rfl
    | raise uid created op hne hfresh hstage => exact .quiet rfl
  | disturb h =>
    cases h with
    | showStage => exact .quiet rfl
    | writeStage st hmetadata haside => exact .aside st rfl haside
    | cell old new hcell hversions => exact .quiet rfl
    | touch old op hcell hgone hprogress hstatus => exact .quiet rfl
    | propose uid created op hne hfresh hstage => exact .quiet rfl
    | approve a => exact .quiet rfl

/-- A step leaves the Stage's versions alone or adds one, and nothing else. -/
theorem StageStep.versions (h : StageStep r s s') :
    s'.stage.versions = s.stage.versions ∨ ∃ st, s' = s.setStage (s.stage.write st) := by
  cases h with
  | quiet hversions => exact .inl hversions
  | aside st hs' => exact .inr ⟨st, hs'⟩
  | lock X op _ _ hs' => exact .inr ⟨_, hs'⟩
  | move X op _ _ hs' => exact .inr ⟨_, hs'⟩
  | finish X op c squat _ hs' => exact .inr ⟨_, hs'⟩

/-- A step, by what it does to the stored version of one operation. -/
inductive OpStep (X : String) (s s' : Store) : Prop where
  | absent (h : s.ops X = none) (h' : s'.ops X = none)
  | created (cell : Cell) (h : s.ops X = none) (h' : s'.ops X = some cell)
      (hstatus : cell.latest.status = {}) (honly : ∀ v ∈ cell.register.versions, v = cell.latest)
      (hgone : cell.gone = false) (hborn : cell.born = s.stage.delivered - 1)
      (hstage : s'.stage = s.stage)
  | kept (cell cell' : Cell) (h : s.ops X = some cell) (h' : s'.ops X = some cell')
      (hversions : cell'.register.versions = cell.register.versions) (hborn : cell'.born = cell.born)
  | touched (cell cell' : Cell) (h : s.ops X = some cell) (h' : s'.ops X = some cell')
      (hmem : ∀ v ∈ cell'.register.versions, v ∈ cell.register.versions ∨ v = cell'.latest)
      (hgone : cell'.gone = cell.gone) (hborn : cell'.born = cell.born)
      (hprogress : cell'.latest.progress = cell.latest.progress)
      (hstatus : cell'.latest.status = cell.latest.status) (hstage : s'.stage = s.stage)
  | saved (cell cell' : Cell) (h : s.ops X = some cell) (h' : s'.ops X = some cell')
      (hmem : ∀ v ∈ cell'.register.versions, v ∈ cell.register.versions ∨ v = cell'.latest)
      (hgone : cell.gone = false) (hgone' : cell'.gone = false) (hborn : cell'.born = cell.born)
      (hstep : StatusStep X s cell.latest cell'.latest) (hstage : s'.stage = s.stage)

theorem OpStep.of_ops {X : String} (h : s'.ops X = s.ops X) : OpStep X s s' := by
  cases hcell : s.ops X with
  | none => exact .absent hcell (h.trans hcell)
  | some cell => exact .kept cell cell hcell (h.trans hcell) rfl rfl

theorem OpStep.of_addOp {X uid : String} (created : Nat) (op : Operation)
    (hfresh : s.ops uid = none) : OpStep X s (s.addOp uid created op) := by
  by_cases hX : X = uid
  · subst hX
    refine .created (s.newCell X created op) hfresh (by simp [Store.addOp, Store.setCell]) rfl ?_
      rfl rfl rfl
    intro v hv
    simpa [Store.newCell, Cell.latest] using hv
  · exact .of_ops (by simp [Store.addOp, Store.setCell, Function.update_of_ne hX])

theorem Cell.latest_write (cell : Cell) (op : Operation) :
    ({ cell with register := cell.register.write op } : Cell).latest =
      Resource.withVersion cell.register.versions.length op :=
  Register.latest_write _ _

theorem mem_write_versions {cell : Cell} {op v : Operation}
    (h : v ∈ (cell.register.write op).versions) :
    v ∈ cell.register.versions ∨
      v = ({ cell with register := cell.register.write op } : Cell).latest := by
  simpa [Cell.latest] using h

theorem Step.opStep (X : String) (h : Step r s s') : OpStep X s s' := by
  cases h with
  | idle h => exact .of_ops (by rw [h])
  | move Y h =>
    cases h with
    | idle => exact .of_ops rfl
    | read => exact .of_ops rfl
    | lock op st hlock hev => exact .of_ops rfl
    | move op st hmove hev => exact .of_ops rfl
    | finish op c squat hev => exact .of_ops rfl
    | save cell op hcell hgone hstep hclass =>
      by_cases hX : X = Y
      · subst hX
        refine .saved cell { cell with register := cell.register.write op } hcell
          (by simp [Store.setCell]) (fun v hv => mem_write_versions hv) hgone hgone rfl ?_ rfl
        rw [Cell.latest_write]
        exact hstep.rewrite rfl rfl rfl
      · exact .of_ops (by simp [Store.setCell, Function.update_of_ne hX])
    | raise uid created op hne hfresh hstage => exact .of_addOp created op hfresh
  | disturb h =>
    cases h with
    | showStage => exact .of_ops rfl
    | writeStage st hmetadata haside => exact .of_ops rfl
    | @cell Y old new hcell hversions hdelivered hborn =>
      by_cases hX : X = Y
      · subst hX
        exact .kept old new hcell (by simp [Store.setCell]) hversions hborn
      · exact .of_ops (by simp [Store.setCell, Function.update_of_ne hX])
    | @touch Y old op hcell hgone hprogress hstatus =>
      by_cases hX : X = Y
      · subst hX
        refine .touched old { old with register := old.register.write op } hcell
          (by simp [Store.setCell]) (fun v hv => mem_write_versions hv) rfl rfl ?_ ?_ rfl
        · rw [Cell.latest_write]
          exact hprogress
        · rw [Cell.latest_write]
          exact hstatus
      · exact .of_ops (by simp [Store.setCell, Function.update_of_ne hX])
    | propose uid created op hne hfresh hstage => exact .of_addOp created op hfresh
    | approve a => exact .of_ops rfl

theorem Step.evolves (h : Step r s s') : Evolves s s' := by
  cases h with
  | idle h =>
    rw [h]
  | move X h => exact h.evolves
  | disturb h => exact h.evolves

/-- An operation that is there stays there, with its intent and what it
applied. -/
theorem Step.cell (h : Step r s s') {X : String} {cell : Cell} (hcell : s.ops X = some cell) :
    ∃ cell', s'.ops X = some cell' ∧ cell'.latest.spec = cell.latest.spec ∧
      (cell.latest.status.applied = true → cell'.latest.status.applied = true) := by
  cases h.opStep X with
  | absent hnone => simp [hnone] at hcell
  | created _ hnone => simp [hnone] at hcell
  | kept old new hold hnew hversions =>
    cases hold.symm.trans hcell
    rw [← Cell.latest_congr hversions]
    exact ⟨new, hnew, rfl, id⟩
  | touched old new hold hnew _ _ _ hprogress hstatus =>
    cases hold.symm.trans hcell
    refine ⟨new, hnew, congrArg Progress.spec hprogress, fun happlied => ?_⟩
    rw [hstatus]
    exact happlied
  | saved old new hold hnew _ _ _ _ hsaved =>
    cases hold.symm.trans hcell
    exact ⟨new, hnew, hsaved.spec, hsaved.applied_mono⟩

/-- What an operation intends stays so. -/
theorem Step.intent {X : String} {P : OperationSpec → Prop} (h : Step r s s')
    (hX : ∃ cell, s.ops X = some cell ∧ P cell.latest.spec) :
    ∃ cell, s'.ops X = some cell ∧ P cell.latest.spec := by
  obtain ⟨cell, hcell, hP⟩ := hX
  obtain ⟨cell', hcell', hspec, -⟩ := h.cell hcell
  exact ⟨cell', hcell', hspec ▸ hP⟩

theorem FinishEvidence.spec {X : String} {op : Operation} {c : Conclusion} {cell : Cell}
    (h : FinishEvidence r X op c s) (hcell : s.ops X = some cell) : op.spec = cell.latest.spec := by
  obtain ⟨cell', hcell', hprogress, -⟩ := h.cell
  cases hcell.symm.trans hcell'
  exact congrArg Progress.spec hprogress

theorem status_of_mem_fresh {metadata : ObjectMeta} {spec : StageSpec} {st : Stage}
    (h : st ∈ (Store.fresh metadata spec).stage.versions) : st.status = {} := by
  obtain rfl : st = Resource.withVersion 0 { metadata := metadata, spec := spec } := by
    simpa [Store.fresh] using h
  rfl

/-! ## The Stage after a write -/

theorem Store.moved_of_last {X : String} (h : s.status.lastOp = X) : s.Moved X :=
  ⟨s.stage.latest, s.stage.latest_mem, h⟩

theorem Store.ne_last {X : String} (h : ¬s.Moved X) : X ≠ s.status.lastOp :=
  fun hX => h (moved_of_last hX.symm)

theorem Store.given_of_mem {e : Concluded} {X : String} (huid : e.uid = X)
    (h : e ∈ s.status.stream.concluded) : s.Given X e :=
  ⟨huid, s.stage.latest, s.stage.latest_mem, h⟩

@[simp] theorem status_write (s : Store) (st : Stage) :
    (s.setStage (s.stage.write st)).status = st.status := by
  simp only [Store.status, Store.setStage, Register.latest_write]
  rfl

@[simp] theorem ops_setStage (s : Store) (stage : Register Stage) :
    (s.setStage stage).ops = s.ops :=
  rfl

theorem mem_versions_setStage_write {st v : Stage}
    (h : v ∈ (s.setStage (s.stage.write st)).stage.versions) :
    v ∈ s.stage.versions ∨ v = Resource.withVersion s.stage.versions.length st := by
  simpa [Store.setStage] using h

theorem moved_write (s : Store) (st : Stage) (X : String) :
    (s.setStage (s.stage.write st)).Moved X ↔ s.Moved X ∨ st.status.lastOp = X := by
  simp only [Store.Moved, Store.setStage, Register.versions_write, List.mem_append,
    List.mem_singleton, or_and_right, exists_or, exists_eq_left]
  rfl

theorem moved_write_of_eq {st : Stage} (h : st.status.lastOp = s.status.lastOp) (X : String) :
    (s.setStage (s.stage.write st)).Moved X ↔ s.Moved X := by
  rw [moved_write, or_iff_left_of_imp]
  exact fun hnew => Store.moved_of_last (h.symm.trans hnew)

theorem given_write (s : Store) (st : Stage) (X : String) (e : Concluded) :
    (s.setStage (s.stage.write st)).Given X e ↔
      s.Given X e ∨ (e.uid = X ∧ e ∈ st.status.stream.concluded) := by
  simp only [Store.Given, Store.setStage, Register.versions_write, List.mem_append,
    List.mem_singleton, or_and_right, exists_or, exists_eq_left, and_or_left]
  rfl

theorem given_write_of_eq {st : Stage}
    (h : st.status.stream.concluded = s.status.stream.concluded) (X : String) (e : Concluded) :
    (s.setStage (s.stage.write st)).Given X e ↔ s.Given X e := by
  rw [given_write, h, or_iff_left_of_imp]
  exact fun ⟨huid, hmem⟩ => Store.given_of_mem huid hmem

theorem status_congr (h : s'.stage.versions = s.stage.versions) : s'.status = s.status := by
  simp only [Store.status, Register.latest, h]

theorem moved_congr (h : s'.stage.versions = s.stage.versions) (X : String) :
    s'.Moved X ↔ s.Moved X := by
  simp only [Store.Moved, h]

theorem given_congr (h : s'.stage.versions = s.stage.versions) (X : String) (e : Concluded) :
    s'.Given X e ↔ s.Given X e := by
  simp only [Store.Given, h]

end Pacto.Promoter
