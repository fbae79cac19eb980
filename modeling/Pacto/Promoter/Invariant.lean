import Pacto.Promoter.Frame

/-!
# The invariant of the store

What every move and every act of the outside keeps: an operation's intent never
changes, it takes no step back in its lifecycle, and whoever holds the pointer
lock or moved the pointer was read from the cache first.
-/

namespace Pacto.Promoter

open Delivery Support

variable {cell : Cell} {op : Operation} {st : Stage}

/-- What every version of an operation satisfies. -/
structure VersionOK (r : Reconciler) (X : String) (s : Store) (v : Operation) : Prop where
  applied : v.status.phase = .verifying → v.status.applied = true
  started : v.status.phase = .running ∨ v.status.applied = true → v.spec.type ≠ .autonomy
  early : v.status.phase = .new ∨ v.status.phase = .pending → v.status.applied = false
  moved : v.status.applied = true → s.Moved X
  ownFacet : v.InFlight → OwnFacet v.spec
  checked : v.InFlight → v.spec.type = .rollback → s.Checked X v.spec.params.to
  lockChecked : v.status.phase = .running → v.spec.type = .promote → s.Checked X v.spec.params.to
  classSet : ClassSet r v

/-- What the versions of one operation satisfy. -/
structure CellOK (r : Reconciler) (s : Store) (X : String) (cell : Cell) : Prop where
  uid : cell.latest.uid = X
  same : ∀ v ∈ cell.register.versions,
    v.metadata = cell.latest.metadata ∧ v.spec = cell.latest.spec
  stage : cell.latest.spec.stage = s.stage.latest.metadata.name
  lockOrder : ∀ v ∈ cell.register.versions, ∀ w ∈ cell.register.versions,
    v.resourceVersion ≤ w.resourceVersion → v.PastLock → w.PastLock
  applyOrder : ∀ v ∈ cell.register.versions, ∀ w ∈ cell.register.versions,
    v.resourceVersion ≤ w.resourceVersion → v.PastApply → w.PastApply
  version : ∀ v ∈ cell.register.versions, VersionOK r X s v
  born : cell.born ≤ s.stage.delivered - 1
  forgotten : cell.forgotten = true → cell.gone = true

/-- What a conclusion says about its operation. -/
def Entry (s : Store) (e : Concluded) : Prop :=
  ∃ cell, s.ops e.uid = some cell ∧
    (cell.latest.spec.type = .autonomy → e.outcome = .succeeded → ChangesLevel cell.latest.spec) ∧
    (e.outcome = .failed → s.Moved e.uid)

/-- What the store satisfies in every run. -/
structure Inv (r : Reconciler) (s : Store) : Prop where
  unnamed : s.ops "" = none
  cells : ∀ X cell, s.ops X = some cell → CellOK r s X cell
  listed : ∀ X cell, s.ops X = some cell → X ∈ s.uids
  metadata : ∀ st ∈ s.stage.versions, st.metadata = s.stage.latest.metadata
  movedRead : ∀ X, X ≠ "" → s.Moved X → ∃ cell, s.ops X = some cell ∧
    ∃ v ∈ cell.register.versions, v.resourceVersion < cell.register.delivered ∧ v.PastLock
  holderRead : ∀ st ∈ s.stage.versions, ∀ f, st.status.locks.get f ≠ "" →
    ∃ cell, s.ops (st.status.locks.get f) = some cell ∧ 0 < cell.register.delivered
  concluded : ∀ st ∈ s.stage.versions, ∀ e ∈ st.status.stream.concluded, Entry s e
  reads : ∀ X, s.reads X < s.stage.versions.length

variable {r : Reconciler} {X : String} {s s' : Store}

theorem Inv.ne_empty (h : Inv r s) (hcell : s.ops X = some cell) : X ≠ "" := by
  rintro rfl
  rw [h.unnamed] at hcell
  cases hcell

/-! ## Steps of an operation's status -/

namespace StatusStep

variable {old new : Operation} (h : StatusStep X s old new)

include h

theorem metadata : new.metadata = old.metadata := by
  cases h with
  | keep _ h => exact congrArg Progress.metadata h
  | admitted _ h => exact congrArg Progress.metadata h
  | hold _ _ h => exact congrArg Progress.metadata h
  | run _ _ h => exact congrArg Progress.metadata h
  | apply _ _ h => exact congrArg Progress.metadata h
  | verify _ _ h => exact congrArg Progress.metadata h
  | ask _ _ h => exact congrArg Progress.metadata h
  | conclude _ _ _ hmetadata => exact hmetadata

theorem spec : new.spec = old.spec := by
  cases h with
  | keep _ h => exact congrArg Progress.spec h
  | admitted _ h => exact congrArg Progress.spec h
  | hold _ _ h => exact congrArg Progress.spec h
  | run _ _ h => exact congrArg Progress.spec h
  | apply _ _ h => exact congrArg Progress.spec h
  | verify _ _ h => exact congrArg Progress.spec h
  | ask _ _ h => exact congrArg Progress.spec h
  | conclude _ _ _ _ hspec => exact hspec

theorem phase :
    (new.status.phase = old.status.phase ∧ new.status.applied = old.status.applied ∧
        old.status.phase ≠ .concluded) ∨
      (old.status.phase = .new ∧ new.status.phase = .pending ∧
        new.status.applied = old.status.applied) ∨
      (¬old.PastLock ∧ old.InFlight ∧ (new.status.phase = .held ∨ new.status.phase = .running) ∧
        new.status.applied = old.status.applied) ∨
      (old.status.phase = .running ∧
        (new.status.phase = .running ∨ new.status.phase = .verifying) ∧ new.status.applied = true) ∨
      (old.status.phase = .verifying ∧ new.status.phase = .held ∧ new.status.applied = true) ∨
      new.status.phase = .concluded := by
  cases h with
  | keep hlive h =>
    exact .inl ⟨congrArg Progress.phase h, congrArg Progress.applied h, hlive⟩
  | admitted hold h =>
    exact .inr (.inl ⟨hold, congrArg Progress.phase h, congrArg Progress.applied h⟩)
  | hold hlive hpast h =>
    exact .inr (.inr (.inl
      ⟨hpast, hlive, .inl (congrArg Progress.phase h), congrArg Progress.applied h⟩))
  | run hlive hpast h =>
    exact .inr (.inr (.inl
      ⟨hpast, hlive, .inr (congrArg Progress.phase h), congrArg Progress.applied h⟩))
  | apply hold _ h =>
    exact .inr (.inr (.inr (.inl
      ⟨hold, .inl ((congrArg Progress.phase h).trans hold), congrArg Progress.applied h⟩)))
  | verify hold happlied h =>
    exact .inr (.inr (.inr (.inl
      ⟨hold, .inr (congrArg Progress.phase h), (congrArg Progress.applied h).trans happlied⟩)))
  | ask hold happlied h =>
    exact .inr (.inr (.inr (.inr (.inl
      ⟨hold, congrArg Progress.phase h, (congrArg Progress.applied h).trans happlied⟩))))
  | conclude _ _ hphase => exact .inr (.inr (.inr (.inr (.inr hphase))))

/-- A concluded operation is not written again. -/
theorem live : old.status.phase ≠ .concluded := by
  cases h with
  | keep hlive => exact hlive
  | admitted hold => simp [hold]
  | hold hlive => exact hlive.2
  | run hlive => exact hlive.2
  | apply hold => simp [hold]
  | verify hold => simp [hold]
  | ask hold => simp [hold]
  | conclude hlive => exact hlive

/-- Only a conclusion the Stage gave concludes an operation. -/
theorem concluded (hphase : new.status.phase = .concluded) :
    ∃ e, s.Given X e ∧ new.status.seq = e.seq ∧ new.status.outcome = some e.outcome := by
  have hnot : ∀ p : Progress, new.progress = p → p.phase ≠ .concluded → False := by
    rintro _ rfl hne
    exact hne hphase
  cases h with
  | conclude _ hgiven _ _ _ _ hseq houtcome => exact ⟨_, hgiven, hseq, houtcome⟩
  | keep hlive hkept => exact (hnot _ hkept hlive).elim
  | admitted _ hnext => exact (hnot _ hnext (by simp)).elim
  | hold _ _ hnext => exact (hnot _ hnext (by simp)).elim
  | run _ _ hnext => exact (hnot _ hnext (by simp)).elim
  | apply hrunning _ hnext =>
    refine (hnot _ hnext ?_).elim
    simp [Operation.progress, hrunning]
  | verify _ _ hnext => exact (hnot _ hnext (by simp)).elim
  | ask _ _ hnext => exact (hnot _ hnext (by simp)).elim

theorem pastLock (hpast : old.PastLock) : new.PastLock := by
  rcases h.phase with ⟨hphase, happlied, -⟩ | ⟨hphase, -, happlied⟩ | ⟨hnot, -⟩ |
    ⟨-, -, happlied⟩ | ⟨-, -, happlied⟩ | hphase
  · rw [Operation.PastLock, hphase, happlied]
    exact hpast
  · rcases hpast with hpast | hpast | hpast | hpast
    · exact .inl (happlied.trans hpast)
    all_goals
      rw [hphase] at hpast
      cases hpast
  · exact absurd hpast hnot
  · exact .inl happlied
  · exact .inl happlied
  · exact .inr (.inr (.inr hphase))

theorem pastApply (hpast : old.PastApply) : new.PastApply := by
  rcases h.phase with ⟨hphase, happlied, -⟩ | ⟨hphase, -, -⟩ | ⟨hnot, hlive, -⟩ |
    ⟨hphase, -, -⟩ | ⟨-, hphase, happlied⟩ | hphase
  · rw [Operation.PastApply, hphase, happlied]
    exact hpast
  · rw [Operation.PastApply, hphase] at hpast
    simp at hpast
  · rcases hpast with hpast | hpast | hpast
    · exact absurd (.inr (.inr (.inl hpast))) hnot
    · exact absurd hpast hlive.2
    · exact absurd (.inl hpast.2) hnot
  · rw [Operation.PastApply, hphase] at hpast
    simp at hpast
  · exact .inr (.inr ⟨hphase, happlied⟩)
  · exact .inr (.inl hphase)

theorem applied_mono (hold : old.status.applied = true) :
    new.status.applied = true := by
  have hkeep : ∀ p : Progress, new.progress = p → p.applied = old.status.applied →
      new.status.applied = true := by
    rintro _ rfl happlied
    exact happlied.trans hold
  cases h with
  | keep _ h => exact hkeep _ h rfl
  | admitted _ h => exact hkeep _ h rfl
  | hold _ _ h => exact hkeep _ h rfl
  | run _ _ h => exact hkeep _ h rfl
  | apply _ _ h => exact congrArg Progress.applied h
  | verify _ _ h => exact hkeep _ h rfl
  | ask _ _ h => exact hkeep _ h rfl
  | conclude _ _ _ _ _ happlied => exact happlied.trans hold

theorem verifying_applied (hold : old.status.phase = .verifying → old.status.applied = true)
    (hnew : new.status.phase = .verifying) : new.status.applied = true := by
  rcases h.phase with ⟨hphase, happlied, -⟩ | ⟨-, hphase, -⟩ | ⟨-, -, hphase, -⟩ |
    ⟨-, -, happlied⟩ | ⟨-, -, happlied⟩ | hphase
  · exact happlied.trans (hold (hphase.symm.trans hnew))
  · rw [hphase] at hnew
    cases hnew
  · rcases hphase with hphase | hphase
    all_goals
      rw [hphase] at hnew
      cases hnew
  · exact happlied
  · exact happlied
  · rw [hphase] at hnew
    cases hnew

/-- Only an operation that takes a lock starts, and a level change takes none. -/
theorem started (hold : old.status.phase = .running ∨ old.status.applied = true → old.spec.type ≠ .autonomy)
    (hnew : new.status.phase = .running ∨ new.status.applied = true) :
    new.spec.type ≠ .autonomy := by
  rw [h.spec]
  cases h with
  | keep _ h =>
    rw [show new.status.phase = old.status.phase from congrArg Progress.phase h,
      show new.status.applied = old.status.applied from congrArg Progress.applied h] at hnew
    exact hold hnew
  | admitted _ h =>
    rw [show new.status.phase = .pending from congrArg Progress.phase h,
      show new.status.applied = old.status.applied from congrArg Progress.applied h] at hnew
    exact hold (.inr (hnew.resolve_left (by simp)))
  | hold _ _ h =>
    rw [show new.status.phase = .held from congrArg Progress.phase h,
      show new.status.applied = old.status.applied from congrArg Progress.applied h] at hnew
    exact hold (.inr (hnew.resolve_left (by simp)))
  | run _ _ _ htype => exact htype
  | apply hphase => exact hold (.inl hphase)
  | verify hphase => exact hold (.inl hphase)
  | ask _ happlied => exact hold (.inr happlied)
  | conclude _ _ hphase _ _ happlied =>
    rw [hphase, happlied] at hnew
    exact hold (.inr (hnew.resolve_left (by simp)))

theorem early (hold : old.status.phase = .new ∨ old.status.phase = .pending → old.status.applied = false)
    (hnew : new.status.phase = .new ∨ new.status.phase = .pending) : new.status.applied = false := by
  rcases h.phase with ⟨hphase, happlied, -⟩ | ⟨hphase, -, happlied⟩ | ⟨-, -, hphase, -⟩ |
    ⟨-, hphase, -⟩ | ⟨-, hphase, -⟩ | hphase
  · rw [hphase] at hnew
    exact happlied.trans (hold hnew)
  · exact happlied.trans (hold (.inl hphase))
  · rcases hphase with hphase | hphase <;> simp [hphase] at hnew
  · rcases hphase with hphase | hphase <;> simp [hphase] at hnew
  · simp [hphase] at hnew
  · simp [hphase] at hnew

/-- Only an operation that just took the lock runs. -/
theorem running (hnew : new.status.phase = .running) :
    old.status.phase = .running ∨ (new.spec.type = .promote → s.Checked X new.spec.params.to) := by
  cases h with
  | keep _ h => exact .inl ((congrArg Progress.phase h).symm.trans hnew)
  | admitted _ h => exact absurd ((congrArg Progress.phase h).symm.trans hnew) (by simp)
  | hold _ _ h => exact absurd ((congrArg Progress.phase h).symm.trans hnew) (by simp)
  | run _ _ h _ hchecked =>
    right
    rw [show new.spec = old.spec from congrArg Progress.spec h]
    exact hchecked
  | apply hold => exact .inl hold
  | verify hold => exact .inl hold
  | ask _ _ h => exact absurd ((congrArg Progress.phase h).symm.trans hnew) (by simp)
  | conclude _ _ hphase => exact absurd (hphase.symm.trans hnew) (by simp)

theorem moved (hnew : new.status.applied = true) :
    old.status.applied = true ∨ s.Moved X := by
  cases h with
  | keep _ h => exact .inl ((congrArg Progress.applied h).symm.trans hnew)
  | admitted _ h => exact .inl ((congrArg Progress.applied h).symm.trans hnew)
  | hold _ _ h => exact .inl ((congrArg Progress.applied h).symm.trans hnew)
  | run _ _ h => exact .inl ((congrArg Progress.applied h).symm.trans hnew)
  | apply _ _ _ hmoved => exact .inr hmoved
  | verify _ happlied => exact .inl happlied
  | ask _ happlied => exact .inl happlied
  | conclude _ _ _ _ _ happlied => exact .inl (happlied.symm.trans hnew)

/-- Only admission puts an operation in flight. -/
theorem inFlight (hnew : new.InFlight) :
    old.InFlight ∨
      (OwnFacet new.spec ∧ (new.spec.type = .rollback → s.Checked X new.spec.params.to)) := by
  cases h with
  | keep hlive h =>
    left
    rw [Operation.InFlight, show new.status.phase = old.status.phase from congrArg Progress.phase h]
      at hnew
    exact hnew
  | admitted _ _ hfacet hchecked => exact .inr ⟨hfacet, hchecked⟩
  | hold hlive => exact .inl hlive
  | run hlive => exact .inl hlive
  | apply hold => exact .inl (by simp [Operation.InFlight, hold])
  | verify hold => exact .inl (by simp [Operation.InFlight, hold])
  | ask hold => exact .inl (by simp [Operation.InFlight, hold])
  | conclude _ _ hphase => exact absurd hphase hnew.2

end StatusStep

theorem VersionOK.mono {v : Operation} (h : VersionOK r X s v) (hevolves : Evolves s s') :
    VersionOK r X s' v :=
  { h with
    moved := fun happlied => hevolves.moved (h.moved happlied)
    checked := fun hlive htype => hevolves.checked (h.checked hlive htype)
    lockChecked := fun hphase htype => hevolves.checked (h.lockChecked hphase htype) }

/-- What a version satisfies is decided by its progress. -/
theorem VersionOK.of_progress {v w : Operation} (h : VersionOK r X s v)
    (hprogress : w.progress = v.progress) (hclass : ClassSet r w) : VersionOK r X s w := by
  have hspec : w.spec = v.spec := congrArg Progress.spec hprogress
  have hphase : w.status.phase = v.status.phase := congrArg Progress.phase hprogress
  have happlied : w.status.applied = v.status.applied := congrArg Progress.applied hprogress
  obtain ⟨happ, hstarted, hearly, hmoved, hfacet, hchecked, hlock, -⟩ := h
  refine ⟨?_, ?_, ?_, ?_, ?_, ?_, ?_, hclass⟩
  · rwa [hphase, happlied]
  · rwa [hphase, happlied, hspec]
  · rwa [hphase, happlied]
  · rwa [happlied]
  · rwa [Operation.InFlight, hphase, hspec]
  · rwa [Operation.InFlight, hphase, hspec]
  · rwa [hphase, hspec]

theorem StatusStep.versionOK {old new : Operation} (h : StatusStep X s old new)
    (hold : VersionOK r X s old) (hclass : ClassSet r new) : VersionOK r X s new where
  applied := h.verifying_applied hold.applied
  started := h.started hold.started
  early := h.early hold.early
  moved := fun happlied => (h.moved happlied).elim hold.moved id
  ownFacet := by
    intro hlive
    rcases h.inFlight hlive with hprev | hadmitted
    · rw [h.spec]
      exact hold.ownFacet hprev
    · exact hadmitted.1
  checked := by
    intro hlive htype
    rcases h.inFlight hlive with hprev | hadmitted
    · rw [h.spec] at htype ⊢
      exact hold.checked hprev htype
    · exact hadmitted.2 htype
  lockChecked := by
    intro hphase htype
    rcases h.running hphase with hprev | hchecked
    · rw [h.spec] at htype ⊢
      exact hold.lockChecked hprev htype
    · exact hchecked htype
  classSet := hclass

/-- A level change that succeeds was going to before the Stage was read: it has
nothing applied that could be preempted. -/
theorem settled_succeeded {c : Conclusion}
    (hstarted : op.status.applied = true → op.spec.type ≠ .autonomy)
    (htype : op.spec.type = .autonomy) (h : (settled op c st).outcome = .succeeded) :
    c.outcome = .succeeded := by
  rcases settled_cases op c st with hsame | ⟨happlied, -⟩ | ⟨-, why, hrefused⟩
  · rw [hsame] at h
    exact h
  · exact absurd htype (hstarted happlied)
  · rw [hrefused] at h
    cases h

theorem settled_failed {c : Conclusion}
    (h : (settled op c st).outcome = .failed) : c.outcome = .failed := by
  rcases settled_cases op c st with hsame | ⟨-, -, -, htaken⟩ | ⟨-, why, hrefused⟩
  · rw [hsame] at h
    exact h
  · rw [htaken] at h
    cases h
  · rw [hrefused] at h
    cases h

/-! ## Cells -/

theorem CellOK.mono (h : CellOK r s X cell) (hevolves : Evolves s s')
    (hname : s'.stage.latest.metadata = s.stage.latest.metadata) : CellOK r s' X cell :=
  { h with
    stage := by rw [hname, h.stage]
    version := fun v hv => (h.version v hv).mono hevolves
    born := by
      have hdelivered := hevolves.stage.delivered
      have hborn := h.born
      omega }

/-- What a new version at the end of an operation's history needs. -/
structure Follows (r : Reconciler) (X : String) (s : Store) (old new : Operation) : Prop where
  metadata : new.metadata = old.metadata
  spec : new.spec = old.spec
  pastLock : old.PastLock → new.PastLock
  pastApply : old.PastApply → new.PastApply
  version : VersionOK r X s old → VersionOK r X s new

theorem StatusStep.follows {old new : Operation} (h : StatusStep X s old new)
    (hclass : ClassSet r new) : Follows r X s old new :=
  ⟨h.metadata, h.spec, h.pastLock, h.pastApply, fun hold => h.versionOK hold hclass⟩

theorem Follows.of_status {old new : Operation} (hprogress : new.progress = old.progress)
    (hstatus : new.status = old.status) : Follows r X s old new where
  metadata := congrArg Progress.metadata hprogress
  spec := congrArg Progress.spec hprogress
  pastLock := by
    rw [Operation.PastLock, Operation.PastLock, hstatus]
    exact id
  pastApply := by
    rw [Operation.PastApply, Operation.PastApply, hstatus]
    exact id
  version := by
    intro hold
    refine hold.of_progress hprogress ?_
    rw [ClassSet, hstatus, show new.spec = old.spec from congrArg Progress.spec hprogress]
    exact hold.classSet

theorem CellOK.write (h : CellOK r s X cell)
    (hcell : s.ops X = some cell) (hfollows : Follows r X s cell.latest op) :
    CellOK r (s.setCell X { cell with register := cell.register.write op }) X
      { cell with register := cell.register.write op } := by
  have hevolves : Evolves s (s.setCell X { cell with register := cell.register.write op }) :=
    .setCell hcell (.write _ _) rfl id id
  set new : Operation := Resource.withVersion cell.register.versions.length op with hnew
  have hlatest : ({ cell with register := cell.register.write op } : Cell).latest = new := by
    simp [Cell.latest, hnew]
  have hmem : ∀ v, v ∈ (cell.register.write op).versions →
      v ∈ cell.register.versions ∨ v = new := by
    intro v hv
    simpa [hnew] using hv
  have hold : ∀ v ∈ cell.register.versions, v.resourceVersion < cell.register.versions.length := by
    intro v hv
    exact (List.getElem?_eq_some_iff.mp (Register.exists_getElem?_of_mem hv)).1
  have hle : ∀ v ∈ cell.register.versions, v.resourceVersion ≤ cell.latest.resourceVersion := by
    intro v hv
    have hlt := hold v hv
    have hversion : cell.latest.resourceVersion = cell.register.versions.length - 1 :=
      cell.register.version_latest
    omega
  -- The new version comes after every old one, so an order only needs the step.
  have horder : ∀ P : Operation → Prop,
      (∀ v ∈ cell.register.versions, ∀ w ∈ cell.register.versions,
        v.resourceVersion ≤ w.resourceVersion → P v → P w) →
      (P cell.latest → P new) →
      ∀ v ∈ (cell.register.write op).versions, ∀ w ∈ (cell.register.write op).versions,
        v.resourceVersion ≤ w.resourceVersion → P v → P w := by
    intro P hP hlast v hv w hw hvw hPv
    rcases hmem v hv with hv | rfl
    · rcases hmem w hw with hw | rfl
      · exact hP v hv w hw hvw hPv
      · exact hlast (hP v hv _ cell.register.latest_mem (hle v hv) hPv)
    · rcases hmem w hw with hw | rfl
      · have hlt := hold w hw
        change cell.register.versions.length ≤ w.resourceVersion at hvw
        omega
      · exact hPv
  exact
    { uid := by
        rw [hlatest]
        exact (congrArg ObjectMeta.uid hfollows.metadata).trans h.uid
      same := by
        intro v hv
        rw [hlatest]
        rcases hmem v hv with hv | rfl
        · obtain ⟨hm, hs⟩ := h.same v hv
          exact ⟨hm.trans hfollows.metadata.symm, hs.trans hfollows.spec.symm⟩
        · exact ⟨rfl, rfl⟩
      stage := by
        rw [hlatest]
        exact (congrArg OperationSpec.stage hfollows.spec).trans h.stage
      lockOrder := horder _ h.lockOrder hfollows.pastLock
      applyOrder := horder _ h.applyOrder hfollows.pastApply
      version := by
        intro v hv
        apply VersionOK.mono _ hevolves
        rcases hmem v hv with hv | rfl
        · exact h.version v hv
        · exact (hfollows.version (h.version _ cell.register.latest_mem)).of_progress rfl
            (hfollows.version (h.version _ cell.register.latest_mem)).classSet
      born := h.born
      forgotten := h.forgotten }

theorem CellOK.newCell {uid : String} (created : Nat) (op : Operation)
    (hstage : op.spec.stage = s.stage.latest.metadata.name) :
    CellOK r (s.addOp uid created op) uid (s.newCell uid created op) := by
  have hmem : ∀ v ∈ (s.newCell uid created op).register.versions,
      v = (s.newCell uid created op).latest := by
    intro v hv
    simpa [Store.newCell, Cell.latest] using hv
  have hphase : (s.newCell uid created op).latest.status.phase = .new := rfl
  exact
    { uid := rfl
      same := by
        intro v hv
        rw [hmem v hv]
        exact ⟨rfl, rfl⟩
      stage := hstage
      lockOrder := by
        intro v hv w hw _ hpast
        rw [hmem w hw, ← hmem v hv]
        exact hpast
      applyOrder := by
        intro v hv w hw _ hpast
        rw [hmem w hw, ← hmem v hv]
        exact hpast
      version := by
        intro v hv
        rw [hmem v hv]
        exact
          { applied := by simp [hphase]
            started := by
              rintro (hrunning | happlied)
              · rw [hphase] at hrunning
                cases hrunning
              · cases happlied
            early := fun _ => rfl
            moved := fun happlied => by cases happlied
            ownFacet := fun hlive => absurd hphase hlive.1
            checked := fun hlive => absurd hphase hlive.1
            lockChecked := by simp [hphase]
            classSet := .inl rfl }
      born := le_rfl
      forgotten := fun hforgot => by cases hforgot }

/-! ## The invariant holds along every step -/

namespace Inv

/-- What an entry of the stream says about its operation outlasts a step. -/
theorem entry_mono (hevolves : Evolves s s')
    (hcells : ∀ X cell, s'.ops X = some cell → CellOK r s' X cell) {e : Concluded}
    (he : Entry s e) : Entry s' e := by
  obtain ⟨cell, hcell, hlevel, hfailed⟩ := he
  obtain ⟨cell', hcell', hgrows, -⟩ := hevolves.cells _ cell hcell
  have hspec := ((hcells _ cell' hcell').same _ (hgrows.mem cell.register.latest_mem)).2
  rw [show cell.register.latest.spec = cell.latest.spec from rfl] at hspec
  rw [hspec] at hlevel
  exact ⟨cell', hcell', hlevel, fun hout => hevolves.moved (hfailed hout)⟩

theorem writeStage (h : Inv r s) (hmetadata : st.metadata = s.stage.latest.metadata)
    (hmoved : st.status.lastOp ≠ s.status.lastOp → ∃ cell, s.ops st.status.lastOp = some cell ∧
      ∃ v ∈ cell.register.versions, v.resourceVersion < cell.register.delivered ∧ v.PastLock)
    (hholder : ∀ f, st.status.locks.get f ≠ s.status.locks.get f → st.status.locks.get f ≠ "" →
      ∃ cell, s.ops (st.status.locks.get f) = some cell ∧ 0 < cell.register.delivered)
    (hconcluded : ∀ e ∈ st.status.stream.concluded,
      e ∈ s.status.stream.concluded ∨ Entry s e) :
    Inv r (s.setStage (s.stage.write st)) := by
  have hevolves : Evolves s (s.setStage (s.stage.write st)) := .setStage (.write _ _)
  have hlatest : (s.setStage (s.stage.write st)).stage.latest.metadata = s.stage.latest.metadata := by
    simp only [Store.setStage, Register.latest_write]
    exact hmetadata
  have hmem : ∀ v ∈ (s.setStage (s.stage.write st)).stage.versions,
      v ∈ s.stage.versions ∨ v.metadata = st.metadata ∧ v.status = st.status := by
    intro v hv
    rcases List.mem_append.mp hv with hold | hnew
    · exact .inl hold
    · rw [List.mem_singleton] at hnew
      subst hnew
      exact .inr ⟨rfl, rfl⟩
  have hcells : ∀ X cell, (s.setStage (s.stage.write st)).ops X = some cell →
      CellOK r (s.setStage (s.stage.write st)) X cell :=
    fun X cell hcell => (h.cells X cell hcell).mono hevolves hlatest
  exact
    { unnamed := h.unnamed
      cells := hcells
      listed := h.listed
      metadata := by
        intro v hv
        rw [hlatest]
        rcases hmem v hv with hold | ⟨hnew, -⟩
        · exact h.metadata v hold
        · exact hnew.trans hmetadata
      movedRead := by
        rintro X hX ⟨v, hv, hlast⟩
        rcases hmem v hv with hold | ⟨-, hnew⟩
        · exact h.movedRead X hX ⟨v, hold, hlast⟩
        · rw [hnew] at hlast
          by_cases hsame : st.status.lastOp = s.status.lastOp
          · exact h.movedRead X hX ⟨_, s.stage.latest_mem, hsame.symm.trans hlast⟩
          · rw [← hlast]
            exact hmoved hsame
      holderRead := by
        intro v hv f hheld
        rcases hmem v hv with hold | ⟨-, hnew⟩
        · exact h.holderRead v hold f hheld
        · rw [hnew] at hheld ⊢
          by_cases hsame : st.status.locks.get f = s.status.locks.get f
          · rw [hsame] at hheld ⊢
            exact h.holderRead _ s.stage.latest_mem f hheld
          · exact hholder f hsame hheld
      concluded := by
        intro v hv e he
        apply entry_mono hevolves hcells
        rcases hmem v hv with hold | ⟨-, hnew⟩
        · exact h.concluded v hold e he
        · rw [hnew] at he
          rcases hconcluded e he with hprev | hentry
          · exact h.concluded _ s.stage.latest_mem e hprev
          · exact hentry
      reads := by
        intro X
        have hread := h.reads X
        simp only [Store.setStage, Register.versions_write, List.length_append,
          List.length_singleton]
        omega }

/-- Operations changed or were created, and no version of the Stage was. -/
theorem evolve (h : Inv r s) (hevolves : Evolves s s')
    (hversions : s'.stage.versions = s.stage.versions) (hlatest : s'.stage.latest = s.stage.latest)
    (hunnamed : s'.ops "" = none) (hcells : ∀ Y cell, s'.ops Y = some cell → CellOK r s' Y cell)
    (hlisted : ∀ Y cell, s'.ops Y = some cell → Y ∈ s'.uids)
    (hreads : ∀ Y, s'.reads Y < s.stage.versions.length) : Inv r s' where
  unnamed := hunnamed
  cells := hcells
  listed := hlisted
  metadata := by
    rw [hversions, hlatest]
    exact h.metadata
  movedRead := by
    rintro Y hY ⟨st, hst, hlast⟩
    rw [hversions] at hst
    obtain ⟨old, hold, v, hv, hread, hpast⟩ := h.movedRead Y hY ⟨st, hst, hlast⟩
    obtain ⟨new, hnew, hgrows, -⟩ := hevolves.cells Y old hold
    exact ⟨new, hnew, v, hgrows.mem hv, hread.trans_le hgrows.delivered, hpast⟩
  holderRead := by
    rw [hversions]
    intro st hst f hheld
    obtain ⟨old, hold, hread⟩ := h.holderRead st hst f hheld
    obtain ⟨new, hnew, hgrows, -⟩ := hevolves.cells _ old hold
    exact ⟨new, hnew, hread.trans_le hgrows.delivered⟩
  concluded := by
    rw [hversions]
    exact fun st hst e he => entry_mono hevolves hcells (h.concluded st hst e he)
  reads := by
    rw [hversions]
    exact hreads

/-- One operation changed, and nothing else. -/
theorem setCell (h : Inv r s) {cell' : Cell} (hcell : s.ops X = some cell)
    (hevolves : Evolves s (s.setCell X cell')) (hok : CellOK r (s.setCell X cell') X cell') :
    Inv r (s.setCell X cell') := by
  have hcells : ∀ Y old, (s.setCell X cell').ops Y = some old → CellOK r (s.setCell X cell') Y old := by
    intro Y old hold
    by_cases hY : Y = X
    · subst hY
      obtain rfl : cell' = old := by simpa [Store.setCell] using hold
      exact hok
    · have hold' : s.ops Y = some old := by
        simpa [Store.setCell, Function.update_of_ne hY] using hold
      exact (h.cells Y old hold').mono hevolves rfl
  refine h.evolve hevolves rfl rfl ?_ hcells ?_ h.reads
  · simpa [Store.setCell, Function.update_of_ne (h.ne_empty hcell).symm] using h.unnamed
  · intro Y old hold
    by_cases hY : Y = X
    · subst hY
      exact h.listed Y cell hcell
    · have hold' : s.ops Y = some old := by
        simpa [Store.setCell, Function.update_of_ne hY] using hold
      exact h.listed Y old hold'

/-- An operation was created, and nothing else changed. -/
theorem addOp (h : Inv r s) {uid : String} (created : Nat) (op : Operation) (hne : uid ≠ "")
    (hfresh : s.ops uid = none) (hstage : op.spec.stage = s.stage.latest.metadata.name) :
    Inv r (s.addOp uid created op) := by
  have hevolves : Evolves s (s.addOp uid created op) := .addOp created op hfresh
  have hops : ∀ Y, Y ≠ uid → (s.addOp uid created op).ops Y = s.ops Y := by
    intro Y hY
    simp [Store.addOp, Store.setCell, Function.update_of_ne hY]
  have hnew : (s.addOp uid created op).ops uid = some (s.newCell uid created op) := by
    simp [Store.addOp, Store.setCell]
  have hcells : ∀ Y cell, (s.addOp uid created op).ops Y = some cell →
      CellOK r (s.addOp uid created op) Y cell := by
    intro Y cell hcell
    by_cases hY : Y = uid
    · subst hY
      obtain rfl : s.newCell Y created op = cell := Option.some.inj (hnew.symm.trans hcell)
      exact .newCell created op hstage
    · rw [hops Y hY] at hcell
      exact (h.cells Y cell hcell).mono hevolves rfl
  refine h.evolve hevolves rfl rfl ((hops "" (Ne.symm hne)).trans h.unnamed) hcells ?_ h.reads
  intro Y cell hcell
  rw [show (s.addOp uid created op).uids = s.uids ++ [uid] from rfl, List.mem_append]
  by_cases hY : Y = uid
  · exact .inr (List.mem_singleton.mpr hY)
  · rw [hops Y hY] at hcell
    exact .inl (h.listed Y cell hcell)

theorem startingStage_mem (s : Store) : s.startingStage ∈ s.stage.versions := by
  rw [Store.startingStage]
  cases hcached : s.stage.cached with
  | none => exact s.stage.latest_mem
  | some st => exact Register.mem_of_cached hcached

theorem version_lt (h : st ∈ s.stage.versions) :
    st.resourceVersion < s.stage.versions.length :=
  (List.getElem?_eq_some_iff.mp (Register.exists_getElem?_of_mem h)).1

/-- A reconcile started. -/
theorem read (h : Inv r s) :
    Inv r { s with reads := Function.update s.reads X s.startingStage.resourceVersion } := by
  have hevolves :
      Evolves s { s with reads := Function.update s.reads X s.startingStage.resourceVersion } :=
    ⟨.refl _, fun _ cell hcell => ⟨cell, hcell, .refl _, rfl, id, id⟩, List.Subset.refl _⟩
  refine h.evolve hevolves rfl rfl h.unnamed
    (fun Y cell hcell => (h.cells Y cell hcell).mono hevolves rfl) h.listed fun Y => ?_
  by_cases hY : Y = X
  · subst hY
    simpa using version_lt (startingStage_mem s)
  · simpa [Function.update_of_ne hY] using h.reads Y

theorem move (h : Inv r s) (hmove : Move r X s s') : Inv r s' := by
  cases hmove with
  | idle => exact h
  | read => exact h.read
  | lock op st hlock hev =>
    obtain ⟨-, -, rfl⟩ := lockOn_eq_ok_iff.mp hlock
    refine h.writeStage rfl (fun hne => absurd rfl hne) (fun f hne hheld => ?_)
      fun e he => .inl he
    obtain ⟨cell, hcell, -, -, hread⟩ := hev.cell
    by_cases hfacet : f = op.spec.facet
    · simp only [hfacet, Locks.get_set_self, hev.uid]
      exact ⟨cell, hcell, hread⟩
    · exact absurd (Locks.get_set_of_ne _ _ hfacet) hne
  | move op st hmove hev =>
    obtain ⟨hheld, rfl⟩ := moveOn_eq_ok_iff.mp hmove
    refine h.writeStage rfl (fun _ => ?_) (fun _ hne => absurd rfl hne) fun e he => .inl he
    obtain ⟨cell, hcell, -, -, hread⟩ := hev.cell
    simp only [hev.uid]
    exact ⟨cell, hcell, hread⟩
  | finish op c squat hev =>
    obtain ⟨hmetadata, -, -, hlast, hlocks⟩ :=
      finishOn_keeps op c squat s.stage.latest
    refine h.writeStage hmetadata (fun hne => absurd hlast hne) (fun f hne hheld => ?_)
      fun e he => ?_
    · rw [hlocks] at hne hheld
      rcases releaseLock_get op s.stage.latest f with hsame | hempty
      · exact absurd hsame hne
      · exact absurd hempty hheld
    · rcases mem_finishOn_concluded he with hold | ⟨-, rfl⟩
      · exact .inl hold
      · obtain ⟨cell, hcell, hprogress, -⟩ := hev.cell
        have hspec : op.spec = cell.latest.spec := congrArg Progress.spec hprogress
        have huid : (concludedEntry op (settled op c s.stage.latest)
            (s.stage.latest.status.stream.seq + 1)).uid = X := hev.uid
        refine .inr ⟨cell, by rw [huid, hcell], ?_, ?_⟩
        · rw [← hspec]
          exact fun htype hsucceeded =>
            hev.level htype (settled_succeeded hev.started htype hsucceeded)
        · rw [huid]
          exact fun hfailed => hev.failed (settled_failed hfailed)
  | save cell op hcell hgone hstep hclass =>
    exact h.setCell hcell (.setCell hcell (.write _ _) rfl id id)
      ((h.cells X cell hcell).write hcell (hstep.follows hclass))
  | raise uid created op hne hfresh hstage => exact h.addOp created op hne hfresh hstage

theorem disturbed (h : Inv r s) (hdisturbs : Disturbs s s') : Inv r s' := by
  have hevolves := hdisturbs.evolves
  cases hdisturbs with
  | showStage =>
    exact h.evolve hevolves rfl rfl h.unnamed
      (fun Y cell hcell => (h.cells Y cell hcell).mono hevolves rfl) h.listed h.reads
  | writeStage st hmetadata haside =>
    refine h.writeStage hmetadata (fun hne => absurd haside.lastOp hne) (fun f hne => ?_)
      fun e he => ?_
    · rw [haside.locks] at hne
      exact absurd rfl hne
    · rw [haside.concluded] at he
      exact .inl he
  | @cell X old new hcell hversions hdelivered hborn hforgot hlost hgone =>
    refine h.setCell hcell hevolves ?_
    have hold := (h.cells X old hcell).mono hevolves rfl
    have hlatest := Cell.latest_congr hversions
    constructor
    · rw [hlatest]
      exact hold.uid
    · rw [hlatest, hversions]
      exact hold.same
    · rw [hlatest]
      exact hold.stage
    · rw [hversions]
      exact hold.lockOrder
    · rw [hversions]
      exact hold.applyOrder
    · rw [hversions]
      exact hold.version
    · rw [hborn]
      exact hold.born
    · intro hlater
      rcases hlost hlater with hnow | hnow
      · exact hgone (hold.forgotten hnow)
      · exact hgone hnow
  | @touch X cell op hcell hgone hprogress hstatus =>
    have hok := h.cells X cell hcell
    exact h.setCell hcell hevolves
      (hok.write hcell (.of_status hprogress hstatus))
  | propose uid created op hne hfresh hstage => exact h.addOp created op hne hfresh hstage
  | approve a =>
    exact h.evolve hevolves rfl rfl h.unnamed
      (fun Y cell hcell => (h.cells Y cell hcell).mono hevolves rfl) h.listed h.reads

theorem fresh (metadata : ObjectMeta) (spec : StageSpec) : Inv r (Store.fresh metadata spec) := by
  have hmem : ∀ st ∈ (Store.fresh metadata spec).stage.versions,
      st = (Store.fresh metadata spec).stage.latest := by
    intro st hst
    simpa [Store.fresh] using hst
  exact
    { unnamed := rfl
      cells := fun X cell hcell => by cases hcell
      listed := fun X cell hcell => by cases hcell
      metadata := by
        intro st hst
        rw [hmem st hst]
      movedRead := by
        rintro X hX ⟨st, hst, hlast⟩
        rw [hmem st hst] at hlast
        exact absurd hlast.symm hX
      holderRead := by
        intro st hst f hheld
        rw [hmem st hst] at hheld
        exact absurd (by cases f <;> rfl) hheld
      concluded := by
        intro st hst e he
        rw [hmem st hst] at he
        cases he
      reads := fun X => Nat.zero_lt_one }

end Inv

end Pacto.Promoter
