import Pacto.Delivery.Lifecycle

/-!
# What a conclusion leaves alone

`applyEffects` changes a Stage's memories, its level and its pointer.  It
never touches the locks, the stream or the operation that moved the pointer
last, the pointer only through a level change, and the failed digests only
when the operation failed.
-/

namespace Pacto.Delivery

open Support

/-- Two statuses with the same locks, stream and last mover. -/
structure SameGuards (a b : StageStatus) : Prop where
  lastOp : b.lastOp = a.lastOp
  locks : b.locks = a.locks
  stream : b.stream = a.stream

namespace SameGuards

theorem trans {a b c : StageStatus} (h : SameGuards a b) (h' : SameGuards b c) : SameGuards a c :=
  ⟨h'.lastOp.trans h.lastOp, h'.locks.trans h.locks, h'.stream.trans h.stream⟩

end SameGuards

variable (s : StageStatus) (name uid : String) (spec : OperationSpec) (st : OperationStatus)
  (c : Conclusion)

theorem changeLevel_sameGuards : SameGuards s (changeLevel s spec) := by
  constructor <;> simp only [changeLevel] <;> (repeat' split) <;> rfl

theorem changeLevel_failedDigests : (changeLevel s spec).failedDigests = s.failedDigests := by
  simp only [changeLevel]
  repeat' split
  all_goals rfl

theorem changeLevel_level : (changeLevel s spec).level = Level.ofName spec.params.to := by
  simp only [changeLevel]
  repeat' split
  all_goals rfl

theorem changeLevel_pointer_of_enter (h : Level.ofName spec.params.to = .observe) :
    (changeLevel s spec).pointer = "" := by
  simp [changeLevel, h]

/-- Leaving observe adopts the observed digest; any other change keeps the
pointer. -/
theorem changeLevel_pointer_of_not_enter (h : Level.ofName spec.params.to ≠ .observe) :
    (changeLevel s spec).pointer = s.pointer ∨
      ∃ o, s.observedRevision = some o ∧ Level.ofName spec.params.from = .observe ∧
        (changeLevel s spec).pointer = o.digest := by
  cases hobserved : s.observedRevision with
  | none => simp [changeLevel, hobserved, h]
  | some o =>
    by_cases hfrom : Level.ofName spec.params.from = .observe
    · right
      exact ⟨o, rfl, hfrom, by simp [changeLevel, hobserved, hfrom, h]⟩
    · left
      simp [changeLevel, hobserved, hfrom, h]

theorem succeeded_sameGuards : SameGuards s (succeeded s name spec st c) := by
  rw [succeeded]
  split
  · refine SameGuards.trans ?_ (changeLevel_sameGuards _ spec)
    repeat' split
    all_goals exact ⟨rfl, rfl, rfl⟩
  all_goals
    repeat' split
    all_goals exact ⟨rfl, rfl, rfl⟩

theorem succeeded_of_not_autonomy (h : spec.type ≠ .autonomy) :
    (succeeded s name spec st c).pointer = s.pointer ∧
      (succeeded s name spec st c).level = s.level := by
  rw [succeeded]
  repeat' split
  all_goals first
    | exact ⟨rfl, rfl⟩
    | exact absurd (by assumption) h

theorem succeeded_failedDigests :
    (succeeded s name spec st c).failedDigests = s.failedDigests := by
  rw [succeeded]
  repeat' split
  all_goals first
    | rfl
    | exact changeLevel_failedDigests ..

theorem failed_sameGuards : SameGuards s (failed s uid spec st c).1 := by
  rw [failed]
  repeat' split
  all_goals exact ⟨rfl, rfl, rfl⟩

theorem failed_keeps :
    (failed s uid spec st c).1.pointer = s.pointer ∧ (failed s uid spec st c).1.level = s.level ∧
      (failed s uid spec st c).1.failedDigests = s.failedDigests := by
  rw [failed]
  repeat' split
  all_goals exact ⟨rfl, rfl, rfl⟩

/-! ## `applyEffects` by outcome -/

def autoHoldEffect : StageStatus :=
  if st.applied then
    if setsAutoHold spec st.actorClass s then { s with autoHold := true }
    else if spec.type = .promote && st.actorClass = some .human then { s with autoHold := false }
    else s
  else s

theorem autoHoldEffect_sameGuards : SameGuards s (autoHoldEffect s spec st) := by
  rw [autoHoldEffect]
  repeat' split
  all_goals exact ⟨rfl, rfl, rfl⟩

theorem autoHoldEffect_keeps :
    (autoHoldEffect s spec st).pointer = s.pointer ∧ (autoHoldEffect s spec st).level = s.level ∧
      (autoHoldEffect s spec st).failedDigests = s.failedDigests ∧
        (autoHoldEffect s spec st).observedRevision = s.observedRevision := by
  rw [autoHoldEffect]
  repeat' split
  all_goals exact ⟨rfl, rfl, rfl, rfl⟩

def freezeEffect (c : Conclusion) (s : StageStatus) : StageStatus :=
  if c.freeze then { s with frozen := true, frozenReason := name ++ ": " ++ c.reason } else s

theorem freezeEffect_sameGuards : SameGuards s (freezeEffect name c s) := by
  rw [freezeEffect]
  split <;> exact ⟨rfl, rfl, rfl⟩

theorem freezeEffect_keeps :
    (freezeEffect name c s).pointer = s.pointer ∧ (freezeEffect name c s).level = s.level ∧
      (freezeEffect name c s).failedDigests = s.failedDigests := by
  rw [freezeEffect]
  split <;> exact ⟨rfl, rfl, rfl⟩

theorem applyEffects_succeeded (h : c.outcome = .succeeded) :
    applyEffects s name uid spec st c =
      freezeEffect name c (succeeded (autoHoldEffect s spec st) name spec st c) := by
  simp [applyEffects, h, freezeEffect, autoHoldEffect]

def failDigest (s : StageStatus) (d : String) : StageStatus :=
  { s with
    failedDigests := addDigest s.failedDigests d maxFailedDigests
    verified := removeDigest s.verified d }

theorem applyEffects_failed (h : c.outcome = .failed) :
    applyEffects s name uid spec st c =
      freezeEffect name
        (failed (failDigest (autoHoldEffect s spec st) spec.params.to) uid spec st c).2
        (failed (failDigest (autoHoldEffect s spec st) spec.params.to) uid spec st c).1 := by
  simp [applyEffects, h, freezeEffect, autoHoldEffect, failDigest]

theorem applyEffects_other (hs : c.outcome ≠ .succeeded) (hf : c.outcome ≠ .failed) :
    ∃ c', applyEffects s name uid spec st c = freezeEffect name c' (autoHoldEffect s spec st) := by
  cases houtcome : c.outcome with
  | succeeded => exact absurd houtcome hs
  | failed => exact absurd houtcome hf
  | rejected =>
    by_cases hrefused : (spec.type = .rollback && st.actorClass = some .controller) = true
    · exact ⟨{ c with
          freeze := true, reason := "the automatic rollback was refused: " ++ c.reason }, by
        simp [applyEffects, houtcome, hrefused, freezeEffect, autoHoldEffect]⟩
    · exact ⟨c, by simp [applyEffects, houtcome, hrefused, freezeEffect, autoHoldEffect]⟩
  | unset => exact ⟨c, by simp [applyEffects, houtcome, freezeEffect, autoHoldEffect]⟩
  | errored => exact ⟨c, by simp [applyEffects, houtcome, freezeEffect, autoHoldEffect]⟩
  | cancelled => exact ⟨c, by simp [applyEffects, houtcome, freezeEffect, autoHoldEffect]⟩
  | expired => exact ⟨c, by simp [applyEffects, houtcome, freezeEffect, autoHoldEffect]⟩
  | superseded => exact ⟨c, by simp [applyEffects, houtcome, freezeEffect, autoHoldEffect]⟩
  | witnessed => exact ⟨c, by simp [applyEffects, houtcome, freezeEffect, autoHoldEffect]⟩

theorem applyEffects_sameGuards : SameGuards s (applyEffects s name uid spec st c) := by
  have hhold := autoHoldEffect_sameGuards s spec st
  by_cases hs : c.outcome = .succeeded
  · rw [applyEffects_succeeded _ _ _ _ _ _ hs]
    exact (hhold.trans (succeeded_sameGuards ..)).trans (freezeEffect_sameGuards ..)
  · by_cases hf : c.outcome = .failed
    · rw [applyEffects_failed _ _ _ _ _ _ hf]
      have hfail : SameGuards s (failDigest (autoHoldEffect s spec st) spec.params.to) :=
        ⟨hhold.lastOp, hhold.locks, hhold.stream⟩
      exact (hfail.trans (failed_sameGuards ..)).trans (freezeEffect_sameGuards ..)
    · obtain ⟨c', hc'⟩ := applyEffects_other s name uid spec st c hs hf
      rw [hc']
      exact hhold.trans (freezeEffect_sameGuards ..)

theorem applyEffects_of_not_levelChange (h : spec.type ≠ .autonomy ∨ c.outcome ≠ .succeeded) :
    (applyEffects s name uid spec st c).pointer = s.pointer ∧
      (applyEffects s name uid spec st c).level = s.level := by
  obtain ⟨hpointer, hlevel, -, -⟩ := autoHoldEffect_keeps s spec st
  by_cases hs : c.outcome = .succeeded
  · have htype : spec.type ≠ .autonomy := h.resolve_right (fun hne => hne hs)
    rw [applyEffects_succeeded _ _ _ _ _ _ hs]
    obtain ⟨hp, hl, -⟩ := freezeEffect_keeps
      (succeeded (autoHoldEffect s spec st) name spec st c) name c
    obtain ⟨hp', hl'⟩ := succeeded_of_not_autonomy (autoHoldEffect s spec st) name spec st c htype
    rw [hp, hl, hp', hl']
    exact ⟨hpointer, hlevel⟩
  · by_cases hf : c.outcome = .failed
    · rw [applyEffects_failed _ _ _ _ _ _ hf]
      obtain ⟨hp, hl, -⟩ := failed_keeps
        (failDigest (autoHoldEffect s spec st) spec.params.to) uid spec st c
      obtain ⟨hp', hl', -⟩ := freezeEffect_keeps
        (failed (failDigest (autoHoldEffect s spec st) spec.params.to) uid spec st c).1 name
        (failed (failDigest (autoHoldEffect s spec st) spec.params.to) uid spec st c).2
      rw [hp', hl', hp, hl]
      exact ⟨hpointer, hlevel⟩
    · obtain ⟨c', hc'⟩ := applyEffects_other s name uid spec st c hs hf
      obtain ⟨hp, hl, -⟩ := freezeEffect_keeps (autoHoldEffect s spec st) name c'
      rw [hc', hp, hl]
      exact ⟨hpointer, hlevel⟩

theorem applyEffects_levelChange (htype : spec.type = .autonomy) (hs : c.outcome = .succeeded) :
    ∃ t, t.pointer = s.pointer ∧ t.observedRevision = s.observedRevision ∧
      (applyEffects s name uid spec st c).pointer = (changeLevel t spec).pointer ∧
      (applyEffects s name uid spec st c).level = (changeLevel t spec).level := by
  rw [applyEffects_succeeded _ _ _ _ _ _ hs]
  obtain ⟨hp, hl, -⟩ := freezeEffect_keeps
    (succeeded (autoHoldEffect s spec st) name spec st c) name c
  obtain ⟨hpointer, -, -, hobserved⟩ := autoHoldEffect_keeps s spec st
  rw [hp, hl, succeeded]
  simp only [htype]
  refine ⟨_, ?_, ?_, rfl, rfl⟩
  · repeat' split
    all_goals exact hpointer
  · repeat' split
    all_goals exact hobserved

/-- Only a failed conclusion marks a digest failed, and only its own. -/
theorem applyEffects_failedDigests :
    (applyEffects s name uid spec st c).failedDigests =
      if c.outcome = .failed then addDigest s.failedDigests spec.params.to maxFailedDigests
      else s.failedDigests := by
  obtain ⟨-, -, hfailed, -⟩ := autoHoldEffect_keeps s spec st
  by_cases hf : c.outcome = .failed
  · rw [if_pos hf, applyEffects_failed _ _ _ _ _ _ hf]
    obtain ⟨-, -, h⟩ := failed_keeps
      (failDigest (autoHoldEffect s spec st) spec.params.to) uid spec st c
    obtain ⟨-, -, h'⟩ := freezeEffect_keeps
      (failed (failDigest (autoHoldEffect s spec st) spec.params.to) uid spec st c).1 name
      (failed (failDigest (autoHoldEffect s spec st) spec.params.to) uid spec st c).2
    rw [h', h, failDigest, hfailed]
  · rw [if_neg hf]
    by_cases hs : c.outcome = .succeeded
    · rw [applyEffects_succeeded _ _ _ _ _ _ hs]
      obtain ⟨-, -, h⟩ := freezeEffect_keeps
        (succeeded (autoHoldEffect s spec st) name spec st c) name c
      rw [h, succeeded_failedDigests, hfailed]
    · obtain ⟨c', hc'⟩ := applyEffects_other s name uid spec st c hs hf
      obtain ⟨-, -, h⟩ := freezeEffect_keeps (autoHoldEffect s spec st) name c'
      rw [hc', h, hfailed]

/-! ## Level changes -/

theorem currentLevel_of_rank {stage : StageSpec} {s : StageStatus} (h : 0 ≤ s.level.rank) :
    currentLevel stage s = s.level := by
  have hset : s.level ≠ .unset := by
    intro hunset
    rw [hunset] at h
    exact absurd h (by decide)
  simp [currentLevel, hset]

/-- A level change the Stage allows starts from the level it is on. -/
theorem from_of_levelRefusal {spec : OperationSpec} {stage : StageSpec} {s : StageStatus}
    (h : levelRefusal spec stage s = "") : Level.ofName spec.params.from = currentLevel stage s := by
  by_contra hne
  simp [levelRefusal, hne] at h

/-- A Stage leaves observe only while nobody holds its pointer. -/
theorem holder_of_levelRefusal {spec : OperationSpec} {stage : StageSpec} {s : StageStatus}
    (h : levelRefusal spec stage s = "") (hobserve : currentLevel stage s = .observe) :
    s.locks.get .pointer = "" := by
  by_contra hheld
  unfold levelRefusal at h
  simp only [hobserve] at h
  split at h
  · simp at h
  split at h
  · simp at h
  · simp [hheld] at h

end Pacto.Delivery
