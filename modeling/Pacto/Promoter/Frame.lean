import Pacto.Promoter.Protocol

/-!
# What no reconcile takes away from another

Every move and every act of the outside lets histories grow, and a reconcile
of one operation can rely on the others not to write that operation, not to
move the pointer or take a seq in its name.
-/

namespace Pacto.Promoter

open Delivery Support

/-! ## The Stage after each write -/

section StageWrites

variable {op : Operation} {c : Conclusion} {squat : String} {s st : Stage}

theorem lockOn_eq_ok_iff :
    Reconciler.lockOn op s = .ok st ↔
      ¬(s.status.frozen = true ∧ op.spec.type = .promote) ∧
        s.status.pointer = op.spec.params.from ∧
        st = { s with status := { s.status with locks := s.status.locks.set op.spec.facet op.uid } } := by
  rw [Reconciler.lockOn]
  split
  · rename_i hfrozen
    simp only [reduceCtorEq, false_iff, not_and]
    intro hnot
    simp only [Bool.and_eq_true, decide_eq_true_eq] at hfrozen
    exact absurd hfrozen.2 (hnot hfrozen.1)
  · rename_i hfrozen
    simp only [Bool.and_eq_true, decide_eq_true_eq] at hfrozen
    split
    · rename_i hpointer
      simp [hpointer]
    · rename_i hpointer
      rw [not_not] at hpointer
      simp only [Except.ok.injEq]
      exact ⟨fun h => ⟨hfrozen, hpointer, h.symm⟩, fun h => h.2.2.symm⟩

theorem moveOn_eq_ok_iff :
    Reconciler.moveOn op s = .ok st ↔
      s.status.locks.get .pointer = op.uid ∧
        st = { s with
          status := { s.status with pointer := op.spec.params.to, lastOp := op.uid } } := by
  rw [Reconciler.moveOn]
  split
  · rename_i hlost
    simp [hlost]
  · rename_i hheld
    rw [not_not] at hheld
    simp only [Except.ok.injEq]
    exact ⟨fun h => ⟨hheld, h.symm⟩, fun h => h.2.symm⟩

theorem releaseLock_metadata : (releaseLock op s).metadata = s.metadata := by
  rw [releaseLock]
  split <;> rfl

theorem releaseLock_spec : (releaseLock op s).spec = s.spec := by
  rw [releaseLock]
  split <;> rfl

theorem releaseLock_version : (releaseLock op s).resourceVersion = s.resourceVersion := by
  rw [releaseLock]
  split <;> rfl

/-- Releasing a lock changes nothing else. -/
theorem releaseLock_status :
    (releaseLock op s).status =
      { s.status with locks := (releaseLock op s).status.locks } := by
  rw [releaseLock]
  split <;> rfl

theorem releaseLock_get_of_ne {X : String} {f : Facet} (hX : s.status.locks.get f = X)
    (hne : X ≠ op.uid) : (releaseLock op s).status.locks.get f = X := by
  rw [releaseLock]
  split
  · rename_i hheld
    by_cases hf : f = op.spec.facet
    · subst hf
      exact absurd (hX.symm.trans hheld) hne
    · simp [hf, hX]
  · exact hX

theorem releaseLock_get_self (hne : op.uid ≠ "") :
    (releaseLock op s).status.locks.get op.spec.facet ≠ op.uid := by
  rw [releaseLock]
  split
  · simpa using Ne.symm hne
  · assumption

/-- A release only ever empties a lock. -/
theorem releaseLock_get (op : Operation) (s : Stage) (f : Facet) :
    (releaseLock op s).status.locks.get f = s.status.locks.get f ∨
      (releaseLock op s).status.locks.get f = "" := by
  rw [releaseLock]
  split
  · by_cases hf : f = op.spec.facet
    · subst hf
      simp
    · simp [hf]
  · exact .inl rfl

theorem finishOn_of_concluded {done : Concluded} (h : concludedOn s.status op.uid = some done) :
    finishOn squat (op, c) s =
      (({ withPolicy op s with status := { (withPolicy op s).status with seq := done.seq } },
        rememberedAs done), releaseLock op s) := by
  have huid : (withPolicy op s).uid = op.uid := rfl
  simp only [finishOn, huid, h]

/-- The conclusion an operation that takes its seq now ends with. -/
def settled (op : Operation) (c : Conclusion) (s : Stage) : Conclusion :=
  settleConclusion (op.status.applied && preempted op s) (withPolicy op s) c (releaseLock op s)

/-- A conclusion stands, gives way to a preemption, or is a level change the Stage
refuses. -/
theorem settled_cases (op : Operation) (c : Conclusion) (s : Stage) :
    settled op c s = c ∨
      (op.status.applied = true ∧ preempted op s = true ∧ c.preempted = false ∧
        settled op c s = preemptedBy) ∨
      (op.spec.type = .autonomy ∧ ∃ why, settled op c s = { outcome := .rejected, reason := why }) := by
  have hlevel : ∀ c' : Conclusion, settleConclusion false (withPolicy op s) c' (releaseLock op s) = c' ∨
      (op.spec.type = .autonomy ∧ ∃ why,
        settleConclusion false (withPolicy op s) c' (releaseLock op s) =
          { outcome := .rejected, reason := why }) := by
    intro c'
    simp only [settleConclusion, Bool.false_and, Bool.false_eq_true, if_false]
    split
    · rename_i hlevel
      simp only [Bool.and_eq_true, decide_eq_true_eq] at hlevel
      split
      · exact .inr ⟨hlevel.1, _, rfl⟩
      · exact .inl rfl
    · exact .inl rfl
  by_cases htaken : (op.status.applied && preempted op s && !c.preempted) = true
  · have hsettled : settled op c s =
        settleConclusion false (withPolicy op s) preemptedBy (releaseLock op s) := by
      simp only [settled, settleConclusion, htaken, if_true, Bool.false_and, Bool.false_eq_true,
        if_false]
    simp only [Bool.and_eq_true, Bool.not_eq_true'] at htaken
    rw [hsettled]
    rcases hlevel preemptedBy with hsame | hrefused
    · exact .inr (.inl ⟨htaken.1.1, htaken.1.2, htaken.2, hsame⟩)
    · exact .inr (.inr hrefused)
  · have hsettled : settled op c s =
        settleConclusion false (withPolicy op s) c (releaseLock op s) := by
      simp only [settled, settleConclusion, htaken, if_false, Bool.false_and, Bool.false_eq_true]
    rw [hsettled]
    rcases hlevel c with hsame | hrefused
    · exact .inl hsame
    · exact .inr (.inr hrefused)

def concludedStage (squat : String) (op : Operation) (c : Conclusion) (s : Stage) : StageStatus :=
  concludeStatus (withPolicy op s) (settled op c s) squat (releaseLock op s).status

theorem finishOn_of_open (h : concludedOn s.status op.uid = none) :
    finishOn squat (op, c) s =
      (({ withPolicy op s with
          status :=
            { (withPolicy op s).status with
              seq := (releaseLock op s).status.stream.seq + 1
              pointer :=
                levelPointer (withPolicy op s) (releaseLock op s).status.pointer
                  (concludedStage squat op c s).pointer } }, settled op c s),
        { releaseLock op s with status := concludedStage squat op c s }) := by
  have huid : (withPolicy op s).uid = op.uid := rfl
  simp only [finishOn, huid, h, settled, concludedStage]

theorem concludeStatus_guards (op : Operation) (c : Conclusion) (squat : String)
    (st : StageStatus) :
    (concludeStatus op c squat st).lastOp = st.lastOp ∧
      (concludeStatus op c squat st).locks = st.locks ∧
      (concludeStatus op c squat st).stream =
        concludeStream st.stream (concludedEntry op c (st.stream.seq + 1)) := by
  have hfreeze : ∀ t : StageStatus, SameGuards t (freezeOnSquat op squat t) := by
    intro t
    rw [freezeOnSquat]
    split <;> exact ⟨rfl, rfl, rfl⟩
  have heffects := applyEffects_sameGuards
    { st with stream := concludeStream st.stream (concludedEntry op c (st.stream.seq + 1)) }
    op.name op.uid op.spec { op.status with seq := st.stream.seq + 1 } c.toConclusion
  have hall := heffects.trans (hfreeze _)
  exact ⟨hall.lastOp, hall.locks, hall.stream⟩

/-- A concluding compare-and-swap leaves the Stage's identity and last mover. -/
theorem finishOn_keeps (op : Operation) (c : Conclusion) (squat : String) (s : Stage) :
    (finishOn squat (op, c) s).2.metadata = s.metadata ∧ (finishOn squat (op, c) s).2.spec = s.spec ∧
      (finishOn squat (op, c) s).2.resourceVersion = s.resourceVersion ∧
      (finishOn squat (op, c) s).2.status.lastOp = s.status.lastOp ∧
      (finishOn squat (op, c) s).2.status.locks = (releaseLock op s).status.locks := by
  have hlast : (releaseLock op s).status.lastOp = s.status.lastOp := by rw [releaseLock_status]
  cases hconcluded : concludedOn s.status op.uid with
  | some done =>
    rw [finishOn_of_concluded hconcluded]
    exact ⟨releaseLock_metadata, releaseLock_spec, releaseLock_version, hlast, rfl⟩
  | none =>
    rw [finishOn_of_open hconcluded]
    obtain ⟨hop, hlocks, -⟩ := concludeStatus_guards (withPolicy op s)
      (settled op c s) squat (releaseLock op s).status
    exact ⟨releaseLock_metadata, releaseLock_spec, releaseLock_version, hop.trans hlast, hlocks⟩

/-- A conclusion the Stage remembers leaves the stream alone. -/
theorem finishOn_stream_of_concluded (c : Conclusion) (squat : String) {done : Concluded}
    (h : concludedOn s.status op.uid = some done) :
    (finishOn squat (op, c) s).2.status.stream = s.status.stream := by
  rw [finishOn_of_concluded h]
  change (releaseLock op s).status.stream = s.status.stream
  rw [releaseLock_status]

/-- The stream after a concluding compare-and-swap that takes a seq. -/
theorem finishOn_stream_of_open (c : Conclusion) (squat : String)
    (h : concludedOn s.status op.uid = none) :
    (finishOn squat (op, c) s).2.status.stream =
      concludeStream s.status.stream
        (concludedEntry op (settled op c s) (s.status.stream.seq + 1)) := by
  rw [finishOn_of_open h]
  obtain ⟨-, -, hnext⟩ := concludeStatus_guards (withPolicy op s)
    (settled op c s) squat (releaseLock op s).status
  have hstream : (releaseLock op s).status.stream = s.status.stream := by rw [releaseLock_status]
  rw [hstream] at hnext
  exact hnext

/-- A level change concludes as a success only when the Stage allows it. -/
theorem levelRefusal_of_settled (htype : op.spec.type = .autonomy)
    (h : (settled op c s).outcome = .succeeded) :
    levelRefusal op.spec s.spec (releaseLock op s).status = "" := by
  by_contra hrefusal
  have hrefused : ∀ c' : Conclusion,
      (if c'.outcome = .succeeded then
          ({ outcome := .rejected
             reason := levelRefusal op.spec s.spec (releaseLock op s).status } : Conclusion)
        else c').outcome ≠ .succeeded := by
    intro c'
    split
    · simp
    · assumption
  have hpolicy : (withPolicy op s).spec = op.spec := rfl
  simp only [settled, settleConclusion, hpolicy, htype, decide_true, Bool.true_and,
    decide_eq_true_eq, releaseLock_spec, ne_eq, hrefusal, not_false_eq_true, if_true] at h
  exact hrefused _ h

theorem concludeStatus_of_not_levelChange (op : Operation) (c : Conclusion) (squat : String)
    (st : StageStatus)
    (h : op.spec.type ≠ .autonomy ∨ c.outcome ≠ .succeeded) :
    (concludeStatus op c squat st).pointer = st.pointer ∧
      (concludeStatus op c squat st).level = st.level := by
  have heffects := applyEffects_of_not_levelChange
    { st with stream := concludeStream st.stream (concludedEntry op c (st.stream.seq + 1)) }
    op.name op.uid op.spec { op.status with seq := st.stream.seq + 1 } c.toConclusion h
  simp only [concludeStatus, freezeOnSquat]
  split <;> exact heffects

theorem concludeStatus_levelChange (op : Operation) (c : Conclusion) (squat : String)
    (st : StageStatus)
    (htype : op.spec.type = .autonomy) (h : c.outcome = .succeeded) :
    ∃ t : StageStatus, t.pointer = st.pointer ∧ t.observedRevision = st.observedRevision ∧
      (concludeStatus op c squat st).pointer = (changeLevel t op.spec).pointer ∧
      (concludeStatus op c squat st).level = (changeLevel t op.spec).level := by
  have heffects := applyEffects_levelChange
    { st with stream := concludeStream st.stream (concludedEntry op c (st.stream.seq + 1)) }
    op.name op.uid op.spec { op.status with seq := st.stream.seq + 1 } c.toConclusion htype h
  simp only [concludeStatus, freezeOnSquat]
  split <;> exact heffects

theorem finishOn_pointer (op : Operation) (c : Conclusion) (squat : String) (s : Stage) :
    ((finishOn squat (op, c) s).2.status.pointer = s.status.pointer ∧
        (finishOn squat (op, c) s).2.status.level = s.status.level) ∨
      (concludedOn s.status op.uid = none ∧ op.spec.type = .autonomy ∧
        (settled op c s).outcome = .succeeded ∧
        ∃ t : StageStatus, t.pointer = s.status.pointer ∧
          t.observedRevision = s.status.observedRevision ∧
          (finishOn squat (op, c) s).2.status.pointer = (changeLevel t op.spec).pointer ∧
          (finishOn squat (op, c) s).2.status.level = (changeLevel t op.spec).level) := by
  have hpointer : (releaseLock op s).status.pointer = s.status.pointer := by rw [releaseLock_status]
  have hlevel : (releaseLock op s).status.level = s.status.level := by rw [releaseLock_status]
  have hobserved : (releaseLock op s).status.observedRevision = s.status.observedRevision := by
    rw [releaseLock_status]
  cases hconcluded : concludedOn s.status op.uid with
  | some done =>
    left
    rw [finishOn_of_concluded hconcluded]
    exact ⟨hpointer, hlevel⟩
  | none =>
    rw [finishOn_of_open hconcluded]
    by_cases hchange : op.spec.type = .autonomy ∧ (settled op c s).outcome = .succeeded
    · right
      obtain ⟨t, htp, hto, hp, hl⟩ :=
        concludeStatus_levelChange (withPolicy op s) (settled op c s) squat
          (releaseLock op s).status hchange.1 hchange.2
      exact ⟨rfl, hchange.1, hchange.2, t, htp.trans hpointer, hto.trans hobserved, hp, hl⟩
    · left
      rw [not_and_or] at hchange
      obtain ⟨hp, hl⟩ :=
        concludeStatus_of_not_levelChange (withPolicy op s) (settled op c s) squat
          (releaseLock op s).status hchange
      exact ⟨hp.trans hpointer, hl.trans hlevel⟩

/-- Only a conclusion that fails its operation marks a digest failed, the one
the operation ships. -/
theorem finishOn_failedDigests (op : Operation) (c : Conclusion) (squat : String) (s : Stage) :
    (finishOn squat (op, c) s).2.status.failedDigests =
      if concludedOn s.status op.uid = none ∧ (settled op c s).outcome = .failed then
        addDigest s.status.failedDigests op.spec.params.to maxFailedDigests
      else s.status.failedDigests := by
  have hreleased : (releaseLock op s).status.failedDigests = s.status.failedDigests := by
    rw [releaseLock_status]
  cases hconcluded : concludedOn s.status op.uid with
  | some done =>
    rw [finishOn_of_concluded hconcluded]
    simpa using hreleased
  | none =>
    rw [finishOn_of_open hconcluded]
    have hfreeze : ∀ st : StageStatus,
        (freezeOnSquat (withPolicy op s) squat st).failedDigests = st.failedDigests := by
      intro st
      rw [freezeOnSquat]
      split <;> rfl
    simp only [concludedStage, concludeStatus, hfreeze, applyEffects_failedDigests, hreleased,
      true_and]
    rfl

theorem mem_failedDigests_finishOn {squat : String} {d : String}
    (h : d ∈ (finishOn squat (op, c) s).2.status.failedDigests) :
    d ∈ s.status.failedDigests ∨
      (concludedOn s.status op.uid = none ∧ (settled op c s).outcome = .failed ∧
        d = op.spec.params.to) := by
  rw [finishOn_failedDigests] at h
  split at h
  · rename_i hfails
    rcases mem_of_mem_remember h with hnew | hold
    · exact .inr ⟨hfails.1, hfails.2, hnew⟩
    · exact .inl hold
  · exact .inl h

end StageWrites

/-! ## The Stage after a write of others -/

/-- What the writes of others leave alone: everything a reconcile decides by,
but for the level of a new Stage and the failed digests. -/
structure Aside (spec : StageSpec) (a b : StageStatus) : Prop where
  lastOp : b.lastOp = a.lastOp
  locks : b.locks = a.locks
  pointer : b.pointer = a.pointer
  seq : b.stream.seq = a.stream.seq
  concluded : b.stream.concluded = a.stream.concluded
  level : b.level = a.level ∨ (a.level = .unset ∧ b.level = currentLevel spec a)

theorem Aside.rfl' {spec : StageSpec} {a : StageStatus} : Aside spec a a :=
  ⟨rfl, rfl, rfl, rfl, rfl, .inl rfl⟩

theorem FailedRecheck.apply_aside (check : FailedRecheck) (spec : StageSpec) (st : StageStatus) :
    Aside spec st (check.apply st) := by
  have hstep : ∀ t : StageStatus, Aside spec st t → Aside spec st (if check.stepSquat ≠ "" then
      { t with
        frozen := true
        frozenReason :=
          check.shipped ++ ": failed after release: " ++ check.why ++ ", and " ++ check.stepSquat }
      else t) := by
    intro t ht
    split
    · exact ⟨ht.lastOp, ht.locks, ht.pointer, ht.seq, ht.concluded, ht.level⟩
    · exact ht
  rw [FailedRecheck.apply]
  split
  · exact Aside.rfl'
  · apply hstep
    split <;> exact ⟨rfl, rfl, rfl, rfl, rfl, .inl rfl⟩

/-- Every write of the stage reconciler and the recorder keeps aside. -/
theorem StageWrite.apply_aside (w : StageWrite) (spec : StageSpec) (st : StageStatus) :
    Aside spec st (w.apply spec st) := by
  cases w with
  | seedLevel =>
    simp only [apply]
    split
    · rename_i hunset
      exact ⟨rfl, rfl, rfl, rfl, rfl, .inr ⟨hunset, rfl⟩⟩
    · exact Aside.rfl'
  | freeze why =>
    simp only [apply]
    split <;> exact ⟨rfl, rfl, rfl, rfl, rfl, .inl rfl⟩
  | shadowVerified d worst =>
    simp only [apply, shadowVerify]
    repeat' split
    all_goals exact ⟨rfl, rfl, rfl, rfl, rfl, .inl rfl⟩
  | propose lastOp latest =>
    simp only [apply]
    split <;> exact ⟨rfl, rfl, rfl, rfl, rfl, .inl rfl⟩
  | recheckFailed check => exact check.apply_aside spec st
  | streamID id => exact ⟨rfl, rfl, rfl, rfl, rfl, .inl rfl⟩
  | streamConflict why => exact ⟨rfl, rfl, rfl, rfl, rfl, .inl rfl⟩
  | conditions cs => exact ⟨rfl, rfl, rfl, rfl, rfl, .inl rfl⟩
  | published d => exact ⟨rfl, rfl, rfl, rfl, rfl, .inl rfl⟩
  | observed shadow d since => exact ⟨rfl, rfl, rfl, rfl, rfl, .inl rfl⟩
  | recorded seq head => exact ⟨rfl, rfl, rfl, rfl, rfl, .inl rfl⟩

/-! ## What the outside does to the store -/

/-- The acts of the outside, by what they change: the Stage or its cache, one
operation, or a new operation. -/
inductive Disturbs (s : Store) : Store → Prop where
  | showStage : Disturbs s (s.setStage s.stage.deliver)
  | writeStage (st : Stage) (hmetadata : st.metadata = s.stage.latest.metadata)
      (haside : Aside s.stage.latest.spec s.status st.status) :
      Disturbs s (s.setStage (s.stage.write st))
  | cell {X : String} (cell cell' : Cell) (hcell : s.ops X = some cell)
      (hversions : cell'.register.versions = cell.register.versions)
      (hdelivered : cell.register.delivered ≤ cell'.register.delivered)
      (hborn : cell'.born = cell.born)
      (hforgot : cell.forgotten = true → cell'.forgotten = true)
      (hlost : cell'.forgotten = true → cell.forgotten = true ∨ cell.gone = true)
      (hgone : cell.gone = true → cell'.gone = true) :
      Disturbs s (s.setCell X cell')
  | touch {X : String} (cell : Cell) (op : Operation) (hcell : s.ops X = some cell)
      (hgone : cell.gone = false)
      (hprogress : op.progress = cell.latest.progress) (hstatus : op.status = cell.latest.status) :
      Disturbs s (s.setCell X { cell with register := cell.register.write op })
  | propose (uid : String) (created : Nat) (op : Operation) (hne : uid ≠ "")
      (hfresh : s.ops uid = none) (hstage : op.spec.stage = s.stage.latest.metadata.name)
      (hfree : s.named op.name = none) : Disturbs s (s.addOp uid created op)
  | approve (a : Issued)
      (hshown : a.shown =
        (s.ops a.approval.spec.operationUID).bind fun cell => cell.latest.status.plan) :
      Disturbs s { s with issued := s.issued ++ [a] }

theorem Cell.latest_congr {cell cell' : Cell}
    (h : cell'.register.versions = cell.register.versions) : cell'.latest = cell.latest := by
  simp only [Cell.latest, Register.latest, h]

theorem onCell_eq_some_iff {s s' : Store} {X : String} {f : Cell → Option Cell} :
    s.onCell X f = some s' ↔
      ∃ cell cell', s.ops X = some cell ∧ f cell = some cell' ∧ s' = s.setCell X cell' := by
  simp only [Store.onCell, Option.bind_eq_some_iff, Option.map_eq_some_iff]
  constructor
  · rintro ⟨cell, hcell, cell', hf, rfl⟩
    exact ⟨cell, cell', hcell, hf, rfl⟩
  · rintro ⟨cell, cell', hcell, hf, rfl⟩
    exact ⟨cell, hcell, cell', hf, rfl⟩

/-- A version someone else stored: the operation as it was, its metadata
aside. -/
theorem Disturbs.of_rewrite {s s' : Store} {X : String} {f : Operation → Operation}
    (hf : ∀ op, (f op).progress = op.progress ∧ (f op).status = op.status)
    (h : s.onCell X (Store.rewrite f) = some s') : Disturbs s s' := by
  obtain ⟨cell, cell', hcell, hrewrite, rfl⟩ := onCell_eq_some_iff.mp h
  simp only [Store.rewrite] at hrewrite
  split at hrewrite
  · cases hrewrite
  · rename_i hgone
    cases hrewrite
    exact .touch cell _ hcell (Bool.eq_false_of_not_eq_true hgone) (hf _).1 (hf _).2

theorem Disturbs.of_act {s s' : Store} (a : Act) (h : Store.act a s = some s') :
    Disturbs s s' := by
  cases a with
  | showStage =>
    cases h
    exact .showStage
  | showOp uid =>
    obtain ⟨cell, cell', hcell, hf, rfl⟩ := onCell_eq_some_iff.mp h
    cases hf
    exact .cell cell _ hcell rfl cell.register.delivered_le_deliver rfl id (fun h => .inl h) id
  | forget uid =>
    obtain ⟨cell, cell', hcell, hf, rfl⟩ := onCell_eq_some_iff.mp h
    split at hf
    · rename_i hgone
      cases hf
      exact .cell cell _ hcell rfl le_rfl rfl (fun _ => rfl) (fun _ => .inr hgone) id
    · cases hf
  | propose uid name created spec =>
    simp only [Store.act] at h
    split at h
    · cases h
    · rename_i hguard
      cases h
      simp only [Bool.or_eq_true, decide_eq_true_eq, not_or, Option.isSome_iff_ne_none,
        not_not] at hguard
      obtain ⟨⟨⟨hne, hfresh⟩, hfree⟩, hstage⟩ := hguard
      let op : Operation :=
        { metadata := { name := name, ns := s.stage.latest.metadata.ns, uid := uid }, spec := spec }
      exact .propose uid created op hne hfresh hstage hfree
  | cancel uid =>
    exact .of_rewrite (f := fun op => { op with deleting := true }) (fun op => ⟨rfl, rfl⟩) h
  | touch uid => exact .of_rewrite (fun op => ⟨rfl, rfl⟩) h
  | vanish uid =>
    obtain ⟨cell, cell', hcell, hf, rfl⟩ := onCell_eq_some_iff.mp h
    split at hf
    · cases hf
    · cases hf
      exact .cell cell _ hcell rfl le_rfl rfl id (fun h => .inl h) (fun _ => rfl)
  | editSpec spec =>
    cases h
    exact .writeStage _ rfl Aside.rfl'
  | writeStage w =>
    cases h
    exact .writeStage _ rfl (w.apply_aside _ _)
  | approve a =>
    cases h
    exact .approve _ rfl

/-! ## Frames -/

variable {r : Reconciler} {X : String} {s s' : Store}

theorem Move.evolves (h : Move r X s s') : Evolves s s' := by
  cases h with
  | idle => exact .refl _
  | read => exact ⟨.refl _, fun _ cell hcell => ⟨cell, hcell, .refl _, rfl, id, id⟩, List.Subset.refl _⟩
  | lock op st hlock hev => exact .setStage (.write _ _)
  | move op st hmove hev => exact .setStage (.write _ _)
  | finish op c squat hev => exact .setStage (.write _ _)
  | save cell op hcell hgone hstep hclass => exact .setCell hcell (.write _ _) rfl id id
  | raise uid created op hne hfresh hstage => exact .addOp created op hfresh

theorem Disturbs.evolves (h : Disturbs s s') : Evolves s s' := by
  cases h with
  | showStage => exact .setStage (.deliver _)
  | writeStage st hmetadata haside => exact .setStage (.write _ _)
  | cell old new hcell hversions hdelivered hborn hforgot hlost hgone =>
    exact .setCell hcell ⟨hversions ▸ List.prefix_rfl, hdelivered⟩ hborn hforgot hgone
  | touch old op hcell hgone hprogress hstatus => exact .setCell hcell (.write _ _) rfl id id
  | propose uid created op hne hfresh hstage => exact .addOp created op hfresh
  | approve a =>
    exact ⟨.refl _, fun _ cell hcell => ⟨cell, hcell, .refl _, rfl, id, id⟩,
      List.subset_append_left _ _⟩

/-- What a reconcile of `X` finds as it left it, whatever the others did. -/
structure Frame (X : String) (s s' : Store) : Prop extends Evolves s s' where
  latest : ∀ cell, s.ops X = some cell →
    ∃ cell', s'.ops X = some cell' ∧ cell'.latest.progress = cell.latest.progress
  moved : s'.Moved X → s.Moved X
  given : ∀ e, s'.Given X e → s.Given X e
  reads : s'.reads X = s.reads X

namespace Frame

@[refl] theorem refl (s : Store) : Frame X s s where
  toEvolves := .refl s
  latest := fun cell h => ⟨cell, h, rfl⟩
  moved := id
  given := fun _ => id
  reads := rfl

theorem trans {s'' : Store} (h : Frame X s s') (h' : Frame X s' s'') : Frame X s s'' where
  toEvolves := h.toEvolves.trans h'.toEvolves
  latest := by
    intro cell hcell
    obtain ⟨cell', hcell', heq⟩ := h.latest cell hcell
    obtain ⟨cell'', hcell'', heq'⟩ := h'.latest cell' hcell'
    exact ⟨cell'', hcell'', heq'.trans heq⟩
  moved := fun hm => h.moved (h'.moved hm)
  given := fun e hg => h.given e (h'.given e hg)
  reads := h'.reads.trans h.reads

/-- A write of the Stage that neither names `X` as the last mover nor concludes
it. -/
theorem writeStage {st : Stage} (hlast : st.status.lastOp = X → s.status.lastOp = X)
    (hconcluded : ∀ e ∈ st.status.stream.concluded, e.uid = X → e ∈ s.status.stream.concluded) :
    Frame X s (s.setStage (s.stage.write st)) where
  toEvolves := .setStage (.write _ _)
  latest := fun cell h => ⟨cell, h, rfl⟩
  moved := by
    rintro ⟨v, hv, hmoved⟩
    rcases List.mem_append.mp hv with hold | hnew
    · exact ⟨v, hold, hmoved⟩
    · rw [List.mem_singleton] at hnew
      subst hnew
      exact ⟨s.stage.latest, s.stage.latest_mem, hlast hmoved⟩
  given := by
    rintro e ⟨huid, v, hv, he⟩
    refine ⟨huid, ?_⟩
    rcases List.mem_append.mp hv with hold | hnew
    · exact ⟨v, hold, he⟩
    · rw [List.mem_singleton] at hnew
      subst hnew
      exact ⟨s.stage.latest, s.stage.latest_mem, hconcluded e he huid⟩
  reads := rfl

theorem setCell {Y : String} {cell cell' : Cell} (hcell : s.ops Y = some cell)
    (hevolves : Evolves s (s.setCell Y cell'))
    (hlatest : Y = X → cell'.latest.progress = cell.latest.progress) :
    Frame X s (s.setCell Y cell') where
  toEvolves := hevolves
  latest := by
    intro old hold
    by_cases hY : X = Y
    · subst hY
      cases hcell.symm.trans hold
      exact ⟨cell', by simp [Store.setCell], hlatest rfl⟩
    · exact ⟨old, by simp [Store.setCell, Function.update_of_ne hY, hold], rfl⟩
  moved := id
  given := fun _ => id
  reads := rfl

theorem addOp {uid : String} (created : Nat) (op : Operation) (hfresh : s.ops uid = none) :
    Frame X s (s.addOp uid created op) where
  toEvolves := .addOp created op hfresh
  latest := by
    intro cell hcell
    have hX : X ≠ uid := by
      rintro rfl
      rw [hfresh] at hcell
      cases hcell
    exact ⟨cell, by simp [Store.addOp, Store.setCell, Function.update_of_ne hX, hcell], rfl⟩
  moved := id
  given := fun _ => id
  reads := rfl

end Frame

theorem mem_concludeStream {stream : Stream} {done e : Concluded}
    (h : e ∈ (concludeStream stream done).concluded) : e ∈ stream.concluded ∨ e = done := by
  have hmem := (keepLast_suffix _ _).subset h
  simpa using hmem

/-- The conclusions a concluding compare-and-swap leaves on the Stage. -/
theorem mem_finishOn_concluded {op : Operation} {c : Conclusion} {squat : String} {st : Stage}
    {e : Concluded} (h : e ∈ (finishOn squat (op, c) st).2.status.stream.concluded) :
    e ∈ st.status.stream.concluded ∨
      (concludedOn st.status op.uid = none ∧
        e = concludedEntry op (settled op c st) (st.status.stream.seq + 1)) := by
  cases hconcluded : concludedOn st.status op.uid with
  | some done =>
    rw [finishOn_stream_of_concluded c squat hconcluded] at h
    exact .inl h
  | none =>
    rw [finishOn_stream_of_open c squat hconcluded] at h
    rcases mem_concludeStream h with hold | hnew
    · exact .inl hold
    · exact .inr ⟨rfl, hnew⟩

/-- The reconciles of other operations keep the frame of `X`. -/
theorem Move.frame {Y : String} (h : Move r Y s s') (hY : Y ≠ X) : Frame X s s' := by
  cases h with
  | idle => exact .refl _
  | read =>
    exact
      { toEvolves :=
          ⟨.refl _, fun _ cell hcell => ⟨cell, hcell, .refl _, rfl, id, id⟩, List.Subset.refl _⟩
        latest := fun cell hcell => ⟨cell, hcell, rfl⟩
        moved := id
        given := fun _ => id
        reads := by simp [Function.update_of_ne (Ne.symm hY)] }
  | lock op st hlock hev =>
    obtain ⟨-, -, rfl⟩ := lockOn_eq_ok_iff.mp hlock
    exact .writeStage id fun e he _ => he
  | move op st hmove hev =>
    obtain ⟨-, rfl⟩ := moveOn_eq_ok_iff.mp hmove
    refine .writeStage (fun hlast => ?_) fun e he _ => he
    exact absurd (hev.uid.symm.trans hlast) hY
  | finish op c squat hev =>
    refine .writeStage (fun hlast => ?_) fun e he huid => ?_
    · exact (finishOn_keeps op c squat _).2.2.2.1.symm.trans hlast
    · rcases mem_finishOn_concluded he with hold | ⟨-, rfl⟩
      · exact hold
      · exact absurd (hev.uid.symm.trans huid) hY
  | save cell op hcell hgone hstep hclass =>
    exact .setCell hcell (.setCell hcell (.write _ _) rfl id id) fun hX => absurd hX hY
  | raise uid created op hne hfresh hstage => exact .addOp created op hfresh

/-- The outside keeps the frame of every operation. -/
theorem Disturbs.frame (h : Disturbs s s') : Frame X s s' := by
  have hevolves := h.evolves
  cases h with
  | showStage =>
    exact
      { toEvolves := hevolves
        latest := fun cell hcell => ⟨cell, hcell, rfl⟩
        moved := id
        given := fun _ => id
        reads := rfl }
  | writeStage st hmetadata haside =>
    refine .writeStage (fun hlast => haside.lastOp.symm.trans hlast) fun e he _ => ?_
    rw [haside.concluded] at he
    exact he
  | cell old new hcell hversions hdelivered hborn hforgot hlost hgone =>
    exact .setCell hcell hevolves fun _ => by rw [Cell.latest_congr hversions]
  | touch old op hcell hgone hprogress hstatus =>
    refine .setCell hcell hevolves fun _ => ?_
    rw [Cell.latest, Register.latest_write]
    exact hprogress
  | propose uid created op hne hfresh hstage => exact .addOp created op hfresh
  | approve a =>
    exact
      { toEvolves := hevolves
        latest := fun cell hcell => ⟨cell, hcell, rfl⟩
        moved := id
        given := fun _ => id
        reads := rfl }

/-- What a reconcile of `X` can rely on. -/
theorem frame_of_rely
    (h : Relation.ReflTransGen (r.system.Others (Move r) X) s s') : Frame X s s' := by
  induction h with
  | refl => exact .refl _
  | tail _ hstep ih =>
    refine ih.trans ?_
    rcases hstep with ⟨Y, hY, hmove⟩ | ⟨a, hact⟩
    · exact hmove.frame hY
    · exact (Disturbs.of_act a hact).frame

end Pacto.Promoter
