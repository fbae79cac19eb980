import Pacto.Promoter.Rules

/-!
# Finishing keeps to the moves

`finish` works on a copy of the operation and on what its reconcile found out,
and tries its compare-and-swap until it goes through.  Each attempt may find
the Stage changed, so the evidence of one attempt has to carry over to the
next.
-/

namespace Pacto.Promoter

open Delivery Support

variable {r : Reconciler} {X : String} {s s' : Store} {op : Operation} {c : Conclusion}
variable {new : Operation} {cell : Cell} {st : Stage}

/-! ## Copies -/

/-- A reconcile's copy of the operation: a stored version, changed only where
that decides nothing. -/
structure Working (r : Reconciler) (X : String) (op : Operation) (s : Store) : Prop where
  copied : ∃ cell, s.ops X = some cell ∧ ∃ v ∈ cell.register.versions,
    v.resourceVersion = op.resourceVersion ∧ v.progress = op.progress
  classSet : ClassSet r op
  live : op.status.phase ≠ .concluded

/-- Two copies that differ only where that decides nothing. -/
structure Alike (a b : Operation) : Prop where
  progress : a.progress = b.progress
  version : a.resourceVersion = b.resourceVersion
  actorClass : a.status.actorClass = b.status.actorClass

namespace Working

theorem mono (h : Working r X op s) (hevolves : Evolves s s') : Working r X op s' := by
  obtain ⟨⟨cell, hcell, v, hv, hcopy⟩, hclass, hlive⟩ := h
  obtain ⟨cell', hcell', hgrows, -⟩ := hevolves.cells X cell hcell
  exact ⟨⟨cell', hcell', v, hgrows.mem hv, hcopy⟩, hclass, hlive⟩

theorem alike (h : Working r X op s) (halike : Alike new op) :
    Working r X new s := by
  obtain ⟨⟨cell, hcell, v, hv, hversion, hprogress⟩, hclass, hlive⟩ := h
  refine ⟨⟨cell, hcell, v, hv, hversion.trans halike.version.symm,
    hprogress.trans halike.progress.symm⟩, ?_, ?_⟩
  · rw [ClassSet, halike.actorClass, show new.spec = op.spec from congrArg Progress.spec halike.progress]
    exact hclass
  · rw [show new.status.phase = op.status.phase from congrArg Progress.phase halike.progress]
    exact hlive

theorem ok (h : Working r X op s) (hinv : Inv r s) : VersionOK r X s op := by
  obtain ⟨⟨cell, hcell, v, hv, -, hprogress⟩, hclass, -⟩ := h
  exact ((hinv.cells X cell hcell).version v hv).of_progress hprogress.symm hclass

/-- The identity and intent of a copy are those of the stored operation. -/
theorem intent (h : Working r X op s) (hinv : Inv r s) :
    ∃ cell, s.ops X = some cell ∧ op.metadata = cell.latest.metadata ∧
      op.spec = cell.latest.spec := by
  obtain ⟨⟨cell, hcell, v, hv, -, hprogress⟩, -, -⟩ := h
  obtain ⟨hmeta, hspec⟩ := (hinv.cells X cell hcell).same v hv
  refine ⟨cell, hcell, ?_, ?_⟩
  · rw [← hmeta]
    exact (congrArg Progress.metadata hprogress).symm
  · rw [← hspec]
    exact (congrArg Progress.spec hprogress).symm

theorem uid (h : Working r X op s) (hinv : Inv r s) : op.uid = X := by
  obtain ⟨cell, hcell, hmeta, -⟩ := h.intent hinv
  rw [Operation.uid, hmeta]
  exact (hinv.cells X cell hcell).uid

theorem stage (h : Working r X op s) (hinv : Inv r s) :
    op.spec.stage = s.stage.latest.metadata.name := by
  obtain ⟨cell, hcell, -, hspec⟩ := h.intent hinv
  rw [hspec]
  exact (hinv.cells X cell hcell).stage

/-- A step of the status from the copy can be written. -/
theorem ready (h : Working r X op s) (hinv : Inv r s)
    (hversion : new.resourceVersion = op.resourceVersion) (hstep : StatusStep X s op new)
    (hclass : ClassSet r new) : Ready r X new s := by
  have huid : new.uid = X := (congrArg ObjectMeta.uid hstep.metadata).trans (h.uid hinv)
  obtain ⟨⟨cell, hcell, v, hv, hcopy, hprogress⟩, -, -⟩ := h
  exact ⟨huid, hclass, cell, hcell, .inl ⟨v, hv, hcopy.trans hversion.symm,
    hstep.mono (.refl s) hprogress⟩⟩

theorem keep (h : Working r X op s) (hinv : Inv r s) (halike : Alike new op) :
    Ready r X new s :=
  h.ready hinv halike.version (.keep h.live halike.progress) (h.alike halike).classSet

/-- A copy with the stored version number has the progress of the stored
operation. -/
theorem progress_eq (h : Working r X op s) (hcell : s.ops X = some cell)
    (hversion : cell.latest.resourceVersion = op.resourceVersion) :
    cell.latest.progress = op.progress := by
  obtain ⟨⟨cell', hcell', v, hv, hcopy, hprogress⟩, -, -⟩ := h
  cases hcell'.symm.trans hcell
  have hlatest : v = cell.latest := Register.eq_latest_of_version hv (hcopy.trans hversion.symm)
  rw [← hlatest]
  exact hprogress

end Working

/-! ## Evidence over time -/

theorem version_le_latest (h : st ∈ s.stage.versions) :
    st.resourceVersion ≤ s.stage.latest.resourceVersion := by
  have hlt := Inv.version_lt h
  have hlatest : s.stage.latest.resourceVersion = s.stage.versions.length - 1 :=
    s.stage.version_latest
  omega

/-- A Stage version as old as one that is there was there before. -/
theorem Evolves.mem_of_version_lt (h : Evolves s s') (hst : st ∈ s'.stage.versions)
    (hlt : st.resourceVersion < s.stage.versions.length) : st ∈ s.stage.versions := by
  have hget := Register.exists_getElem?_of_mem hst
  have hold := h.stage.getElem? (List.getElem?_eq_getElem hlt)
  have heq : s.stage.versions[st.resourceVersion] = st := Option.some.inj (hold.symm.trans hget)
  rw [← heq]
  exact List.getElem_mem hlt

theorem Judged.mono (h : Judged r X op c s) (hinv : Inv r s) (hframe : Frame X s s') :
    Judged r X op c s' := by
  cases h with
  | preempted houtcome hpreempted hcause => exact .preempted houtcome hpreempted hcause
  | running hphase => exact .running hphase
  | again hgiven => exact .again (hframe.toEvolves.given hgiven)
  | held hheld =>
    obtain ⟨st, hst, hread, hlock⟩ := hheld
    exact .held ⟨st, hframe.stage.mem hst, hread.trans hframe.reads.symm, hlock⟩
  | innocent hall =>
    refine .innocent fun R hR ⟨st, hst, hread, hlock⟩ => ?_
    rw [hframe.reads] at hread
    have hold := hframe.mem_of_version_lt hst (hread.trans_lt (hinv.reads X))
    exact hframe.innocent (hall R hR ⟨st, hold, hread, hlock⟩)

theorem Raised.mono (h : Raised X op c s) (hframe : Frame X s s') : Raised X op c s' := by
  intro hpreempted howes
  obtain ⟨cur, hcur, hread, hknown⟩ := h hpreempted howes
  refine ⟨cur, hframe.stage.mem hcur, hframe.reads.trans_le hread, fun hopen hauto => ?_⟩
  exact hframe.known (hknown hopen hauto)

theorem FinishEvidence.mono (h : FinishEvidence r X op c s) (hinv : Inv r s)
    (hframe : Frame X s s') : FinishEvidence r X op c s' := by
  obtain ⟨cell, hcell, hprogress, hpointer⟩ := h.cell
  obtain ⟨cell', hcell', heq⟩ := hframe.latest cell hcell
  have hptr : cell'.latest.status.pointer = cell.latest.status.pointer :=
    congrArg Progress.pointer heq
  exact
    { uid := h.uid
      cell := by
        refine ⟨cell', hcell', by rw [heq, hptr, hprogress], ?_⟩
        rw [hptr]
        refine hpointer.imp_right fun ⟨htype, hdropped⟩ => ⟨htype, fun e he => ?_⟩
        exact hframe.dropped (hdropped e (hframe.given e he))
      live := h.live
      started := h.started
      level := h.level
      failed := fun hfailed => hframe.toEvolves.moved (h.failed hfailed)
      judged := fun happlied htype hperson => (h.judged happlied htype hperson).mono hinv hframe
      raised := h.raised.mono hframe }

/-! ## From one attempt to the next -/

theorem concludedOn_eq_some {st : StageStatus} {uid : String} {done : Concluded}
    (h : concludedOn st uid = some done) : done ∈ st.stream.concluded ∧ done.uid = uid := by
  refine ⟨List.mem_of_find?_eq_some h, ?_⟩
  have huid := List.find?_some h
  simpa using huid

theorem concludedOn_eq_none {st : StageStatus} {uid : String} (h : concludedOn st uid = none)
    {e : Concluded} (he : e ∈ st.stream.concluded) : e.uid ≠ uid := by
  have huid := List.find?_eq_none.mp h e he
  simpa using huid

/-- What the Stage does not remember any more was dropped. -/
theorem dropped_of_concludedOn (h : concludedOn s.status X = none) {e : Concluded}
    (he : s.Given X e) : s.Dropped e := by
  obtain ⟨huid, st, hst, hmem⟩ := he
  refine ⟨st, hst, s.stage.latest, s.stage.latest_mem, version_le_latest hst, hmem, fun hnow => ?_⟩
  exact concludedOn_eq_none h hnow huid

/-- How a settled conclusion was come to. -/
theorem Judged.settled {op' : Operation} (h : Judged r X op c s) (htype : op.spec.type = .promote)
    (hphase : op'.status.phase = op.status.phase) (hspec : op'.spec = op.spec) (st : Stage) :
    Judged r X op' (settled op c st) s := by
  cases h with
  | preempted houtcome hpreempted hcause =>
    rcases settled_cases op c st with hsame | ⟨-, -, hnot, -⟩ | ⟨hlevel, -⟩
    · rw [hsame]
      exact .preempted houtcome hpreempted hcause
    · rw [hpreempted] at hnot
      cases hnot
    · rw [htype] at hlevel
      cases hlevel
  | running hrunning => exact .running (hphase.trans hrunning)
  | again hgiven => exact .again hgiven
  | held hheld =>
    rw [← hspec] at hheld
    exact .held hheld
  | innocent hall => exact .innocent hall

theorem levelPointer_of_ne {before after : String} (h : op.spec.type ≠ .autonomy) :
    levelPointer (withPolicy op st) before after = op.status.pointer :=
  if_neg h

/-- The evidence after an attempt that conflicts. -/
theorem FinishEvidence.next (h : FinishEvidence r X op c s) (hinv : Inv r s) (squat : String) :
    FinishEvidence r X (finishOn squat (op, c) s.stage.latest).1.1
      (finishOn squat (op, c) s.stage.latest).1.2 s := by
  obtain ⟨cell, hcell, hprogress, hpointer⟩ := h.cell
  have hspec : op.spec = cell.latest.spec := congrArg Progress.spec hprogress
  cases hconcluded : concludedOn s.stage.latest.status op.uid with
  | some done =>
    rw [finishOn_of_concluded hconcluded]
    obtain ⟨hmem, huid⟩ := concludedOn_eq_some hconcluded
    rw [h.uid] at huid
    have hgiven : s.Given X done := ⟨huid, _, s.stage.latest_mem, hmem⟩
    obtain ⟨cell', hcell', hlevel, hfailed⟩ := hinv.concluded _ s.stage.latest_mem done hmem
    rw [huid] at hcell' hfailed
    cases hcell'.symm.trans hcell
    exact
      { uid := h.uid
        cell := ⟨cell, hcell, hprogress, hpointer⟩
        live := h.live
        started := h.started
        level := by
          rw [← hspec] at hlevel
          exact hlevel
        failed := hfailed
        judged := fun _ _ _ => .again hgiven
        raised := fun hpreempted => by cases hpreempted }
  | none =>
    rw [finishOn_of_open hconcluded]
    have hsettled := settled_cases op c s.stage.latest
    exact
      { uid := h.uid
        cell := by
          refine ⟨cell, hcell, hprogress, ?_⟩
          by_cases htype : op.spec.type = .autonomy
          · right
            refine ⟨htype, fun e he => ?_⟩
            rw [h.uid] at hconcluded
            exact dropped_of_concludedOn hconcluded he
          · left
            rw [levelPointer_of_ne htype]
            exact hpointer.resolve_right fun hlevel => htype hlevel.1
        live := h.live
        started := h.started
        level := fun htype hsucceeded =>
          h.level htype (settled_succeeded h.started htype hsucceeded)
        failed := fun hfailed => h.failed (settled_failed hfailed)
        judged := by
          intro happlied htype hperson
          refine (h.judged happlied htype hperson).settled htype ?_ ?_ _
          · rfl
          · rfl
        raised := by
          intro hpreempted howes
          rcases hsettled with hsame | ⟨-, -, -, htaken⟩ | ⟨-, why, hrefused⟩
          · rw [hsame] at hpreempted howes
            exact h.raised hpreempted howes
          · rw [htaken] at hpreempted
            cases hpreempted
          · rw [hrefused] at hpreempted
            cases hpreempted }

/-! ## After the swap -/

/-- `op` may be written over whatever version is stored. -/
structure Due (r : Reconciler) (X : String) (op : Operation) (s : Store) : Prop where
  uid : op.uid = X
  classSet : ClassSet r op
  step : ∃ cell, s.ops X = some cell ∧ StatusStep X s cell.latest op

/-- A step is decided by the identity, the intent and the status it writes. -/
theorem StatusStep.rewrite {old new' : Operation} (h : StatusStep X s old new)
    (hmeta : new'.metadata = new.metadata) (hspec : new'.spec = new.spec)
    (hstatus : new'.status = new.status) : StatusStep X s old new' := by
  have hprogress : new'.progress = new.progress := by
    simp only [Operation.progress, hmeta, hspec, hstatus]
  cases h with
  | keep hlive h => exact .keep hlive (hprogress.trans h)
  | admitted hold h hfacet hchecked =>
    refine .admitted hold (hprogress.trans h) (hspec ▸ hfacet) ?_
    rw [hspec]
    exact hchecked
  | hold hlive hpast h => exact .hold hlive hpast (hprogress.trans h)
  | run hlive hpast h htype hchecked => exact .run hlive hpast (hprogress.trans h) htype hchecked
  | apply hold hunapplied h hmoved => exact .apply hold hunapplied (hprogress.trans h) hmoved
  | verify hold happlied h => exact .verify hold happlied (hprogress.trans h)
  | ask hold happlied h => exact .ask hold happlied (hprogress.trans h)
  | conclude hlive hgiven hphase hm hs ha hseq houtcome hpointer =>
    refine .conclude hlive hgiven ?_ (hmeta.trans hm) (hspec.trans hs) ?_ ?_ ?_ ?_
    all_goals
      rw [hstatus]
      assumption

/-- The newest conclusion is remembered. -/
theorem mem_concludeStream_self (stream : Stream) (done : Concluded) :
    done ∈ (concludeStream stream done).concluded := by
  have hlast : (keepLast maxConcluded (stream.concluded ++ [done])).getLast? = some done := by
    have hkeeps : 0 < maxConcluded := by decide
    have hshort : ¬(stream.concluded ++ [done]).length ≤
        (stream.concluded ++ [done]).length - maxConcluded := by
      rw [List.length_append, List.length_singleton]
      omega
    rw [keepLast, List.getLast?_drop, if_neg hshort]
    simp
  exact List.mem_of_getLast? hlast

theorem mem_finishOn_of_open (c : Conclusion) (squat : String)
    (h : concludedOn st.status op.uid = none) :
    concludedEntry op (settled op c st) (st.status.stream.seq + 1) ∈
      (finishOn squat (op, c) st).2.status.stream.concluded := by
  rw [finishOn_stream_of_open c squat h]
  exact mem_concludeStream_self _ _

/-- The conclusion of the operation that can be written once the swap went
through. -/
theorem FinishEvidence.due (h : FinishEvidence r X op c s) (hclass : ClassSet r op)
    (squat : String) (finished : Nat) :
    Due r X
      { (finishOn squat (op, c) s.stage.latest).1.1 with
        status :=
          concludedStatus (finishOn squat (op, c) s.stage.latest).1.1.status
            (finishOn squat (op, c) s.stage.latest).1.2 finished }
      (s.setStage (s.stage.write (finishOn squat (op, c) s.stage.latest).2)) := by
  obtain ⟨cell, hcell, hprogress, hpointer⟩ := h.cell
  have hmeta : op.metadata = cell.latest.metadata := congrArg Progress.metadata hprogress
  have hspec : op.spec = cell.latest.spec := congrArg Progress.spec hprogress
  have hphase : op.status.phase = cell.latest.status.phase := congrArg Progress.phase hprogress
  have happlied : op.status.applied = cell.latest.status.applied :=
    congrArg Progress.applied hprogress
  have hlive : cell.latest.status.phase ≠ .concluded := hphase ▸ h.live
  cases hconcluded : concludedOn s.stage.latest.status op.uid with
  | some done =>
    obtain ⟨hmem, huid⟩ := concludedOn_eq_some hconcluded
    rw [h.uid] at huid
    rw [finishOn_of_concluded hconcluded]
    refine ⟨h.uid, hclass, cell, hcell, ?_⟩
    have hold : s.stage.latest ∈ (s.stage.write (releaseLock op s.stage.latest)).versions :=
      (Register.Grows.write _ _).mem s.stage.latest_mem
    refine .conclude (e := done) hlive ⟨huid, _, hold, hmem⟩ rfl hmeta hspec happlied rfl rfl ?_
    rw [← hspec]
    rcases hpointer with hkept | ⟨htype, hdropped⟩
    · exact .inl hkept
    · have hgiven : s.Given X done := ⟨huid, _, s.stage.latest_mem, hmem⟩
      have hgrows : Evolves s (s.setStage (s.stage.write (releaseLock op s.stage.latest))) :=
        .setStage (.write _ _)
      exact .inr ⟨htype, .inr (.inl (hgrows.dropped (hdropped done hgiven)))⟩
  | none =>
    rw [finishOn_of_open hconcluded]
    refine ⟨h.uid, hclass, cell, hcell, ?_⟩
    set st : Stage := { releaseLock op s.stage.latest with
      status := concludedStage squat op c s.stage.latest } with hst
    have hstream : (releaseLock op s.stage.latest).status.stream = s.stage.latest.status.stream := by
      rw [releaseLock_status]
    have hreleased : (releaseLock op s.stage.latest).status.pointer =
        s.stage.latest.status.pointer := by
      rw [releaseLock_status]
    set done := concludedEntry (withPolicy op s.stage.latest) (settled op c s.stage.latest)
      (s.stage.latest.status.stream.seq + 1) with hdone
    have hnext : st.status.stream = concludeStream s.stage.latest.status.stream done := by
      obtain ⟨-, -, h⟩ := concludeStatus_guards (withPolicy op s.stage.latest)
        (settled op c s.stage.latest) squat (releaseLock op s.stage.latest).status
      rw [hstream] at h
      exact h
    have hnew : (s.stage.write st).latest ∈ (s.stage.write st).versions := Register.latest_mem _
    have hgiven : (s.setStage (s.stage.write st)).Given X done := by
      refine ⟨h.uid, _, hnew, ?_⟩
      rw [Register.latest_write]
      change done ∈ st.status.stream.concluded
      rw [hnext]
      exact mem_concludeStream_self _ _
    refine .conclude (e := done) hlive hgiven rfl hmeta hspec happlied ?_ rfl ?_
    · change (releaseLock op s.stage.latest).status.stream.seq + 1 = _
      rw [hstream, hdone, concludedEntry]
    · rw [← hspec]
      change levelPointer (withPolicy op s.stage.latest)
          (releaseLock op s.stage.latest).status.pointer st.status.pointer = _ ∨ _
      by_cases htype : op.spec.type = .autonomy
      · right
        refine ⟨htype, ?_⟩
        rw [hreleased]
        have hlevel : levelPointer (withPolicy op s.stage.latest) s.stage.latest.status.pointer
            st.status.pointer =
            if st.status.pointer ≠ s.stage.latest.status.pointer then
              { before := s.stage.latest.status.pointer, after := st.status.pointer } else {} :=
          if_pos htype
        by_cases hmoved : st.status.pointer = s.stage.latest.status.pointer
        · left
          rw [hlevel, if_neg (not_not.mpr hmoved)]
          rfl
        · right
          right
          have hlen : 0 < s.stage.versions.length := List.length_pos_iff.mpr s.stage.nonempty
          refine ⟨s.stage.versions.length - 1, s.stage.latest, (s.stage.write st).latest,
            (Register.Grows.write _ _).getElem? s.stage.getElem?_latest, ?_, ?_, ?_, ?_, ?_⟩
          · have hget := (s.stage.write st).getElem?_latest
            rw [Register.versions_write, List.length_append, List.length_singleton] at hget
            rw [show s.stage.versions.length - 1 + 1 = s.stage.versions.length + 1 - 1 by omega]
            exact hget
          · rw [Register.latest_write]
            exact fun heq => hmoved heq.symm
          · rw [Register.latest_write]
            change st.status.stream.seq = _
            rw [hnext]
            rfl
          · rfl
          · rw [Register.latest_write, hlevel, if_pos hmoved]
            rfl
      · left
        rw [levelPointer_of_ne htype]
        exact hpointer.resolve_right fun hlevel => htype hlevel.1

/-! ## Writing the conclusion -/

namespace Due

theorem ready (h : Due r X op s) : Ready r X op s := by
  obtain ⟨cell, hcell, hstep⟩ := h.step
  exact ⟨h.uid, h.classSet, cell, hcell, .inr hstep⟩

theorem mono (h : Due r X op s) (hframe : Frame X s s') : Due r X op s' := by
  obtain ⟨cell, hcell, hstep⟩ := h.step
  obtain ⟨cell', hcell', hprogress⟩ := hframe.latest cell hcell
  exact ⟨h.uid, h.classSet, cell', hcell', hstep.mono hframe.toEvolves hprogress⟩

/-- The same status on the stored version. -/
theorem rebase (h : Due r X op s) (hcell : s.ops X = some cell) :
    Due r X { cell.latest with status := op.status } s := by
  obtain ⟨cell', hcell', hstep⟩ := h.step
  cases hcell'.symm.trans hcell
  have hmeta := hstep.metadata
  have hspec := hstep.spec
  refine ⟨?_, ?_, cell, hcell', hstep.rewrite hmeta.symm hspec.symm rfl⟩
  · exact (congrArg ObjectMeta.uid hmeta.symm).trans h.uid
  · have hclass := h.classSet
    rw [ClassSet, hspec] at hclass
    exact hclass

end Due

theorem safe_writeConcluded : ∀ (n : Nat) (op : Operation) (s : Store), Due r X op s →
    (writeConcluded n op).Keeps (r.contract X) s := by
  intro n
  induction n with
  | zero => exact fun _ _ _ => Prog.safe_stop
  | succ n ih =>
    intro op s hdue
    refine safe_updateOp hdue.ready (fun _ _ _ _ _ _ => Prog.safe_done)
      (fun s₁ hframe₁ _ => ?_) fun _ => Prog.safe_stop
    rw [hdue.uid]
    refine safe_getOp fun s₂ cell hframe₂ _ hcell => ih _ s₂ ?_
    exact (hdue.mono (hframe₁.trans hframe₂)).rebase hcell

section Raising

variable {C : Prog.Contract api} [hC : Framed C r X]
  (hraise : ∀ {op s}, op.spec.stage = s.stage.latest.metadata.name → Raisable C r X op s)

include hC hraise

theorem safe_raiseStepDown {cur : Stage} {why : String} {cause : Option Verdict}
    (hinv : Inv r s) (hcur : cur ∈ s.stage.versions) :
    (r.raiseStepDown op cur why cause).Safe C
      (fun _ s' => Frame X s s' ∧ (Reconciler.owesStepDown op cause = true →
        (currentLevel cur.spec cur.status).automatic = true → s'.Known (op.name ++ "-stepdown"))) s := by
  rw [Reconciler.raiseStepDown]
  split
  · have hname : (r.stepDownOf op cur why cause).spec.stage = s.stage.latest.metadata.name := by
      rw [← hinv.metadata cur hcur]
      rfl
    exact (safe_createRaised (hraise hname)).weaken fun _ _ _ ⟨hframe, hknown⟩ => ⟨hframe, fun _ _ => hknown⟩
  · rename_i hnone
    refine safe_pure fun s₁ hframe₁ _ => ⟨hframe₁, fun howes hauto => ?_⟩
    exact absurd (by rw [howes, hauto]; rfl) hnone

/-- Raising what a failed promote owes leaves the step-down of a preempted one
raised. -/
theorem safe_raiseOnFailure {stage : Stage} {why : String} (huid : op.uid = X)
    (hstage : stage ∈ s.stage.versions) (hpre : c.preempted = true → c.outcome = .failed) :
    (r.raiseOnFailure op stage c why).Safe C
      (fun _ s' => Frame X s s' ∧ Raised X op c s') s := by
  rw [Reconciler.raiseOnFailure]
  split
  · rename_i hnone
    refine safe_pure fun s₁ hframe₁ _ => ⟨hframe₁, fun hpreempted howes => ?_⟩
    simp only [Reconciler.owesStepDown, Bool.and_eq_true, decide_eq_true_eq] at howes
    simp [hpre hpreempted, howes.1.1] at hnone
  · refine safe_getStage_orStop fun s₁ hframe₁ hinv₁ => ?_
    have hcur : s₁.stage.latest ∈ s₁.stage.versions := s₁.stage.latest_mem
    have hread : s₁.reads X ≤ s₁.stage.latest.resourceVersion := by
      have hlt := hinv₁.reads X
      have hlatest : s₁.stage.latest.resourceVersion = s₁.stage.versions.length - 1 :=
        s₁.stage.version_latest
      omega
    -- What is raised before the rollback is the step-down.
    have hstep : (if ((concludedOn s₁.stage.latest.status op.uid).isNone &&
          !preempted op s₁.stage.latest) ||
          ((concludedOn s₁.stage.latest.status op.uid).isNone && c.preempted) then
          r.raiseStepDown op s₁.stage.latest why c.cause
        else pure "").Safe C (fun _ s' => Frame X s₁ s' ∧ Raised X op c s') s₁ := by
      split
      · refine (safe_raiseStepDown hraise hinv₁ hcur).weaken fun _ _ _ ⟨hframe, hknown⟩ => ⟨hframe, ?_⟩
        intro _ howes
        exact ⟨_, hframe.stage.mem hcur, hframe.reads.trans_le hread, fun _ hauto => hknown howes hauto⟩
      · rename_i hnone
        refine safe_pure fun s₂ hframe₂ _ => ⟨hframe₂, fun hpreempted howes => ?_⟩
        refine ⟨_, hframe₂.stage.mem hcur, hframe₂.reads.trans_le hread, fun hopen => ?_⟩
        rw [← huid] at hopen
        simp [hopen, hpreempted] at hnone
    refine safe_seq hinv₁ hstep fun squat s₂ hinv₂ ⟨hframe₂, hraised⟩ => ?_
    have hframe := hframe₁.trans hframe₂
    split
    · exact safe_pure fun s₃ hframe₃ _ => ⟨hframe.trans hframe₃, hraised.mono hframe₃⟩
    · have hname : (r.rollbackOf op stage why c.cause).spec.stage = s₂.stage.latest.metadata.name := by
        rw [← hinv₂.metadata stage (hframe.stage.mem hstage)]
        rfl
      refine safe_seq hinv₂ (safe_createRaised (hraise hname)) fun rb s₃ _ hraise =>
        safe_pure fun s₄ hframe₄ _ => ?_
      have hlast := hraise.1.trans hframe₄
      exact ⟨hframe.trans hlast, hraised.mono hlast⟩

end Raising

/-! ## Finishing -/

/-- What `finish` needs to know about the operation and its conclusion. -/
structure Finishing (r : Reconciler) (X : String) (op : Operation) (c : Conclusion) (s : Store) :
    Prop extends Working r X op s where
  level : op.spec.type = .autonomy → c.outcome = .succeeded → ChangesLevel op.spec
  preempted : c.preempted = true → c.outcome = .failed
  failed : c.outcome = .failed → op.status.applied = true
  judged : op.status.applied = true → op.spec.type = .promote → byPerson op.status = false →
    Judged r X op c s

theorem Finishing.evidence (h : Finishing r X op c s) (hinv : Inv r s)
    (hcell : s.ops X = some cell) (hversion : cell.latest.resourceVersion = op.resourceVersion)
    {s' : Store} (hframe : Frame X s s') (hraised : Raised X op c s') :
    FinishEvidence r X op c s' := by
  have hprogress := h.progress_eq hcell hversion
  have hpointer : op.status.pointer = cell.latest.status.pointer :=
    congrArg Progress.pointer hprogress.symm
  have hok := h.ok hinv
  obtain ⟨cell', hcell', hsame⟩ := hframe.latest cell hcell
  have hpointer' : op.status.pointer = cell'.latest.status.pointer :=
    hpointer.trans (congrArg Progress.pointer hsame).symm
  exact
    { uid := h.uid hinv
      cell := ⟨cell', hcell', by rw [← hpointer', hsame, hprogress]; rfl, .inl hpointer'⟩
      live := h.live
      started := fun happlied => hok.started (.inr happlied)
      level := h.level
      failed := fun hfailed => hframe.toEvolves.moved (hok.moved (h.failed hfailed))
      judged := fun happlied htype hperson => (h.judged happlied htype hperson).mono hinv hframe
      raised := hraised }

theorem Finishing.mono (h : Finishing r X op c s) (hinv : Inv r s) (hframe : Frame X s s') :
    Finishing r X op c s' :=
  { h with
    toWorking := h.toWorking.mono hframe.toEvolves
    judged := fun happlied htype hperson => (h.judged happlied htype hperson).mono hinv hframe }

/-- Each attempt of the concluding compare-and-swap is a `finish` move, and what
it leaves to be written is due. -/
theorem safe_finishCas (squat : String) (h : FinishEvidence r X op c s) (hclass : ClassSet r op)
    (hinv : Inv r s) :
    (casStage (fun g st => pure ((finishOn squat g st).1, (.ok (finishOn squat g st).2 :
        Except Empty Stage))) defaultRetry (op, c)).Safe (r.contract X)
      (fun result s' => ∀ finished, Due r X
        { result.1.1 with status := concludedStatus result.1.1.status result.1.2 finished } s') s := by
  refine safe_casStage
    (J := fun g s => FinishEvidence r X g.1 g.2 s ∧ ClassSet r g.1) ?_ ?_ defaultRetry (op, c) s hinv
    ⟨h, hclass⟩
  · rintro g s₁ s₂ hframe hinv₁ ⟨hev, hset⟩
    exact ⟨hev.mono hinv₁ hframe, hset⟩
  · rintro ⟨op₁, c₁⟩ s₁ hinv₁ ⟨hev, hset⟩
    have hset' : ClassSet r (finishOn squat (op₁, c₁) s₁.stage.latest).1.1 := by
      cases hconcluded : concludedOn s₁.stage.latest.status op₁.uid with
      | some done =>
        rw [finishOn_of_concluded hconcluded]
        exact hset
      | none =>
        rw [finishOn_of_open hconcluded]
        exact hset
    refine safe_pure fun s₂ hframe _ => ?_
    have hev₂ := hev.mono hinv₁ hframe
    refine ⟨hframe.toEvolves, ⟨(hev.next hinv₁ squat).mono hinv₁ hframe, hset'⟩,
      (finishOn_keeps _ _ _ _).2.2.1, fun hsame => ?_⟩
    rw [← hsame]
    refine ⟨.finish op₁ c₁ squat hev₂, fun _ s₃ hframe₃ _ finished => ?_⟩
    exact (hev₂.due hset squat finished).mono hframe₃

theorem safe_finish {stage : Stage} (hinv : Inv r s) (h : Finishing r X op c s)
    (hstage : stage ∈ s.stage.versions) :
    (r.finish op stage c).Keeps (r.contract X) s := by
  have huid := h.uid hinv
  rw [Reconciler.finish, huid]
  refine safe_getOp fun s₁ cell hframe₁ hinv₁ hcell => ?_
  have h₁ := h.mono hinv hframe₁
  split
  · exact Prog.safe_done
  · rename_i hversion
    rw [not_not] at hversion
    refine safe_seq hinv₁
      (safe_raiseOnFailure raisable huid (hframe₁.stage.mem hstage) h.preempted) fun squat s₂ hinv₂ hraise => ?_
    have hev := h₁.evidence hinv₁ hcell hversion hraise.1 hraise.2
    refine safe_seq hinv₂ (safe_finishCas squat hev h.classSet hinv₂) fun result s₃ _ hdue => ?_
    exact safe_ask fun finished => safe_writeConcluded _ _ _ (hdue finished)

end Pacto.Promoter
