import Pacto.Promoter.Hold
import Pacto.Promoter.Steps

/-!
# The reconciles keep to what they may ask

A second contract of the operation reconciler, on top of its moves: every
status it writes is a `HoldStep` from the version it replaces, and it concludes
a change of the Stage's level only when the change was permitted.
-/

namespace Pacto.Promoter

open Delivery Support

variable {r : Reconciler} {X : String} {s s' : Store} {v mid op : Operation} {stage : Stage}
  {c : Conclusion}

/-- What a reconcile of `X` guarantees about what `X` asks. -/
abbrev Reconciler.asking (r : Reconciler) (X : String) : Prog.Contract api :=
  r.system.also (Move r) (Inv r) (Asks r) X

/-! ## Steps that need no account -/

namespace Asks

/-- A step that leaves the operation and its conclusions alone. -/
theorem of_same (hops : s'.ops X = s.ops X) (hgiven : ∀ e, s'.Given X e → s.Given X e) :
    Asks r X s s' where
  saves := by
    intro cell cell' hcell hcell'
    rw [hops, hcell] at hcell'
    exact .inl (by rw [Option.some.inj hcell'])
  climbs := fun _ e _ _ he houtcome => .inl ⟨e, hgiven e he, houtcome⟩

theorem saves_setStage (stage : Register Stage) (cell cell' : Cell) (hcell : s.ops X = some cell)
    (hcell' : (s.setStage stage).ops X = some cell') :
    cell'.register.versions = cell.register.versions ∨ HoldStep r s cell.latest cell'.latest :=
  .inl (by rw [Option.some.inj (hcell.symm.trans hcell')])

theorem addOp {uid : String} (created : Nat) (op : Operation) (hfresh : s.ops uid = none) :
    Asks r X s (s.addOp uid created op) where
  saves := by
    intro cell cell' hcell hcell'
    have hne : X ≠ uid := by
      rintro rfl
      rw [hfresh] at hcell
      cases hcell
    rw [show (s.addOp uid created op).ops X = s.ops X from Function.update_of_ne hne _ _, hcell]
      at hcell'
    exact .inl (by rw [Option.some.inj hcell'])
  climbs := fun _ e _ _ he houtcome => .inl ⟨e, he, houtcome⟩

theorem save {cell : Cell} (hcell : s.ops X = some cell) (hstep : HoldStep r s cell.latest op) :
    Asks r X s (s.setCell X { cell with register := cell.register.write op }) where
  saves := by
    intro old new hold hnew
    cases hold.symm.trans hcell
    rw [show (s.setCell X { cell with register := cell.register.write op }).ops X = _ from
      Function.update_self X _ _] at hnew
    obtain rfl := Option.some.inj hnew
    refine .inr ?_
    rw [Cell.latest_write]
    exact hstep.rewrite rfl
  climbs := fun _ e _ _ he houtcome => .inl ⟨e, he, houtcome⟩

theorem writeStage {st : Stage}
    (hconcluded : ∀ e ∈ st.status.stream.concluded, e ∈ s.status.stream.concluded) :
    Asks r X s (s.setStage (s.stage.write st)) := by
  refine of_same rfl fun e he => ?_
  rcases (given_write s st X e).mp he with hold | ⟨huid, hmem⟩
  · exact hold
  · exact ⟨huid, _, s.stage.latest_mem, hconcluded e hmem⟩

end Asks

theorem asks_lock {st : Stage} (h : Reconciler.lockOn op s.stage.latest = .ok st) :
    Asks r X s (s.setStage (s.stage.write st)) := by
  obtain ⟨-, -, rfl⟩ := lockOn_eq_ok_iff.mp h
  exact .writeStage fun _ => id

instance (r : Reconciler) (X : String) : Framed (r.asking X) r X where
  frame := fun hrely => frame_of_rely (r.system.rely_of_also hrely)
  invariant := Iff.rfl
  idle := fun s => Asks.of_same (s := s) rfl fun _ => id
  read := fun s => Asks.of_same (s := s) rfl fun _ => id

theorem raisable_asks (op : Operation) : Raisable (r.asking X) r X op s :=
  fun _ _ created _ _ _ hfresh _ => Asks.addOp created op hfresh

/-! ## Past the lock -/

/-- The stored operation took the lock, and changes no level. -/
def Locked (X : String) (s : Store) : Prop :=
  ∃ cell, s.ops X = some cell ∧ cell.latest.PastLock ∧ cell.latest.spec.type ≠ .autonomy

theorem Locked.frame (h : Locked X s) (hframe : Frame X s s') : Locked X s' := by
  obtain ⟨cell, hcell, hpast, htype⟩ := h
  obtain ⟨cell', hcell', hprogress⟩ := hframe.latest cell hcell
  refine ⟨cell', hcell', ?_, ?_⟩
  · rw [Operation.PastLock,
      show cell'.latest.status.phase = _ from congrArg Progress.phase hprogress,
      show cell'.latest.status.applied = _ from congrArg Progress.applied hprogress]
    exact hpast
  · rw [show cell'.latest.spec = _ from congrArg Progress.spec hprogress]
    exact htype

/-- Once an operation took the lock its moves say nothing about what it asks. -/
theorem Locked.asks (h : Locked X s) (hmove : Move r X s s') : Locked X s' ∧ Asks r X s s' := by
  obtain ⟨cell, hcell, hpast, htype⟩ := h
  cases hmove with
  | idle => exact ⟨⟨cell, hcell, hpast, htype⟩, .of_same rfl fun _ => id⟩
  | read => exact ⟨⟨cell, hcell, hpast, htype⟩, .of_same rfl fun _ => id⟩
  | lock op st hlock hev => exact ⟨⟨cell, hcell, hpast, htype⟩, asks_lock hlock⟩
  | move op st hmove hev =>
    obtain ⟨-, rfl⟩ := moveOn_eq_ok_iff.mp hmove
    exact ⟨⟨cell, hcell, hpast, htype⟩, .writeStage fun _ => id⟩
  | finish op c squat hev =>
    refine ⟨⟨cell, hcell, hpast, htype⟩, ⟨Asks.saves_setStage _, ?_⟩⟩
    intro cell' e hcell' hlevel
    cases hcell'.symm.trans hcell
    exact absurd hlevel htype
  | save cell' op hcell' hgone hstep hclass =>
    cases hcell'.symm.trans hcell
    refine ⟨⟨_, Function.update_self X _ _, ?_, ?_⟩, .save hcell (.past hpast)⟩
    · rw [Cell.latest_write]
      exact hstep.pastLock hpast
    · rw [Cell.latest_write]
      exact fun hlevel => htype (hstep.spec ▸ hlevel)
  | raise uid created op hne hfresh hstage =>
    refine ⟨⟨cell, ?_, hpast, htype⟩, .addOp created op hfresh⟩
    rw [show (s.addOp uid created op).ops X = s.ops X from
      Function.update_of_ne (fun hX => by rw [hX, hfresh] at hcell; cases hcell) _ _]
    exact hcell

/-- What is safe once the operation took the lock is safe for what it asks. -/
theorem Locked.safe {α : Type} {p : Reconcile α} {post : α → Store → Prop} (h : Locked X s)
    (hp : p.Safe (r.contract X) post s) : p.Safe (r.asking X) post s :=
  hp.upgrade (Q := Locked X)
    r.system.rely_of_also id
    (fun hrely _ hlocked => hlocked.frame (Framed.frame (C := r.asking X) hrely))
    (fun _ hlocked hmove => hlocked.asks hmove) h

/-! ## Writing the operation -/

def Version (X : String) (v : Operation) (s : Store) : Prop :=
  v.uid = X ∧ ∃ cell, s.ops X = some cell ∧ v ∈ cell.register.versions

theorem Version.mono (h : Version X v s) (hevolves : Evolves s s') : Version X v s' := by
  obtain ⟨huid, cell, hcell, hv⟩ := h
  obtain ⟨cell', hcell', hgrows, -⟩ := hevolves.cells X cell hcell
  exact ⟨huid, cell', hcell', hgrows.mem hv⟩

/-- A copy of `v` may be written as a step from `v`. -/
theorem safe_step {new : Operation} (h : Version X v s)
    (hversion : new.resourceVersion = v.resourceVersion) (hmeta : new.metadata = v.metadata)
    (hstep : HoldStep r s v new) : (save new).Keeps (r.asking X) s := by
  refine safe_updateOp_of (f := fun reply => stored reply >>= fun _ => pure ())
    ((congrArg ObjectMeta.uid hmeta).trans h.1) ?_ ?_ ?_ ?_
  · intro s₁ cell hframe _ hcell _ hlatest
    obtain ⟨huid, cell', hcell', hv⟩ := h.mono hframe.toEvolves
    cases hcell'.symm.trans hcell
    have heq : v = cell.latest := Register.eq_latest_of_version hv (hversion.symm.trans hlatest)
    exact Asks.save hcell (heq ▸ hstep.mono huid hframe)
  · exact fun _ _ _ _ _ _ => Prog.safe_done
  · exact fun _ _ _ => Prog.safe_stop
  · exact fun _ => Prog.safe_stop

theorem safe_writeConcluded_asks : ∀ (n : Nat) (op : Operation) (s : Store), op.uid = X →
    op.status.phase = .concluded →
    (writeConcluded n op).Keeps (r.asking X) s := by
  intro n
  induction n with
  | zero => exact fun _ _ _ _ => Prog.safe_stop
  | succ n ih =>
    intro op s huid hphase
    refine safe_updateOp_of huid (fun s₁ cell _ _ hcell _ _ => Asks.save hcell (.concluded hphase))
      (fun _ _ _ _ _ _ => Prog.safe_done) (fun s₁ _ _ => ?_) fun _ => Prog.safe_stop
    rw [huid]
    refine safe_getOp fun s₂ cell _ hinv₂ hcell => ih _ s₂ ?_ hphase
    exact (hinv₂.cells X cell hcell).uid

/-! ## Concluding -/

/-- The operation may conclude as `c`, as far as the Stage's level goes. -/
structure Entitled (r : Reconciler) (X : String) (op : Operation) (c : Conclusion) (s : Store) :
    Prop where
  uid : op.uid = X
  stored : ∃ cell, s.ops X = some cell ∧ cell.latest.spec = op.spec
  started : op.status.applied = true → op.spec.type ≠ .autonomy
  level : op.spec.type = .autonomy → c.outcome = .succeeded →
    s.Succeeded X ∨ Permitted r X (byPerson op.status) s

theorem Working.entitled (h : Working r X op s) (hinv : Inv r s)
    (hlevel : op.spec.type = .autonomy → c.outcome = .succeeded →
      Permitted r X (byPerson op.status) s) : Entitled r X op c s := by
  obtain ⟨cell, hcell, -, hspec⟩ := h.intent hinv
  exact
    { uid := h.uid hinv
      stored := ⟨cell, hcell, hspec.symm⟩
      started := fun happlied => (h.ok hinv).started (.inr happlied)
      level := fun htype houtcome => .inr (hlevel htype houtcome) }

namespace Entitled

theorem mono (h : Entitled r X op c s) (hframe : Frame X s s') : Entitled r X op c s' where
  uid := h.uid
  stored := by
    obtain ⟨cell, hcell, hspec⟩ := h.stored
    obtain ⟨cell', hcell', hprogress⟩ := hframe.latest cell hcell
    exact ⟨cell', hcell', (congrArg Progress.spec hprogress).trans hspec⟩
  started := h.started
  level := fun htype houtcome =>
    (h.level htype houtcome).imp (·.mono hframe.toEvolves) (·.mono hframe.toEvolves)

/-- The concluding swap keeps to what the operation is entitled to. -/
theorem asks (h : Entitled r X op c s) (squat : String) :
    Asks r X s (s.setStage (s.stage.write (finishOn squat (op, c) s.stage.latest).2)) := by
  refine ⟨Asks.saves_setStage _, fun cell e hcell htype he houtcome => ?_⟩
  obtain ⟨cell', hcell', hspec⟩ := h.stored
  cases hcell'.symm.trans hcell
  rw [hspec] at htype
  rcases (given_write s _ X e).mp he with hold | ⟨huid, hmem⟩
  · exact .inl ⟨e, hold, houtcome⟩
  · rcases mem_finishOn_concluded hmem with hold | ⟨-, rfl⟩
    · exact .inl ⟨e, ⟨huid, _, s.stage.latest_mem, hold⟩, houtcome⟩
    · exact h.level htype (settled_succeeded h.started htype houtcome)

/-- What an attempt leaves to be tried again. -/
theorem next (h : Entitled r X op c s) (squat : String) :
    Entitled r X (finishOn squat (op, c) s.stage.latest).1.1
      (finishOn squat (op, c) s.stage.latest).1.2 s := by
  cases hconcluded : concludedOn s.stage.latest.status op.uid with
  | some done =>
    rw [finishOn_of_concluded hconcluded]
    obtain ⟨hmem, huid⟩ := concludedOn_eq_some hconcluded
    rw [h.uid] at huid
    refine ⟨h.uid, h.stored, h.started, fun _ houtcome => .inl ⟨done, ⟨huid, ?_⟩, houtcome⟩⟩
    exact ⟨_, s.stage.latest_mem, hmem⟩
  | none =>
    rw [finishOn_of_open hconcluded]
    refine ⟨h.uid, h.stored, h.started, fun htype houtcome => ?_⟩
    exact h.level htype (settled_succeeded h.started htype houtcome)

end Entitled

theorem safe_finishCas_asks (squat : String) (hinv : Inv r s) (h : Entitled r X op c s) :
    (casStage (fun g st => pure ((finishOn squat g st).1, (.ok (finishOn squat g st).2 :
        Except Empty Stage))) defaultRetry (op, c)).Safe (r.asking X)
      (fun result _ => result.1.1.uid = X) s := by
  refine safe_casStage (J := fun (g : Operation × Conclusion) s => Entitled r X g.1 g.2 s)
    (fun _ _ _ hframe _ hg => hg.mono hframe) ?_ defaultRetry (op, c) s hinv h
  rintro ⟨op₁, c₁⟩ s₁ hinv₁ h₁
  refine safe_pure fun s₂ hframe _ => ?_
  refine ⟨hframe.toEvolves, (h₁.next squat).mono hframe, (finishOn_keeps _ _ _ _).2.2.1,
    fun hsame => ?_⟩
  rw [← hsame]
  exact ⟨(h₁.mono hframe).asks squat, fun _ _ _ _ => ((h₁.mono hframe).next squat).uid⟩

theorem safe_finish_asks (h : Entitled r X op c s)
    (hstage : stage ∈ s.stage.versions) (hpreempted : c.preempted = false) :
    (r.finish op stage c).Keeps (r.asking X) s := by
  rw [Reconciler.finish, h.uid]
  refine safe_getOp fun s₁ cell hframe₁ hinv₁ hcell => ?_
  split
  · exact Prog.safe_done
  · refine safe_seq hinv₁ (safe_raiseOnFailure (fun _ => raisable_asks _) h.uid
      (hframe₁.stage.mem hstage) (by simp [hpreempted])) fun squat s₂ hinv₂ hraise => ?_
    have h₂ := h.mono (hframe₁.trans hraise.1)
    refine safe_seq hinv₂ (safe_finishCas_asks squat hinv₂ h₂) fun result s₃ _ huid => ?_
    exact safe_ask fun finished => safe_writeConcluded_asks _ _ _ huid rfl

/-- An operation that changes no level now may always end. -/
theorem safe_end (hinv : Inv r s) (h : Started r X op stage s) (hpreempted : c.preempted = false)
    (hlevel : op.spec.type = .autonomy → c.outcome ≠ .succeeded) :
    (r.finish op stage c).Keeps (r.asking X) s :=
  safe_finish_asks
    (h.entitled hinv fun htype houtcome => absurd houtcome (hlevel htype)) h.stage_mem hpreempted

/-! ## Admission -/

theorem safe_admit_asks (hinv : Inv r s) (h : Started r X v stage s) (hv : Version X v s) :
    (r.admitOp v).Keeps (r.asking X) s := by
  refine safe_guarded hinv (fun _ _ => safe_step hv rfl rfl (.keep rfl rfl))
    fun s₁ hframe₁ _ => safe_getStage_orStop fun s₂ hframe₂ hinv₂ => safe_ask fun now => ?_
  have hframe := hframe₁.trans hframe₂
  refine safe_reads (reads_refusal _ _ _) fun result hresult => ?_
  obtain ⟨⟨vs, hjudged⟩, -⟩ := hresult
  obtain ⟨reason, op⟩ := result
  dsimp only at hjudged ⊢
  subst hjudged
  split
  · exact safe_end hinv₂ (((h.mono hframe).admitted now).alike (.judgedBy _ vs)) rfl (by simp)
  · refine safe_step (hv.mono hframe.toEvolves) ?_ ?_ (.admitted ?_ ?_)
    all_goals rfl

/-! ## Taking the lock -/

theorem safe_takeLock_asks (hinv : Inv r s) (h : Started r X op stage s) (hv : Version X v s)
    (halike : Alike op v) {recheck : Bool}
    (hlevel : op.spec.type = .autonomy → Permitted r X (byPerson op.status) s)
    (hwait : ∀ s' why, Frame X s s' →
      (∃ st ∈ s'.stage.versions, s'.reads X ≤ st.resourceVersion ∧ Hinders st op) →
      HoldStep r s' v (Reconciler.waiting op recheck why))
    (hrun : ∀ s' st now, Frame X s s' → HoldStep r s' v (Reconciler.started op st now)) :
    (r.takeLock op stage recheck).Keeps (r.asking X) s := by
  have huid := h.uid hinv
  have hmeta : op.metadata = v.metadata := congrArg Progress.metadata halike.progress
  rw [Reconciler.takeLock]
  split
  · exact safe_finish_asks (h.entitled hinv fun htype _ => hlevel htype) h.stage_mem rfl
  · refine safe_seq hinv (safe_lockCas hinv huid fun _ _ _ _ hlock _ _ => asks_lock hlock)
      fun result s₁ hinv₁ hcas => ?_
    obtain ⟨hframe, hmet⟩ := hcas
    have h₁ := h.mono hframe
    have hv₁ := hv.mono hframe.toEvolves
    obtain ⟨_, result⟩ := result
    cases result with
    | error e =>
      cases e with
      | concluded => exact safe_end hinv₁ h₁ rfl (by simp [Conclusion.empty])
      | wait why =>
        have hsame := alike_waiting op recheck why
        refine safe_step hv₁ (hsame.version.trans halike.version) ?_
          (hwait s₁ why hframe (hmet why rfl))
        exact (congrArg Progress.metadata hsame.progress).trans hmeta
      | pointerMoved => exact safe_end hinv₁ h₁ rfl (by simp)
    | ok st =>
      refine safe_ask fun now => ?_
      exact safe_step hv₁ halike.version hmeta (hrun s₁ st now hframe)

/-! ## Before the pointer moves -/

theorem safe_pendingPlan_asks (hinv : Inv r s) (h : Started r X v stage s) (hv : Version X v s)
    (hphase : v.status.phase = .pending) :
    (r.pendingPlan v stage).Keeps (r.asking X) s := by
  rw [Reconciler.pendingPlan]
  refine safe_seq hinv (safe_plan h) fun result s₁ hinv₁ hresult => ?_
  obtain ⟨plan, stage₁⟩ := result
  obtain ⟨hframe, h₁, hplanned⟩ := hresult
  have hv₁ := hv.mono hframe.toEvolves
  dsimp only at h₁ hplanned ⊢
  refine safe_orStop fun p hp => ?_
  have hplan := (hplanned p hp).planned
  cases hpredicted : p.predicted with
  | rejected =>
    refine safe_end hinv₁ (h₁.alike ?_) rfl (by simp)
    exact ⟨rfl, rfl, rfl⟩
  | held =>
    refine safe_ask fun now => safe_step hv₁ rfl rfl ?_
    exact .hold p now hphase rfl hplan hpredicted rfl
  | waits => exact safe_step hv₁ rfl rfl (.plan p hphase hphase hplan rfl)
  | proceeds =>
    rw [Reconciler.lock]
    simp only [Bool.false_and, Bool.false_eq_true, if_false]
    refine safe_takeLock_asks hinv₁ (h₁.alike ?_) hv₁ ?_ (fun _ => ?_) (fun _ _ _ _ => ?_)
      fun _ _ _ _ => ?_
    · exact ⟨rfl, rfl, rfl⟩
    · exact ⟨rfl, rfl, rfl⟩
    · obtain ⟨-, cell, hcell, hmem⟩ := hv₁
      exact ⟨cell, hcell, v, hmem, .inl ⟨hphase, p, hplan, hpredicted⟩⟩
    · exact .plan p hphase hphase hplan rfl
    · exact .start p hphase rfl hplan hpredicted rfl

theorem safe_pending_asks (hinv : Inv r s) (h : Started r X v stage s) (hv : Version X v s)
    (hphase : v.status.phase = .pending) :
    (r.pending v stage).Keeps (r.asking X) s := by
  have hlive : v.InFlight := by simp [Operation.InFlight, hphase]
  exact safe_pending_of (fun _ hpreempted _ => safe_end hinv h hpreempted)
    ((h.ok hinv).ownFacet hlive) (safe_pendingPlan_asks hinv h hv hphase)

/-! ## Approvals -/

section Held

variable {a : Approval}

theorem Answers.byPerson (h : Answers r s v a op) : byPerson op.status = true := by
  simp [Promoter.byPerson, h.approvals]

theorem Answers.phase (h : Answers r s v a op) : op.status.phase = .held :=
  h.alike.phase.trans h.held.phase

/-- A wait leaves the approval it took unconsumed. -/
theorem Answers.waiting (h : Answers r s v a op) (vs : List Verdict) (why : String) :
    (Reconciler.waiting (op.judgedBy vs) true why).asking =
      { op.asking with approvals := v.status.approvals } := by
  have happrovals : (op.judgedBy vs).status.approvals = v.status.approvals ++ [recordOf a] :=
    h.approvals
  simp only [Reconciler.waiting, happrovals, List.getLast?_append_of_ne_nil _ (List.cons_ne_nil _ _),
    List.getLast?_singleton, List.dropLast_concat]
  rfl

/-- The lock of an operation every team has answered. -/
theorem AtLock.safe_takeLock {cur : Option Plan} (hinv : Inv r s) (h : Started r X op stage s)
    (hv : Version X v s) (hlock : AtLock r s v a op cur) (vs : List Verdict) :
    (r.takeLock (op.judgedBy vs) stage true).Keeps (r.asking X) s := by
  have halike := (Alike.judgedBy op vs).trans hlock.alike
  have hphase := hlock.phase
  refine safe_takeLock_asks hinv (h.alike (.judgedBy op vs)) hv halike (fun _ => ?_)
    (fun s' why hframe hmet => ?_) fun s' st now hframe => ?_
  · obtain ⟨-, cell, hcell, hmem⟩ := hv
    exact ⟨cell, hcell, v, hmem, .inr ⟨hlock.byPerson, a, op, cur, hlock⟩⟩
  · refine .wait a op cur ?_ (hlock.mono hframe.toEvolves) ?_ (hlock.waiting vs why)
    · exact (alike_waiting _ true why).phase.trans hphase
    · obtain ⟨st, hst, hread, hhinders⟩ := hmet
      refine ⟨st, hst, hv.1 ▸ hread, ?_⟩
      have hspec : (op.judgedBy vs).spec = v.spec := halike.spec
      have huid : (op.judgedBy vs).uid = v.uid :=
        congrArg ObjectMeta.uid (congrArg Progress.metadata halike.progress)
      rw [Hinders, hspec, huid] at hhinders
      exact hhinders
  · exact .run a op cur rfl (hlock.mono hframe.toEvolves) rfl

theorem safe_lock_asks (hinv : Inv r s) (h : Started r X op stage s) (hv : Version X v s)
    (hanswers : Answers r s v a op)
    (hcomplete : teamsWaiting op.status.askedOwners op.status.approvedTeams = []) :
    (r.lock op stage true).Keeps (r.asking X) s := by
  rw [Reconciler.lock]
  split
  · refine safe_seq hinv (safe_plan h) fun result s₁ hinv₁ hresult => ?_
    obtain ⟨plan, stage₁⟩ := result
    obtain ⟨hframe, h₁, hplanned⟩ := hresult
    have hv₁ := hv.mono hframe.toEvolves
    have hanswers₁ := hanswers.mono hframe.toEvolves
    dsimp only at h₁ hplanned ⊢
    refine safe_orStop fun cur hcur => ?_
    have hplan := (hplanned cur hcur).planned
    split
    · exact safe_end hinv₁ h₁ rfl (by simp)
    · rename_i hrejected
      split
      · refine safe_ask fun now => safe_step hv₁ hanswers.alike.version ?_ ?_
        · exact congrArg Progress.metadata hanswers.alike.progress
        · exact .again a op cur now rfl hanswers₁ hplan hrejected rfl
      · rename_i hpasses
        have hlock : AtLock r s₁ v a op (some cur) :=
          ⟨hanswers₁, hcomplete, fun _ => ⟨cur, rfl, hplan, hrejected, by simpa using hpasses⟩⟩
        exact hlock.safe_takeLock hinv₁ h₁ hv₁ _
  · rename_i hother
    have hlock : AtLock r s v a op none :=
      ⟨hanswers, hcomplete, fun htype => absurd htype (by simpa using hother)⟩
    exact hlock.safe_takeLock hinv h hv _

theorem safe_heldOn_asks (hinv : Inv r s) (h : Started r X op stage s) (hv : Version X v s)
    (hheld : v.Held) (refreshed : Reconciler.Refreshed) (newSkip : Bool)
    (answer : Option ApprovalRecord)
    (hanswer : (answer = none ∧ ∃ mid, Refreshes r v mid ∧ Alike op mid ∧ op.asking = mid.asking) ∨
      ∃ a mid, answer = some (recordOf a) ∧ Refreshes r v mid ∧ Takes r s mid a op) :
    (r.heldOn op stage refreshed newSkip answer).Keeps (r.asking X) s := by
  unfold Reconciler.heldOn
  rcases hanswer with ⟨rfl, mid, hrefresh, hsame, hasking⟩ | ⟨a, mid, rfl, hrefresh, htakes⟩
  · have halike := hsame.trans hrefresh.alike
    dsimp only
    split
    · exact Prog.safe_stop
    · split
      · refine safe_step hv halike.version (congrArg Progress.metadata halike.progress) ?_
        exact .refresh mid hheld (halike.phase.trans hheld.phase) hrefresh hasking
      · exact Prog.safe_done
  · dsimp only
    split
    · exact safe_end hinv h rfl (by simp)
    · rename_i hreject
      have hanswers : Answers r s v a op := ⟨hheld, ⟨mid, hrefresh, htakes⟩, hreject⟩
      split
      · exact Prog.safe_stop
      · split
        · refine safe_step hv hanswers.alike.version ?_ (.count a op hanswers.phase hanswers rfl)
          exact congrArg Progress.metadata hanswers.alike.progress
        · rename_i hcomplete
          exact safe_lock_asks hinv h hv hanswers (by simpa using hcomplete)

theorem safe_held_asks (hinv : Inv r s) (h : Started r X v stage s) (hv : Version X v s)
    (hheld : v.Held) : (r.held v stage).Keeps (r.asking X) s := by
  rw [Reconciler.held]
  refine safe_exits (fun _ hpreempted _ => safe_end hinv h hpreempted) (safe_guarded hinv
    (fun _ _ => safe_step hv rfl rfl (.keep rfl rfl)) fun s₁ hframe₁ hinv₁ => ?_)
  refine safe_seq hinv₁ (safe_refreshOrder hinv₁ (h.mono hframe₁))
    fun result s₂ hinv₂ hresult => ?_
  obtain ⟨refreshed, mid, stage₂⟩ := result
  obtain ⟨hframe₂, h₂, hrefresh⟩ := hresult
  dsimp only at h₂ hrefresh ⊢
  refine safe_seq hinv₂ (safe_approval mid) fun answer s₃ hinv₃ hread => ?_
  obtain ⟨answer, skipped, op⟩ := answer
  obtain ⟨hframe₃, -, hanswer⟩ := hread
  dsimp only at hanswer ⊢
  have hv₃ := hv.mono ((hframe₁.trans hframe₂).trans hframe₃).toEvolves
  have h₃ := h₂.mono hframe₃
  rcases hanswer with ⟨rfl, rfl⟩ | ⟨a, rfl, rfl, htakes⟩
  · refine safe_heldOn_asks hinv₃ (h₃.alike ?_) hv₃ hheld _ _ _
      (.inl ⟨rfl, op, hrefresh, ?_, ?_⟩)
    all_goals
      split
      · first | exact ⟨rfl, rfl, rfl⟩ | rfl
      · first | exact .refl op | rfl
  · simp only [ne_eq, not_true_eq_false, decide_false, Bool.false_and, Bool.false_eq_true,
      if_false]
    exact safe_heldOn_asks hinv₃ (h₃.alike htakes.alike) hv₃ hheld _ _ _
      (.inr ⟨a, mid, rfl, hrefresh, htakes⟩)

end Held

/-! ## The reconcile -/

theorem safe_dispatch_asks (hinv : Inv r s) (h : Started r X v stage s) (hv : Version X v s)
    (hread : stage.resourceVersion = s.reads X) :
    (r.dispatch v stage).Keeps (r.asking X) s := by
  by_cases hpast : v.PastLock
  · refine Locked.safe ?_ (safe_dispatch hinv h hread)
    obtain ⟨-, cell, hcell, hmem⟩ := hv
    have hok := hinv.cells X cell hcell
    refine ⟨cell, hcell, ?_, ?_⟩
    · exact hok.lockOrder v hmem _ cell.register.latest_mem (Register.version_le_latest hmem) hpast
    · rw [← (hok.same v hmem).2]
      refine (hok.version v hmem).started ?_
      rcases hpast with happlied | hrunning | hverifying | hconcluded
      · exact .inr happlied
      · exact .inl hrunning
      · exact .inr ((hok.version v hmem).applied hverifying)
      · exact absurd hconcluded h.live
  · simp only [Operation.PastLock, not_or] at hpast
    obtain ⟨hunapplied, hrunning, hverifying, hconcluded⟩ := hpast
    rw [Reconciler.dispatch]
    split
    · exact safe_end hinv h rfl (by simp [Conclusion.empty])
    · cases hphase : v.status.phase with
      | new => exact safe_admit_asks hinv h hv
      | pending => exact safe_pending_asks hinv h hv hphase
      | running => exact absurd hphase hrunning
      | verifying => exact absurd hphase hverifying
      | held => exact safe_held_asks hinv h hv ⟨hphase, Bool.eq_false_of_not_eq_true hunapplied⟩
      | concluded => exact absurd hphase hconcluded

theorem safe_reconcile_asks (X : String) (s : Store) :
    (r.reconcile X).Keeps (r.asking X) s := by
  rw [Reconciler.reconcile]
  refine safe_readOp (fun _ => Prog.safe_done) fun s₁ cell v hinv₁ hcell hcached => ?_
  obtain ⟨-, hcached⟩ := cached_eq_some hcached
  dsimp only
  split
  · exact Prog.safe_done
  · rename_i hlive
    refine safe_readStage (fun _ => Prog.safe_stop) fun s₂ hframe hinv₂ hinv₃ => ?_
    have h := Started.of_cached hinv₁ hcell hcached hlive hframe hinv₂
    obtain ⟨cell₂, hcell₂, hgrows, -⟩ := hframe.cells X cell hcell
    refine safe_dispatch_asks hinv₃ h ⟨h.uid hinv₃, cell₂, hcell₂, ?_⟩ (by simp)
    exact hgrows.mem (Register.mem_of_cached hcached)

/-- All reconciles together keep to both contracts. -/
theorem reconcile_asks (r : Reconciler) :
    r.system.Sound (fun X s s' => Move r X s s' ∧ Asks r X s s') (Inv r) :=
  (reconcile_sound r).also fun X s _ => safe_reconcile_asks X s

/-! ## Steps of a run -/

abbrev Reconciler.Happens (r : Reconciler) (e : System.Event r.system) (s s' : Store) : Prop :=
  r.system.Protocol (fun X s s' => Move r X s s' ∧ Asks r X s s') e s s'

theorem Step.of_happens {e : System.Event r.system} (h : r.Happens e s s') : Step r s s' := by
  cases h with
  | start X => exact .idle rfl
  | call X o h => exact .move X h.1
  | crash X => exact .idle rfl
  | act a h => exact .disturb (Disturbs.of_act a h)

/-- What every allowed step keeps holds in every state of a run, in which every
reconcile keeps to both contracts. -/
theorem runs_asks {allowed : Store → Store → Prop} {metadata : ObjectMeta} {spec : StageSpec}
    {σ : System.Config api String} {P : Store → Prop} (hrun : r.Runs allowed metadata spec σ)
    (hstart : P (Store.fresh metadata spec))
    (hstep : ∀ e s s', Inv r s → P s → allowed s s' → r.Happens e s s' → P s') :
    r.system.Good (fun X s s' => Move r X s s' ∧ Asks r X s s') (Inv r) σ ∧ P σ.shared :=
  hrun.keeps (reconcile_asks r) (.of_idle (Inv.fresh metadata spec) fun _ => rfl) hstart hstep

/-- Another operation's reconcile leaves an operation as it is. -/
theorem Move.ops_of_ne {Y : String} (h : Move r Y s s') (hne : X ≠ Y) {cell : Cell}
    (hcell : s.ops X = some cell) : s'.ops X = some cell := by
  cases h with
  | idle => exact hcell
  | read => exact hcell
  | lock => exact hcell
  | move => exact hcell
  | finish => exact hcell
  | save => exact (Function.update_of_ne hne _ _).trans hcell
  | raise uid created op _ hfresh =>
    refine (Function.update_of_ne (fun hX => ?_) _ _).trans hcell
    rw [hX, hfresh] at hcell
    cases hcell

/-- The outside leaves the status of every operation as it is. -/
theorem Disturbs.status (h : Disturbs s s') {cell cell' : Cell} (hcell : s.ops X = some cell)
    (hcell' : s'.ops X = some cell') : cell'.latest.status = cell.latest.status := by
  have hsame : s'.ops X = s.ops X → cell'.latest.status = cell.latest.status := by
    intro hops
    rw [hops, hcell] at hcell'
    rw [Option.some.inj hcell']
  cases h with
  | showStage => exact hsame rfl
  | writeStage => exact hsame rfl
  | @cell Y old new hold hversions =>
    by_cases hX : X = Y
    · subst hX
      cases hold.symm.trans hcell
      obtain rfl := Option.some.inj ((Function.update_self X _ _).symm.trans hcell')
      rw [Cell.latest_congr hversions]
    · exact hsame (Function.update_of_ne hX _ _)
  | @touch Y old op hold hgone hprogress hstatus =>
    by_cases hX : X = Y
    · subst hX
      cases hold.symm.trans hcell
      obtain rfl := Option.some.inj ((Function.update_self X _ _).symm.trans hcell')
      rw [Cell.latest_write]
      exact hstatus
    · exact hsame (Function.update_of_ne hX _ _)
  | propose uid created op _ hfresh =>
    refine hsame (Function.update_of_ne (fun hX => ?_) _ _)
    rw [hX, hfresh] at hcell
    cases hcell
  | approve => exact hsame rfl

/-- An event leaves the status of an operation as it is, or takes a step of what
the operation asks. -/
theorem Reconciler.Happens.holdStep {e : System.Event r.system} (h : r.Happens e s s')
    {cell cell' : Cell} (hcell : s.ops X = some cell) (hcell' : s'.ops X = some cell') :
    cell'.latest.status = cell.latest.status ∨ HoldStep r s cell.latest cell'.latest := by
  cases h with
  | start Y => exact .inl (by rw [Option.some.inj (hcell.symm.trans hcell')])
  | crash Y => exact .inl (by rw [Option.some.inj (hcell.symm.trans hcell')])
  | act a h => exact .inl ((Disturbs.of_act a h).status hcell hcell')
  | call Y o h =>
    by_cases hX : X = Y
    · subst hX
      refine (h.2.saves cell cell' hcell hcell').imp_left fun hversions => ?_
      rw [Cell.latest_congr hversions]
    · rw [h.1.ops_of_ne hX hcell] at hcell'
      exact .inl (by rw [Option.some.inj hcell'])

end Pacto.Promoter
