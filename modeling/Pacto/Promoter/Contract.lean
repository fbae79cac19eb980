import Pacto.Promoter.Finish
import Pacto.Delivery.Floor

/-!
# The operation reconciler keeps to its moves

Every reconcile, whatever it reads and whatever the others do meanwhile, only
ever writes by the moves of the protocol.  `reconcile_sound` states it for
all operations at once, so an invariant of the moves is one of every run.
-/

namespace Pacto.Promoter

open Delivery Support

variable {r : Reconciler} {X : String} {s s' : Store} {v mid op : Operation} {stage : Stage}
  {C : Prog.Contract api} [hC : Framed C r X]
variable {new a b : Operation} {c : Conclusion} {cell : Cell}

/-! ## What a reconcile starts with -/

/-- A reconcile's copy of the operation and the Stage it works with, as the
cache showed them. -/
structure Started (r : Reconciler) (X : String) (op : Operation) (stage : Stage) (s : Store) :
    Prop extends Working r X op s where
  stage_mem : stage ∈ s.stage.versions
  shown : ∃ cell, s.ops X = some cell ∧ cell.born ≤ stage.resourceVersion ∧
    ∃ v ∈ cell.register.versions, v.resourceVersion < cell.register.delivered ∧
      v.progress = op.progress
  unmoved : ¬op.PastLock → ¬s.Moved X

namespace Started

theorem mono (h : Started r X op stage s) (hframe : Frame X s s') : Started r X op stage s' := by
  obtain ⟨cell, hcell, hborn, v, hv, hread, hprogress⟩ := h.shown
  obtain ⟨cell', hcell', hgrows, hborn', -⟩ := hframe.cells X cell hcell
  exact
    { toWorking := h.toWorking.mono hframe.toEvolves
      stage_mem := hframe.stage.mem h.stage_mem
      shown := ⟨cell', hcell', hborn'.trans_le hborn, v, hgrows.mem hv,
        hread.trans_le hgrows.delivered, hprogress⟩
      unmoved := fun hpast hmoved => h.unmoved hpast (hframe.moved hmoved) }

theorem alike (h : Started r X op stage s) (halike : Alike new op) :
    Started r X new stage s := by
  obtain ⟨cell, hcell, hborn, v, hv, hread, hprogress⟩ := h.shown
  refine
    { toWorking := h.toWorking.alike halike
      stage_mem := h.stage_mem
      shown := ⟨cell, hcell, hborn, v, hv, hread, hprogress.trans halike.progress.symm⟩
      unmoved := ?_ }
  rw [Operation.PastLock,
    show new.status.phase = op.status.phase from congrArg Progress.phase halike.progress,
    show new.status.applied = op.status.applied from congrArg Progress.applied halike.progress]
  exact h.unmoved

/-- The same operation with the stored Stage. -/
theorem latest (h : Started r X op stage s) : Started r X op s.stage.latest s := by
  obtain ⟨cell, hcell, hborn, hshown⟩ := h.shown
  exact
    { h with
      stage_mem := s.stage.latest_mem
      shown := ⟨cell, hcell, hborn.trans (version_le_latest h.stage_mem), hshown⟩ }

/-- A digest the Stage of the reconcile does not list as failed is checked. -/
theorem checked (h : Started r X op stage s) {digest : String}
    (hfailed : digest ∉ stage.status.failedDigests) : s.Checked X digest := by
  obtain ⟨cell, hcell, hborn, -⟩ := h.shown
  exact ⟨cell, hcell, stage, h.stage_mem, hborn, hfailed⟩

end Started

theorem unapplied_of_not_pastLock (h : ¬op.PastLock) : op.status.applied = false := by
  by_contra happlied
  exact h (.inl (Bool.eq_true_of_not_eq_false happlied))

/-- How an operation that moved nothing may end. -/
theorem Working.finishing_of_unapplied (h : Working r X op s)
    (happlied : op.status.applied = false) (hpreempted : c.preempted = false)
    (hfailed : c.outcome ≠ .failed)
    (hlevel : op.spec.type = .autonomy → c.outcome = .succeeded → ChangesLevel op.spec) :
    Finishing r X op c s where
  toWorking := h
  level := hlevel
  preempted := by simp [hpreempted]
  failed := fun hf => absurd hf hfailed
  judged := by simp [happlied]

/-- How a running operation may end. -/
theorem Working.finishing_of_running (h : Working r X op s) (hinv : Inv r s)
    (hphase : op.status.phase = .running) (hpreempted : c.preempted = false)
    (hfailed : c.outcome = .failed → op.status.applied = true) : Finishing r X op c s where
  toWorking := h
  level := fun htype => absurd htype ((h.ok hinv).started (.inl hphase))
  preempted := by simp [hpreempted]
  failed := hfailed
  judged := fun _ _ _ => .running hphase

/-- How an operation whose version runs may end. -/
theorem Working.finishing_of_applied (h : Working r X op s) (hinv : Inv r s)
    (happlied : op.status.applied = true) (hpreempted : c.preempted = true → c.outcome = .failed)
    (hjudged : op.spec.type = .promote → byPerson op.status = false → Judged r X op c s) :
    Finishing r X op c s where
  toWorking := h
  level := fun htype => absurd htype ((h.ok hinv).started (.inr happlied))
  preempted := hpreempted
  failed := fun _ => happlied
  judged := fun _ => hjudged

/-- How an operation whose reconcile found it in the lock may end. -/
theorem Working.finishing_of_holding (h : Working r X op s) (hinv : Inv r s)
    (happlied : op.status.applied = true) (hholding : s.StartedHolding X op.spec.facet)
    (hpreempted : c.preempted = false) : Finishing r X op c s :=
  h.finishing_of_applied hinv happlied (by simp [hpreempted]) fun _ _ => .held hholding

/-- The operation may end on `stage` as long as it did not fail and changes no
level. -/
def MayEnd (C : Prog.Contract api) (r : Reconciler) (op : Operation) (stage : Stage) (s : Store) :
    Prop :=
  ∀ c : Conclusion, c.preempted = false → c.outcome ≠ .failed →
    (op.spec.type = .autonomy → c.outcome ≠ .succeeded) →
    (r.finish op stage c).Keeps C s

theorem Started.mayEnd (h : Started r X op stage s) (hinv : Inv r s)
    (hunapplied : op.status.applied = false) : MayEnd (r.contract X) r op stage s :=
  fun _ hpreempted hfailed hlevel => safe_finish hinv
    (h.finishing_of_unapplied hunapplied hpreempted hfailed
      fun htype houtcome => absurd houtcome (hlevel htype)) h.stage_mem

/-! ## Small steps -/

theorem reads_opByUID (uid : String) : (opByUID uid).Reads fun _ => True :=
  reads_listOps.bind fun _ _ => Prog.reads_ret trivial

theorem reads_stageOps (stage : String) : (stageOps stage).Reads fun _ => True :=
  reads_listOps.bind fun _ _ => Prog.reads_ret trivial

theorem safe_keep (hinv : Inv r s) (h : Working r X op s)
    (halike : Alike new op) : (save new).Keeps (r.contract X) s :=
  safe_save (h.keep hinv halike)

/-- A reconcile goes on once admission guards its operation. -/
theorem safe_guarded {next : Reconcile Unit} (hinv : Inv r s)
    (hpark : ∀ reason message, (save
      { op with status := { op.status with reason := reason, message := message } }).Keeps C s)
    (h : ∀ s₁, Frame X s s₁ → Inv r s₁ → next.Keeps C s₁) :
    (unguarded op >>= fun parked => if parked = true then pure () else next).Keeps C s := by
  have hguarded : (unguarded op).Safe C (fun parked s' => parked = false → Frame X s s') s := by
    refine safe_ask fun reply => safe_orStop fun why _ => ?_
    split
    · exact safe_pure fun s₁ hframe _ _ => hframe
    · exact safe_seq hinv (hpark _ _) fun _ _ _ _ => safe_pure fun _ _ _ hparked => by cases hparked
  refine safe_seq hinv hguarded fun parked s₁ hinv₁ hfree => ?_
  cases parked with
  | true => exact Prog.safe_done
  | false => exact h s₁ (hfree rfl) hinv₁

/-! ## Planning -/

def PlannedOn (r : Reconciler) (op : Operation) (stage : Stage) (plan : Plan) : Prop :=
  ∃ input : PlanInput, plan = planFor r.pkg input ∧ input.spec = op.spec ∧
    input.status = stage.status ∧ input.cls = op.status.actorClass.getD .agent

/-- What a plan that is not rejected cleared: the digest a promote ships, and
the level a level change goes to. -/
structure Cleared (X : String) (op : Operation) (s : Store) : Prop where
  promote : op.spec.type = .promote → s.Checked X op.spec.params.to
  level : op.spec.type = .autonomy → ChangesLevel op.spec

theorem Cleared.mono (h : Cleared X op s) (hevolves : Evolves s s') : Cleared X op s' :=
  ⟨fun htype => hevolves.checked (h.promote htype), h.level⟩

theorem Cleared.alike (h : Cleared X op s) (halike : Alike new op) :
    Cleared X new s := by
  have hspec : new.spec = op.spec := congrArg Progress.spec halike.progress
  obtain ⟨hpromote, hlevel⟩ := h
  constructor
  · rw [hspec]
    exact hpromote
  · rw [hspec]
    exact hlevel

theorem PlannedOn.cleared {plan : Plan} (h : PlannedOn r op stage plan)
    (hstarted : Started r X op stage s) (hplan : plan.predicted ≠ .rejected) : Cleared X op s := by
  obtain ⟨input, rfl, hspec, hstatus, -⟩ := h
  constructor
  · intro htype
    apply hstarted.checked
    rw [← hspec, ← hstatus]
    exact not_mem_failedDigests_of_planFor (hspec ▸ htype) hplan
  · intro htype
    have hchanges := changes_of_planFor (by rw [hspec]; exact htype) hplan
    rw [hspec] at hchanges
    exact hchanges

theorem reads_planOn (op : Operation) (stage : Stage) :
    (r.planOn op stage).Reads fun plan => ∀ p, plan = some p → PlannedOn r op stage p := by
  have hask : (ask (.planInput op.spec stage (op.status.actorClass.getD .agent))).Reads
      fun input : Option PlanInput => ∀ i, input = some i →
        i.spec = op.spec ∧ i.status = stage.status ∧
          i.cls = op.status.actorClass.getD .agent := by
    refine reads_ask fun o i hi => ?_
    simp only [Oracle.answer, Option.map_eq_some_iff] at hi
    obtain ⟨base, -, rfl⟩ := hi
    exact ⟨rfl, rfl, rfl⟩
  refine hask.bind fun input hinput => Prog.reads_ret fun p hp => ?_
  obtain ⟨i, hi, rfl⟩ := Option.map_eq_some_iff.mp hp
  exact ⟨_, rfl, hinput i hi⟩

theorem safe_plan (h : Started r X op stage s) :
    (r.plan op stage).Safe C
      (fun result s' => Frame X s s' ∧ Started r X op result.2 s' ∧
        ∀ p, result.1 = some p → PlannedOn r op result.2 p) s := by
  refine safe_reads (reads_planOn op stage) fun plan hplan => ?_
  have hsame : ∀ s₁ (plan : Option Plan), Frame X s s₁ →
      (∀ p, plan = some p → PlannedOn r op stage p) →
      (pure (plan, stage) : Reconcile (Option Plan × Stage)).Safe C
        (fun result s' => Frame X s s' ∧ Started r X op result.2 s' ∧
          ∀ p, result.1 = some p → PlannedOn r op result.2 p) s₁ := by
    intro s₁ plan hframe₁ hplan
    refine safe_pure fun s₂ hframe₂ _ => ?_
    have hframe := hframe₁.trans hframe₂
    exact ⟨hframe, h.mono hframe, hplan⟩
  cases plan with
  | none => exact hsame s none (.refl s) hplan
  | some p =>
    by_cases hrejected : p.predicted ≠ .rejected
    · simp only [if_pos hrejected]
      exact hsame s _ (.refl s) hplan
    · simp only [if_neg hrejected]
      refine safe_getStage (fun s₁ hframe₁ _ => hsame s₁ none hframe₁ nofun)
        fun s₁ hframe₁ _ => ?_
      dsimp only
      split
      · exact hsame s₁ _ hframe₁ hplan
      · refine safe_reads (reads_planOn op _) fun again hagain => safe_pure fun s₂ hframe₂ _ => ?_
        exact ⟨hframe₁.trans hframe₂, (h.mono hframe₁).latest.mono hframe₂, hagain⟩

/-! ## Admission -/

theorem Alike.refl (op : Operation) : Alike op op := ⟨rfl, rfl, rfl⟩

theorem Alike.trans {c : Operation} (h : Alike a b) (h' : Alike b c) : Alike a c :=
  ⟨h.progress.trans h'.progress, h.version.trans h'.version, h.actorClass.trans h'.actorClass⟩

theorem Alike.spec (h : Alike a b) : a.spec = b.spec :=
  congrArg Progress.spec h.progress

theorem Alike.phase (h : Alike a b) : a.status.phase = b.status.phase :=
  congrArg Progress.phase h.progress

theorem Alike.applied (h : Alike a b) : a.status.applied = b.status.applied :=
  congrArg Progress.applied h.progress

theorem Alike.inFlight (h : Alike a b) (hb : b.InFlight) : a.InFlight := by
  rw [Operation.InFlight, h.phase]
  exact hb

theorem Alike.pastLock (h : Alike a b) (ha : a.PastLock) : b.PastLock := by
  rw [Operation.PastLock, h.phase, h.applied] at ha
  exact ha

def Operation.judgedBy (op : Operation) (vs : List Verdict) : Operation :=
  { op with status := { op.status with verdicts := vs } }

theorem Alike.judgedBy (op : Operation) (vs : List Verdict) : Alike (op.judgedBy vs) op :=
  ⟨rfl, rfl, rfl⟩

theorem reads_causeRefusal (op : Operation) (stage : Stage) :
    (Reconciler.causeRefusal op stage).Reads fun result => ∃ vs, result.2 = op.judgedBy vs := by
  rw [Reconciler.causeRefusal]
  split
  · exact Prog.reads_ret ⟨_, rfl⟩
  · split
    · exact Prog.reads_ret ⟨_, rfl⟩
    · refine (reads_opByUID _).bind fun shipped _ => ?_
      split
      · exact Prog.reads_ret ⟨_, rfl⟩
      · refine Prog.Reads.bind (reads_ask (P := fun _ => True) fun _ => trivial) fun v _ => ?_
        split
        · exact Prog.reads_ret ⟨_, rfl⟩
        · exact Prog.reads_ret ⟨_, rfl⟩

theorem reads_unfreezeRefusal (op : Operation) (stage : Stage) :
    (r.unfreezeRefusal op stage).Reads fun _ => True := by
  rw [Reconciler.unfreezeRefusal]
  split
  · exact Prog.reads_ret trivial
  · have hrunning : (if stage.status.pointer = "" then
        (pure (.error "nothing runs on it") : Reconcile (Except String (List String)))
        else ask .runningTeam).Reads fun _ => True := by
      by_cases hempty : stage.status.pointer = ""
      · rw [if_pos hempty]
        exact Prog.reads_ret trivial
      · rw [if_neg hempty]
        exact reads_ask fun _ => trivial
    refine hrunning.bind fun running _ => ?_
    dsimp only
    repeat' split
    all_goals exact Prog.reads_ret trivial

theorem ownFacet_of_requestRefusal {cls : ActorClass}
    (h : r.requestRefusal op stage cls = "") : OwnFacet op.spec := by
  rw [Reconciler.requestRefusal] at h
  split at h
  · simp at h
  · rename_i t ht
    refine ⟨t, ht, ?_⟩
    by_contra hne
    simp [hne] at h

theorem facet_of_rollback (h : OwnFacet op.spec) (htype : op.spec.type = .rollback) :
    op.spec.facet = .pointer := by
  obtain ⟨t, ht, hfacet⟩ := h
  rw [htype] at ht
  cases ht
  exact hfacet

/-- What admission checked when it refuses nothing. -/
theorem reads_refusal (op : Operation) (stage : Stage) (cls : ActorClass) :
    (r.refusal op stage cls).Reads fun result => (∃ vs, result.2 = op.judgedBy vs) ∧
      (result.1 = "" → OwnFacet op.spec ∧
        (op.spec.type = .rollback → op.spec.params.to ∉ stage.status.failedDigests)) := by
  rw [Reconciler.refusal]
  split
  · rename_i hrequest
    exact Prog.reads_ret ⟨⟨_, rfl⟩, fun h => absurd h hrequest⟩
  · rename_i hrequest
    rw [not_not] at hrequest
    have hfacet := ownFacet_of_requestRefusal hrequest
    refine (reads_causeRefusal op stage).bind fun result hjudged => ?_
    obtain ⟨why, op'⟩ := result
    dsimp only at hjudged ⊢
    have hspec : op'.spec = op.spec := by
      obtain ⟨vs, rfl⟩ := hjudged
      rfl
    split
    · rename_i hwhy
      exact Prog.reads_ret ⟨hjudged, fun h => absurd h hwhy⟩
    · split
      · rename_i hwhy
        exact Prog.reads_ret ⟨hjudged, fun h => absurd h hwhy⟩
      · refine (reads_unfreezeRefusal op' stage).bind fun why _ => ?_
        split
        · rename_i hwhy
          exact Prog.reads_ret ⟨hjudged, fun h => absurd h hwhy⟩
        · split
          · exact Prog.reads_ret ⟨hjudged, fun h => by simp at h⟩
          · split
            · rename_i hother
              refine Prog.reads_ret ⟨hjudged, fun _ => ⟨hfacet, fun htype => ?_⟩⟩
              rw [hspec] at hother
              exact absurd (facet_of_rollback hfacet htype) hother
            · split
              · rename_i hwhy
                exact Prog.reads_ret ⟨hjudged, fun h => absurd h hwhy⟩
              · split
                · rename_i htype
                  rw [hspec] at htype
                  exact Prog.reads_ret ⟨hjudged, fun _ => ⟨hfacet, fun h => absurd h htype⟩⟩
                · refine Prog.Reads.bind (P := fun _ => True)
                    ((reads_stageOps _).bind fun _ _ => Prog.reads_ret trivial) fun undone _ => ?_
                  refine Prog.reads_ret ⟨hjudged, fun hadmit => ⟨hfacet, fun _ => ?_⟩⟩
                  rw [← hspec]
                  exact not_mem_failedDigests_of_admitRollback hadmit

/-- Admission sets the actor class to the class of the actor, on the stored
Stage. -/
theorem Started.admitted (h : Started r X op stage s) (now : Nat) :
    Started r X (Reconciler.admitted op s.stage.latest (r.policy.classify op.spec.actor) now)
      s.stage.latest s :=
  { h.latest with
    classSet := .inr rfl }

theorem safe_admit (hinv : Inv r s) (h : Started r X op stage s)
    (hphase : op.status.phase = .new) :
    (r.admitOp op).Keeps (r.contract X) s := by
  refine safe_guarded hinv (fun _ _ => safe_keep hinv h.toWorking ⟨rfl, rfl, rfl⟩)
    fun s₁ hframe₁ _ => safe_getStage_orStop fun s₂ hframe₂ hinv₂ => safe_ask fun now => ?_
  refine safe_reads (reads_refusal _ _ _) fun result hresult => ?_
  obtain ⟨⟨vs, hjudged⟩, hadmit⟩ := hresult
  obtain ⟨reason, op'⟩ := result
  dsimp only at hjudged hadmit ⊢
  have halike := hjudged ▸ Alike.judgedBy _ vs
  have h' := ((h.mono (hframe₁.trans hframe₂)).admitted now).alike halike
  have hphase' : op'.status.phase = .new := halike.phase.trans hphase
  split
  · exact h'.mayEnd hinv₂ ((h'.ok hinv₂).early (.inl hphase')) _ rfl (by simp) (by simp)
  · rename_i hreason
    rw [not_not] at hreason
    obtain ⟨hfacet, hchecked⟩ := hadmit hreason
    have hspec : op'.spec = op.spec := halike.spec
    refine safe_save (h'.ready hinv₂ rfl (.admitted hphase' rfl ?_ ?_) h'.classSet)
    · rw [hspec]
      exact hfacet
    · rw [hspec]
      exact fun htype => h'.checked (hchecked htype)

/-! ## What the cache lists -/

theorem cached_eq_some {o : Operation} (h : cell.cached = some o) :
    cell.forgotten = false ∧ cell.register.cached = some o := by
  rw [Cell.cached] at h
  split at h
  · cases h
  · rename_i hforgot
    exact ⟨Bool.eq_false_of_not_eq_true hforgot, h⟩

theorem Inv.shown_of_mem_listed (hinv : Inv r s) {o : Operation} (ho : o ∈ s.listed) :
    ∃ cell, s.ops o.uid = some cell ∧ o ∈ cell.register.versions ∧
      o.resourceVersion < cell.register.delivered := by
  obtain ⟨Y, -, hY⟩ := List.mem_filterMap.mp ho
  obtain ⟨cell, hcell, hcached⟩ := Option.bind_eq_some_iff.mp hY
  obtain ⟨-, hcached⟩ := cached_eq_some hcached
  have hmem := Register.mem_of_cached hcached
  have hok := hinv.cells Y cell hcell
  have huid : o.uid = Y := by
    rw [Operation.uid, (hok.same o hmem).1]
    exact hok.uid
  rw [huid]
  exact ⟨cell, hcell, hmem, Register.version_lt_of_cached hcached⟩

/-- An operation the cache was shown is listed until it is forgotten. -/
theorem Inv.mem_listed (hinv : Inv r s) {Y : String} (hcell : s.ops Y = some cell)
    (hread : 0 < cell.register.delivered) :
    cell.forgotten = true ∨
      ∃ o ∈ s.listed, o.uid = Y ∧ o ∈ cell.register.versions := by
  by_cases hforgot : cell.forgotten = true
  · exact .inl hforgot
  · right
    obtain ⟨o, ho⟩ := Option.isSome_iff_exists.mp (Register.isSome_cached hread)
    have hmem := Register.mem_of_cached ho
    have hok := hinv.cells Y cell hcell
    refine ⟨o, List.mem_filterMap.mpr ⟨Y, hinv.listed Y cell hcell, ?_⟩, ?_, hmem⟩
    · rw [hcell, Option.bind_some, Cell.cached, if_neg hforgot]
      exact ho
    · rw [Operation.uid, (hok.same o hmem).1]
      exact hok.uid

/-! ## Taking the lock -/

/-- What a reconcile makes of the operations the cache lists. -/
theorem safe_listed {α : Type} (f : List Operation → α) :
    (listOps >>= fun ops => pure (f ops)).Safe C
      (fun a s' => ∃ s₁, Frame X s s₁ ∧ Inv r s₁ ∧ Frame X s₁ s' ∧ a = f s₁.listed) s :=
  safe_listOps fun s₁ hframe₁ hinv₁ =>
    safe_pure fun _ hframe₂ _ => ⟨s₁, hframe₁, hinv₁, hframe₂, rfl⟩

/-- The lock's holder gives way when `lockFree` says so. -/
theorem safe_lockFree {holder : String} (hinv : Inv r s)
    (hheld : ∃ cell, s.ops holder = some cell ∧ 0 < cell.register.delivered) :
    (Reconciler.lockFree op holder).Safe C
      (fun free s' => Frame X s s' ∧ (free = true → s'.Yields op holder)) s := by
  rw [Reconciler.lockFree]
  refine safe_seq hinv (safe_listed _) fun found s₂ _ hfound => ?_
  obtain ⟨s₁, hframe₁, hinv₁, hframe₂, rfl⟩ := hfound
  obtain ⟨cell, hcell, hread⟩ := hheld
  obtain ⟨cell₁, hcell₁, hgrows, -⟩ := hframe₁.cells holder cell hcell
  have hread₁ := hread.trans_le hgrows.delivered
  cases hfind : s₁.listed.find? (·.uid = holder) with
  | none =>
    refine safe_pure fun s₃ hframe₃ _ => ⟨hframe₁.trans (hframe₂.trans hframe₃), fun _ =>
      (hframe₂.trans hframe₃).yields ⟨cell₁, hcell₁, ?_⟩⟩
    rcases hinv₁.mem_listed hcell₁ hread₁ with hforgot | ⟨o, ho, huid, -⟩
    · exact .inl hforgot
    · have hnone := List.find?_eq_none.mp hfind o ho
      simp [huid] at hnone
  | some o =>
    refine safe_pure fun s₃ hframe₃ _ => ⟨hframe₁.trans (hframe₂.trans hframe₃), fun hfree =>
      (hframe₂.trans hframe₃).yields ?_⟩
    have huid : o.uid = holder := by simpa using List.find?_some hfind
    obtain ⟨cell₂, hcell₂, hmem, hshown⟩ :=
      hinv₁.shown_of_mem_listed (List.mem_of_find?_eq_some hfind)
    rw [huid] at hcell₂
    refine ⟨cell₂, hcell₂, .inr ⟨o, hmem, hshown, ?_⟩⟩
    simp only [Bool.or_eq_true, Bool.and_eq_true, decide_eq_true_eq] at hfree
    exact hfree.imp id (.imp id (.imp id .inr))

/-- What a reconcile that takes the lock knows besides what the lock's swap
checks. -/
structure Locking (r : Reconciler) (X : String) (op : Operation) (stage : Stage) (s : Store) :
    Prop extends Started r X op stage s, Cleared X op s where
  inFlight : op.InFlight
  beforeLock : ¬op.PastLock

namespace Locking

theorem mono (h : Locking r X op stage s) (hframe : Frame X s s') : Locking r X op stage s' :=
  ⟨h.toStarted.mono hframe, h.toCleared.mono hframe.toEvolves, h.inFlight, h.beforeLock⟩

theorem evidence (h : Locking r X op stage s) (hinv : Inv r s)
    (hopen : concludedOn s.status X = none)
    (hfree : s.status.locks.get op.spec.facet = "" ∨ s.status.locks.get op.spec.facet = X ∨
      s.Yields op (s.status.locks.get op.spec.facet)) : LockEvidence X op s := by
  obtain ⟨cell, hcell, hmeta, hspec⟩ := h.intent hinv
  obtain ⟨cell', hcell', -, v, -, hread, -⟩ := h.shown
  cases hcell'.symm.trans hcell
  exact
    { uid := h.uid hinv
      cell := ⟨cell, hcell, hmeta, hspec, by omega⟩
      unmoved := h.unmoved h.beforeLock
      ownFacet := (h.ok hinv).ownFacet h.inFlight
      isOpen := hopen
      free := hfree
      checked := by
        rintro (htype | htype)
        · exact h.promote htype
        · exact (h.ok hinv).checked h.inFlight htype }

end Locking

/-- Taking a lock leaves the frame of the operation that takes it. -/
theorem frame_lock {st : Stage} (h : Reconciler.lockOn op s.stage.latest = .ok st) :
    Frame X s (s.setStage (s.stage.write st)) := by
  obtain ⟨-, -, rfl⟩ := lockOn_eq_ok_iff.mp h
  exact .writeStage id fun e he _ => he

def Hinders (st : Stage) (op : Operation) : Prop :=
  (st.status.frozen = true ∧ op.spec.type = .promote) ∨
    (st.status.locks.get op.spec.facet ≠ "" ∧ st.status.locks.get op.spec.facet ≠ op.uid)

instance (st : Stage) (op : Operation) : Decidable (Hinders st op) :=
  inferInstanceAs (Decidable (_ ∨ _))

theorem lockOn_eq_wait {st : Stage} {why : String}
    (h : Reconciler.lockOn op st = .error (.wait why)) : Hinders st op := by
  rw [Reconciler.lockOn] at h
  split at h
  · rename_i hfrozen
    exact .inl (by simpa using hfrozen)
  · split at h <;> cases h

/-- One attempt to take the lock. -/
theorem safe_tryLock (hinv : Inv r s) (huid : op.uid = X) :
    (Reconciler.tryLock op s.stage.latest).Safe C
      (fun result s' => Frame X s s' ∧
        (∀ why, result = .error (.wait why) → Hinders s.stage.latest op) ∧
        ∀ st, result = .ok st →
          Reconciler.lockOn op s.stage.latest = .ok st ∧ concludedOn s.status X = none ∧
            (s.status.locks.get op.spec.facet = "" ∨ s.status.locks.get op.spec.facet = X ∨
              s'.Yields op (s.status.locks.get op.spec.facet))) s := by
  rw [Reconciler.tryLock]
  split
  · refine safe_pure fun s₁ hframe₁ _ => ⟨hframe₁, fun why hwait => ?_, fun st hst => ?_⟩
    · cases hwait
    · cases hst
  · rename_i hconcluded
    have hopen : concludedOn s.status X = none := by
      rw [huid, Bool.not_eq_true, Option.isSome_eq_false_iff, Option.isNone_iff_eq_none]
        at hconcluded
      exact hconcluded
    split
    · rename_i hholder
      simp only [Bool.and_eq_true, decide_eq_true_eq] at hholder
      have hread := hinv.holderRead _ s.stage.latest_mem op.spec.facet hholder.1
      refine safe_seq hinv (safe_lockFree hinv hread) fun free s₁ _ hanswer => ?_
      obtain ⟨hframe₁, hyields⟩ := hanswer
      split
      · rename_i hfree
        exact safe_pure fun s₂ hframe₂ _ => ⟨hframe₁.trans hframe₂,
          fun _ hwait => lockOn_eq_wait hwait, fun st hst =>
            ⟨hst, hopen, .inr (.inr (hframe₂.yields (hyields hfree)))⟩⟩
      · exact safe_pure fun s₂ hframe₂ _ =>
          ⟨hframe₁.trans hframe₂, fun _ _ => .inr hholder, fun _ hst => by cases hst⟩
    · rename_i hholder
      refine safe_pure fun s₁ hframe₁ _ =>
        ⟨hframe₁, fun _ hwait => lockOn_eq_wait hwait, fun st hst => ⟨hst, hopen, ?_⟩⟩
      simp only [Bool.and_eq_true, decide_eq_true_eq, not_and_or, not_not, huid] at hholder
      exact hholder.imp_right .inl

/-- The compare-and-swap that takes the lock notes a Stage that made the
operation wait. -/
theorem safe_lockCas (hinv : Inv r s) (huid : op.uid = X)
    (hlocks : ∀ s₁ st, Frame X s s₁ → Inv r s₁ → Reconciler.lockOn op s₁.stage.latest = .ok st →
      concludedOn s₁.status X = none →
      (s₁.status.locks.get op.spec.facet = "" ∨ s₁.status.locks.get op.spec.facet = X ∨
        s₁.Yields op (s₁.status.locks.get op.spec.facet)) →
      C.guarantee s₁ (s₁.setStage (s₁.stage.write st))) :
    (casStage (fun (_ : Unit) st => do
        let result ← Reconciler.tryLock op st
        pure ((), result)) defaultRetry ()).Safe C
      (fun result s' => Frame X s s' ∧ ∀ why, result.2 = .error (.wait why) →
        ∃ st ∈ s'.stage.versions, s'.reads X ≤ st.resourceVersion ∧ Hinders st op) s := by
  refine safe_casStage (J := fun _ s' => Frame X s s')
    (fun _ _ _ hframe _ h => h.trans hframe) ?_ defaultRetry () s hinv (.refl s)
  intro _ s₁ hinv₁ h₁
  refine safe_seq hinv₁ (safe_tryLock hinv₁ huid).stable fun result s₂ _ hstable =>
    Prog.safe_ret fun s₃ hs₃ hinv₃ => ?_
  obtain ⟨hframe, hwait, hok⟩ := hstable s₃ hs₃ hinv₃
  have h₃ := h₁.trans hframe
  cases result with
  | error e =>
    refine ⟨h₃, fun why hwhy => ?_⟩
    refine ⟨s₁.stage.latest, hframe.stage.mem s₁.stage.latest_mem, ?_, hwait why hwhy⟩
    have hlatest : s₁.stage.latest.resourceVersion = s₁.stage.versions.length - 1 :=
      s₁.stage.version_latest
    have hlt := hinv₁.reads X
    have hread := hframe.reads
    omega
  | ok st =>
    obtain ⟨hlock, hopen, hfree⟩ := hok st rfl
    refine ⟨hframe.toEvolves, h₃, ?_, fun hsame => ?_⟩
    · obtain ⟨-, -, rfl⟩ := lockOn_eq_ok_iff.mp hlock
      rfl
    · have hstatus : s₃.status = s₁.status := congrArg (fun st : Stage => st.status) hsame
      rw [← hsame] at hlock
      rw [← hstatus] at hopen hfree
      refine ⟨hlocks s₃ st h₃ (Framed.invariant.mp hinv₃) hlock hopen hfree,
        fun _ s₄ hframe₄ _ => ⟨(h₃.trans (frame_lock hlock)).trans hframe₄, nofun⟩⟩

theorem alike_waiting (op : Operation) (recheck : Bool) (why : String) :
    Alike (Reconciler.waiting op recheck why) op := by
  unfold Reconciler.waiting
  split
  exact ⟨rfl, rfl, rfl⟩

theorem type_ne_autonomy (h : OwnFacet op.spec) (hfacet : op.spec.facet ≠ .level) :
    op.spec.type ≠ .autonomy := by
  intro htype
  obtain ⟨t, ht, hown⟩ := h
  rw [htype] at ht
  cases ht
  exact hfacet hown

theorem safe_takeLock (hinv : Inv r s) (h : Locking r X op stage s) (recheck : Bool) :
    (r.takeLock op stage recheck).Keeps (r.contract X) s := by
  have hunapplied := unapplied_of_not_pastLock h.beforeLock
  rw [Reconciler.takeLock]
  split
  · exact safe_finish hinv
      (h.finishing_of_unapplied hunapplied rfl (by simp) fun htype _ => h.level htype) h.stage_mem
  · rename_i hfacet
    refine safe_seq hinv (safe_lockCas hinv (h.uid hinv)
      fun s₁ st hframe hinv₁ hlock hopen hfree =>
        .lock op st hlock ((h.mono hframe).evidence hinv₁ hopen hfree))
      fun result s₁ hinv₁ hcas => ?_
    have h₁ := h.mono hcas.1
    obtain ⟨-, result⟩ := result
    cases result with
    | error e =>
      cases e with
      | concluded =>
        exact h₁.mayEnd hinv₁ hunapplied _ rfl (by simp [Conclusion.empty])
          (by simp [Conclusion.empty])
      | wait why => exact safe_keep hinv₁ h₁.toWorking (alike_waiting op recheck why)
      | pointerMoved => exact h₁.mayEnd hinv₁ hunapplied _ rfl (by simp) (by simp)
    | ok st =>
      refine safe_ask fun now => safe_save ?_
      refine h₁.ready hinv₁ rfl (.run h₁.inFlight h₁.beforeLock rfl ?_ h₁.promote) h₁.classSet
      exact type_ne_autonomy ((h₁.ok hinv₁).ownFacet h₁.inFlight) hfacet

theorem safe_lock (hinv : Inv r s) (h : Started r X op stage s) (hlive : op.InFlight)
    (hbefore : ¬op.PastLock) {recheck : Bool} (hcleared : recheck = false → Cleared X op s) :
    (r.lock op stage recheck).Keeps (r.contract X) s := by
  have hunapplied := unapplied_of_not_pastLock hbefore
  rw [Reconciler.lock]
  split
  · refine safe_seq hinv (safe_plan h) fun result s₁ hinv₁ hresult => ?_
    obtain ⟨plan, stage₁⟩ := result
    obtain ⟨-, h₁, hplanned⟩ := hresult
    dsimp only at h₁ hplanned ⊢
    refine safe_orStop fun cur hcur => ?_
    split
    · exact h₁.mayEnd hinv₁ hunapplied _ rfl (by simp) (by simp)
    · rename_i hrejected
      split
      · refine safe_ask fun now => safe_save ?_
        exact h₁.ready hinv₁ rfl (.hold hlive hbefore rfl) h₁.classSet
      · have hclear := (hplanned cur hcur).cleared h₁ hrejected
        refine safe_takeLock hinv₁ ⟨h₁.alike ?_, hclear.alike ?_, ?_, ?_⟩ recheck
        · exact ⟨rfl, rfl, rfl⟩
        · exact ⟨rfl, rfl, rfl⟩
        · exact hlive
        · exact hbefore
  · rename_i hskip
    refine safe_takeLock hinv ⟨h, ?_, hlive, hbefore⟩ recheck
    by_cases hrecheck : recheck = false
    · exact hcleared hrecheck
    · rw [Bool.not_eq_false] at hrecheck
      simp only [hrecheck, Bool.true_and, Bool.or_eq_true, decide_eq_true_eq, not_or] at hskip
      exact ⟨fun htype => absurd htype hskip.1, fun htype => absurd htype hskip.2⟩

/-! ## Before the pointer moves -/

/-- The ways an operation that moved nothing ends on its own. -/
theorem reads_preApplyExits (op : Operation) :
    (Reconciler.preApplyExits op).Reads fun exit => ∀ c, exit = some c →
      c.preempted = false ∧ c.outcome ≠ .failed ∧ c.outcome ≠ .succeeded := by
  rw [Reconciler.preApplyExits]
  refine reads_now.bind fun now _ => ?_
  split
  · exact Prog.reads_ret fun c hc => by cases hc; exact ⟨rfl, by simp, by simp⟩
  · split
    · exact Prog.reads_ret fun c hc => by cases hc; exact ⟨rfl, by simp, by simp⟩
    · exact Prog.reads_ret fun c hc => by cases hc

theorem immediate_eq_some (h : Reconciler.immediate op stage = some c)
    (hfacet : OwnFacet op.spec) :
    c.preempted = false ∧ c.outcome ≠ .failed ∧ op.spec.type ≠ .autonomy := by
  rw [Reconciler.immediate] at h
  split at h
  · rename_i htype
    cases h
    exact ⟨rfl, by simp, by simp [htype]⟩
  · split at h
    · rename_i hfreeze
      cases h
      exact ⟨rfl, by simp, type_ne_autonomy hfacet (by simp [hfreeze])⟩
    · rename_i hupstream
      cases h
      exact ⟨rfl, by simp, type_ne_autonomy hfacet (by simp [hupstream])⟩
    · cases h

theorem safe_pendingPlan (hinv : Inv r s) (h : Started r X op stage s) (hlive : op.InFlight)
    (hbefore : ¬op.PastLock) :
    (r.pendingPlan op stage).Keeps (r.contract X) s := by
  have hunapplied := unapplied_of_not_pastLock hbefore
  rw [Reconciler.pendingPlan]
  refine safe_seq hinv (safe_plan h) fun result s₁ hinv₁ hresult => ?_
  obtain ⟨plan, stage₁⟩ := result
  obtain ⟨-, h₁, hplanned⟩ := hresult
  dsimp only at h₁ hplanned ⊢
  refine safe_orStop fun plan hplan => ?_
  cases hpredicted : plan.predicted with
  | rejected =>
    refine Started.mayEnd (h₁.alike ?_) hinv₁ ?_ _ rfl ?_ ?_
    · exact ⟨rfl, rfl, rfl⟩
    · exact hunapplied
    all_goals simp
  | held =>
    refine safe_ask fun now => safe_save ?_
    exact h₁.ready hinv₁ rfl (.hold hlive hbefore rfl) h₁.classSet
  | waits => exact safe_keep hinv₁ h₁.toWorking ⟨rfl, rfl, rfl⟩
  | proceeds =>
    have hclear := (hplanned plan hplan).cleared h₁ (by simp [hpredicted])
    refine safe_lock hinv₁ (h₁.alike ?_) ?_ ?_ fun _ => hclear.alike ?_
    · exact ⟨rfl, rfl, rfl⟩
    · exact hlive
    · exact hbefore
    · exact ⟨rfl, rfl, rfl⟩

theorem reads_newerPromote (op : Operation) : (newerPromote op).Reads fun _ => True := by
  rw [newerPromote]
  exact (reads_stageOps _).bind fun _ _ => Prog.reads_ret trivial

include hC in
/-- An operation that moved nothing ends when it was cancelled or nobody decided
in time, and goes on otherwise. -/
theorem safe_exits {next : Reconcile Unit} (hend : MayEnd C r op stage s)
    (h : next.Keeps C s) :
    (Reconciler.preApplyExits op >>= fun exit =>
      match exit with
      | some c => r.finish op stage c
      | none => next).Keeps C s := by
  refine safe_reads (reads_preApplyExits op) fun exit hexit => ?_
  cases exit with
  | none => exact h
  | some c =>
    obtain ⟨hpreempted, hfailed, hsucceeded⟩ := hexit c rfl
    exact hend c hpreempted hfailed fun _ => hsucceeded

include hC in
theorem safe_pending_of (hend : MayEnd C r op stage s) (hfacet : OwnFacet op.spec)
    (hplan : (r.pendingPlan op stage).Keeps C s) :
    (r.pending op stage).Keeps C s := by
  have hnewer : (if op.spec.type = .promote then newerPromote op else pure none).Reads
      fun _ => True := by
    split
    · exact reads_newerPromote op
    · exact Prog.reads_ret trivial
  rw [Reconciler.pending]
  refine safe_exits hend (safe_reads hnewer fun newer _ => ?_)
  cases newer with
  | some name => exact hend _ rfl (by simp) (by simp)
  | none =>
    cases himmediate : Reconciler.immediate op stage with
    | some c =>
      obtain ⟨hpreempted, hfailed, htype⟩ := immediate_eq_some himmediate hfacet
      exact hend c hpreempted hfailed fun hlevel => absurd hlevel htype
    | none => exact hplan

theorem safe_pending (hinv : Inv r s) (h : Started r X op stage s)
    (hphase : op.status.phase = .pending) :
    (r.pending op stage).Keeps (r.contract X) s := by
  have hunapplied := (h.ok hinv).early (.inr hphase)
  have hlive : op.InFlight := by simp [Operation.InFlight, hphase]
  have hbefore : ¬op.PastLock := by simp [Operation.PastLock, hphase, hunapplied]
  exact safe_pending_of (h.mayEnd hinv hunapplied) ((h.ok hinv).ownFacet hlive)
    (safe_pendingPlan hinv h hlive hbefore)

/-! ## Approvals -/

def Planned (r : Reconciler) (op : Operation) (plan : Plan) : Prop :=
  ∃ input : PlanInput, plan = planFor r.pkg input ∧ input.spec = op.spec ∧
    input.cls = op.status.actorClass.getD .agent

/-- What `refreshOrder` makes of the operation. -/
inductive Refreshes (r : Reconciler) (v : Operation) : Operation → Prop where
  | same : Refreshes r v v
  | again (prev cur next : Plan) (hprev : v.status.plan = some prev)
      (horder : prev.order.isSome = true) (hcur : Planned r v cur)
      (hnext : Reconciler.refreshedPlan v prev cur = some next) :
      Refreshes r v
        { v with
          status :=
            { v.status with
              plan := some next
              question := next.question
              verdicts := mergeVerdicts v.status.verdicts next.verdicts } }

def recordOf (a : Approval) : ApprovalRecord :=
  { name := a.name, by' := a.spec.by', decision := a.spec.decision, note := a.spec.note
    authTime := a.spec.authTime }

structure Takes (r : Reconciler) (s : Store) (mid : Operation) (a : Approval) (op : Operation) :
    Prop where
  issued : ∃ i ∈ s.issued, i.approval = a
  counts : approvalRefusal mid.spec mid.status mid.uid a.spec a.created r.policy r.freshness = none
  taken : op =
    { mid with
      status :=
        { mid.status with
          approvals := mid.status.approvals ++ [recordOf a]
          approvedTeams :=
            answeredTeams r.policy mid.status.askedOwners a.spec.groups mid.status.approvedTeams } }

theorem PlannedOn.planned {plan : Plan} (h : PlannedOn r op stage plan) : Planned r op plan := by
  obtain ⟨input, hplan, hspec, -, hcls⟩ := h
  exact ⟨input, hplan, hspec, hcls⟩

theorem Refreshes.alike (h : Refreshes r v mid) : Alike mid v := by
  cases h with
  | same => exact .refl v
  | again => exact ⟨rfl, rfl, rfl⟩

theorem Takes.alike {a : Approval} (h : Takes r s mid a op) : Alike op mid := by
  rw [h.taken]
  exact ⟨rfl, rfl, rfl⟩

theorem Takes.mono {a : Approval} (h : Takes r s mid a op) (hevolves : Evolves s s') :
    Takes r s' mid a op := by
  obtain ⟨i, hi, ha⟩ := h.issued
  exact ⟨⟨i, hevolves.issued hi, ha⟩, h.counts, h.taken⟩

theorem safe_refreshOrder (hinv : Inv r s) (h : Started r X v stage s) :
    (r.refreshOrder v stage).Safe C
      (fun result s' => Frame X s s' ∧ Started r X result.2.1 result.2.2 s' ∧
        Refreshes r v result.2.1) s := by
  have hsame : ∀ (refreshed : Reconciler.Refreshed) (st : Stage) (s₁ : Store), Frame X s s₁ →
      Started r X v st s₁ →
      (pure (refreshed, v, st) : Reconcile (Reconciler.Refreshed × Operation × Stage)).Safe
        C (fun result s' => Frame X s s' ∧ Started r X result.2.1 result.2.2 s' ∧
          Refreshes r v result.2.1) s₁ := by
    intro refreshed st s₁ hframe₁ h₁
    exact safe_pure fun s₂ hframe₂ _ => ⟨hframe₁.trans hframe₂, h₁.mono hframe₂, .same⟩
  rw [Reconciler.refreshOrder]
  split
  · exact hsame _ stage s (.refl s) h
  · rename_i prev hprev
    split
    · exact hsame _ stage s (.refl s) h
    · rename_i horder
      refine safe_seq hinv (safe_plan h) fun result s₁ _ hresult => ?_
      obtain ⟨plan, stage₁⟩ := result
      obtain ⟨hframe₁, h₁, hplanned⟩ := hresult
      dsimp only at h₁ hplanned ⊢
      split
      · exact hsame _ stage₁ s₁ hframe₁ h₁
      · rename_i cur
        split
        · exact hsame _ stage₁ s₁ hframe₁ h₁
        · rename_i next hnext
          refine safe_pure fun s₂ hframe₂ _ => ?_
          refine ⟨hframe₁.trans hframe₂, (h₁.mono hframe₂).alike ⟨rfl, rfl, rfl⟩, ?_⟩
          refine .again prev cur next hprev ?_ (hplanned cur rfl).planned hnext
          simpa [Option.isSome_iff_ne_none] using horder

/-- What `approval` returns: nothing and the operation as it was, or an approval
that was given and counts. -/
theorem approvalAmong_takes (approvals : List Approval) (skipped : String)
    (hissued : ∀ a ∈ approvals, ∃ i ∈ s.issued, i.approval = a) :
    ((r.approvalAmong op approvals skipped).1 = none ∧
        (r.approvalAmong op approvals skipped).2.2 = op) ∨
      ∃ a, (r.approvalAmong op approvals skipped).1 = some (recordOf a) ∧
        (r.approvalAmong op approvals skipped).2.1 = "" ∧
        Takes r s op a (r.approvalAmong op approvals skipped).2.2 := by
  induction approvals generalizing skipped with
  | nil => exact .inl ⟨rfl, rfl⟩
  | cons a rest ih =>
    have hrest := fun b hb => hissued b (List.mem_cons_of_mem a hb)
    rw [Reconciler.approvalAmong]
    split
    · exact ih skipped hrest
    · split
      · exact ih _ hrest
      · rename_i hcounts
        exact .inr ⟨a, rfl, rfl, hissued a List.mem_cons_self, hcounts, rfl⟩

theorem safe_approval (op : Operation) :
    (r.approval op).Safe C
      (fun result s' => Frame X s s' ∧ Alike result.2.2 op ∧ ((result.1 = none ∧ result.2.2 = op) ∨
        ∃ a, result.1 = some (recordOf a) ∧ result.2.1 = "" ∧ Takes r s' op a result.2.2)) s := by
  rw [Reconciler.approval]
  refine Prog.safe_read (I := api) (c := Call.ask .approvals) (fun _ _ => rfl) Framed.idle
    fun s₁ hs₁ _ o => ?_
  have hframe₁ : Frame X s s₁ := Framed.frame hs₁
  change Prog.Safe _ (match (s₁.visible o).approvals with
    | none => pure (none, "", op)
    | some approvals => pure (r.approvalAmong op approvals "")) _ _
  cases happrovals : (s₁.visible o).approvals with
  | none =>
    exact safe_pure fun s₂ hframe₂ _ => ⟨hframe₁.trans hframe₂, .refl op, .inl ⟨rfl, rfl⟩⟩
  | some approvals =>
    have hissued : ∀ a ∈ approvals, ∃ i ∈ s₁.issued, i.approval = a := by
      intro a ha
      obtain ⟨listed, -, rfl⟩ := Option.map_eq_some_iff.mp happrovals
      simpa using (List.mem_filter.mp ha).2
    refine safe_pure fun s₂ hframe₂ _ => ⟨hframe₁.trans hframe₂, ?_⟩
    rcases approvalAmong_takes approvals "" hissued with ⟨hnone, hsame⟩ | ⟨a, ha, hskipped, htakes⟩
    · exact ⟨hsame ▸ .refl op, .inl ⟨hnone, hsame⟩⟩
    · exact ⟨htakes.alike, .inr ⟨a, ha, hskipped, htakes.mono hframe₂.toEvolves⟩⟩

theorem safe_heldOn (hinv : Inv r s) (h : Started r X op stage s) (hlive : op.InFlight)
    (hbefore : ¬op.PastLock) (refreshed : Reconciler.Refreshed) (newSkip : Bool)
    (a : Option ApprovalRecord) :
    (r.heldOn op stage refreshed newSkip a).Keeps (r.contract X) s := by
  have hunapplied := unapplied_of_not_pastLock hbefore
  unfold Reconciler.heldOn
  cases a with
  | some a =>
    dsimp only
    split
    · exact h.mayEnd hinv hunapplied _ rfl (by simp) (by simp)
    · split
      · exact Prog.safe_stop
      · split
        · exact safe_keep hinv h.toWorking ⟨rfl, rfl, rfl⟩
        · exact safe_lock hinv h hlive hbefore fun hrecheck => by cases hrecheck
  | none =>
    dsimp only
    split
    · exact Prog.safe_stop
    · split
      · exact safe_keep hinv h.toWorking (.refl op)
      · exact Prog.safe_done

theorem safe_held (hinv : Inv r s) (h : Started r X op stage s) (hphase : op.status.phase = .held)
    (hunapplied : op.status.applied = false) :
    (r.held op stage).Keeps (r.contract X) s := by
  have hlive : op.InFlight := by simp [Operation.InFlight, hphase]
  have hbefore : ¬op.PastLock := by simp [Operation.PastLock, hphase, hunapplied]
  rw [Reconciler.held]
  refine safe_exits (h.mayEnd hinv hunapplied) (safe_guarded hinv
    (fun _ _ => safe_keep hinv h.toWorking ⟨rfl, rfl, rfl⟩) fun s₁ hframe₁ hinv₁ => ?_)
  refine safe_seq hinv₁ (safe_refreshOrder hinv₁ (h.mono hframe₁))
    fun result s₂ hinv₂ hresult => ?_
  obtain ⟨refreshed, op₂, stage₂⟩ := result
  obtain ⟨-, h₂, hrefresh⟩ := hresult
  refine safe_seq hinv₂ (safe_approval op₂) fun answer s₃ hinv₃ hanswer => ?_
  obtain ⟨a, skipped, op₃⟩ := answer
  obtain ⟨hframe₃, halike₃, -⟩ := hanswer
  dsimp only at h₂ hrefresh halike₃ ⊢
  -- A message about a skipped approval decides nothing.
  have hmessage : Alike (if (decide (skipped ≠ "") && decide (skipped ≠ op₃.status.message)) = true
      then { op₃ with status := { op₃.status with message := skipped } } else op₃) op₃ := by
    split
    · exact ⟨rfl, rfl, rfl⟩
    · exact .refl op₃
  have hall := (hmessage.trans halike₃).trans hrefresh.alike
  exact safe_heldOn hinv₃ ((h₂.mono hframe₃).alike (hmessage.trans halike₃)) (hall.inFlight hlive)
    (fun hpast => hbefore (hall.pastLock hpast)) _ _ _

/-! ## Moving the pointer -/

theorem safe_confirmed (hinv : Inv r s) (h : Working r X op s) (hstage : stage ∈ s.stage.versions)
    (hphase : op.status.phase = .running) (happlied : op.status.applied = true) :
    (r.confirmed op stage).Keeps (r.contract X) s := by
  rw [Reconciler.confirmed]
  refine safe_ask fun now => ?_
  dsimp only
  split
  · refine safe_finish hinv (Working.finishing_of_running (h.alike ?_) hinv hphase rfl ?_) hstage
    · exact ⟨rfl, rfl, rfl⟩
    · exact fun _ => happlied
  · exact safe_save (h.ready hinv rfl (.verify hphase happlied rfl) h.classSet)

theorem safe_apply (hinv : Inv r s) (h : Working r X op s) (hstage : stage ∈ s.stage.versions)
    (hphase : op.status.phase = .running) (happlied : op.status.applied = true) :
    (r.apply op stage).Keeps (r.contract X) s := by
  have hfinish : ∀ c : Conclusion, c.preempted = false → Finishing r X op c s :=
    fun c hpreempted => h.finishing_of_running hinv hphase hpreempted fun _ => happlied
  have hkeep : ∀ message, (save (Reconciler.withMessage op message)).Keeps (r.contract X) s :=
    fun message => safe_keep hinv h ⟨rfl, rfl, rfl⟩
  rw [Reconciler.apply]
  refine safe_ask fun applier => ?_
  split
  · exact hkeep _
  · split
    · split
      · exact safe_finish hinv (hfinish _ rfl) hstage
      · refine safe_ask fun written => ?_
        split
        · exact hkeep _
        · exact Prog.safe_done
    · refine safe_ask fun reply =>
        safe_orStop fun flux _ => ?_
      split
      · exact safe_finish hinv (hfinish _ rfl) hstage
      · split
        · exact hkeep _
        · exact safe_confirmed hinv h hstage hphase happlied

/-- What a reconcile knows when it moves the pointer. -/
theorem Started.moveEvidence (h : Started r X op stage s) (hinv : Inv r s)
    (hphase : op.status.phase = .running) : MoveEvidence X op s := by
  obtain ⟨cell, hcell, hmeta, hspec⟩ := h.intent hinv
  obtain ⟨cell', hcell', -, v, hv, hread, hprogress⟩ := h.shown
  cases hcell'.symm.trans hcell
  have hrunning : v.status.phase = .running := (congrArg Progress.phase hprogress).trans hphase
  exact
    { uid := h.uid hinv
      cell := ⟨cell, hcell, hmeta, hspec, v, hv, hread, .inr (.inl hrunning)⟩
      checked := by
        rintro (htype | htype)
        · exact (h.ok hinv).lockChecked hphase htype
        · exact (h.ok hinv).checked (by simp [Operation.InFlight, hphase]) htype }

/-- The compare-and-swap that moves the pointer. -/
theorem safe_moveCas (hinv : Inv r s) (h : Started r X op stage s)
    (hphase : op.status.phase = .running) :
    (casStage (fun (_ : Unit) st => pure ((), Reconciler.moveOn op st)) defaultRetry ()).Safe
      (r.contract X)
      (fun result s' => Working r X op s' ∧ stage ∈ s'.stage.versions ∧
        ∀ st, result.2 = .ok st → s'.Moved X ∧ st ∈ s'.stage.versions) s := by
  refine safe_casStage (J := fun _ s => Started r X op stage s)
    (fun _ _ _ hframe _ h => h.mono hframe) ?_ defaultRetry () s hinv h
  intro _ s₁ hinv₁ h₁
  refine safe_pure fun s₂ hframe hinv₂ => ?_
  have h₂ := h₁.mono hframe
  cases hmove : Reconciler.moveOn op s₁.stage.latest with
  | error e => exact ⟨h₂.toWorking, h₂.stage_mem, fun st hst => by cases hst⟩
  | ok st =>
    obtain ⟨-, hst⟩ := moveOn_eq_ok_iff.mp hmove
    refine ⟨hframe.toEvolves, h₂, by rw [hst], fun hsame => ?_⟩
    rw [← hsame] at hmove
    refine ⟨.move op st hmove (h₂.moveEvidence hinv₂ hphase), fun _ s₃ hframe₃ _ => ?_⟩
    have hevolves : Evolves s₂ s₃ := (Evolves.setStage (.write _ _)).trans hframe₃.toEvolves
    have hnew : (s₂.stage.write st).latest ∈ s₃.stage.versions :=
      hframe₃.stage.mem (Register.latest_mem _)
    refine ⟨h₂.toWorking.mono hevolves, hevolves.stage.mem h₂.stage_mem, fun st' hst' => ?_⟩
    cases hst'
    refine ⟨⟨_, hnew, ?_⟩, hnew⟩
    rw [Register.latest_write, hst]
    exact h₂.uid hinv₂

theorem safe_running (hinv : Inv r s) (h : Started r X op stage s)
    (hphase : op.status.phase = .running) :
    (r.running op stage).Keeps (r.contract X) s := by
  rw [Reconciler.running]
  refine safe_ask fun now => ?_
  split
  · exact safe_finish hinv (h.finishing_of_running hinv hphase rfl (by simp)) h.stage_mem
  · split
    · rename_i happlied
      exact safe_apply hinv h.toWorking h.stage_mem hphase happlied
    · rename_i hunapplied
      rw [Bool.not_eq_true] at hunapplied
      refine safe_seq hinv (safe_moveCas hinv h hphase) fun result s₁ hinv₁ hmoved => ?_
      obtain ⟨h₁, hstage, hok⟩ := hmoved
      obtain ⟨_, result⟩ := result
      cases result with
      | error e => exact safe_finish hinv₁ (h₁.finishing_of_running hinv₁ hphase rfl (by simp)) hstage
      | ok st =>
        obtain ⟨hmoved, hst⟩ := hok st rfl
        have hstep : StatusStep X s₁ op (Reconciler.moved op) :=
          .apply hphase hunapplied rfl hmoved
        refine safe_saveOp (h₁.ready hinv₁ rfl hstep h₁.classSet) fun s₂ cell hframe₂ _ hcell hinv₃ => ?_
        refine safe_apply hinv₃ ⟨?_, ?_, ?_⟩ (hframe₂.stage.mem hst) ?_ ?_
        · refine ⟨{ cell with register := cell.register.write (Reconciler.moved op) },
            by simp [Store.setCell], _, Register.latest_mem _, rfl, rfl⟩
        all_goals rw [Register.latest_write]
        · exact h₁.classSet
        · change op.status.phase ≠ .concluded
          simp [hphase]
        · exact hphase
        · rfl

/-! ## Verifying -/

/-- A holder the list does not show as a rollback that pulls the operation
unpunished is none. -/
theorem innocent_of_find_none (hinv : Inv r s) (h : Working r X op s)
    (hnone : (s.listed.filter (·.spec.stage = op.spec.stage)).find? (Reconciler.pullsUnpunished op) =
      none) {R : String} (hR : R ≠ "") (hheld : s.HeldBefore X R) : Innocent r X R s := by
  obtain ⟨st, hst, -, hlock⟩ := hheld
  obtain ⟨cell, hcell, hread⟩ := hinv.holderRead st hst .pointer (by rw [hlock]; exact hR)
  rw [hlock] at hcell
  refine ⟨cell, hcell, (hinv.mem_listed hcell hread).imp id ?_⟩
  rintro ⟨o, ho, -, hmem⟩
  have hok := hinv.cells R cell hcell
  have hstage : o.spec.stage = op.spec.stage := by
    rw [(hok.same o hmem).2, hok.stage, h.stage hinv]
  have hnot := List.find?_eq_none.mp hnone o (List.mem_filter.mpr ⟨ho, by simpa using hstage⟩)
  have huid := h.uid hinv
  simp only [Reconciler.pullsUnpunished, huid, Bool.and_eq_true, decide_eq_true_eq, not_and_or,
    not_not] at hnot
  refine ⟨o, hmem, ?_⟩
  -- The class an operation carries is the class of its actor.
  have hclass : ∀ cls, o.status.actorClass = some cls → r.policy.classify o.spec.actor = cls := by
    intro cls hcls
    rcases (hok.version o hmem).classSet with hunset | hset
    · rw [hunset] at hcls
      cases hcls
    · exact Option.some.inj (hset.symm.trans hcls)
  rcases hnot with ((htype | hundoes) | hhuman) | hglass
  · exact .inl htype
  · exact .inr (.inl hundoes)
  · exact .inr (.inr (.inl (hclass _ hhuman)))
  · exact .inr (.inr (.inr (hclass _ hglass)))

theorem safe_preemption (hinv : Inv r s) (h : Working r X op s) (happlied : op.status.applied = true) :
    (Reconciler.preemption op).Safe (r.contract X)
      (fun c s' => Frame X s s' ∧ Finishing r X op c s') s := by
  rw [Reconciler.preemption]
  split
  · rename_i hother
    simp only [Bool.or_eq_true, decide_eq_true_eq] at hother
    refine safe_pure fun s₁ hframe hinv₁ => ?_
    refine ⟨hframe, (h.mono hframe.toEvolves).finishing_of_applied hinv₁ happlied
      (fun hpreempted => by cases hpreempted) fun htype hperson => ?_⟩
    rcases hother with hother | hother
    · exact absurd htype hother
    · rw [hother] at hperson
      cases hperson
  · refine safe_seq hinv (safe_listed _) fun ops s₂ _ hops => ?_
    obtain ⟨s₁, hframe₁, hinv₁, hframe₂, rfl⟩ := hops
    have h₁ := h.mono hframe₁.toEvolves
    cases hfind : (s₁.listed.filter (·.spec.stage = op.spec.stage)).find?
        (Reconciler.pullsUnpunished op) with
    | some o =>
      refine safe_pure fun s₃ hlast hinv₃ => ?_
      have hframe₃ := hframe₂.trans hlast
      exact ⟨hframe₁.trans hframe₃, (h₁.mono hframe₃.toEvolves).finishing_of_applied hinv₃ happlied
        (fun _ => rfl) fun _ _ => .preempted rfl rfl rfl⟩
    | none =>
      refine safe_pure fun s₃ hlast hinv₃ => ?_
      have hframe₃ := hframe₂.trans hlast
      refine ⟨hframe₁.trans hframe₃, (h₁.mono hframe₃.toEvolves).finishing_of_applied hinv₃ happlied
        (fun hpreempted => by cases hpreempted) fun _ _ => Judged.mono ?_ hinv₁ hframe₃⟩
      exact .innocent fun R hR hheld => innocent_of_find_none hinv₁ h₁ hfind hR hheld

theorem safe_preempted (hinv : Inv r s) (h : Started r X op stage s)
    (happlied : op.status.applied = true) :
    (Reconciler.preemption op >>= r.finish op stage).Keeps (r.contract X) s := by
  refine safe_seq hinv (safe_preemption hinv h.toWorking happlied) fun c s₁ hinv₁ hpre => ?_
  exact safe_finish hinv₁ hpre.2 (hpre.1.stage.mem h.stage_mem)

/-- A reconcile that found its operation in the lock. -/
theorem Started.startedHolding (h : Started r X op stage s) (hinv : Inv r s)
    (hread : stage.resourceVersion = s.reads X) (hheld : ¬preempted op stage = true) :
    s.StartedHolding X op.spec.facet := by
  refine ⟨stage, h.stage_mem, hread, ?_⟩
  rw [preempted, decide_eq_true_eq, not_not] at hheld
  rw [hheld, h.uid hinv]

theorem safe_verifying (hinv : Inv r s) (h : Started r X op stage s)
    (hread : stage.resourceVersion = s.reads X) (hphase : op.status.phase = .verifying) :
    (r.verifying op stage).Keeps (r.contract X) s := by
  have happlied := (h.ok hinv).applied hphase
  rw [Reconciler.verifying]
  split
  · exact safe_preempted hinv h happlied
  · rename_i hheld
    have hholding := h.startedHolding hinv hread hheld
    refine safe_ask fun vs => ?_
    have h' : Working r X (withVerify op vs) s := h.toWorking.alike ⟨rfl, rfl, rfl⟩
    dsimp only
    split
    · exact safe_finish hinv (h'.finishing_of_holding hinv happlied hholding rfl) h.stage_mem
    · exact safe_finish hinv (h'.finishing_of_holding hinv happlied hholding rfl) h.stage_mem
    · refine safe_ask fun now => ?_
      split
      · exact safe_save (h'.ready hinv rfl (.ask hphase happlied rfl) h'.classSet)
      · exact safe_keep hinv h' ⟨rfl, rfl, rfl⟩

theorem safe_recheckHeld (hinv : Inv r s) (h : Working r X op s) (hstage : stage ∈ s.stage.versions)
    (happlied : op.status.applied = true) (hholding : s.StartedHolding X op.spec.facet)
    (skipped : String) :
    (r.recheckHeld op stage skipped).Keeps (r.contract X) s := by
  rw [Reconciler.recheckHeld]
  refine safe_ask fun due => ?_
  split
  · refine safe_ask fun vs => ?_
    have h' : Working r X (withVerify op vs) s := h.alike ⟨rfl, rfl, rfl⟩
    dsimp only
    split
    · exact safe_finish hinv (h'.finishing_of_holding hinv happlied hholding rfl) hstage
    · exact safe_finish hinv (h'.finishing_of_holding hinv happlied hholding rfl) hstage
    · exact safe_keep hinv h' ⟨rfl, rfl, rfl⟩
  · dsimp only
    split
    · exact safe_keep hinv h ⟨rfl, rfl, rfl⟩
    · exact Prog.safe_done

theorem safe_heldAfterApply (hinv : Inv r s) (h : Started r X op stage s)
    (hread : stage.resourceVersion = s.reads X) (happlied : op.status.applied = true) :
    (r.heldAfterApply op stage).Keeps (r.contract X) s := by
  rw [Reconciler.heldAfterApply]
  split
  · exact safe_preempted hinv h happlied
  · rename_i hheld
    refine safe_ask fun now => ?_
    split
    · exact safe_finish hinv (h.finishing_of_holding hinv happlied
        (h.startedHolding hinv hread hheld) rfl) h.stage_mem
    · refine safe_guarded hinv (fun _ _ => safe_keep hinv h.toWorking ⟨rfl, rfl, rfl⟩)
        fun s₁ hframe₁ hinv₁ => safe_seq hinv₁ (safe_approval op)
          fun answer s₂ hinv₂ hanswer => ?_
      obtain ⟨a, skipped, op₂⟩ := answer
      obtain ⟨hframe₂, halike, -⟩ := hanswer
      dsimp only at halike ⊢
      have hframe := hframe₁.trans hframe₂
      have h₁ := h.mono hframe
      have hholding := h₁.startedHolding hinv₂ (hread.trans hframe.reads.symm) hheld
      have h₂ := h₁.toWorking.alike halike
      have happlied₂ : op₂.status.applied = true := halike.applied.trans happlied
      rw [← halike.spec] at hholding
      cases a with
      | none => exact safe_recheckHeld hinv₂ h₂ h₁.stage_mem happlied₂ hholding skipped
      | some a =>
        dsimp only
        split
        · exact safe_finish hinv₂ (h₂.finishing_of_holding hinv₂ happlied₂ hholding rfl) h₁.stage_mem
        · exact safe_finish hinv₂ (h₂.finishing_of_holding hinv₂ happlied₂ hholding rfl) h₁.stage_mem

/-! ## The reconcile -/

theorem safe_dispatch (hinv : Inv r s) (h : Started r X op stage s)
    (hread : stage.resourceVersion = s.reads X) :
    (r.dispatch op stage).Keeps (r.contract X) s := by
  rw [Reconciler.dispatch]
  split
  · rename_i hconcluded
    obtain ⟨done, hdone⟩ := Option.isSome_iff_exists.mp hconcluded
    obtain ⟨hmem, huid⟩ := concludedOn_eq_some hdone
    rw [h.uid hinv] at huid
    refine safe_finish hinv ?_ h.stage_mem
    exact
      { toWorking := h.toWorking
        level := by simp [Conclusion.empty]
        preempted := by simp [Conclusion.empty]
        failed := by simp [Conclusion.empty]
        judged := fun _ _ _ => .again ⟨huid, stage, h.stage_mem, hmem⟩ }
  · cases hphase : op.status.phase with
    | new => exact safe_admit hinv h hphase
    | pending => exact safe_pending hinv h hphase
    | running => exact safe_running hinv h hphase
    | verifying => exact safe_verifying hinv h hread hphase
    | held =>
      dsimp only
      split
      · rename_i happlied
        exact safe_heldAfterApply hinv h hread happlied
      · rename_i hunapplied
        exact safe_held hinv h hphase (Bool.eq_false_of_not_eq_true hunapplied)
    | concluded => exact absurd hphase h.live

/-- An operation the cache shows before its lock has not moved the pointer. -/
theorem Inv.unmoved_of_cached (hinv : Inv r s) (hcell : s.ops X = some cell)
    (hcached : cell.register.cached = some op) (hbefore : ¬op.PastLock) : ¬s.Moved X := by
  intro hmoved
  have hX : X ≠ "" := by
    rintro rfl
    rw [hinv.unnamed] at hcell
    cases hcell
  obtain ⟨cell', hcell', v, hv, hread, hpast⟩ := hinv.movedRead X hX hmoved
  cases hcell'.symm.trans hcell
  have hle := Register.version_le_cached hcached hv hread
  exact hbefore ((hinv.cells X cell hcell).lockOrder v hv op (Register.mem_of_cached hcached) hle hpast)

/-- A reconcile starts from a Stage no older than the one the cache showed when
the operation was created. -/
theorem Inv.born_le_startingStage (hinv : Inv r s) (hcell : s.ops X = some cell) :
    cell.born ≤ s.startingStage.resourceVersion := by
  have hborn := (hinv.cells X cell hcell).born
  rw [Store.startingStage]
  cases hcached : s.stage.cached with
  | none =>
    have hzero : ¬0 < s.stage.delivered := by
      intro hpos
      have hsome := Register.isSome_cached hpos
      rw [hcached] at hsome
      cases hsome
    omega
  | some st =>
    have hlt : st.resourceVersion < s.stage.delivered := Register.version_lt_of_cached hcached
    have hle := s.stage.delivered_le
    have hmem : s.stage.versions[s.stage.delivered - 1] ∈ s.stage.versions := List.getElem_mem _
    have hnumber : (s.stage.versions[s.stage.delivered - 1]).resourceVersion =
        s.stage.delivered - 1 :=
      s.stage.numbered _ _ (List.getElem?_eq_getElem (by omega))
    have hnewest := Register.version_le_cached hcached hmem
      (by rw [show Resource.version _ = _ from hnumber]; omega)
    rw [show Resource.version _ = _ from hnumber] at hnewest
    exact hborn.trans hnewest

/-- A reconcile starts from a version the cache shows and the Stage it shows
then. -/
theorem Started.of_cached (hinv : Inv r s) (hcell : s.ops X = some cell)
    (hcached : cell.register.cached = some op) (hlive : op.status.phase ≠ .concluded)
    (hframe : Frame X s s') (hinv' : Inv r s') :
    Started r X op s'.startingStage (s'.started X) := by
  have hmem := Register.mem_of_cached hcached
  obtain ⟨cell', hcell', hgrows, -⟩ := hframe.cells X cell hcell
  exact
    { copied := ⟨cell', hcell', op, hgrows.mem hmem, rfl, rfl⟩
      classSet := ((hinv.cells X cell hcell).version op hmem).classSet
      live := hlive
      stage_mem := Inv.startingStage_mem s'
      shown := ⟨cell', hcell', hinv'.born_le_startingStage hcell', op, hgrows.mem hmem,
        (Register.version_lt_of_cached hcached).trans_le hgrows.delivered, rfl⟩
      unmoved := fun hbefore hmoved =>
        hinv.unmoved_of_cached hcell hcached hbefore (hframe.moved hmoved) }

theorem safe_reconcile (X : String) (s : Store) :
    (r.reconcile X).Keeps (r.contract X) s := by
  rw [Reconciler.reconcile]
  refine safe_readOp (fun _ => Prog.safe_done) fun s₁ cell op hinv₁ hcell hcached => ?_
  obtain ⟨-, hcached⟩ := cached_eq_some hcached
  dsimp only
  split
  · exact Prog.safe_done
  · rename_i hlive
    refine safe_readStage (fun _ => Prog.safe_stop) fun s₂ hframe hinv₂ hinv₃ => ?_
    exact safe_dispatch hinv₃ (.of_cached hinv₁ hcell hcached hlive hframe hinv₂) (by simp)

/-- All reconciles together keep to the protocol, and the protocol keeps the
invariant. -/
theorem reconcile_sound (r : Reconciler) : r.system.Sound (Move r) (Inv r) where
  safe := fun X s _ => safe_reconcile X s
  keeps := fun _ _ _ hinv hmove => hinv.move hmove
  keeps_outside := fun _ _ hinv ⟨a, hact⟩ => hinv.disturbed (Disturbs.of_act a hact)

/-- One step of the store in a run. -/
inductive Step (r : Reconciler) (s s' : Store) : Prop where
  | idle (h : s' = s)
  | move (X : String) (h : Move r X s s')
  | disturb (h : Disturbs s s')

/-- The promoter's runs on a fresh Stage in which every step of the store meets
`allowed`. -/
abbrev Reconciler.Runs (r : Reconciler) (allowed : Store → Store → Prop) (metadata : ObjectMeta)
    (spec : StageSpec) (σ : System.Config api String) : Prop :=
  r.system.Run allowed (initial metadata spec) σ

theorem Step.of_protocol {e : System.Event r.system} (h : r.system.Protocol (Move r) e s s') :
    Step r s s' := by
  cases h with
  | start X => exact .idle rfl
  | call X o h => exact .move X h
  | crash X => exact .idle rfl
  | act a h => exact .disturb (Disturbs.of_act a h)

theorem Inv.step (h : Inv r s) (hstep : Step r s s') : Inv r s' := by
  cases hstep with
  | idle hs' =>
    rw [hs']
    exact h
  | move X hmove => exact h.move hmove
  | disturb hdisturbs => exact h.disturbed hdisturbs

section Runs

variable {allowed : Store → Store → Prop} {metadata : ObjectMeta} {spec : StageSpec}
  {σ : System.Config api String}

/-- What every allowed step keeps holds in every state of a run, in which every
reconcile keeps to the protocol. -/
theorem runs_good {P : Store → Prop} (hrun : r.Runs allowed metadata spec σ)
    (hstart : P (Store.fresh metadata spec))
    (hstep : ∀ s s', Inv r s → P s → allowed s s' → Step r s s' → P s') :
    r.system.Good (Move r) (Inv r) σ ∧ P σ.shared :=
  hrun.keeps (reconcile_sound r) (.of_idle (Inv.fresh metadata spec) fun _ => rfl) hstart
    fun _ s s' hinv hP hallowed hprotocol => hstep s s' hinv hP hallowed (.of_protocol hprotocol)

@[inherit_doc runs_good]
theorem runs_keep {P : Store → Prop} (hrun : r.Runs allowed metadata spec σ)
    (hstart : P (Store.fresh metadata spec))
    (hstep : ∀ s s', Inv r s → P s → allowed s s' → Step r s s' → P s') :
    Inv r σ.shared ∧ P σ.shared := by
  obtain ⟨hgood, hP⟩ := runs_good hrun hstart hstep
  exact ⟨hgood.holds, hP⟩

/-- A run read off a schedule, with what can be observed at its end. -/
theorem Reconciler.exists_run {β : Type} (r : Reconciler) (allowed : Store → Store → Prop)
    [∀ s s', Decidable (allowed s s')] (metadata : ObjectMeta) (spec : StageSpec)
    (events : List (System.Event r.system)) (f : Store → β) (b : β)
    (h : ((r.system.execAll (fun s s' => decide (allowed s s')) (initial metadata spec) events).map
      fun σ => f σ.shared) = some b) :
    ∃ σ, r.Runs allowed metadata spec σ ∧ f σ.shared = b := by
  obtain ⟨σ, hσ, hf⟩ := Option.map_eq_some_iff.mp h
  exact ⟨σ, .of_execAll r.system (fun s s' hok => of_decide_eq_true hok) hσ, hf⟩

/-- A run read off a schedule and its next event, with what can be observed
around the event. -/
theorem Reconciler.exists_step {β : Type} (r : Reconciler) (allowed : Store → Store → Prop)
    [∀ s s', Decidable (allowed s s')] (metadata : ObjectMeta) (spec : StageSpec)
    (events : List (System.Event r.system)) (e : System.Event r.system) (f : Store → Store → β)
    (b : β)
    (h : ((r.system.execAll (fun s s' => decide (allowed s s')) (initial metadata spec) events).bind
      fun σ => (r.system.exec σ e).map fun σ' => f σ.shared σ'.shared) = some b) :
    ∃ σ σ', r.Runs allowed metadata spec σ ∧ r.system.exec σ e = some σ' ∧
      f σ.shared σ'.shared = b := by
  obtain ⟨σ, hσ, hnext⟩ := Option.bind_eq_some_iff.mp h
  obtain ⟨σ', hσ', hf⟩ := Option.map_eq_some_iff.mp hnext
  exact ⟨σ, σ', .of_execAll r.system (fun s s' hok => of_decide_eq_true hok) hσ, hσ', hf⟩

end Runs

end Pacto.Promoter
