import Pacto.Promoter.Contract

/-!
# What a held operation asks

An operation that needs a person is held with the plan that says why, the
teams it is asked of, and the time it was last asked.  Its reconciles plan it
again, take approvals one at a time, and go on to the lock once every team has
answered.  `HoldStep` lists what a reconcile writes of all this, with what it
found when it wrote it.
-/

namespace Pacto.Promoter

open Delivery Support

/-- What an operation asks and the answers it has. -/
structure Asking where
  actorClass : Option ActorClass
  plan : Option Plan
  approvals : List ApprovalRecord
  approvedTeams : List String
  held : Option Nat
  deriving DecidableEq

def Operation.asking (op : Operation) : Asking where
  actorClass := op.status.actorClass
  plan := op.status.plan
  approvals := op.status.approvals
  approvedTeams := op.status.approvedTeams
  held := op.status.times.held

/-- The operation waits for a person and has moved nothing. -/
structure Operation.Held (op : Operation) : Prop where
  phase : op.status.phase = .held
  unapplied : op.status.applied = false

variable (r : Reconciler)

/-- `held` takes the approval `a`, which does not reject it, for the stored
version `v`. -/
structure Answers (s : Store) (v : Operation) (a : Approval) (op : Operation) : Prop where
  held : v.Held
  taken : ∃ mid, Refreshes r v mid ∧ Takes r s mid a op
  decided : a.spec.decision ≠ .reject

/-- `held` reaches the lock from the stored version `v`: every team has answered,
and the plan it makes now, `cur`, is one the approvals still cover. -/
structure AtLock (s : Store) (v : Operation) (a : Approval) (op : Operation)
    (cur : Option Plan) : Prop extends Answers r s v a op where
  complete : teamsWaiting op.status.askedOwners op.status.approvedTeams = []
  rechecked : op.spec.type = .promote ∨ op.spec.type = .autonomy →
    ∃ p, cur = some p ∧ Planned r op p ∧ p.predicted ≠ .rejected ∧
      op.status.plan.any (stillPasses · p) = true

/-- The writes of an operation's status, by what they do to what it asks. -/
inductive HoldStep (s : Store) (old new : Operation) : Prop where
  | past (h : old.PastLock)
  | concluded (h : new.status.phase = .concluded)
  | keep (hphase : new.status.phase = old.status.phase) (h : new.asking = old.asking)
  | admitted (hnew : new.status.phase = .pending)
      (h : new.asking =
        { old.asking with actorClass := some (r.policy.classify old.spec.actor) })
  | plan (p : Plan) (hold : old.status.phase = .pending) (hnew : new.status.phase = .pending)
      (hplan : Planned r old p) (h : new.asking = { old.asking with plan := some p })
  | hold (p : Plan) (now : Nat) (hold : old.status.phase = .pending)
      (hnew : new.status.phase = .held) (hplan : Planned r old p) (hheld : p.predicted = .held)
      (h : new.asking =
        { old.asking with plan := some p, approvedTeams := [], held := some now })
  | start (p : Plan) (hold : old.status.phase = .pending) (hnew : new.status.phase = .running)
      (hplan : Planned r old p) (hproceeds : p.predicted = .proceeds)
      (h : new.asking = { old.asking with plan := some p })
  | refresh (mid : Operation) (hold : old.Held) (hnew : new.status.phase = .held)
      (hrefresh : Refreshes r old mid) (h : new.asking = mid.asking)
  | count (a : Approval) (op : Operation) (hnew : new.status.phase = .held)
      (hanswers : Answers r s old a op) (h : new.asking = op.asking)
  | again (a : Approval) (op : Operation) (p : Plan) (now : Nat) (hnew : new.status.phase = .held)
      (hanswers : Answers r s old a op) (hplan : Planned r op p)
      (hpredicted : p.predicted ≠ .rejected)
      (h : new.asking = { op.asking with plan := some p, approvedTeams := [], held := some now })
  | wait (a : Approval) (op : Operation) (cur : Option Plan) (hnew : new.status.phase = .held)
      (hlock : AtLock r s old a op cur)
      (hmet : ∃ st ∈ s.stage.versions, s.reads old.uid ≤ st.resourceVersion ∧ Hinders st old)
      (h : new.asking = { op.asking with approvals := old.status.approvals })
  | run (a : Approval) (op : Operation) (cur : Option Plan) (hnew : new.status.phase = .running)
      (hlock : AtLock r s old a op cur) (h : new.asking = op.asking)

/-- The Stage concluded `X` as a success. -/
def Store.Succeeded (s : Store) (X : String) : Prop := ∃ e, s.Given X e ∧ e.outcome = .succeeded

/-- How a level change came to be allowed: its plan asked nobody, or it reached
the lock by a person's approval, which `person` notes. -/
def Permitted (X : String) (person : Bool) (s : Store) : Prop :=
  ∃ cell, s.ops X = some cell ∧ ∃ v ∈ cell.register.versions,
    (v.status.phase = .pending ∧ ∃ p, Planned r v p ∧ p.predicted = .proceeds) ∨
      (person = true ∧ ∃ a op cur, AtLock r s v a op cur)

/-- What a reconcile of `X` writes about what `X` asks, and when it may conclude
a change of the Stage's level. -/
structure Asks (X : String) (s s' : Store) : Prop where
  saves : ∀ cell cell', s.ops X = some cell → s'.ops X = some cell' →
    cell'.register.versions = cell.register.versions ∨ HoldStep r s cell.latest cell'.latest
  climbs : ∀ cell e, s.ops X = some cell → cell.latest.spec.type = .autonomy → s'.Given X e →
    e.outcome = .succeeded → s.Succeeded X ∨ Permitted r X e.person s

variable {r} {X : String} {s s' : Store} {v mid op : Operation} {a : Approval}

/-! ## Refreshing and answering -/

theorem Refreshes.answers (h : Refreshes r v mid) :
    mid.status.approvals = v.status.approvals ∧
      mid.status.approvedTeams = v.status.approvedTeams ∧
      mid.status.times.held = v.status.times.held := by
  cases h with
  | same => exact ⟨rfl, rfl, rfl⟩
  | again => exact ⟨rfl, rfl, rfl⟩

namespace Answers

theorem alike (h : Answers r s v a op) : Alike op v := by
  obtain ⟨mid, hrefresh, htakes⟩ := h.taken
  exact htakes.alike.trans hrefresh.alike

theorem approvals (h : Answers r s v a op) :
    op.status.approvals = v.status.approvals ++ [recordOf a] := by
  obtain ⟨mid, hrefresh, htakes⟩ := h.taken
  rw [htakes.taken, ← hrefresh.answers.1]

theorem issued (h : Answers r s v a op) : ∃ i ∈ s.issued, i.approval = a := by
  obtain ⟨mid, -, htakes⟩ := h.taken
  exact htakes.issued

theorem approvedTeams (h : Answers r s v a op) :
    op.status.approvedTeams =
      answeredTeams r.policy op.status.askedOwners a.spec.groups v.status.approvedTeams := by
  obtain ⟨mid, hrefresh, htakes⟩ := h.taken
  rw [htakes.taken, ← hrefresh.answers.2.1]
  rfl

theorem heldAt (h : Answers r s v a op) : op.status.times.held = v.status.times.held := by
  obtain ⟨mid, hrefresh, htakes⟩ := h.taken
  rw [htakes.taken, ← hrefresh.answers.2.2]

theorem refreshes (h : Answers r s v a op) :
    ∃ mid, Refreshes r v mid ∧ op.status.plan = mid.status.plan := by
  obtain ⟨mid, hrefresh, htakes⟩ := h.taken
  exact ⟨mid, hrefresh, by rw [htakes.taken]⟩

/-- The approval counts for the question as it is asked now. -/
theorem counts (h : Answers r s v a op) :
    ApprovalCounts v.spec op.status v.uid a.spec a.created r.policy := by
  obtain ⟨mid, hrefresh, htakes⟩ := h.taken
  have hcounts := approvalCounts_of_not_refused htakes.counts
  have hspec : mid.spec = v.spec := hrefresh.alike.spec
  have huid : mid.uid = v.uid :=
    congrArg ObjectMeta.uid (congrArg Progress.metadata hrefresh.alike.progress)
  rw [hspec, huid] at hcounts
  rw [htakes.taken]
  exact ⟨hcounts.bound, hcounts.notOwn, hcounts.human, hcounts.owned, hcounts.inTeams,
    hcounts.asked, hcounts.decision⟩

theorem mono (h : Answers r s v a op) (hevolves : Evolves s s') : Answers r s' v a op := by
  obtain ⟨mid, hrefresh, htakes⟩ := h.taken
  exact ⟨h.held, ⟨mid, hrefresh, htakes.mono hevolves⟩, h.decided⟩

end Answers

theorem AtLock.mono {cur : Option Plan} (h : AtLock r s v a op cur) (hevolves : Evolves s s') :
    AtLock r s' v a op cur :=
  ⟨h.toAnswers.mono hevolves, h.complete, h.rechecked⟩

theorem Store.Succeeded.mono (h : s.Succeeded X) (hevolves : Evolves s s') : s'.Succeeded X := by
  obtain ⟨e, hgiven, he⟩ := h
  exact ⟨e, hevolves.given hgiven, he⟩

theorem Permitted.mono {person : Bool} (h : Permitted r X person s) (hevolves : Evolves s s') :
    Permitted r X person s' := by
  obtain ⟨cell, hcell, v, hv, hway⟩ := h
  obtain ⟨cell', hcell', hgrows, -⟩ := hevolves.cells X cell hcell
  refine ⟨cell', hcell', v, hgrows.mem hv, hway.imp_right ?_⟩
  rintro ⟨hperson, a, op, cur, hlock⟩
  exact ⟨hperson, a, op, cur, hlock.mono hevolves⟩

theorem HoldStep.mono {old new : Operation} (h : HoldStep r s old new) (huid : old.uid = X)
    (hframe : Frame X s s') : HoldStep r s' old new := by
  have hevolves := hframe.toEvolves
  cases h with
  | past h => exact .past h
  | concluded h => exact .concluded h
  | keep hphase h => exact .keep hphase h
  | admitted hnew h => exact .admitted hnew h
  | plan p hold hnew hplan h => exact .plan p hold hnew hplan h
  | hold p now hold hnew hplan hheld h => exact .hold p now hold hnew hplan hheld h
  | start p hold hnew hplan hproceeds h => exact .start p hold hnew hplan hproceeds h
  | refresh mid hold hnew hrefresh h => exact .refresh mid hold hnew hrefresh h
  | count a op hnew hanswers h => exact .count a op hnew (hanswers.mono hevolves) h
  | again a op p now hnew hanswers hplan hpredicted h =>
    exact .again a op p now hnew (hanswers.mono hevolves) hplan hpredicted h
  | wait a op cur hnew hlock hmet h =>
    obtain ⟨st, hst, hread, hhinders⟩ := hmet
    refine .wait a op cur hnew (hlock.mono hevolves) ⟨st, hevolves.stage.mem hst, ?_, hhinders⟩ h
    rw [huid] at hread ⊢
    exact hframe.reads.trans_le hread
  | run a op cur hnew hlock h => exact .run a op cur hnew (hlock.mono hevolves) h

/-- A step is decided by the status it writes. -/
theorem HoldStep.rewrite {old new new' : Operation} (h : HoldStep r s old new)
    (hstatus : new'.status = new.status) : HoldStep r s old new' := by
  have hphase : new'.status.phase = new.status.phase := by rw [hstatus]
  have hasking : new'.asking = new.asking := by rw [Operation.asking, hstatus, Operation.asking]
  cases h with
  | past h => exact .past h
  | concluded h => exact .concluded (hphase.trans h)
  | keep hp h => exact .keep (hphase.trans hp) (hasking.trans h)
  | admitted hnew h => exact .admitted (hphase.trans hnew) (hasking.trans h)
  | plan p hold hnew hplan h => exact .plan p hold (hphase.trans hnew) hplan (hasking.trans h)
  | hold p now hold hnew hplan hheld h =>
    exact .hold p now hold (hphase.trans hnew) hplan hheld (hasking.trans h)
  | start p hold hnew hplan hproceeds h =>
    exact .start p hold (hphase.trans hnew) hplan hproceeds (hasking.trans h)
  | refresh mid hold hnew hrefresh h =>
    exact .refresh mid hold (hphase.trans hnew) hrefresh (hasking.trans h)
  | count a op hnew hanswers h => exact .count a op (hphase.trans hnew) hanswers (hasking.trans h)
  | again a op p now hnew hanswers hplan hpredicted h =>
    exact .again a op p now (hphase.trans hnew) hanswers hplan hpredicted (hasking.trans h)
  | wait a op cur hnew hlock hmet h =>
    exact .wait a op cur (hphase.trans hnew) hlock hmet (hasking.trans h)
  | run a op cur hnew hlock h => exact .run a op cur (hphase.trans hnew) hlock (hasking.trans h)

end Pacto.Promoter
