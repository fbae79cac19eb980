import Pacto.Promoter.Asks

/-!
# The question while it is open

A held operation stays held until somebody decides.  Meanwhile its question is
planned again, teams answer it, and a lock that waits hands it back.  `HeldStep`
is what the writes of `HoldStep` come to between two versions that are both
held, and `Reconciler.Happens.heldStep` finds it in the events of a run.
-/

namespace Pacto.Promoter

open Delivery Support

variable {r : Reconciler} {X : String} {s s' : Store} {old new v mid op : Operation} {a : Approval}

theorem Operation.held_iff (op : Operation) :
    op.Held ↔ op.status.phase = .held ∧ op.status.applied = false :=
  ⟨fun h => ⟨h.phase, h.unapplied⟩, fun h => ⟨h.1, h.2⟩⟩

instance (op : Operation) : Decidable op.Held := decidable_of_iff' _ op.held_iff

theorem Operation.Held.not_pastLock (h : op.Held) : ¬op.PastLock := by
  simp [Operation.PastLock, h.phase, h.unapplied]

/-- How an operation comes to be held, or goes on being held, by what it asks
then. -/
inductive HeldStep (r : Reconciler) (s : Store) (old new : Operation) : Prop where
  | refreshed (mid : Operation) (hold : old.Held) (hrefresh : Refreshes r old mid)
      (h : new.asking = mid.asking)
  | counted (a : Approval) (op : Operation) (hanswers : Answers r s old a op)
      (h : new.asking = op.asking)
  | waited (a : Approval) (op : Operation) (cur : Option Plan) (hlock : AtLock r s old a op cur)
      (hmet : ∃ st ∈ s.stage.versions, s.reads old.uid ≤ st.resourceVersion ∧ Hinders st old)
      (h : new.asking = { op.asking with approvals := old.status.approvals })
  | asked (op : Operation) (p : Plan) (now : Nat) (hplanned : Planned r op p)
      (hpredicted : p.predicted ≠ .rejected) (hplan : new.status.plan = some p)
      (hteams : new.status.approvedTeams = []) (hheld : new.status.times.held = some now)

theorem HoldStep.heldStep (h : HoldStep r s old new) (hstatus : StatusStep X s old new)
    (hnew : new.Held) : HeldStep r s old new := by
  have hpast : ¬old.PastLock := fun hpast => hnew.not_pastLock (hstatus.pastLock hpast)
  have hunapplied : old.status.applied = false := by
    simpa [Operation.PastLock] using fun happlied => hpast (.inl happlied)
  have hphase := hnew.phase
  cases h with
  | past h => exact absurd h hpast
  | concluded h => simp [h] at hphase
  | keep hkept h => exact .refreshed old ⟨hkept.symm.trans hphase, hunapplied⟩ .same h
  | admitted hpending h => simp [hpending] at hphase
  | plan p _ hpending => simp [hpending] at hphase
  | hold p now _ _ hplan hheld h =>
    exact .asked old p now hplan (by simp [hheld]) (congrArg Asking.plan h)
      (congrArg Asking.approvedTeams h) (congrArg Asking.held h)
  | start p _ hrunning => simp [hrunning] at hphase
  | refresh mid hold _ hrefresh h => exact .refreshed mid hold hrefresh h
  | count a op _ hanswers h => exact .counted a op hanswers h
  | again a op p now _ hanswers hplan hpredicted h =>
    exact .asked op p now hplan hpredicted (congrArg Asking.plan h)
      (congrArg Asking.approvedTeams h) (congrArg Asking.held h)
  | wait a op cur _ hlock hmet h => exact .waited a op cur hlock hmet h
  | run a op cur hrunning => simp [hrunning] at hphase

/-- Whatever takes a held operation to running reached the lock. -/
theorem HoldStep.atLock (h : HoldStep r s old new) (hold : old.Held)
    (hnew : new.status.phase = .running) :
    ∃ a op cur, AtLock r s old a op cur ∧ new.asking = op.asking := by
  have hphase := hold.phase
  cases h with
  | past h => exact absurd h hold.not_pastLock
  | concluded h => simp [h] at hnew
  | keep hkept h => simp [hkept, hphase] at hnew
  | admitted hpending h => simp [hpending] at hnew
  | plan p hpending => simp [hpending] at hphase
  | hold p now hpending => simp [hpending] at hphase
  | start p hpending => simp [hpending] at hphase
  | refresh mid _ hheld => simp [hheld] at hnew
  | count a op hheld => simp [hheld] at hnew
  | again a op p now hheld => simp [hheld] at hnew
  | wait a op cur hheld => simp [hheld] at hnew
  | run a op cur _ hlock h => exact ⟨a, op, cur, hlock, h⟩

/-- An operation that is held after an event was there before it, and its
versions only grow. -/
theorem Reconciler.Happens.heldStep {e : System.Event r.system} (h : r.Happens e s s')
    {cell' : Cell} (hcell' : s'.ops X = some cell') (hheld : cell'.latest.Held) :
    ∃ cell, s.ops X = some cell ∧ cell'.latest.spec = cell.latest.spec ∧
      HeldStep r s cell.latest cell'.latest := by
  have hsame : ∀ cell : Cell, cell'.latest.status = cell.latest.status →
      HeldStep r s cell.latest cell'.latest := by
    intro cell hstatus
    refine .refreshed cell.latest ⟨?_, ?_⟩ .same ?_
    · rw [← hstatus]
      exact hheld.phase
    · rw [← hstatus]
      exact hheld.unapplied
    · rw [Operation.asking, hstatus, Operation.asking]
  cases (Step.of_happens h).opStep X with
  | absent _ h' => simp [h'] at hcell'
  | created new _ h' hstatus =>
    obtain rfl := Option.some.inj (h'.symm.trans hcell')
    have hphase := hheld.phase
    simp [hstatus] at hphase
  | kept cell new hcell h' hversions =>
    obtain rfl := Option.some.inj (h'.symm.trans hcell')
    have hlatest := Cell.latest_congr hversions
    exact ⟨cell, hcell, by rw [hlatest], hsame cell (by rw [hlatest])⟩
  | touched cell new hcell h' _ _ _ hprogress hstatus =>
    obtain rfl := Option.some.inj (h'.symm.trans hcell')
    exact ⟨cell, hcell, congrArg Progress.spec hprogress, hsame cell hstatus⟩
  | saved cell new hcell h' _ _ _ _ hstep =>
    obtain rfl := Option.some.inj (h'.symm.trans hcell')
    refine ⟨cell, hcell, hstep.spec, ?_⟩
    rcases h.holdStep hcell h' with hstatus | hhold
    · exact hsame cell hstatus
    · exact hhold.heldStep hstep hheld

/-- An approval is given while its operation shows what it asks. -/
theorem Step.issued (h : Step r s s') {i : Issued} (hi : i ∈ s'.issued) :
    i ∈ s.issued ∨ s'.ops = s.ops ∧
      i.shown = (s.ops i.approval.spec.operationUID).bind fun cell => cell.latest.status.plan := by
  cases h with
  | idle h => exact .inl (h ▸ hi)
  | move Y h =>
    left
    cases h <;> exact hi
  | disturb h =>
    cases h with
    | approve a hshown =>
      rcases List.mem_append.mp hi with hi | hi
      · exact .inl hi
      · obtain rfl := List.mem_singleton.mp hi
        exact .inr ⟨rfl, hshown⟩
    | showStage => exact .inl hi
    | writeStage => exact .inl hi
    | cell => exact .inl hi
    | touch => exact .inl hi
    | propose => exact .inl hi

/-! ## A question by hand -/

/-- Packages that find every service of the snapshot to be a consumer the change
breaks, owned by the team the snapshot notes for it. -/
def breakingPackages : Packages :=
  { quietPackages with
    analyze := fun _ _ snapshot _ =>
      { classification := .breaking, complete := true
        consumers := (snapshot.getD {}).services.map fun service =>
          { service := service.1, owner := service.2.headD ""
            compatibilityVerdict := .incompatible } } }

@[inherit_doc breakingPackages]
def breakingReconciler : Reconciler := { quietReconciler with pkg := breakingPackages }

/-- Answers for a first version that breaks these consumers of these teams, with
the approvals the cache lists. -/
def breaking (consumers : List (String × String)) (approvals : List Approval) : Oracle :=
  { shipping {} 'a' with
    planInput := (shipping {} 'a').planInput.map fun input =>
      { input with
        snapshot := some { services := consumers.map fun (name, team) => (name, [team]) } }
    approvals := some approvals }

def teamApproval (name by' team : String) : Approval where
  name := name
  created := 1
  spec :=
    { operationUID := "p1", intentDigest := "sha256:intent", decision := .approve, by' := by'
      groups := [team] }

/-- The request of an agent to ship the first version. -/
def firstPromote : OperationSpec := moveOf .promote agent { «to» := digestOf 'a' }

/-- An agent's promote `p1` is held for the owners of the consumers it breaks. -/
def heldPromote (consumers : List (String × String)) :
    List (System.Event breakingReconciler.system) :=
  breakingReconciler.acts [.writeStage (.published (digestOf 'a')), .showStage] ++
    breakingReconciler.starts "p1" firstPromote 6 9 (breaking consumers [])

/-- Somebody approves, and a reconcile of the promote sees it. -/
def answers (consumers : List (String × String)) (a : Approval) (calls : Nat) :
    List (System.Event breakingReconciler.system) :=
  breakingReconciler.acts [.approve a, .showOp "p1", .showStage] ++
    breakingReconciler.reconciles "p1" (List.replicate calls (breaking consumers [a]))

end Pacto.Promoter
