import Pacto.Promoter.OneSeq
import Pacto.Promoter.Question

/-!
# Separation of duties

A held operation runs once every team it asks has answered.  The answers are
kept twice, as the approvals it consumed and as the teams that have answered,
and a lock that waits gives back the approval but keeps the team.  The two
agree along a run in which no such lock meets a question of several teams.
-/

namespace Pacto.Promoter

open Delivery Support

variable {r : Reconciler} {X : String} {s s' : Store} {old new op : Operation} {a : Approval}

/-! ## The conditions -/

/-- A step that counts another team of a question put to several finds a Stage
that does not make the operation wait. -/
def Unhindered (s s' : Store) : Prop :=
  ∀ X ∈ s.uids, ∀ cell ∈ s.ops X, ∀ cell' ∈ s'.ops X, cell'.latest.Held →
    2 ≤ cell'.latest.status.askedOwners.length →
    cell'.latest.status.approvedTeams ≠ cell.latest.status.approvedTeams →
      ∀ st ∈ s.stage.versions, s.reads X ≤ st.resourceVersion → ¬Hinders st cell.latest

/-- A question of at most one team is put to several only before any team has
answered. -/
def Widened (s s' : Store) : Prop :=
  ∀ X ∈ s.uids, ∀ cell ∈ s.ops X, ∀ cell' ∈ s'.ops X, cell.latest.Held →
    cell.latest.status.askedOwners.length ≤ 1 →
    2 ≤ cell'.latest.status.askedOwners.length →
      cell'.latest.status.approvedTeams = [] ∨ cell.latest.status.approvedTeams = []

@[inherit_doc Unhindered]
def Accounted (s s' : Store) : Prop := Unhindered s s' ∧ Widened s s'

instance (s s' : Store) : Decidable (Unhindered s s') := by
  unfold Unhindered
  infer_instance

instance (s s' : Store) : Decidable (Widened s s') := by
  unfold Widened
  infer_instance

instance (s s' : Store) : Decidable (Accounted s s') := inferInstanceAs (Decidable (_ ∧ _))

/-! ## Approvals that were consumed -/

/-- The operation `X` consumed `a`, which answers the question it asks. -/
structure Consumed (r : Reconciler) (s : Store) (X : String) (op : Operation) (a : Approval) :
    Prop where
  issued : ∃ i ∈ s.issued, i.approval = a
  recorded : recordOf a ∈ op.status.approvals
  asked : ∀ held, op.status.times.held = some held → held ≤ a.created
  bound : a.spec.operationUID = X ∧ a.spec.intentDigest = op.spec.intentDigest
  human : r.policy.isHuman { user := a.spec.by', groups := a.spec.groups } = true
  notOwn : a.spec.by' ≠ op.spec.actor.user ∧ op.spec.onBehalfOf ≠ some a.spec.by'
  decision : op.status.askedDecision = some .approve → a.spec.decision = .approve

theorem Consumed.follow (h : Consumed r s X old a) (hissued : s.issued ⊆ s'.issued)
    (hspec : new.spec = old.spec) (happrovals : old.status.approvals ⊆ new.status.approvals)
    (hheld : new.status.times.held = old.status.times.held)
    (hdecision : new.status.askedDecision = some .approve →
      old.status.askedDecision = some .approve) : Consumed r s' X new a := by
  obtain ⟨i, hi, ha⟩ := h.issued
  exact
    { issued := ⟨i, hissued hi, ha⟩
      recorded := happrovals h.recorded
      asked := by rw [hheld]; exact h.asked
      bound := by rw [hspec]; exact h.bound
      human := h.human
      notOwn := by rw [hspec]; exact h.notOwn
      decision := fun hasked => h.decision (hdecision hasked) }

theorem Answers.consumed (h : Answers r s old a op) (huid : old.uid = X) :
    Consumed r s X op a := by
  have hcounts := h.counts
  have hspec : op.spec = old.spec := h.alike.spec
  exact
    { issued := h.issued
      recorded := by simp [h.approvals]
      asked := hcounts.asked
      bound := by rw [hspec, ← huid]; exact hcounts.bound
      human := hcounts.human
      notOwn := by rw [hspec]; exact hcounts.notOwn
      decision := by
        intro hasked
        have hunapplied : op.status.applied = false :=
          (congrArg Progress.applied h.alike.progress).trans h.held.unapplied
        cases hdecision : a.spec.decision with
        | approve => rfl
        | acceptUnknown => exact absurd hdecision (hcounts.decision hunapplied hasked)
        | reject => exact absurd hdecision h.decided }

def ConsumedOf (r : Reconciler) (s : Store) (X : String) (op : Operation) (t : String) : Prop :=
  ∃ a, Consumed r s X op a ∧ r.policy.inTeams a.spec.groups [t] = true

def Backed (r : Reconciler) (s : Store) (X : String) (op : Operation) : Prop :=
  ∀ t ∈ op.status.approvedTeams, ConsumedOf r s X op t

theorem Backed.of_nil (h : op.status.approvedTeams = []) : Backed r s X op := by
  intro t ht
  simp [h] at ht

theorem Backed.follow (h : Backed r s X old) (hissued : s.issued ⊆ s'.issued)
    (hspec : new.spec = old.spec) (hteams : new.status.approvedTeams = old.status.approvedTeams)
    (happrovals : old.status.approvals ⊆ new.status.approvals)
    (hheld : new.status.times.held = old.status.times.held)
    (hdecision : new.status.askedDecision = some .approve →
      old.status.askedDecision = some .approve) : Backed r s' X new := by
  intro t ht
  rw [hteams] at ht
  obtain ⟨a, ha, hin⟩ := h t ht
  exact ⟨a, ha.follow hissued hspec happrovals hheld hdecision, hin⟩

/-- What an operation must show before it runs: for every team it asks a consumed
approval of that team, and at least one approval if it asks no team, which a
policy that requires an owner team refuses. -/
structure SeparateDuties (r : Reconciler) (s : Store) (X : String) (op : Operation) : Prop where
  teams : ∀ t ∈ op.status.askedOwners, ConsumedOf r s X op t
  anyone : op.status.askedOwners = [] → (∃ a, Consumed r s X op a) ∧
    r.policy.requireOwnerTeam = false

/-! ## Along a run -/

/-- The plan of the operation, if it says what must move first, asks a person to
approve. -/
def Operation.Ordered (op : Operation) : Prop := ∀ p, op.status.plan = some p → p.Ordered

theorem Planned.ordered {p : Plan} (h : Planned r op p) (hpredicted : p.predicted ≠ .rejected) :
    p.Ordered := by
  obtain ⟨input, rfl, -⟩ := h
  exact planFor_ordered r.pkg input hpredicted

theorem Refreshes.ordered {mid : Operation} (h : Refreshes r old mid) (hordered : old.Ordered) :
    mid.Ordered := by
  cases h with
  | same => exact hordered
  | again prev cur next hprev horder hcur hnext =>
    rintro p ⟨⟩
    rw [Reconciler.refreshedPlan] at hnext
    split at hnext
    · cases hnext
    · rename_i hpredicted
      obtain ⟨next', hnext', hkept⟩ := Option.bind_eq_some_iff.mp hnext
      have hsame : next' = next := by
        split at hkept
        · cases hkept
        · exact Option.some.inj hkept
      subst hsame
      split at hnext'
      · rw [← Option.some.inj hnext']
        exact .of_none rfl
      · split at hnext'
        · cases hnext'
        · rw [← Option.some.inj hnext']
          exact hcur.ordered hpredicted

/-- A question planned again asks for an approval only if it did before. -/
theorem Refreshes.askedDecision {mid : Operation} (h : Refreshes r old mid)
    (hordered : old.Ordered) (hasked : mid.status.askedDecision = some .approve) :
    old.status.askedDecision = some .approve := by
  cases h with
  | same => exact hasked
  | again prev cur next hprev horder hcur hnext =>
    rw [OperationStatus.askedDecision, hprev]
    exact (hordered prev hprev horder).decision

theorem subset_approvals {approvals : List ApprovalRecord}
    (h : op.asking.approvals = approvals) : approvals ⊆ op.status.approvals := by
  rw [← h]
  exact List.Subset.refl _

theorem askedDecision_congr (h : new.status.plan = old.status.plan) :
    new.status.askedDecision = old.status.askedDecision := by
  rw [OperationStatus.askedDecision, h, OperationStatus.askedDecision]

theorem askedOwners_congr (h : new.status.plan = old.status.plan) :
    new.status.askedOwners = old.status.askedOwners := by
  rw [OperationStatus.askedOwners, h, OperationStatus.askedOwners]

theorem Answers.ordered (h : Answers r s old a op) (hordered : old.Ordered) : op.Ordered := by
  obtain ⟨mid, hrefresh, hplan⟩ := h.refreshes
  rw [Operation.Ordered, hplan]
  exact hrefresh.ordered hordered

theorem Answers.askedDecision (h : Answers r s old a op) (hordered : old.Ordered)
    (hasked : op.status.askedDecision = some .approve) :
    old.status.askedDecision = some .approve := by
  obtain ⟨mid, hrefresh, hplan⟩ := h.refreshes
  rw [askedDecision_congr hplan] at hasked
  exact hrefresh.askedDecision hordered hasked

theorem Answers.keeps (h : Answers r s old a op) (hordered : old.Ordered) {t : String}
    (hconsumed : ConsumedOf r s X old t) : ConsumedOf r s X op t := by
  obtain ⟨b, hb, hteam⟩ := hconsumed
  refine ⟨b, hb.follow (List.Subset.refl _) h.alike.spec ?_ h.heldAt (h.askedDecision hordered),
    hteam⟩
  rw [h.approvals]
  exact List.subset_append_left _ _

/-- An answer counts the teams it is of. -/
theorem Answers.backed (h : Answers r s old a op) (huid : old.uid = X) (hordered : old.Ordered)
    (hbacked : Backed r s X old) : Backed r s X op := by
  intro t ht
  rw [h.approvedTeams] at ht
  rcases mem_answeredTeams ht with hbefore | ⟨-, hin⟩
  · exact h.keeps hordered (hbacked t hbefore)
  · exact ⟨a, h.consumed huid, hin⟩

/-- The teams that have answered a held operation are backed, unless it asks at
most one. -/
structure Duty (r : Reconciler) (s : Store) (X : String) (op : Operation) : Prop where
  backed : 2 ≤ op.status.askedOwners.length → Backed r s X op
  ordered : op.Ordered

namespace Duty

theorem step (h : HeldStep r s old new) (huid : old.uid = X) (hspec : new.spec = old.spec)
    (hissued : s.issued ⊆ s'.issued) (hold : old.Held → Duty r s X old)
    (hmeets : 2 ≤ new.status.askedOwners.length →
      new.status.approvedTeams ≠ old.status.approvedTeams →
        ∀ st ∈ s.stage.versions, s.reads X ≤ st.resourceVersion → ¬Hinders st old)
    (hwidens : old.Held → old.status.askedOwners.length ≤ 1 →
      2 ≤ new.status.askedOwners.length →
        new.status.approvedTeams = [] ∨ old.status.approvedTeams = []) :
    Duty r s' X new := by
  -- A question that was of one team has no answer to back yet.
  have hback : old.Held → 2 ≤ new.status.askedOwners.length →
      new.status.approvedTeams = [] ∨ Backed r s X old := by
    intro hheld hseveral
    by_cases hone : old.status.askedOwners.length ≤ 1
    · exact (hwidens hheld hone hseveral).imp_right .of_nil
    · exact .inr ((hold hheld).backed (by omega))
  cases h with
  | refreshed mid hheld hrefresh h =>
    obtain ⟨happrovals, hteams, htime⟩ := hrefresh.answers
    have hplan := congrArg Asking.plan h
    refine ⟨fun hseveral => ?_, ?_⟩
    · rcases hback hheld hseveral with hnone | hbacked
      · exact .of_nil hnone
      · refine hbacked.follow hissued hspec ((congrArg Asking.approvedTeams h).trans hteams) ?_
          ((congrArg Asking.held h).trans htime) fun hasked => ?_
        · exact subset_approvals ((congrArg Asking.approvals h).trans happrovals)
        · rw [askedDecision_congr hplan] at hasked
          exact hrefresh.askedDecision (hold hheld).ordered hasked
    · rw [Operation.Ordered, show new.status.plan = _ from hplan]
      exact hrefresh.ordered (hold hheld).ordered
  | counted a op hanswers h =>
    have hplan := congrArg Asking.plan h
    have hordered := (hold hanswers.held).ordered
    refine ⟨fun hseveral => ?_, ?_⟩
    · rcases hback hanswers.held hseveral with hnone | hbacked
      · exact .of_nil hnone
      · refine (hanswers.backed huid hordered hbacked).follow hissued
          (hspec.trans hanswers.alike.spec.symm) (congrArg Asking.approvedTeams h)
          (subset_approvals (congrArg Asking.approvals h)) (congrArg Asking.held h)
          fun hasked => ?_
        rwa [askedDecision_congr hplan] at hasked
    · rw [Operation.Ordered, show new.status.plan = _ from hplan]
      exact hanswers.ordered hordered
  | waited a op cur hlock hmet h =>
    have hplan := congrArg Asking.plan h
    have hordered := (hold hlock.held).ordered
    refine ⟨fun hseveral => ?_, ?_⟩
    · rcases hback hlock.held hseveral with hnone | hbacked
      · exact .of_nil hnone
      · by_cases hteams : new.status.approvedTeams = old.status.approvedTeams
        · refine hbacked.follow hissued hspec hteams
            (subset_approvals (congrArg Asking.approvals h))
            ((congrArg Asking.held h).trans hlock.heldAt) fun hasked => ?_
          rw [askedDecision_congr hplan] at hasked
          exact hlock.askedDecision hordered hasked
        · obtain ⟨st, hst, hread, hhinders⟩ := hmet
          rw [huid] at hread
          exact absurd hhinders (hmeets hseveral hteams st hst hread)
    · rw [Operation.Ordered, show new.status.plan = _ from hplan]
      exact hlock.ordered hordered
  | asked op p now hplanned hpredicted hplan hteams htime =>
    refine ⟨fun _ => .of_nil hteams, fun q hq => ?_⟩
    obtain rfl := Option.some.inj (hplan.symm.trans hq)
    exact hplanned.ordered hpredicted

end Duty

/-- Every held operation of the store has its answers accounted for. -/
def Duties (r : Reconciler) (s : Store) : Prop :=
  ∀ X cell, s.ops X = some cell → cell.latest.Held → Duty r s X cell.latest

theorem Duties.fresh (metadata : ObjectMeta) (spec : StageSpec) :
    Duties r (Store.fresh metadata spec) := by
  intro X cell hcell
  cases hcell

theorem Duties.step (h : Duties r s) (hinv : Inv r s) (haccounted : Accounted s s')
    {e : System.Event r.system} (hhappens : r.Happens e s s') : Duties r s' := by
  intro X cell' hcell' hheld
  obtain ⟨cell, hcell, hspec, hstep⟩ := hhappens.heldStep hcell' hheld
  have hlisted := hinv.listed X cell hcell
  exact Duty.step hstep (hinv.cells X cell hcell).uid hspec
    (Step.of_happens hhappens).evolves.issued (h X cell hcell)
    (haccounted.1 X hlisted cell hcell cell' hcell' hheld)
    (haccounted.2 X hlisted cell hcell cell' hcell')

/-- The approval that takes an operation to the lock is of the only team asked, if
there is only one. -/
theorem Answers.sole (h : Answers r s old a op) {t : String} (ht : t ∈ op.status.askedOwners)
    (hone : op.status.askedOwners.length ≤ 1) : r.policy.inTeams a.spec.groups [t] = true := by
  have hin := h.counts.inTeams
  match howners : op.status.askedOwners, hone with
  | [], _ => simp [howners] at ht
  | [owner], _ =>
    rw [howners, List.mem_singleton] at ht
    rwa [ht, ← howners]
  | _ :: _ :: _, hone => simp at hone

/-- Separation of duties: in a run whose steps account for the answers, an
operation leaves Held for Running only with a consumed approval of every team it
asks. -/
theorem separateDuties_of_accounted {metadata : ObjectMeta} {spec : StageSpec}
    {σ σ' : System.Config api String} (hrun : r.Runs Accounted metadata spec σ)
    {e : System.Event r.system} (hexec : r.system.exec σ e = some σ')
    (haccounted : Accounted σ.shared σ'.shared) {cell cell' : Cell}
    (hcell : σ.shared.ops X = some cell) (hcell' : σ'.shared.ops X = some cell')
    (hheld : cell.latest.Held) (hrunning : cell'.latest.status.phase = .running) :
    SeparateDuties r σ'.shared X cell'.latest := by
  obtain ⟨hgood, hduties⟩ := runs_asks hrun (Duties.fresh metadata spec)
    fun _ _ _ hinv h hallowed hhappens => h.step hinv hallowed hhappens
  have hhappens : r.Happens e σ.shared σ'.shared := (hgood.step (reconcile_asks r) hexec).2
  have hinv := hgood.holds
  have huid := (hinv.cells X cell hcell).uid
  have hduty := hduties X cell hcell hheld
  have hissued := (Step.of_happens hhappens).evolves.issued
  obtain ⟨hspec, hstep⟩ : cell'.latest.spec = cell.latest.spec ∧
      HoldStep r σ.shared cell.latest cell'.latest := by
    refine ⟨?_, (hhappens.holdStep hcell hcell').resolve_left fun hsame => ?_⟩
    · obtain ⟨cell₂, hcell₂, hspec, -⟩ := (Step.of_happens hhappens).cell hcell
      rwa [Option.some.inj (hcell'.symm.trans hcell₂)]
    · rw [hsame, hheld.phase] at hrunning
      cases hrunning
  obtain ⟨a, op, cur, hlock, hasking⟩ := hstep.atLock hheld hrunning
  have hplan : cell'.latest.status.plan = op.status.plan := congrArg Asking.plan hasking
  -- What `op` consumed is what the version that runs shows.
  have hshows : ∀ b, Consumed r σ.shared X op b → Consumed r σ'.shared X cell'.latest b := by
    intro b hb
    refine hb.follow hissued (hspec.trans hlock.alike.spec.symm)
      (subset_approvals (congrArg Asking.approvals hasking))
      (congrArg Asking.held hasking) fun hasked => ?_
    rwa [askedDecision_congr hplan] at hasked
  have hlast := hlock.consumed huid
  constructor
  · intro t ht
    rw [askedOwners_congr hplan] at ht
    by_cases hone : op.status.askedOwners.length ≤ 1
    · exact ⟨a, hshows a hlast, hlock.sole ht hone⟩
    · have hseveral : 2 ≤ cell'.latest.status.askedOwners.length := by
        rw [askedOwners_congr hplan]
        omega
      have hteam := mem_of_teamsWaiting_eq_nil hlock.complete t ht
      have hbacked : Backed r σ.shared X cell.latest := by
        by_cases hwas : cell.latest.status.askedOwners.length ≤ 1
        · refine .of_nil ((haccounted.2 X (hinv.listed X cell hcell) cell hcell cell' hcell' hheld
            hwas hseveral).resolve_left ?_)
          rw [show cell'.latest.status.approvedTeams = _ from congrArg Asking.approvedTeams hasking]
          exact List.ne_nil_of_mem hteam
        · exact hduty.backed (by omega)
      obtain ⟨b, hb, hin⟩ := hlock.backed huid hduty.ordered hbacked t hteam
      exact ⟨b, hshows b hb, hin⟩
  · intro hnone
    rw [askedOwners_congr hplan] at hnone
    exact ⟨⟨a, hshows a hlast⟩, hlock.counts.owned hnone⟩

/-! ## A team forgotten by a lock that waits -/

/-- What can be seen of a step that takes `p1` from Held to Running. -/
structure Release where
  held : Bool
  phase : Option Phase
  owners : List String
  approvals : List ApprovalRecord
  deriving DecidableEq

@[inherit_doc Release]
def release (s s' : Store) : Release where
  held := (s.ops "p1").any fun cell => decide cell.latest.Held
  phase := (s'.ops "p1").map fun cell => cell.latest.status.phase
  owners := ((s'.ops "p1").map fun cell => cell.latest.status.askedOwners).getD []
  approvals := ((s'.ops "p1").map fun cell => cell.latest.status.approvals).getD []

theorem cells_of_release {owners : List String} {approvals : List ApprovalRecord}
    (h : release s s' = ⟨true, some .running, owners, approvals⟩) :
    ∃ cell cell', s.ops "p1" = some cell ∧ s'.ops "p1" = some cell' ∧ cell.latest.Held ∧
      cell'.latest.status.phase = .running ∧ cell'.latest.status.askedOwners = owners ∧
      cell'.latest.status.approvals = approvals := by
  simp only [release, Release.mk.injEq] at h
  obtain ⟨hheld, hphase, howners, happrovals⟩ := h
  obtain ⟨cell', hcell', hphase⟩ := Option.map_eq_some_iff.mp hphase
  obtain ⟨cell, hcell, hheld⟩ := (Option.any_eq_true _ _).mp hheld
  rw [hcell'] at howners happrovals
  exact ⟨cell, cell', hcell, hcell', of_decide_eq_true hheld, hphase, howners, happrovals⟩

/-- Two consumers, each of its own team. -/
def twoTeams : List (String × String) := [("cart", "checkout"), ("ledger", "orders")]

def bothAnswer : List (System.Event breakingReconciler.system) :=
  heldPromote twoTeams ++
    answers twoTeams (teamApproval "a1" "ann" "checkout") 7 ++
    answers twoTeams (teamApproval "a2" "bob" "orders") 10

theorem separateDuties_bothAnswer :
    ∃ σ σ' cell cell' o, breakingReconciler.Runs Accounted quietStage autonomousStage σ ∧
      breakingReconciler.system.exec σ (.call "p1" o) = some σ' ∧
      σ.shared.ops "p1" = some cell ∧ σ'.shared.ops "p1" = some cell' ∧ cell.latest.Held ∧
      cell'.latest.status.phase = .running ∧
      cell'.latest.status.askedOwners = ["checkout", "orders"] ∧
      SeparateDuties breakingReconciler σ'.shared "p1" cell'.latest := by
  obtain ⟨σ, σ', hrun, hexec, hend⟩ := breakingReconciler.exists_step Accounted quietStage
    autonomousStage bothAnswer (.call "p1" {})
    (fun s s' => (release s s', decide (Accounted s s')))
    (⟨true, some .running, ["checkout", "orders"],
      [recordOf (teamApproval "a1" "ann" "checkout"), recordOf (teamApproval "a2" "bob" "orders")]⟩,
      true) (by decide +kernel)
  obtain ⟨hrelease, haccounted⟩ := Prod.mk.inj hend
  obtain ⟨cell, cell', hcell, hcell', hheld, hphase, howners, -⟩ := cells_of_release hrelease
  exact ⟨σ, σ', cell, cell', {}, hrun, hexec, hcell, hcell', hheld, hphase, howners,
    separateDuties_of_accounted hrun hexec (of_decide_eq_true haccounted) hcell hcell' hheld hphase⟩

/-- The second team answers while the Stage is frozen, so the lock waits and its
approval is not consumed.  Once the Stage is unfrozen the approval is withdrawn,
and somebody else of the first team approves. -/
def forgottenTeam : List (System.Event breakingReconciler.system) :=
  heldPromote twoTeams ++
    answers twoTeams (teamApproval "a1" "ann" "checkout") 7 ++
    breakingReconciler.personally "f1" .freeze "" 6 ++
    answers twoTeams (teamApproval "a2" "bob" "orders") 9 ++
    breakingReconciler.personally "f2" .unfreeze "" 6 ++
    answers twoTeams (teamApproval "a3" "cat" "checkout") 10

/-- The promote runs without a consumed approval of the second team. -/
theorem not_separateDuties_forgottenTeam :
    ∃ σ σ' cell cell', breakingReconciler.Runs (fun _ _ => True) quietStage autonomousStage σ ∧
      breakingReconciler.system.exec σ (.call "p1" {}) = some σ' ∧
      σ.shared.ops "p1" = some cell ∧ σ'.shared.ops "p1" = some cell' ∧ cell.latest.Held ∧
      cell'.latest.status.phase = .running ∧
      ¬SeparateDuties breakingReconciler σ'.shared "p1" cell'.latest := by
  obtain ⟨σ, σ', hrun, hexec, hend⟩ := breakingReconciler.exists_step (fun _ _ => True) quietStage
    autonomousStage forgottenTeam (.call "p1" {})
    (fun s s' => (release s s', s'.issued.map (·.approval)))
    (⟨true, some .running, ["checkout", "orders"],
      [recordOf (teamApproval "a1" "ann" "checkout"), recordOf (teamApproval "a3" "cat" "checkout")]⟩,
      [teamApproval "a1" "ann" "checkout", teamApproval "a2" "bob" "orders",
        teamApproval "a3" "cat" "checkout"]) (by decide +kernel)
  obtain ⟨hrelease, hissued⟩ := Prod.mk.inj hend
  obtain ⟨cell, cell', hcell, hcell', hheld, hphase, howners, happrovals⟩ :=
    cells_of_release hrelease
  refine ⟨σ, σ', cell, cell', hrun, hexec, hcell, hcell', hheld, hphase, fun hduties => ?_⟩
  obtain ⟨a, hconsumed, hin⟩ := hduties.teams "orders" (by rw [howners]; decide)
  obtain ⟨i, hi, rfl⟩ := hconsumed.issued
  have hmem := List.mem_map_of_mem (f := fun i : Issued => i.approval) hi
  have hrecorded := hconsumed.recorded
  rw [hissued] at hmem
  rw [happrovals] at hrecorded
  revert hrecorded hin
  revert hmem
  generalize i.approval = a
  intro hmem
  simp only [List.mem_cons, List.not_mem_nil, or_false] at hmem
  rcases hmem with rfl | rfl | rfl <;> decide

end Pacto.Promoter
