import Pacto.Delivery.Recheck
import Pacto.Promoter.Question

/-!
# What an approval covers

Whoever approves a held promote sees the stored plan and the consumers it
names.  A reconcile plans the question again before it reads approvals, and
compares the plan at the lock with that one, so a consumer found meanwhile can
ship on an approval whose giver never saw it.  Where a consumer is added only
before anybody approved, every approval that counts covers the plan at the
lock.
-/

namespace Pacto.Promoter

open Delivery Support

variable {r : Reconciler} {X : String} {s s' : Store} {cell cell' : Cell} {op : Operation}
  {v : Operation} {a : Approval} {i : Issued} {t : String}

def consumersOf (plan : Option Plan) : List String := (plan.map (·.floor.consumers)).getD []

/-- The approval was given for `X` no earlier than the time `held`. -/
structure GivenSince (X : String) (held : Option Nat) (i : Issued) : Prop where
  bound : i.approval.spec.operationUID = X
  since : ∀ time ∈ held, time ≤ i.approval.created

instance (X : String) (held : Option Nat) (i : Issued) : Decidable (GivenSince X held i) :=
  decidable_of_iff
    (i.approval.spec.operationUID = X ∧ ∀ time ∈ held, time ≤ i.approval.created)
    ⟨fun h => ⟨h.1, h.2⟩, fun h => ⟨h.bound, h.since⟩⟩

/-- A step that holds an operation, asks it again or adds a consumer to what it
asks finds no approval given since it is held. -/
def Unasked (s s' : Store) : Prop :=
  ∀ X ∈ s.uids, ∀ cell ∈ s.ops X, ∀ cell' ∈ s'.ops X, cell'.latest.Held →
    (¬cell.latest.Held ∨ cell'.latest.status.times.held ≠ cell.latest.status.times.held ∨
      ¬∀ c ∈ consumersOf cell'.latest.status.plan, c ∈ consumersOf cell.latest.status.plan) →
    ∀ i ∈ s.issued, ¬GivenSince X cell'.latest.status.times.held i

instance (s s' : Store) : Decidable (Unasked s s') := by
  unfold Unasked
  infer_instance

/-- A reconcile took the approval for the team `t` since the operation was last held:
the team had not answered on the version it started from, and has on one it wrote. -/
structure TakenFor (r : Reconciler) (s : Store) (cell : Cell) (t : String) (i : Issued) :
    Prop where
  issued : i ∈ s.issued
  team : r.policy.inTeams i.approval.spec.groups [t] = true
  taken : ∃ v ∈ cell.register.versions, ∃ w ∈ cell.register.versions, ∃ op,
    v.status.times.held = cell.latest.status.times.held ∧ Answers r s v i.approval op ∧
      t ∉ v.status.approvedTeams ∧ t ∈ w.status.approvedTeams ∧
      w.status.approvedTeams = op.status.approvedTeams

/-- The approval counts for the team `t` in a reconcile that takes `a`: it is `a`, or an
earlier reconcile took it. -/
structure CountedFor (r : Reconciler) (s : Store) (cell : Cell) (a : Approval) (t : String)
    (i : Issued) : Prop where
  issued : i ∈ s.issued
  team : r.policy.inTeams i.approval.spec.groups [t] = true
  taken : i.approval = a ∨ TakenFor r s cell t i

theorem TakenFor.mono (h : TakenFor r s cell t i) (hevolves : Evolves s s')
    (hversions : cell.register.versions ⊆ cell'.register.versions)
    (hheld : cell'.latest.status.times.held = cell.latest.status.times.held) :
    TakenFor r s' cell' t i := by
  obtain ⟨v, hv, w, hw, op, hsame, hanswers, hteams⟩ := h.taken
  exact ⟨hevolves.issued h.issued, h.team, v, hversions hv, w, hversions hw, op,
    hsame.trans hheld.symm, hanswers.mono hevolves, hteams⟩

/-- A team that has answered once the approval `a` is taken had answered before, or is
one `a` speaks for. -/
theorem Answers.mem_approvedTeams (h : Answers r s v a op) (ht : t ∈ op.status.approvedTeams) :
    t ∈ v.status.approvedTeams ∨
      ∃ i ∈ s.issued, i.approval = a ∧ r.policy.inTeams i.approval.spec.groups [t] = true := by
  rw [h.approvedTeams] at ht
  obtain ⟨i, hi, rfl⟩ := h.issued
  exact (mem_answeredTeams ht).imp_right fun hin => ⟨i, hi, rfl, hin.2⟩

/-- A team that has answered on what a reconcile wrote had answered before, or the
approval the reconcile took was taken for it. -/
theorem Answers.takenFor (h : Answers r s cell.latest a op) (hevolves : Evolves s s')
    (hversions : cell.register.versions ⊆ cell'.register.versions)
    (hheld : cell'.latest.status.times.held = cell.latest.status.times.held)
    (hteams : cell'.latest.status.approvedTeams = op.status.approvedTeams)
    (hbefore : ∀ t ∈ cell.latest.status.approvedTeams, ∃ i, TakenFor r s cell t i)
    (ht : t ∈ cell'.latest.status.approvedTeams) : ∃ i, TakenFor r s' cell' t i := by
  by_cases hteam : t ∈ cell.latest.status.approvedTeams
  · obtain ⟨i, hi⟩ := hbefore t hteam
    exact ⟨i, hi.mono hevolves hversions hheld⟩
  · obtain ⟨i, hi, rfl, hin⟩ := (h.mem_approvedTeams (hteams ▸ ht)).resolve_left hteam
    exact ⟨i, hevolves.issued hi, hin, cell.latest, hversions cell.register.latest_mem,
      cell'.latest, cell'.register.latest_mem, op, hheld.symm, h.mono hevolves, hteam, ht, hteams⟩

/-- An approval that is taken was given since the operation was last held. -/
theorem Answers.givenSince (h : Answers r s v i.approval op) (hinv : Inv r s)
    (hcell : s.ops X = some cell) (hv : v ∈ cell.register.versions)
    (hsame : v.status.times.held = cell.latest.status.times.held) :
    GivenSince X cell.latest.status.times.held i := by
  have hok := hinv.cells X cell hcell
  have hcounts := h.counts
  refine ⟨?_, fun time htime => ?_⟩
  · rw [← hok.uid, ← show v.uid = cell.latest.uid from congrArg ObjectMeta.uid (hok.same v hv).1]
    exact hcounts.bound.1
  · exact hcounts.asked time (h.heldAt.trans (hsame.trans htime))

/-! ## Along a run -/

/-- Of a held operation: every approval given since it is held was shown all the
consumers its question names, and every team that has answered did so by such an
approval. -/
structure Covered (r : Reconciler) (s : Store) (X : String) (cell : Cell) : Prop where
  shown : ∀ i ∈ s.issued, GivenSince X cell.latest.status.times.held i →
    ∀ c ∈ consumersOf cell.latest.status.plan, c ∈ consumersOf i.shown
  counted : ∀ t ∈ cell.latest.status.approvedTeams, ∃ i, TakenFor r s cell t i

/-- What a step of a held question does to the teams that have answered. -/
theorem HeldStep.takenFor (h : HeldStep r s cell.latest cell'.latest) (hevolves : Evolves s s')
    (hversions : cell.register.versions ⊆ cell'.register.versions)
    (hbefore : cell.latest.Held →
      ∀ t ∈ cell.latest.status.approvedTeams, ∃ i, TakenFor r s cell t i)
    (ht : t ∈ cell'.latest.status.approvedTeams) : ∃ i, TakenFor r s' cell' t i := by
  cases h with
  | refreshed mid hold hrefresh h =>
    obtain ⟨-, hteams, hheld⟩ := hrefresh.answers
    rw [show cell'.latest.status.approvedTeams = _ from congrArg Asking.approvedTeams h] at ht
    obtain ⟨i, hi⟩ := hbefore hold t (hteams ▸ ht)
    exact ⟨i, hi.mono hevolves hversions ((congrArg Asking.held h).trans hheld)⟩
  | counted a op hanswers h =>
    exact hanswers.takenFor hevolves hversions ((congrArg Asking.held h).trans hanswers.heldAt)
      (congrArg Asking.approvedTeams h) (hbefore hanswers.held) ht
  | waited a op cur hlock hmet h =>
    exact hlock.takenFor hevolves hversions ((congrArg Asking.held h).trans hlock.heldAt)
      (congrArg Asking.approvedTeams h) (hbefore hlock.held) ht
  | asked op p now hplanned hpredicted hplan hteams hheld => simp [hteams] at ht

def AllCovered (r : Reconciler) (s : Store) : Prop :=
  ∀ X cell, s.ops X = some cell → cell.latest.Held → Covered r s X cell

theorem AllCovered.fresh (metadata : ObjectMeta) (spec : StageSpec) :
    AllCovered r (Store.fresh metadata spec) := by
  intro X cell hcell
  cases hcell

theorem AllCovered.shown_step (h : AllCovered r s) (hinv : Inv r s) (hunasked : Unasked s s')
    (hstep : Step r s s') (hcell : s.ops X = some cell) (hcell' : s'.ops X = some cell')
    (hheld : cell'.latest.Held) (hi : i ∈ s'.issued)
    (hsince : GivenSince X cell'.latest.status.times.held i) :
    ∀ c ∈ consumersOf cell'.latest.status.plan, c ∈ consumersOf i.shown := by
  rcases hstep.issued hi with hbefore | ⟨hops, hshown⟩
  · -- An approval that was there already leaves no room for a wider question.
    have hquiet := fun hchange =>
      hunasked X (hinv.listed X cell hcell) cell hcell cell' hcell' hheld hchange i hbefore hsince
    rw [imp_false, not_or, not_or, not_not, not_not, not_not] at hquiet
    obtain ⟨hold, htime, hconsumers⟩ := hquiet
    rw [htime] at hsince
    exact fun c hc => (h X cell hcell hold).shown i hbefore hsince c (hconsumers c hc)
  · rw [hops, hcell] at hcell'
    obtain rfl := Option.some.inj hcell'
    rw [hshown, hsince.bound, hcell]
    exact fun c hc => hc

theorem AllCovered.step (h : AllCovered r s) (hinv : Inv r s) (hunasked : Unasked s s')
    {e : System.Event r.system} (hhappens : r.Happens e s s') : AllCovered r s' := by
  intro X cell' hcell' hheld
  have hstep := Step.of_happens hhappens
  obtain ⟨cell, hcell, -, hheldStep⟩ := hhappens.heldStep hcell' hheld
  obtain ⟨cell₂, hcell₂, hgrows, -⟩ := hstep.evolves.cells X cell hcell
  obtain rfl := Option.some.inj (hcell'.symm.trans hcell₂)
  exact
    { shown := fun i hi hsince => h.shown_step hinv hunasked hstep hcell hcell' hheld hi hsince
      counted := fun t ht => hheldStep.takenFor hstep.evolves (fun _ => hgrows.mem)
        (fun hold => (h X cell hcell hold).counted) ht }

/-- An approval covers only what its giver was asked: in a run that widens no
question somebody answered, whenever a held promote reaches the lock on a
question it does not widen either, every team the plan at the lock asks has an
approval that counted and was given on a plan with all its consumers. -/
theorem covers_of_unasked {metadata : ObjectMeta} {spec : StageSpec}
    {σ : System.Config api String} (hrun : r.Runs Unasked metadata spec σ)
    (hcell : σ.shared.ops X = some cell) (htype : cell.latest.spec.type = .promote) {cur : Plan}
    (hlock : AtLock r σ.shared cell.latest a op (some cur)) (hasks : cur.floor.human = true)
    (hconsumers : ∀ c ∈ consumersOf op.status.plan, c ∈ consumersOf cell.latest.status.plan) :
    ∀ t ∈ cur.floor.owners, ∃ i, CountedFor r σ.shared cell a t i ∧
      ∀ c ∈ cur.floor.consumers, c ∈ consumersOf i.shown := by
  obtain ⟨hgood, hcovered⟩ := runs_asks hrun (AllCovered.fresh metadata spec)
    fun _ _ _ hinv h hallowed hhappens => h.step hinv hallowed hhappens
  have hinv := hgood.holds
  have hcover := hcovered X cell hcell hlock.held
  obtain ⟨p, hp, -, -, hpasses⟩ := hlock.rechecked (.inl (by rw [hlock.alike.spec, htype]))
  obtain rfl := Option.some.inj hp
  obtain ⟨prev, hprev, hpasses⟩ := (Option.any_eq_true _ _).mp hpasses
  have hwithin := ((stillPasses_iff prev cur).mp hpasses).2 hasks
  have howners : op.status.askedOwners = prev.floor.owners := by
    rw [OperationStatus.askedOwners, hprev]
  intro t ht
  have hteam : t ∈ op.status.approvedTeams :=
    mem_of_teamsWaiting_eq_nil hlock.complete t (howners ▸ hwithin.owners t ht)
  have hcounts : ∃ i, CountedFor r σ.shared cell a t i ∧
      GivenSince X cell.latest.status.times.held i := by
    rcases hlock.mem_approvedTeams hteam with hbefore | ⟨i, hi, rfl, hin⟩
    · obtain ⟨i, htaken⟩ := hcover.counted t hbefore
      obtain ⟨v, hv, -, -, op', hsame, hanswers, -⟩ := htaken.taken
      exact ⟨i, ⟨htaken.issued, htaken.team, .inr htaken⟩, hanswers.givenSince hinv hcell hv hsame⟩
    · exact ⟨i, ⟨hi, hin, .inl rfl⟩,
        hlock.givenSince hinv hcell cell.register.latest_mem rfl⟩
  obtain ⟨i, hi, hsince⟩ := hcounts
  refine ⟨i, hi, fun c hc => hcover.shown i hi.issued hsince c (hconsumers c ?_)⟩
  rw [hprev]
  exact hwithin.consumers c hc

/-! ## A consumer nobody was asked about -/

def breakingInput (consumers : List (String × String)) : PlanInput where
  spec := firstPromote
  stage := autonomousStage
  status := { published := [digestOf 'a'] }
  «from» := {}
  «to» := shopRevision 'a'
  snapshot := some { services := consumers.map fun (name, team) => (name, [team]) }
  cls := .agent
  requireOwnerTeam := false

def breakingPlan (consumers : List (String × String)) : Plan :=
  planFor breakingPackages (breakingInput consumers)

def heldOperation (consumers : List (String × String)) : Operation :=
  Reconciler.heldFor
    { metadata := { name := "p1", ns := "shop", uid := "p1" }
      spec := firstPromote
      status :=
        { phase := .pending, actorClass := some .agent, guarded := true
          times := { admitted := some 0, approvalDeadline := some defaultApprovalDeadline } }
      resourceVersion := 2 }
    (breakingPlan consumers) 0 "AwaitingHuman" "a person must approve"

def replanned (v : Operation) (plan : Plan) : Operation :=
  { v with
    status :=
      { v.status with
        plan := some plan
        question := plan.question
        verdicts := mergeVerdicts v.status.verdicts plan.verdicts } }

/-- The promote once it took an approval. -/
def taking (v : Operation) (a : Approval) : Operation :=
  { v with
    status :=
      { v.status with
        approvals := v.status.approvals ++ [recordOf a]
        approvedTeams :=
          answeredTeams breakingReconciler.policy v.status.askedOwners a.spec.groups
            v.status.approvedTeams } }

theorem planned_breakingPlan (consumers : List (String × String)) {v : Operation}
    (hspec : v.spec = firstPromote) (hclass : v.status.actorClass = some .agent) :
    Planned breakingReconciler v (breakingPlan consumers) :=
  ⟨breakingInput consumers, rfl, hspec.symm, by rw [hclass]; rfl⟩

/-- One consumer, and another one of the same team. -/
def cart : List (String × String) := [("cart", "checkout")]
@[inherit_doc cart] def cartAndTill : List (String × String) := cart ++ [("till", "checkout")]

def annApproves : Approval := teamApproval "a1" "ann" "checkout"

/-- `approval` counts ann's approval of the promote, and the lock finds `plan` to
be covered. -/
def Passes (v : Operation) (plan : Plan) : Prop :=
  approvalRefusal v.spec v.status v.uid annApproves.spec annApproves.created
      breakingReconciler.policy breakingReconciler.freshness = none ∧
    teamsWaiting v.status.askedOwners (taking v annApproves).status.approvedTeams = [] ∧
    plan.predicted ≠ .rejected ∧ v.status.plan.any (stillPasses · plan) = true

instance (v : Operation) (plan : Plan) : Decidable (Passes v plan) :=
  inferInstanceAs (Decidable (_ ∧ _ ∧ _ ∧ _))

theorem atLock_of_passes {v mid : Operation} {plan : Plan} {i : Issued} (hi : i ∈ s.issued)
    (ha : i.approval = annApproves) (hheld : v.Held)
    (hrefresh : Refreshes breakingReconciler v mid)
    (hplanned : Planned breakingReconciler (taking mid annApproves) plan)
    (hpasses : Passes mid plan) :
    AtLock breakingReconciler s v annApproves (taking mid annApproves) (some plan) where
  held := hheld
  taken := ⟨mid, hrefresh, ⟨i, hi, ha⟩, hpasses.1, rfl⟩
  decided := by decide
  complete := hpasses.2.1
  rechecked := fun _ => ⟨plan, rfl, hplanned, hpasses.2.2⟩

theorem covers_cart :
    ∃ σ cell op cur, breakingReconciler.Runs Unasked quietStage autonomousStage σ ∧
      σ.shared.ops "p1" = some cell ∧ cell.latest.spec.type = .promote ∧
      AtLock breakingReconciler σ.shared cell.latest annApproves op (some cur) ∧
      cur.floor.owners = ["checkout"] ∧ cur.floor.consumers = ["cart"] ∧
      ∀ t ∈ cur.floor.owners, ∃ i, CountedFor breakingReconciler σ.shared cell annApproves t i ∧
        ∀ c ∈ cur.floor.consumers, c ∈ consumersOf i.shown := by
  obtain ⟨σ, hrun, hend⟩ := breakingReconciler.exists_run Unasked quietStage autonomousStage
    (heldPromote cart ++ breakingReconciler.acts [.approve annApproves])
    (fun s => ((s.ops "p1").map (·.latest), s.issued))
    (some (heldOperation cart), [⟨annApproves, some (breakingPlan cart)⟩]) (by decide +kernel)
  obtain ⟨hlatest, hissued⟩ := Prod.mk.inj hend
  obtain ⟨cell, hcell, hlatest⟩ := Option.map_eq_some_iff.mp hlatest
  have hplan : Passes (heldOperation cart) (breakingPlan cart) ∧
      (breakingPlan cart).floor.human = true ∧ (breakingPlan cart).floor.owners = ["checkout"] ∧
      (breakingPlan cart).floor.consumers = ["cart"] := by decide +kernel
  obtain ⟨hpasses, hhuman, howners, hconsumers⟩ := hplan
  have hlock := atLock_of_passes (s := σ.shared) (i := ⟨annApproves, some (breakingPlan cart)⟩)
    (by simp [hissued]) rfl ⟨rfl, rfl⟩ .same (planned_breakingPlan cart rfl rfl) hpasses
  rw [← hlatest] at hlock
  have htype : cell.latest.spec.type = .promote := by rw [hlatest]; rfl
  exact ⟨σ, cell, _, _, hrun, hcell, htype, hlock, howners, hconsumers,
    covers_of_unasked hrun hcell htype hlock hhuman fun c hc => hc⟩

/-- A second consumer of the team shows up between the approval and the reconcile
that takes it. -/
def unseenTill : List (System.Event breakingReconciler.system) :=
  heldPromote cart ++ answers cartAndTill annApproves 10

/-- The promote runs and breaks a consumer nobody saw when they approved it. -/
theorem not_covers_unseenTill :
    ∃ σ σ' cell cell' o op cur,
      breakingReconciler.Runs (fun _ _ => True) quietStage autonomousStage σ ∧
      breakingReconciler.system.exec σ (.call "p1" o) = some σ' ∧
      σ.shared.ops "p1" = some cell ∧ cell.latest.spec.type = .promote ∧
      σ'.shared.ops "p1" = some cell' ∧ cell'.latest.status.phase = .running ∧
      AtLock breakingReconciler σ.shared cell.latest annApproves op (some cur) ∧
      cell'.latest.asking = op.asking ∧ cur.floor.human = true ∧
      ∃ t ∈ cur.floor.owners, ∀ i, CountedFor breakingReconciler σ.shared cell annApproves t i →
        ¬∀ c ∈ cur.floor.consumers, c ∈ consumersOf i.shown := by
  obtain ⟨σ, σ', hrun, hexec, hend⟩ := breakingReconciler.exists_step (fun _ _ => True) quietStage
    autonomousStage unseenTill (.call "p1" {})
    (fun s s' => ((s.ops "p1").map (·.latest), s.issued,
      (s'.ops "p1").map fun cell => (cell.latest.status.phase, cell.latest.asking)))
    (some (heldOperation cart), [⟨annApproves, some (breakingPlan cart)⟩],
      some (.running,
        (taking (replanned (heldOperation cart) (breakingPlan cartAndTill)) annApproves).asking))
    (by decide +kernel)
  simp only [Prod.mk.injEq] at hend
  obtain ⟨hlatest, hissued, hnext⟩ := hend
  obtain ⟨cell, hcell, hlatest⟩ := Option.map_eq_some_iff.mp hlatest
  obtain ⟨cell', hcell', hnext⟩ := Option.map_eq_some_iff.mp hnext
  obtain ⟨hphase, hasking⟩ := Prod.mk.inj hnext
  have hplan : ((breakingPlan cart).order.isSome = true ∧
        Reconciler.refreshedPlan (heldOperation cart) (breakingPlan cart)
          (breakingPlan cartAndTill) = some (breakingPlan cartAndTill)) ∧
      Passes (replanned (heldOperation cart) (breakingPlan cartAndTill))
        (breakingPlan cartAndTill) ∧
      (breakingPlan cartAndTill).floor.human = true ∧
      "checkout" ∈ (breakingPlan cartAndTill).floor.owners ∧
      ¬∀ c ∈ (breakingPlan cartAndTill).floor.consumers,
        c ∈ consumersOf (some (breakingPlan cart)) := by decide +kernel
  obtain ⟨⟨horder, hnext⟩, hpasses, hhuman, howner, hunseen⟩ := hplan
  have hlock := atLock_of_passes (s := σ.shared) (i := ⟨annApproves, some (breakingPlan cart)⟩)
    (by simp [hissued]) rfl ⟨rfl, rfl⟩
    (.again _ _ _ rfl horder (planned_breakingPlan cartAndTill rfl rfl) hnext)
    (planned_breakingPlan cartAndTill rfl rfl) hpasses
  rw [← hlatest] at hlock
  refine ⟨σ, σ', cell, cell', {}, _, _, hrun, hexec, hcell, by rw [hlatest]; rfl, hcell', hphase,
    hlock, by rw [hasking, hlatest]; rfl, hhuman, "checkout", howner, fun i hi => ?_⟩
  have hmem := hi.issued
  rw [hissued, List.mem_singleton] at hmem
  rw [hmem]
  exact hunseen

end Pacto.Promoter
