import Pacto.Delivery.Gates

/-!
# Stricter policies

Two plans of one promote whose Stages differ only in policy: the level,
whether every promote is approved, whether records are required and whether
only declared consumers count.  A stricter policy never predicts less.  What it
asks for can differ in one way: an unknown the looser policy waved through is
asked first, and a plan that asks already keeps its own question.
-/

namespace Pacto.Delivery

/-! ## Policies -/

/-- What a Stage decides about promotes, apart from what they are judged by. -/
structure Policy where
  level : Level
  startLevel : Level
  approvalAlways : Bool
  recordsRequired : Bool
  declaredConsumersOnly : Bool
  deriving DecidableEq, Repr

/-- The level the policy puts a Stage on. -/
def Policy.current (q : Policy) : Level :=
  if q.level ≠ .unset then q.level
  else if 0 ≤ q.startLevel.rank then q.startLevel
  else .observe

namespace PlanInput

def policy (input : PlanInput) : Policy where
  level := input.status.level
  startLevel := input.stage.startLevel
  approvalAlways := input.stage.approvalAlways
  recordsRequired := input.stage.recordsRequired
  declaredConsumersOnly := input.stage.declaredConsumersOnly

def withPolicy (input : PlanInput) (q : Policy) : PlanInput :=
  { input with
    stage :=
      { input.stage with
        startLevel := q.startLevel
        approvalAlways := q.approvalAlways
        recordsRequired := q.recordsRequired
        declaredConsumersOnly := q.declaredConsumersOnly }
    status := { input.status with level := q.level } }

end PlanInput

/-- `q` asks for at least as much as `p`, on the ladder. -/
structure Policy.Stricter (p q : Policy) : Prop where
  onLadder : 0 ≤ q.current.rank
  level : q.current.rank ≤ p.current.rank
  always : p.approvalAlways = true → q.approvalAlways = true
  records : p.recordsRequired = true → q.recordsRequired = true
  declared : q.declaredConsumersOnly = true → p.declaredConsumersOnly = true

/-- `q` counts the callers no contract declares, and `p` does not. -/
def Policy.Drops (p q : Policy) : Prop :=
  p.declaredConsumersOnly = true ∧ q.declaredConsumersOnly = false

/-- How far a prediction is from shipping. -/
def Prediction.severity : Prediction → Nat
  | .proceeds => 0
  | .waits => 1
  | .held => 2
  | .rejected => 3

theorem Prediction.severity_le_rejected (p : Prediction) : p.severity ≤ Prediction.rejected.severity := by
  cases p <;> decide

theorem Level.eq_observe_of_rank {l : Level} (h : 0 ≤ l.rank) (h' : l.rank ≤ 0) : l = .observe := by
  cases l <;> simp_all [Level.rank]

/-! ## Plans judged alike -/

/-- Two verdicts of one gate that cite the same and fail together. -/
structure Verdict.Alike (v w : Verdict) : Prop where
  gate : w.gate = v.gate
  citation : w.citation = v.citation
  fail : w.result = .fail ↔ v.result = .fail

instance : Std.Refl Verdict.Alike := ⟨fun _ => ⟨rfl, rfl, Iff.rfl⟩⟩

theorem Verdict.Alike.cite {v w : Verdict} (h : v.Alike w) (key : String) :
    w.cite key = v.cite key := by
  rw [Verdict.cite, Verdict.cite, h.citation]

/-- The first verdict of a gate is cited alike on both sides. -/
theorem find?_alike {vs ws : List Verdict} (h : List.Forall₂ Verdict.Alike vs ws) (gate : String) :
    Option.Rel Verdict.Alike (vs.find? (·.gate = gate)) (ws.find? (·.gate = gate)) := by
  induction h with
  | nil => exact .none
  | @cons v w vs ws hvw _ ih =>
    by_cases hgate : v.gate = gate
    · rw [List.find?_cons_of_pos (by simpa using hgate),
        List.find?_cons_of_pos (by simpa [hvw.gate] using hgate)]
      exact .some hvw
    · rw [List.find?_cons_of_neg (by simpa using hgate),
        List.find?_cons_of_neg (by simpa [hvw.gate] using hgate)]
      exact ih

theorem any_fail_alike {vs ws : List Verdict} (h : List.Forall₂ Verdict.Alike vs ws) :
    ws.any (·.result = .fail) = vs.any (·.result = .fail) := by
  induction h with
  | nil => rfl
  | cons hvw _ ih => rw [List.any_cons, List.any_cons, ih, decide_eq_decide.mpr hvw.fail]

/-- The plan asks a person to approve, or an unknown that `dropped` uncovered
is asked in its place. -/
def Plan.AsksOr (dropped : Prop) (q : Plan) : Prop :=
  q.AsksApproval ∨
    (dropped ∧ q.floor.human = true ∧ q.floor.decision = some .acceptUnknown)

theorem Plan.AsksOr.human {dropped : Prop} {q : Plan} (h : q.AsksOr dropped) :
    q.floor.human = true := by
  rcases h with h | ⟨-, h, -⟩
  · exact h.human
  · exact h

/-- `q` is judged like `p` and asks at least as much. -/
structure Plan.Sterner (dropped : Prop) (p q : Plan) : Prop where
  verdicts : List.Forall₂ Verdict.Alike p.verdicts q.verdicts
  human : p.floor.human = true → q.floor.human = true
  approve : p.AsksApproval → q.AsksOr dropped
  ahead : q.floor.human = true → p.floor.human = true ∨ q.AsksOr dropped

namespace Plan

variable {dropped : Prop} {p q p' q' : Plan}

theorem AsksLike.asksOr (h : AsksLike q q') (hq : q.AsksOr dropped) : q'.AsksOr dropped := by
  rcases hq with hq | ⟨hdropped, hhuman, hdecision⟩
  · exact .inl (h.asksApproval.mpr hq)
  · exact .inr ⟨hdropped, h.human.trans hhuman, h.decision.trans hdecision⟩

namespace Sterner

theorem anyFail (h : Sterner dropped p q) : q.anyFail = p.anyFail := any_fail_alike h.verdicts

theorem classification (h : Sterner dropped p q) :
    planClassification q = planClassification p := by
  have hrel := find?_alike h.verdicts gateImpact
  unfold planClassification impactVerdict
  generalize p.verdicts.find? _ = v at hrel
  generalize q.verdicts.find? _ = w at hrel
  cases hrel with
  | none => rfl
  | some hvw => simpa using hvw.cite "classification"

theorem changedSuites_eq_nil (h : Sterner dropped p q) :
    changedSuites q = [] ↔ changedSuites p = [] := by
  have hrel := find?_alike h.verdicts gateDiff
  unfold changedSuites foundDiff
  generalize p.verdicts.find? _ = v at hrel
  generalize q.verdicts.find? _ = w at hrel
  cases hrel with
  | none => exact Iff.rfl
  | some hvw => simp only [hvw.cite]; split <;> simp

/-- Both plans are asked in other words. -/
theorem reword (h : Sterner dropped p q)
    (hverdicts : List.Forall₂ Verdict.Alike p'.verdicts q'.verdicts) (hp : AsksLike p p')
    (hq : AsksLike q q') : Sterner dropped p' q' where
  verdicts := hverdicts
  human := by
    rw [hp.human, hq.human]
    exact h.human
  approve := fun hp' => hq.asksOr (h.approve (hp.asksApproval.mp hp'))
  ahead := by
    rw [hp.human, hq.human]
    exact fun hq' => (h.ahead hq').imp_right hq.asksOr

theorem of_approvals (hverdicts : List.Forall₂ Verdict.Alike p'.verdicts q'.verdicts)
    (hp : p'.AsksApproval) (hq : q'.AsksApproval) : Sterner dropped p' q' where
  verdicts := hverdicts
  human := fun _ => hq.human
  approve := fun _ => .inl hq
  ahead := fun _ => .inl hp.human

/-- One plan asks for less than an approval, and the other asks a person too. -/
theorem of_less (hverdicts : List.Forall₂ Verdict.Alike p'.verdicts q'.verdicts)
    (hp : p'.floor.human = true) (hdecision : p'.floor.decision ≠ some .approve)
    (hq : q'.floor.human = true) : Sterner dropped p' q' where
  verdicts := hverdicts
  human := fun _ => hq
  approve := fun happ => absurd happ.decision hdecision
  ahead := fun _ => .inl hp

/-- Neither plan asks anybody. -/
theorem of_quiet (hverdicts : List.Forall₂ Verdict.Alike p'.verdicts q'.verdicts)
    (hp : p'.floor.human = false) (hq : q'.floor.human = false) : Sterner dropped p' q' where
  verdicts := hverdicts
  human := fun hhuman => absurd (hp.symm.trans hhuman) (by decide)
  approve := fun happ => absurd (hp.symm.trans happ.human) (by decide)
  ahead := fun hhuman => absurd (hq.symm.trans hhuman) (by decide)

/-- A gate that asks the same of both plans. -/
theorem asks (h : Sterner dropped p q)
    (hverdicts : List.Forall₂ Verdict.Alike p'.verdicts q'.verdicts) {asked : Option Decision}
    (hp : Asks asked p p') (hq : Asks asked q q') : Sterner dropped p' q' := by
  cases asked with
  | none => exact h.reword hverdicts (.of_floor hp) (.of_floor hq)
  | some d =>
    have hp : Raised d p p' := hp
    have hq : Raised d q q' := hq
    by_cases hd : d = .approve
    · subst hd
      exact of_approvals hverdicts hp.asksApproval hq.asksApproval
    · cases hhuman : p.floor.human with
      | true =>
        exact h.reword hverdicts (hp.asksLike hd hhuman) (hq.asksLike hd (h.human hhuman))
      | false =>
        refine of_less hverdicts hp.human ?_ hq.human
        rw [hp.decision_of_quiet hhuman]
        exact fun heq => hd (Option.some.inj heq)

end Sterner

/-- A hold that the sterner side makes whenever the other does. -/
theorem Sterner.heldIf {c d : Prop} (h : Sterner dropped p q) (hcd : c → d)
    (hp : HeldIf c p p') (hq : HeldIf d q q') : Sterner dropped p' q' := by
  have hverdicts : List.Forall₂ Verdict.Alike p'.verdicts q'.verdicts := by
    rw [hp.verdicts, hq.verdicts]
    exact h.verdicts
  cases hqhuman : q.floor.human with
  | true =>
    have hq' := AsksLike.of_floor (hq.keeps (.inl hqhuman))
    cases hphuman : p.floor.human with
    | true => exact h.reword hverdicts (.of_floor (hp.keeps (.inl hphuman))) hq'
    | false =>
      -- Only the sterner side asks, so it asks for an approval or for what it uncovered.
      have hasks : q'.AsksOr dropped :=
        hq'.asksOr ((h.ahead hqhuman).resolve_left (by simp [hphuman]))
      exact ⟨hverdicts, fun _ => hasks.human, fun _ => hasks, fun _ => .inr hasks⟩
  | false =>
    have hphuman : p.floor.human = false := by
      by_contra hne
      exact absurd (hqhuman.symm.trans (h.human (by simpa using hne))) (by decide)
    by_cases hd : d
    · have hasks := hq.asks hqhuman hd
      exact ⟨hverdicts, fun _ => hasks.human, fun _ => .inl hasks, fun _ => .inr (.inl hasks)⟩
    · exact h.reword hverdicts (.of_floor (hp.keeps (.inr (mt hcd hd))))
        (.of_floor (hq.keeps (.inr hd)))

end Plan

/-! ## The gates under two policies -/

section Gates

variable (pkg : Packages) (input : PlanInput) (k : Policy) (new : Bundle) {p q : Plan}

/-- What a policy cannot see is at most what a stricter one cannot. -/
theorem unseenOf_withPolicy (snap : Snapshot) (res : ImpactResult)
    (hdeclared : k.declaredConsumersOnly = true → input.policy.declaredConsumersOnly = true)
    (h : unseenOf pkg (input.withPolicy k) snap res = []) : unseenOf pkg input snap res = [] := by
  simp only [unseenOf, List.append_eq_nil_iff] at h ⊢
  obtain ⟨⟨⟨hconsumers, hcallers⟩, hversion⟩, hverified⟩ := h
  refine ⟨⟨⟨hconsumers, ?_⟩, hversion⟩, hverified⟩
  cases hd : input.stage.declaredConsumersOnly with
  | true => simp only [Bool.not_true, Bool.and_false, Bool.false_eq_true, if_false]
  | false =>
    have hk : k.declaredConsumersOnly = false := by
      by_contra hne
      exact absurd (hd.symm.trans (hdeclared (by simpa using hne))) (by decide)
    simpa only [PlanInput.withPolicy, hk] using hcallers

/-- The two policies see as much of the consumers unless one drops its trust in
what is declared. -/
theorem unseenOf_eq_of_declared (snap : Snapshot) (res : ImpactResult)
    (h : k.declaredConsumersOnly = input.policy.declaredConsumersOnly) :
    unseenOf pkg (input.withPolicy k) snap res = unseenOf pkg input snap res := by
  simp only [unseenOf, PlanInput.withPolicy, h]
  rfl

variable {k}

theorem impactGate_alike (hpq : List.Forall₂ Verdict.Alike p.verdicts q.verdicts) :
    List.Forall₂ Verdict.Alike (impactGate pkg input new p).verdicts
      (impactGate pkg (input.withPolicy k) new q).verdicts := by
  obtain ⟨result, message, hresult, hp⟩ := impactGate_adds pkg input new (p := p)
  obtain ⟨result', message', hresult', hq⟩ := impactGate_adds pkg (input.withPolicy k) new (p := q)
  rw [hp, hq]
  refine List.rel_append hpq (.cons ⟨rfl, rfl, ?_⟩ .nil)
  exact iff_of_false hresult' hresult

/-- The impact gate of a stricter policy asks whatever a looser one asks, and
more only about callers it stopped trusting to be declared. -/
theorem impactGate_sterner (h : input.policy.Stricter k)
    (hpq : List.Forall₂ Verdict.Alike p.verdicts q.verdicts) (hp : p.floor.human = false)
    (hq : q.floor.human = false) :
    Plan.Sterner (input.policy.Drops k) (impactGate pkg input new p)
      (impactGate pkg (input.withPolicy k) new q) := by
  have hverdicts := impactGate_alike (k := k) pkg input new hpq
  cases hbreaks : (impactAnalysis pkg input new).breaksConsumer with
  | true =>
    exact .of_approvals hverdicts (impactGate_asksApproval pkg input new hbreaks)
      (impactGate_asksApproval pkg (input.withPolicy k) new hbreaks)
  | false =>
    by_cases hseen' : unseenOf pkg (input.withPolicy k) (input.snapshot.getD {})
        (impactAnalysis pkg input new) = []
    · have hseen := unseenOf_withPolicy pkg input k _ _ h.declared hseen'
      have hfloor := impactGate_of_seen pkg input new hbreaks hseen (p := p)
      have hfloor' := impactGate_of_seen pkg (input.withPolicy k) new hbreaks hseen' (p := q)
      refine ⟨hverdicts, ?_, fun happ => ?_, ?_⟩
      · simp [hfloor, hp]
      · simpa [hfloor, hp] using happ.human
      · simp [hfloor', hq]
    · have hfloor' := impactGate_of_unseen pkg (input.withPolicy k) new hbreaks hseen' (p := q)
      by_cases hseen : unseenOf pkg input (input.snapshot.getD {})
          (impactAnalysis pkg input new) = []
      · have hfloor := impactGate_of_seen pkg input new hbreaks hseen (p := p)
        have hdrops : input.policy.Drops k := by
          by_contra hnot
          refine hseen' ((unseenOf_eq_of_declared pkg input k _ _ ?_).trans hseen)
          have hdeclared := h.declared
          cases hk : k.declaredConsumersOnly <;>
            cases hi : input.policy.declaredConsumersOnly <;> simp_all [Policy.Drops]
        refine ⟨hverdicts, ?_, fun happ => ?_, fun _ => .inr (.inr ⟨hdrops, ?_, ?_⟩)⟩
        · simp [hfloor, hp]
        · simpa [hfloor, hp] using happ.human
        · rw [hfloor']
        · rw [hfloor']
      · have hfloor := impactGate_of_unseen pkg input new hbreaks hseen (p := p)
        exact .of_less hverdicts (by rw [hfloor]) (by rw [hfloor]; decide) (by rw [hfloor'])

theorem suitesDoubted_withPolicy {dropped : Prop} (h : Plan.Sterner dropped p q) :
    suitesDoubted pkg (input.withPolicy k) new q = [] ↔ suitesDoubted pkg input new p = [] := by
  unfold suitesDoubted
  rw [List.append_eq_nil_iff, List.append_eq_nil_iff, h.changedSuites_eq_nil]
  rfl

theorem suitesGate_sterner {dropped : Prop} (h : Plan.Sterner dropped p q) :
    Plan.Sterner dropped (suitesGate pkg input new p)
      (suitesGate pkg (input.withPolicy k) new q) := by
  have hiff := suitesDoubted_withPolicy (k := k) pkg input new h
  by_cases hnone : suitesDoubted pkg input new p = []
  · rw [suitesGate_of_none pkg input new hnone,
      suitesGate_of_none pkg (input.withPolicy k) new (hiff.mpr hnone)]
    exact h
  · obtain ⟨hp, hasks⟩ := suitesGate_adds pkg input new hnone
    obtain ⟨hq, hasks'⟩ := suitesGate_adds pkg (input.withPolicy k) new (mt hiff.mp hnone)
    have hasked : Plan.Asks (some .acceptUnknown) p (suitesGate pkg input new p) := hasks
    refine h.asks ?_ hasked hasks'
    rw [hp, hq]
    exact List.rel_append h.verdicts (.cons ⟨rfl, rfl, Iff.rfl⟩ .nil)

theorem environmentGate_sterner {dropped : Prop} (h : Plan.Sterner dropped p q) :
    Plan.Sterner dropped (environmentGate pkg input new p)
      (environmentGate pkg (input.withPolicy k) new q) := by
  obtain ⟨v, hgate, hcite, hfail, -, hp⟩ := environmentGate_adds pkg input new (p := p)
  obtain ⟨w, hgate', hcite', hfail', -, hq⟩ :=
    environmentGate_adds pkg (input.withPolicy k) new (p := q)
  refine h.asks ?_ (environmentGate_asks pkg input new)
    (environmentGate_asks pkg (input.withPolicy k) new)
  rw [hp, hq]
  refine List.rel_append h.verdicts (.cons ⟨hgate'.trans hgate.symm, ?_, ?_⟩ .nil)
  · exact hcite'.trans hcite.symm
  · exact iff_of_false hfail' hfail

theorem ownerGate_sterner {dropped : Prop} (h : Plan.Sterner dropped p q) :
    Plan.Sterner dropped (ownerGate input p) (ownerGate (input.withPolicy k) q) := by
  have hasks : ownerAsks q = ownerAsks p := by
    have hrel := find?_alike h.verdicts gateDiff
    unfold ownerAsks foundDiff
    generalize p.verdicts.find? _ = v at hrel
    generalize q.verdicts.find? _ = w at hrel
    cases hrel with
    | none => rfl
    | some hvw => simp only [Option.any_some, hvw.cite]
  refine h.asks ?_ (ownerGate_asks input) (hasks ▸ ownerGate_asks (input.withPolicy k))
  rw [ownerGate_verdicts, ownerGate_verdicts]
  exact h.verdicts

theorem contractGates_sterner (h : input.policy.Stricter k)
    (hpq : List.Forall₂ Verdict.Alike p.verdicts q.verdicts) (hp : p.floor.human = false)
    (hq : q.floor.human = false) :
    Plan.Sterner (input.policy.Drops k) (contractGates pkg input new p)
      (contractGates pkg (input.withPolicy k) new q) :=
  ownerGate_sterner input (environmentGate_sterner pkg input new
    (suitesGate_sterner pkg input new (impactGate_sterner pkg input new h hpq hp hq)))

theorem promotePlan_sterner (h : input.policy.Stricter k) :
    Plan.Sterner (input.policy.Drops k) (promotePlan pkg input)
      (promotePlan pkg (input.withPolicy k)) := by
  have hpub : publishedGate (input.withPolicy k) = publishedGate input := rfl
  have hdiff : diffGate pkg (input.withPolicy k) = diffGate pkg input := rfl
  have hto : (input.withPolicy k).to = input.to := rfl
  unfold promotePlan promoteGates
  simp only [hpub, hdiff, hto]
  cases (publishedGate input).result with
  | fail => exact .of_quiet (List.forall₂_refl _) rfl rfl
  | unknown => exact .of_less (List.forall₂_refl _) rfl (by simp) rfl
  | pass =>
    cases (diffGate pkg input).result with
    | fail => exact .of_quiet (List.forall₂_refl _) rfl rfl
    | unknown => exact .of_less (List.forall₂_refl _) rfl (by simp) rfl
    | pass =>
      cases input.to.bundle with
      | none => exact .of_quiet (List.forall₂_refl _) rfl rfl
      | some new =>
        exact contractGates_sterner pkg input new h (List.forall₂_refl _) rfl rfl

end Gates

/-! ## The holds under two policies -/

section Holds

variable (pkg : Packages) (input : PlanInput) {k : Policy} {p q : Plan}

theorem LevelHolds.lower {cls : ActorClass} {high low : Level} {classification : String}
    (h : LevelHolds cls high classification) (hlow : 0 ≤ low.rank) (hle : low.rank ≤ high.rank)
    (hobserve : low ≠ .observe) : LevelHolds cls low classification := by
  obtain ⟨hcls, hlevel⟩ := h
  refine ⟨hcls, ?_⟩
  rcases hlevel with rfl | ⟨rfl, hbreaking⟩ <;> cases low <;> simp_all [Level.rank]

theorem RecordsHold.withPolicy (h : RecordsHold input)
    (hrecords : input.stage.recordsRequired = true → k.recordsRequired = true) :
    RecordsHold (input.withPolicy k) := by
  obtain ⟨hwhy, hcls⟩ := h
  refine ⟨?_, hcls⟩
  have hrequired : input.stage.recordsRequired = true := by
    by_contra hne
    simp [recordsUnavailable, hne] at hwhy
  simpa only [recordsUnavailable, PlanInput.withPolicy, hrequired, hrecords hrequired] using hwhy

theorem heldPlan_sterner (htype : input.spec.type = .promote) (h : input.policy.Stricter k)
    (hobserve : k.current ≠ .observe) :
    Plan.Sterner (input.policy.Drops k) (heldPlan pkg input)
      (heldPlan pkg (input.withPolicy k)) := by
  have hpolicy := (promotePlan_sterner pkg input h).heldIf h.always
    (approvalPolicy_heldIf input) (approvalPolicy_heldIf (input.withPolicy k))
  have hlevel := hpolicy.heldIf
    (fun hholds => by
      rw [hpolicy.classification]
      exact hholds.lower h.onLadder h.level hobserve)
    (levelPromote_heldIf input) (levelPromote_heldIf (input.withPolicy k))
  have hroute := hlevel.reword
    (by rw [routeToServiceTeam_verdicts, routeToServiceTeam_verdicts]; exact hlevel.verdicts)
    (routeToServiceTeam_asksLike input _) (routeToServiceTeam_asksLike (input.withPolicy k) _)
  exact hroute.heldIf (fun hholds => hholds.withPolicy input h.records)
    (holdForRecords_heldIf input htype) (holdForRecords_heldIf (input.withPolicy k) htype)

end Holds

/-! ## Predictions under two policies -/

section Predictions

variable (pkg : Packages) (input : PlanInput) {k : Policy}

/-- What a promote that is not refused outright satisfies. -/
theorem refusal_promote_iff (htype : input.spec.type = .promote)
    (hfacet : input.spec.facet ≠ .level) :
    refusal input = "" ↔
      mayRaise input.spec.type input.cls input.spec.witnessed = true ∧
        (input.spec.facet = .pointer → input.spec.params.from = input.status.pointer) ∧
        currentLevel input.stage input.status ≠ .observe ∧
        input.spec.params.to ∉ input.status.failedDigests := by
  have hack : admitAcknowledge input.spec input.stage = "" := by simp [admitAcknowledge, htype]
  unfold refusal
  simp only [hfacet, htype, hack, decide_false, decide_true, Bool.false_and, Bool.true_and,
    Bool.false_eq_true, if_false]
  split_ifs <;> simp_all

/-- What a stricter policy does not refuse is refused by neither, and its level
does not observe. -/
theorem refusal_withPolicy (htype : input.spec.type = .promote) (hfacet : input.spec.facet ≠ .level)
    (h : input.policy.Stricter k) :
    refusal (input.withPolicy k) = "" ↔ refusal input = "" ∧ k.current ≠ .observe := by
  rw [refusal_promote_iff input htype hfacet, refusal_promote_iff (input.withPolicy k) htype hfacet]
  have hobserve : input.policy.current = .observe → k.current = .observe := by
    intro heq
    have hle := h.level
    rw [heq] at hle
    exact Level.eq_observe_of_rank h.onLadder hle
  constructor
  · rintro ⟨hraise, hpointer, hlevel, hdigest⟩
    exact ⟨⟨hraise, hpointer, mt hobserve hlevel, hdigest⟩, hlevel⟩
  · rintro ⟨⟨hraise, hpointer, -, hdigest⟩, hlevel⟩
    exact ⟨hraise, hpointer, hlevel, hdigest⟩

theorem Plan.not_asksApproval {p : Plan} (h : p.floor.human = false) : ¬p.AsksApproval :=
  fun happ => absurd (h.symm.trans happ.human) (by decide)

/-- A prediction follows from how a plan was judged and whom it asks. -/
theorem predict_sterner {dropped : Prop} {p q : Plan} (h : Plan.Sterner dropped p q) :
    (predict input p).predicted.severity ≤
        (predict (input.withPolicy k) q).predicted.severity ∧
      ((predict input p).AsksApproval → (predict (input.withPolicy k) q).AsksOr dropped) := by
  cases hfail : p.anyFail with
  | true =>
    obtain ⟨hrejected, hfloor⟩ := predict_of_fail input hfail
    obtain ⟨hrejected', -⟩ := predict_of_fail (input.withPolicy k) (h.anyFail.trans hfail)
    rw [hrejected, hrejected']
    exact ⟨le_rfl, fun happ => absurd happ (Plan.not_asksApproval (by rw [hfloor]))⟩
  | false =>
    have hfail' := h.anyFail.trans hfail
    cases hhuman : p.floor.human with
    | true =>
      obtain ⟨hlike, hheld⟩ := predict_of_human input hfail hhuman
      obtain ⟨hlike', hheld'⟩ :=
        predict_of_human (input.withPolicy k) hfail' (h.human hhuman)
      rw [hheld, hheld']
      exact ⟨le_rfl, fun happ => hlike'.asksOr (h.approve (hlike.asksApproval.mp happ))⟩
    | false =>
      obtain ⟨hfloor, hpredicted⟩ := predict_of_quiet input hfail hhuman
      refine ⟨?_, fun happ => absurd happ (Plan.not_asksApproval (by rw [hfloor, hhuman]))⟩
      rw [hpredicted]
      cases hhuman' : q.floor.human with
      | true =>
        rw [(predict_of_human (input.withPolicy k) hfail' hhuman').2]
        split <;> decide
      | false => exact (congrArg _ (predict_of_quiet (input.withPolicy k) hfail' hhuman').2).ge

/-- What a stricter policy asks where a looser one asks for an approval: the
same, nothing once it observes and rejects, or first to accept an unknown that
the looser one waved through. -/
def AsksInstead (p q : Policy) (plan : Plan) : Prop :=
  plan.AsksApproval ∨ (q.current = .observe ∧ plan.predicted = .rejected) ∨
    (p.Drops q ∧ plan.floor.human = true ∧ plan.floor.decision = some .acceptUnknown)

/-- A stricter policy never predicts less of a promote, and asks for an
approval whenever a looser one does, unless it observes or uncovers an
unknown. -/
theorem planFor_stricter (htype : input.spec.type = .promote) (hfacet : input.spec.facet ≠ .level)
    (h : input.policy.Stricter k) :
    (planFor pkg input).predicted.severity ≤
        (planFor pkg (input.withPolicy k)).predicted.severity ∧
      ((planFor pkg input).AsksApproval →
        AsksInstead input.policy k (planFor pkg (input.withPolicy k))) := by
  by_cases hrefusal' : refusal (input.withPolicy k) = ""
  · obtain ⟨hrefusal, hobserve⟩ := (refusal_withPolicy input htype hfacet h).mp hrefusal'
    rw [planFor_of_heldPlan pkg input htype hrefusal,
      planFor_of_heldPlan pkg (input.withPolicy k) htype hrefusal']
    obtain ⟨hle, hasks⟩ :=
      predict_sterner (k := k) input (heldPlan_sterner pkg input htype h hobserve)
    exact ⟨hle, fun happ => (hasks happ).imp_right .inr⟩
  · obtain ⟨hrejected, -⟩ := planFor_of_refusal pkg (input.withPolicy k) hrefusal'
    refine ⟨?_, fun happ => .inr (.inl ⟨?_, hrejected⟩)⟩
    · rw [hrejected]
      exact Prediction.severity_le_rejected _
    · by_contra hobserve
      have hrefusal : refusal input ≠ "" := fun hnone =>
        hrefusal' ((refusal_withPolicy input htype hfacet h).mpr ⟨hnone, hobserve⟩)
      exact Plan.not_asksApproval (by rw [(planFor_of_refusal pkg input hrefusal).2]) happ

end Predictions

/-! ## An unknown asked in place of an approval -/

/-- Packages that find a breaking change and no consumer of it. -/
def breakingPackages : Packages :=
  { quietPackages with
    analyze := fun _ _ _ _ => { classification := .breaking, complete := true } }

/-- A contract of the service `shop` that declares no environment. -/
def plainBundle : Bundle :=
  { contract := { serviceName := "shop", version := "2.0.0", owner := { team := "shop-team" } } }

def plainRevision (digest : String) (h : digest ≠ "") : Revision :=
  { digest := digest, contractRef := "ghcr.io/shop@" ++ digest, bundle := some plainBundle
    digest_ne := fun _ => h, contractRef_ne := by simp }

/-- A person's promote of `sha256:b` to a Stage of `shop` on `level` that asks
a person to approve every promote. -/
def approvedPromote (level : Level) (declaredConsumersOnly : Bool) : PlanInput :=
  { spec :=
      { type := .promote, stage := "shop-prod", facet := .pointer
        params := { «from» := "sha256:a", «to» := "sha256:b" }, actor := { user := "ana" } }
    stage :=
      { service := "shop", environment := "prod", approvalAlways := true
        declaredConsumersOnly := declaredConsumersOnly
        candidates := { ociRepositoryRef := some "shop" } }
    status :=
      { pointer := "sha256:a", verified := ["sha256:a"], published := ["sha256:b"]
        level := level }
    «from» := plainRevision "sha256:a" (by simp)
    «to» := plainRevision "sha256:b" (by simp)
    cls := .human }

/-- The policy of a Stage on `level` that asks a person to approve every
promote. -/
def alwaysPolicy (level : Level) (declaredConsumersOnly : Bool) : Policy :=
  (approvedPromote level declaredConsumersOnly).policy

theorem planFor_stricter_advise :
    (alwaysPolicy .autonomous true).Stricter (alwaysPolicy .advise true) ∧
      (planFor breakingPackages (approvedPromote .autonomous true)).predicted.severity ≤
        (planFor breakingPackages ((approvedPromote .autonomous true).withPolicy
          (alwaysPolicy .advise true))).predicted.severity ∧
      ((planFor breakingPackages (approvedPromote .autonomous true)).AsksApproval →
        AsksInstead (alwaysPolicy .autonomous true) (alwaysPolicy .advise true)
          (planFor breakingPackages ((approvedPromote .autonomous true).withPolicy
            (alwaysPolicy .advise true)))) :=
  have h : (alwaysPolicy .autonomous true).Stricter (alwaysPolicy .advise true) :=
    ⟨by decide, by decide, by decide, by decide, by decide⟩
  ⟨h, planFor_stricter breakingPackages (approvedPromote .autonomous true) rfl (by decide) h⟩

/-- A promote that names the level facet, from the level `advise`. -/
def misplacedPromote (level : Level) : PlanInput :=
  let input := approvedPromote level true
  { input with
    spec := { input.spec with facet := .level, params := { «from» := "advise", «to» := "sha256:b" } } }

/-- Once undeclared callers count, the person is asked to accept an unknown where they
were asked to approve.  A promote that names the level facet is rejected on the
looser level it does not start from, and held on the stricter one it does. -/
theorem stricter_policy_asks_less :
    ((alwaysPolicy .advise true).Stricter (alwaysPolicy .advise false) ∧
      (planFor breakingPackages (approvedPromote .advise true)).AsksApproval ∧
      (planFor breakingPackages ((approvedPromote .advise true).withPolicy
        (alwaysPolicy .advise false))).floor.decision = some .acceptUnknown) ∧
    (misplacedPromote .autonomous).policy.Stricter (alwaysPolicy .advise true) ∧
      (planFor breakingPackages (misplacedPromote .autonomous)).predicted = .rejected ∧
      (planFor breakingPackages ((misplacedPromote .autonomous).withPolicy
        (alwaysPolicy .advise true))).predicted = .held := by
  refine ⟨⟨⟨by decide, by decide, by decide, by decide, by decide⟩, ⟨?_, ?_⟩, ?_⟩,
    ⟨by decide, by decide, by decide, by decide, by decide⟩, ?_, ?_⟩ <;>
    decide +kernel

end Pacto.Delivery
