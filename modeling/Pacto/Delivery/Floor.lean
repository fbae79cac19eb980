import Pacto.Delivery.Plan

/-!
# The approval floor

What the gates of a plan keep, whatever order they meet in.  A plan is
*accounted for* when every unknown is either asked of a person or moot
because a gate failed, and every hold carries a question and the decision it
asks for.  A plan *asks for approval* when a person must approve it.  Every
gate and every hold keeps both, so both can be read off the finished plan.
-/

namespace Pacto.Delivery

/-! ## Texts -/

theorem replaceIn_ne_nil (old : List Char) {new s : List Char} (hs : s ≠ []) (hnew : new ≠ []) :
    replaceIn old new s ≠ [] := by
  cases s with
  | nil => exact absurd rfl hs
  | cons c cs =>
    unfold replaceIn
    split
    · simp [hnew]
    · simp

theorem replaceFirst_ne_empty {s old new : String} (hs : s ≠ "") (hnew : new ≠ "") :
    replaceFirst s old new ≠ "" := by
  have hchars := replaceIn_ne_nil old.toList
    (fun h => hs (String.toList_eq_nil_iff.mp h)) (fun h => hnew (String.toList_eq_nil_iff.mp h))
  intro h
  rw [replaceFirst, ← String.toList_eq_nil_iff, String.toList_ofList] at h
  exact hchars h

/-! ## Plans that are accounted for -/

/-- Every unknown of the plan is asked of a person or moot, and every hold
carries its question and decision. -/
structure Plan.Accounted (p : Plan) : Prop where
  unknown_asked : ∀ v ∈ p.verdicts, v.result = .unknown →
    p.floor.human = true ∨ p.anyFail = true
  hold_asks : p.floor.human = true →
    (p.floor.decision = some .approve ∨ p.floor.decision = some .acceptUnknown) ∧ p.question ≠ ""

namespace Plan

theorem anyFail_addVerdict (p : Plan) (v : Verdict) :
    (p.addVerdict v).anyFail = (p.anyFail || decide (v.result = .fail)) := by
  simp [anyFail, addVerdict]

theorem Accounted.of_hold {p : Plan} (hhuman : p.floor.human = true)
    (hdecision : p.floor.decision = some .approve ∨ p.floor.decision = some .acceptUnknown)
    (hquestion : p.question ≠ "") : p.Accounted where
  unknown_asked := fun _ _ _ => .inl hhuman
  hold_asks := fun _ => ⟨hdecision, hquestion⟩

/-- A plan a gate failed has no unknown left to ask about. -/
theorem Accounted.of_fail {p : Plan} (hfail : p.anyFail = true)
    (hasks : p.floor.human = true →
      (p.floor.decision = some .approve ∨ p.floor.decision = some .acceptUnknown) ∧
        p.question ≠ "") : p.Accounted where
  unknown_asked := fun _ _ _ => .inr hfail
  hold_asks := hasks

theorem Accounted.addVerdict {p : Plan} (h : p.Accounted) {v : Verdict}
    (hv : v.result = .unknown → p.floor.human = true) : (p.addVerdict v).Accounted where
  unknown_asked := by
    intro w hw hunknown
    rw [anyFail_addVerdict, Bool.or_eq_true]
    rcases List.mem_append.mp hw with hw | hw
    · rcases h.unknown_asked w hw hunknown with hhuman | hfail
      · exact .inl hhuman
      · exact .inr (.inl hfail)
    · rw [List.mem_singleton] at hw
      exact .inl (hv (hw ▸ hunknown))
  hold_asks := h.hold_asks

/-- Asking more people, or asking in other words, keeps a plan accounted
for. -/
theorem Accounted.reword {p q : Plan} (h : p.Accounted) (hverdicts : q.verdicts = p.verdicts)
    (hhuman : q.floor.human = p.floor.human) (hdecision : q.floor.decision = p.floor.decision)
    (hquestion : p.question ≠ "" → q.question ≠ "") : q.Accounted where
  unknown_asked := by
    intro v hv hunknown
    have hfail : q.anyFail = p.anyFail := by simp [anyFail, hverdicts]
    rw [hhuman, hfail]
    exact h.unknown_asked v (hverdicts ▸ hv) hunknown
  hold_asks := by
    intro hq
    obtain ⟨hd, hne⟩ := h.hold_asks (hhuman ▸ hq)
    exact ⟨hdecision ▸ hd, hquestion hne⟩

/-- The plan asks a person for a full approval. -/
structure AsksApproval (p : Plan) : Prop where
  human : p.floor.human = true
  decision : p.floor.decision = some .approve

end Plan

/-! ## Routing -/

section Routing

variable (input : PlanInput) {p : Plan}

theorem routeToServiceTeam_accounted (h : p.Accounted) :
    (routeToServiceTeam input p).Accounted := by
  unfold routeToServiceTeam
  split
  · exact h.reword rfl rfl rfl fun _ => by simp
  · exact h.reword rfl rfl rfl id

theorem askServiceTeam_accounted (h : p.Accounted) : (askServiceTeam input p).Accounted := by
  unfold askServiceTeam
  split
  · exact h
  · exact h.reword rfl rfl rfl fun hne => replaceFirst_ne_empty hne (by simp)

theorem askServiceTeam_human : (askServiceTeam input p).floor.human = p.floor.human := by
  unfold askServiceTeam
  split <;> rfl

theorem askServiceTeam_decision : (askServiceTeam input p).floor.decision = p.floor.decision := by
  unfold askServiceTeam
  split <;> rfl

theorem holdFor_human (d : Decision) (why question : String) :
    (holdFor p d why question).floor.human = true := by
  unfold holdFor
  split
  · assumption
  · rfl

theorem holdFor_accounted (h : p.Accounted) {d : Decision} (hd : d ≠ .reject)
    (why : String) {question : String} (hquestion : question ≠ "") :
    (holdFor p d why question).Accounted := by
  refine Plan.Accounted.of_hold (holdFor_human d why question) ?_ ?_
  · unfold holdFor
    split
    · obtain ⟨hdecision, -⟩ := h.hold_asks ‹_›
      dsimp only
      split
      · exact .inl rfl
      · exact hdecision
    · cases d <;> simp_all
  · unfold holdFor
    split
    · simp
    · exact hquestion

end Routing

/-! ## The gates of a promote -/

section Promote

variable (pkg : Packages) (input : PlanInput) (new : Bundle) {p : Plan}

theorem holdForConsumers_accounted (snap : Snapshot) (res : ImpactResult) :
    (holdForConsumers pkg input snap res p).Accounted := by
  unfold holdForConsumers
  dsimp only
  split <;> exact Plan.Accounted.of_hold rfl (.inl rfl) (by simp)

theorem impactGate_accounted (h : p.Accounted) : (impactGate pkg input new p).Accounted := by
  unfold impactGate
  dsimp only
  split
  · exact (holdForConsumers_accounted pkg input _ _).addVerdict (by simp [impactGateVerdict])
  · split
    · refine Plan.Accounted.addVerdict ?_ fun _ => rfl
      exact Plan.Accounted.of_hold rfl (.inr rfl) (by simp)
    · refine Plan.Accounted.addVerdict ?_ ?_
      · exact h.reword rfl rfl rfl id
      · simp [impactGateVerdict]

theorem suitesGate_accounted (h : p.Accounted) : (suitesGate pkg input new p).Accounted := by
  unfold suitesGate
  dsimp only
  split
  · exact h
  · split
    · have hhuman : p.floor.human = true := by assumption
      obtain ⟨hdecision, -⟩ := h.hold_asks hhuman
      exact Plan.Accounted.of_hold hhuman hdecision (by simp)
    · exact Plan.Accounted.of_hold rfl (.inr rfl) (by simp)

theorem environmentGate_accounted (h : p.Accounted) :
    (environmentGate pkg input new p).Accounted := by
  unfold environmentGate
  dsimp only
  split
  · exact h.addVerdict (by simp)
  · split
    · refine Plan.Accounted.addVerdict ?_ (by simp)
      exact askServiceTeam_accounted input (holdFor_accounted h (by decide) _ (by simp))
    · split
      · refine Plan.Accounted.addVerdict ?_ fun _ => ?_
        · exact askServiceTeam_accounted input (holdFor_accounted h (by decide) _ (by simp))
        · rw [askServiceTeam_human, holdFor_human]
      · exact h.addVerdict (by simp)

theorem ownerGate_accounted (h : p.Accounted) : (ownerGate input p).Accounted := by
  unfold ownerGate
  split
  · exact h
  · split
    · exact h
    · refine askServiceTeam_accounted input (Plan.Accounted.of_hold rfl (.inl rfl) ?_)
      dsimp only [Plan.hold]
      split <;> simp

theorem contractGates_accounted (h : p.Accounted) :
    (contractGates pkg input new p).Accounted :=
  ownerGate_accounted input
    (environmentGate_accounted pkg input new
      (suitesGate_accounted pkg input new (impactGate_accounted pkg input new h)))

theorem diffGate_pass_bundle (h : (diffGate pkg input).result = .pass) :
    ∃ new, input.to.bundle = some new := by
  rcases hb : input.to.bundle with - | new
  · simp [diffGate, hb, diffVerdict] at h
  · exact ⟨new, rfl⟩

theorem promoteGates_accounted (h : p.Accounted) : (promoteGates pkg input p).Accounted := by
  unfold promoteGates
  dsimp only
  split
  · rename_i hfail
    exact h.addVerdict (by simp [hfail])
  · exact Plan.Accounted.of_hold rfl (.inr rfl) (by simp)
  · rename_i hpass
    have hpub : (p.addVerdict (publishedGate input)).Accounted := h.addVerdict (by simp [hpass])
    split
    · rename_i hdiff _
      exact contractGates_accounted pkg input _ (hpub.addVerdict (by simp [hdiff]))
    · rename_i hnot
      split
      · exact Plan.Accounted.of_hold rfl (.inr rfl) (by simp)
      · rename_i hknown
        have hfail : (diffGate pkg input).result = .fail := by
          cases hr : (diffGate pkg input).result with
          | fail => rfl
          | unknown => exact absurd hr hknown
          | pass =>
            obtain ⟨new, hnew⟩ := diffGate_pass_bundle pkg input hr
            exact (hnot new hr hnew).elim
        refine Plan.Accounted.of_fail ?_ hpub.hold_asks
        simp [Plan.anyFail_addVerdict, hfail]

theorem approvalPolicy_accounted (h : p.Accounted) : (approvalPolicy input p).Accounted := by
  unfold approvalPolicy
  split
  · exact Plan.Accounted.of_hold rfl (.inl rfl) (by simp)
  · exact h

theorem levelPromote_accounted (h : p.Accounted) : (levelPromote input p).Accounted := by
  unfold levelPromote
  split
  · exact h
  · split
    · exact Plan.Accounted.of_hold rfl (.inl rfl) (by simp)
    · split
      · exact Plan.Accounted.of_hold rfl (.inl rfl) (by simp)
      · exact h
    · exact h

end Promote

/-! ## The other gates -/

section Others

variable (pkg : Packages) (input : PlanInput) {p : Plan}

theorem rollbackImpact_accounted (h : p.Accounted) : (rollbackImpact pkg input p).Accounted := by
  unfold rollbackImpact
  split
  · dsimp only
    split
    · exact h
    · split
      · exact h
      · exact Plan.Accounted.of_hold rfl (.inl rfl) (by simp)
  · exact h

theorem raiseGate_accounted (old new : Level) : (raiseGate input old new p).Accounted := by
  unfold raiseGate
  dsimp only
  split
  · exact Plan.Accounted.of_hold rfl (.inr rfl) (by simp)
  · split
    · exact Plan.Accounted.of_hold rfl (.inl rfl) (by simp)
    · exact Plan.Accounted.of_hold rfl (.inr rfl) (by simp)

theorem autonomyGate_accounted (h : p.Accounted) : (autonomyGate input p).Accounted := by
  unfold autonomyGate
  dsimp only
  split_ifs
  · exact h.addVerdict (by simp [autonomyVerdict])
  · exact h.addVerdict (by simp [autonomyVerdict])
  · exact h.addVerdict (by simp [autonomyVerdict])
  · exact h.addVerdict (by simp [autonomyVerdict])
  · exact h.addVerdict (by simp [autonomyVerdict])
  · exact raiseGate_accounted input _ _

theorem holdForRecords_accounted (h : p.Accounted) : (holdForRecords input p).Accounted := by
  unfold holdForRecords
  dsimp only
  split
  · exact h
  · exact Plan.Accounted.of_hold rfl (.inl rfl) (by simp)

theorem typeGates_accounted (h : p.Accounted) : (typeGates pkg input p).Accounted := by
  unfold typeGates
  split
  · exact routeToServiceTeam_accounted input
      (levelPromote_accounted input
        (approvalPolicy_accounted input (promoteGates_accounted pkg input h)))
  · exact routeToServiceTeam_accounted input (autonomyGate_accounted input h)
  · exact routeToServiceTeam_accounted input (rollbackImpact_accounted pkg input h)
  · exact h

theorem initialPlan_accounted : (initialPlan pkg input).Accounted :=
  ⟨by simp [initialPlan], by simp [initialPlan]⟩

end Others

/-! ## No unknown ships without a person -/

theorem Plan.anyFail_eq_true_iff (p : Plan) :
    p.anyFail = true ↔ ∃ v ∈ p.verdicts, v.result = .fail := by
  simp [Plan.anyFail]

/-- An accounted plan with no failure and nobody to ask has only passing
verdicts. -/
theorem Plan.Accounted.all_pass {p : Plan} (h : p.Accounted) (hfail : p.anyFail = false)
    (hhuman : p.floor.human = false) : ∀ v ∈ p.verdicts, v.result = .pass := by
  intro v hv
  cases hresult : v.result with
  | pass => rfl
  | fail =>
    have := p.anyFail_eq_true_iff.mpr ⟨v, hv, hresult⟩
    simp [hfail] at this
  | unknown =>
    have := h.unknown_asked v hv hresult
    simp [hfail, hhuman] at this

/-- The prediction, floor, question and verdicts of a plan agree. -/
structure Plan.Consistent (p : Plan) : Prop where
  ships : (p.predicted = .proceeds ∨ p.predicted = .waits) →
    (∀ v ∈ p.verdicts, v.result = .pass) ∧ p.floor.human = false
  fails : (∃ v ∈ p.verdicts, v.result = .fail) →
    p.predicted = .rejected ∧ p.floor = {} ∧ p.question = ""
  holds : p.predicted = .held →
    p.floor.human = true ∧
      (p.floor.decision = some .approve ∨ p.floor.decision = some .acceptUnknown) ∧
      p.question ≠ ""

theorem predict_consistent (input : PlanInput) {p : Plan} (h : p.Accounted) :
    (predict input p).Consistent := by
  unfold predict
  by_cases hfail : p.anyFail = true
  · rw [if_pos hfail]
    exact ⟨by simp, by simp, by simp⟩
  rw [Bool.not_eq_true] at hfail
  have hnone : ¬∃ v ∈ p.verdicts, v.result = .fail := by
    rw [← p.anyFail_eq_true_iff, hfail]
    decide
  by_cases hhuman : p.floor.human = true
  · simp only [hfail, hhuman, if_true, Bool.false_eq_true, if_false]
    exact ⟨by simp, fun hv => absurd hv hnone, fun _ => ⟨hhuman, h.hold_asks hhuman⟩⟩
  · rw [Bool.not_eq_true] at hhuman
    have hpass := h.all_pass hfail hhuman
    simp only [hfail, hhuman, Bool.false_eq_true, if_false]
    split
    · exact ⟨fun _ => ⟨hpass, hhuman⟩, fun hv => absurd hv hnone, by simp⟩
    · exact ⟨fun _ => ⟨hpass, hhuman⟩, fun hv => absurd hv hnone, by simp⟩

/-- No unknown ships without a person: what ships on its own has only passing
verdicts and asks nobody, what a gate failed is rejected and asks nobody, and
what is held asks a person a question. -/
theorem planFor_consistent (pkg : Packages) (input : PlanInput) :
    (planFor pkg input).Consistent := by
  unfold planFor
  dsimp only
  split
  · exact ⟨by simp [initialPlan], by simp [initialPlan], by simp [initialPlan]⟩
  · exact predict_consistent input
      (holdForRecords_accounted input
        (typeGates_accounted pkg input (initialPlan_accounted pkg input)))

/-! ## Approvals that are never lowered -/

section Approval

variable (pkg : Packages) (input : PlanInput) (new : Bundle) {p : Plan}

theorem askServiceTeam_asksApproval (h : p.AsksApproval) :
    (askServiceTeam input p).AsksApproval :=
  ⟨(askServiceTeam_human input).trans h.human, (askServiceTeam_decision input).trans h.decision⟩

theorem holdFor_asksApproval (h : p.AsksApproval) (d : Decision) (why question : String) :
    (holdFor p d why question).AsksApproval := by
  refine ⟨holdFor_human d why question, ?_⟩
  simp only [holdFor, h.human, if_true]
  split
  · rfl
  · exact h.decision

theorem holdFor_approve_asksApproval (why question : String) :
    (holdFor p .approve why question).AsksApproval := by
  refine ⟨holdFor_human .approve why question, ?_⟩
  unfold holdFor
  split <;> rfl

theorem impactGate_asksApproval (h : (impactAnalysis pkg input new).breaksConsumer = true) :
    (impactGate pkg input new p).AsksApproval := by
  unfold impactGate holdForConsumers
  simp only [h, if_true]
  split <;> exact ⟨rfl, rfl⟩

theorem suitesGate_asksApproval (h : p.AsksApproval) :
    (suitesGate pkg input new p).AsksApproval := by
  unfold suitesGate
  dsimp only
  split
  · exact h
  · rw [if_pos (by simpa using h.human)]
    exact ⟨h.human, h.decision⟩

theorem environmentGate_asksApproval (h : p.AsksApproval) :
    (environmentGate pkg input new p).AsksApproval := by
  have hasks : ∀ d why question, (askServiceTeam input (holdFor p d why question)).AsksApproval :=
    fun d why question => askServiceTeam_asksApproval input (holdFor_asksApproval h d why question)
  unfold environmentGate
  dsimp only
  split
  · exact ⟨h.human, h.decision⟩
  · split
    · exact ⟨(hasks _ _ _).human, (hasks _ _ _).decision⟩
    · split
      · exact ⟨(hasks _ _ _).human, (hasks _ _ _).decision⟩
      · exact ⟨h.human, h.decision⟩

theorem environmentGate_asksApproval_of_errors
    (h : (environmentProblems pkg input new).1 ≠ []) :
    (environmentGate pkg input new p).AsksApproval := by
  have hdeclared : new.contract.environments ≠ [] := by
    intro hnone
    simp [environmentProblems, hnone] at h
  have hasks := fun why question => askServiceTeam_asksApproval input
    (holdFor_approve_asksApproval (p := p) why question)
  unfold environmentGate
  simp only [hdeclared, if_false, h, ne_eq, not_false_eq_true, if_true]
  exact ⟨(hasks _ _).human, (hasks _ _).decision⟩

theorem ownerGate_asksApproval (h : p.AsksApproval) : (ownerGate input p).AsksApproval := by
  unfold ownerGate
  split
  · exact h
  · split
    · exact h
    · exact askServiceTeam_asksApproval input ⟨rfl, rfl⟩

theorem approvalPolicy_of_human (h : p.floor.human = true) : approvalPolicy input p = p := by
  simp [approvalPolicy, h]

theorem levelPromote_of_human (h : p.floor.human = true) : levelPromote input p = p := by
  simp [levelPromote, h]

theorem holdForRecords_of_human (h : p.floor.human = true) : holdForRecords input p = p := by
  simp [holdForRecords, h]

theorem routeToServiceTeam_human :
    (routeToServiceTeam input p).floor.human = p.floor.human := by
  unfold routeToServiceTeam
  split <;> rfl

theorem routeToServiceTeam_decision :
    (routeToServiceTeam input p).floor.decision = p.floor.decision := by
  unfold routeToServiceTeam
  split <;> rfl

/-! ### The holds after the gates -/

theorem approvalPolicy_verdicts : (approvalPolicy input p).verdicts = p.verdicts := by
  unfold approvalPolicy
  split <;> rfl

theorem levelPromote_verdicts : (levelPromote input p).verdicts = p.verdicts := by
  unfold levelPromote
  split
  · rfl
  · split
    · rfl
    · split <;> rfl
    · rfl

theorem routeToServiceTeam_verdicts : (routeToServiceTeam input p).verdicts = p.verdicts := by
  unfold routeToServiceTeam
  split <;> rfl

theorem holdForRecords_verdicts : (holdForRecords input p).verdicts = p.verdicts := by
  unfold holdForRecords
  dsimp only
  split <;> rfl

def promotePlan : Plan := promoteGates pkg input (initialPlan pkg input)

/-- The plan of a promote that was not refused, as its gates and holds build
it. -/
theorem planFor_of_promote (htype : input.spec.type = .promote) (hrefusal : refusal input = "") :
    planFor pkg input =
      predict input (holdForRecords input (routeToServiceTeam input
        (levelPromote input (approvalPolicy input (promotePlan pkg input))))) := by
  simp [planFor, hrefusal, typeGates, htype, promotePlan]

theorem planFor_held (htype : input.spec.type = .promote)
    (hheld : (planFor pkg input).predicted = .held) :
    refusal input = "" ∧ (promotePlan pkg input).anyFail = false := by
  have hrefusal : refusal input = "" := by
    by_contra hne
    simp [planFor, hne, initialPlan] at hheld
  refine ⟨hrefusal, ?_⟩
  rw [planFor_of_promote pkg input htype hrefusal] at hheld
  by_contra hfail
  rw [Bool.not_eq_false] at hfail
  have hfail' : (holdForRecords input (routeToServiceTeam input
      (levelPromote input (approvalPolicy input (promotePlan pkg input))))).anyFail = true := by
    simpa only [Plan.anyFail, holdForRecords_verdicts, routeToServiceTeam_verdicts,
      levelPromote_verdicts, approvalPolicy_verdicts] using hfail
  simp [predict, hfail'] at hheld

/-- Once a gate asked a person, a held promote keeps what it asked and routes
it. -/
theorem planFor_floor_of_human (htype : input.spec.type = .promote)
    (hheld : (planFor pkg input).predicted = .held)
    (hhuman : (promotePlan pkg input).floor.human = true) :
    (planFor pkg input).floor =
      { (promotePlan pkg input).floor with
        owners := routedOwners input (promotePlan pkg input) } := by
  obtain ⟨hrefusal, hfail⟩ := planFor_held pkg input htype hheld
  have hroute : (routeToServiceTeam input (promotePlan pkg input)).floor.human = true :=
    (routeToServiceTeam_human input).trans hhuman
  have hfail' : (routeToServiceTeam input (promotePlan pkg input)).anyFail = false := by
    simpa only [Plan.anyFail, routeToServiceTeam_verdicts] using hfail
  rw [planFor_of_promote pkg input htype hrefusal, approvalPolicy_of_human input hhuman,
    levelPromote_of_human input hhuman, holdForRecords_of_human input hroute]
  simp only [predict, hfail', hroute, Bool.false_eq_true, if_false, if_true]
  unfold routeToServiceTeam
  split <;> rfl

end Approval

/-! ## What a plan that is not rejected checked -/

section Admitted

variable {pkg : Packages} {input : PlanInput}

theorem refusal_eq_empty_of_planFor (h : (planFor pkg input).predicted ≠ .rejected) :
    refusal input = "" := by
  by_contra hne
  exact h (by simp [planFor, hne, initialPlan])

theorem not_mem_failedDigests_of_planFor (htype : input.spec.type = .promote)
    (h : (planFor pkg input).predicted ≠ .rejected) :
    input.spec.params.to ∉ input.status.failedDigests := by
  intro hmem
  have hrefusal := refusal_eq_empty_of_planFor h
  have hcontains : input.status.failedDigests.contains input.spec.params.to = true :=
    List.contains_iff_mem.mpr hmem
  simp only [refusal, htype, hcontains, decide_true, Bool.and_true, if_true] at hrefusal
  repeat' split at hrefusal
  all_goals simp at hrefusal

section LevelChange

variable (htype : input.spec.type = .autonomy)
    (h : (planFor pkg input).predicted ≠ .rejected)

include htype h

/-- The gate of a level change that is not rejected did not fail it. -/
theorem autonomyGate_of_planFor :
    (autonomyGate input (initialPlan pkg input)).anyFail = false := by
  have hrefusal := refusal_eq_empty_of_planFor h
  by_contra hfail
  rw [Bool.not_eq_false] at hfail
  have hfail' : (holdForRecords input (typeGates pkg input (initialPlan pkg input))).anyFail =
      true := by
    simpa only [Plan.anyFail, holdForRecords_verdicts, typeGates, htype,
      routeToServiceTeam_verdicts] using hfail
  simp [planFor, hrefusal, predict, hfail'] at h

theorem changes_of_planFor :
    Level.ofName input.spec.params.to ≠ Level.ofName input.spec.params.from ∧
      0 ≤ (Level.ofName input.spec.params.to).rank := by
  have hpass := autonomyGate_of_planFor htype h
  by_contra hnot
  rw [not_and_or, not_not] at hnot
  have hfail : (autonomyGate input (initialPlan pkg input)).anyFail = true := by
    by_cases hrank : (Level.ofName input.spec.params.to).rank < 0
    · simp [autonomyGate, hrank, Plan.anyFail, Plan.addVerdict, autonomyVerdict]
    · have hsame := hnot.resolve_right (by omega)
      simp only [autonomyGate, if_neg hrank, if_pos hsame]
      simp [Plan.anyFail, Plan.addVerdict, autonomyVerdict]
  rw [hfail] at hpass
  cases hpass

theorem lowerRefusal_of_planFor
    (hlower : (Level.ofName input.spec.params.to).rank < (Level.ofName input.spec.params.from).rank) :
    lowerRefusal input.cls (Level.ofName input.spec.params.from)
      (Level.ofName input.spec.params.to) = "" := by
  obtain ⟨hne, hrank⟩ := changes_of_planFor htype h
  have hpass := autonomyGate_of_planFor htype h
  by_contra hrefused
  simp only [autonomyGate, if_neg (not_lt.mpr hrank), if_neg hne, if_pos hlower, if_neg hrefused]
    at hpass
  simp [Plan.anyFail, Plan.addVerdict, autonomyVerdict] at hpass

theorem raiseRefusal_of_planFor
    (hraise : (Level.ofName input.spec.params.from).rank < (Level.ofName input.spec.params.to).rank) :
    raiseRefusal input (Level.ofName input.spec.params.from)
      (Level.ofName input.spec.params.to) = "" := by
  obtain ⟨hne, hrank⟩ := changes_of_planFor htype h
  have hpass := autonomyGate_of_planFor htype h
  by_contra hrefused
  simp only [autonomyGate, if_neg (not_lt.mpr hrank), if_neg hne, if_neg (not_lt.mpr hraise.le),
    if_pos hrefused] at hpass
  simp [Plan.anyFail, Plan.addVerdict, autonomyVerdict] at hpass

end LevelChange

theorem raiseGate_human (old new : Level) (p : Plan) :
    (raiseGate input old new p).floor.human = true := by
  unfold raiseGate
  split
  · rfl
  · split <;> rfl

/-- A raise never proceeds without a person. -/
theorem predicted_ne_proceeds_of_raise (htype : input.spec.type = .autonomy)
    (hraise : (Level.ofName input.spec.params.from).rank < (Level.ofName input.spec.params.to).rank) :
    (planFor pkg input).predicted ≠ .proceeds := by
  intro hproceeds
  have hplan : (planFor pkg input).predicted ≠ .rejected := by simp [hproceeds]
  obtain ⟨hne, hrank⟩ := changes_of_planFor htype hplan
  have hrefusal := raiseRefusal_of_planFor htype hplan hraise
  have hgate : autonomyGate input (initialPlan pkg input) =
      raiseGate input (Level.ofName input.spec.params.from) (Level.ofName input.spec.params.to)
        (initialPlan pkg input) := by
    simp only [autonomyGate, if_neg (not_lt.mpr hrank), if_neg hne, if_neg (not_lt.mpr hraise.le),
      hrefusal, ne_eq, not_true_eq_false, if_false]
  have hhuman : (routeToServiceTeam input (autonomyGate input (initialPlan pkg input))).floor.human =
      true := by
    rw [routeToServiceTeam_human, hgate, raiseGate_human]
  have hplanned : planFor pkg input =
      predict input (routeToServiceTeam input (autonomyGate input (initialPlan pkg input))) := by
    simp [planFor, refusal_eq_empty_of_planFor hplan, typeGates, htype,
      holdForRecords_of_human input hhuman]
  rw [hplanned, predict] at hproceeds
  split at hproceeds
  · cases hproceeds
  · simp at hproceeds

theorem lowerRefusal_eq_empty {cls : ActorClass} {old new : Level}
    (h : lowerRefusal cls old new = "") :
    (cls = .agent → new ≠ .observe) ∧
      (cls = .controller → old.automatic = true ∧ old.rank - new.rank = 1) := by
  rw [lowerRefusal] at h
  split at h
  · simp at h
  · rename_i hagent
    split at h
    · simp at h
    · rename_i hcontroller
      refine ⟨fun hcls hobserve => hagent (by simp [hcls, hobserve]), fun hcls => ?_⟩
      simpa [hcls] using hcontroller

theorem raiseRefusal_eq_empty {old new : Level} (h : raiseRefusal input old new = "") :
    input.cls ≠ .controller ∧ new.rank ≤ old.rank + 1 := by
  rw [raiseRefusal] at h
  split at h
  · simp at h
  · rename_i hcontroller
    split at h
    · simp at h
    · rename_i hstep
      exact ⟨hcontroller, by omega⟩

theorem not_mem_failedDigests_of_admitRollback {spec : OperationSpec} {status : StageStatus}
    {cited : Option CitedOp} {cls : ActorClass} (h : admitRollback spec status cited cls = "") :
    spec.params.to ∉ status.failedDigests := by
  intro hmem
  have hcontains : status.failedDigests.contains spec.params.to = true :=
    List.contains_iff_mem.mpr hmem
  cases cited with
  | none => simp [admitRollback] at h
  | some cited =>
    simp only [admitRollback, hcontains, if_true] at h
    repeat' split at h
    all_goals simp at h

end Admitted

/-! ## Approvals that go with an order -/

/-- A plan that says what must move first asks a person to approve. -/
def Plan.Ordered (p : Plan) : Prop := p.order.isSome = true → p.AsksApproval

section Ordered

variable (pkg : Packages) (input : PlanInput) (new : Bundle) {p q : Plan}

theorem Plan.Ordered.of_none (h : p.order = none) : p.Ordered := by
  intro hsome
  simp [h] at hsome

/-- What keeps the order and never lowers an approval keeps plans ordered. -/
theorem Plan.Ordered.of_order (h : p.Ordered) (horder : q.order = p.order)
    (hasks : p.AsksApproval → q.AsksApproval) : q.Ordered := by
  intro hsome
  rw [horder] at hsome
  exact hasks (h hsome)

theorem askServiceTeam_order : (askServiceTeam input p).order = p.order := by
  unfold askServiceTeam
  split <;> rfl

theorem holdFor_order (d : Decision) (why question : String) :
    (holdFor p d why question).order = p.order := by
  unfold holdFor
  split <;> rfl

theorem impactGate_ordered (h : p.order = none) : (impactGate pkg input new p).Ordered := by
  by_cases hbreaks : (impactAnalysis pkg input new).breaksConsumer = true
  · exact fun _ => impactGate_asksApproval pkg input new hbreaks
  · refine .of_none ?_
    unfold impactGate
    dsimp only
    rw [if_neg hbreaks]
    split <;> exact h

theorem suitesGate_order : (suitesGate pkg input new p).order = p.order := by
  unfold suitesGate
  dsimp only
  split
  · rfl
  · split <;> rfl

theorem environmentGate_order : (environmentGate pkg input new p).order = p.order := by
  have hasks : ∀ d why question,
      (askServiceTeam input (holdFor p d why question)).order = p.order :=
    fun d why question => (askServiceTeam_order input).trans (holdFor_order d why question)
  unfold environmentGate
  dsimp only
  split
  · rfl
  · split
    · exact hasks _ _ _
    · split
      · exact hasks _ _ _
      · rfl

theorem ownerGate_order : (ownerGate input p).order = p.order := by
  unfold ownerGate
  split
  · rfl
  · split
    · rfl
    · exact askServiceTeam_order input

theorem contractGates_ordered (h : p.order = none) : (contractGates pkg input new p).Ordered := by
  refine .of_order ?_ (ownerGate_order input) (ownerGate_asksApproval input)
  refine .of_order ?_ (environmentGate_order pkg input new)
    (environmentGate_asksApproval pkg input new)
  exact (impactGate_ordered pkg input new h).of_order (suitesGate_order pkg input new)
    (suitesGate_asksApproval pkg input new)

theorem promoteGates_ordered (h : p.order = none) : (promoteGates pkg input p).Ordered := by
  unfold promoteGates
  dsimp only
  split
  · exact .of_none h
  · exact .of_none h
  · split
    · exact contractGates_ordered pkg input _ h
    · split <;> exact .of_none h

/-- A hold that only asks where nobody is asked yet keeps plans ordered. -/
theorem Plan.Ordered.of_hold (h : p.Ordered) (horder : q.order = p.order)
    (hkeep : p.floor.human = true → q = p) : q.Ordered :=
  h.of_order horder fun hasks => by rwa [hkeep hasks.human]

theorem approvalPolicy_order : (approvalPolicy input p).order = p.order := by
  unfold approvalPolicy
  split <;> rfl

theorem levelPromote_order : (levelPromote input p).order = p.order := by
  unfold levelPromote
  split
  · rfl
  · split
    · rfl
    · split <;> rfl
    · rfl

theorem holdForRecords_order : (holdForRecords input p).order = p.order := by
  unfold holdForRecords
  dsimp only
  split <;> rfl

theorem routeToServiceTeam_order : (routeToServiceTeam input p).order = p.order := by
  unfold routeToServiceTeam
  split <;> rfl

theorem routeToServiceTeam_ordered (h : p.Ordered) : (routeToServiceTeam input p).Ordered :=
  h.of_order (routeToServiceTeam_order input) fun hasks =>
    ⟨(routeToServiceTeam_human input).trans hasks.human,
      (routeToServiceTeam_decision input).trans hasks.decision⟩

theorem raiseGate_order (from' to' : Level) : (raiseGate input from' to' p).order = p.order := by
  unfold raiseGate
  dsimp only
  split
  · rfl
  · split <;> rfl

theorem autonomyGate_order : (autonomyGate input p).order = p.order := by
  unfold autonomyGate
  dsimp only
  repeat' split
  all_goals first | rfl | exact raiseGate_order input _ _

theorem rollbackImpact_order : (rollbackImpact pkg input p).order = p.order := by
  unfold rollbackImpact
  split
  · split
    · rfl
    · dsimp only
      split <;> rfl
  · rfl

theorem typeGates_ordered (h : p.order = none) : (typeGates pkg input p).Ordered := by
  unfold typeGates
  split
  · refine routeToServiceTeam_ordered input ?_
    have hpolicy := (promoteGates_ordered pkg input h).of_hold (approvalPolicy_order input)
      (approvalPolicy_of_human input)
    exact hpolicy.of_hold (levelPromote_order input) (levelPromote_of_human input)
  · exact routeToServiceTeam_ordered input (.of_none ((autonomyGate_order input).trans h))
  · exact routeToServiceTeam_ordered input (.of_none ((rollbackImpact_order pkg input).trans h))
  · exact .of_none h

/-- A plan that is not rejected and says what must move first asks a person to
approve. -/
theorem planFor_ordered (h : (planFor pkg input).predicted ≠ .rejected) :
    (planFor pkg input).Ordered := by
  have hgates := (typeGates_ordered pkg input (p := initialPlan pkg input) rfl).of_hold
    (holdForRecords_order input) (holdForRecords_of_human input)
  have hplan : planFor pkg input =
      predict input (holdForRecords input (typeGates pkg input (initialPlan pkg input))) := by
    simp [planFor, refusal_eq_empty_of_planFor h]
  rw [hplan, predict] at h ⊢
  split at h
  · exact absurd rfl h
  · rename_i hpass
    rw [if_neg hpass]
    split
    · exact hgates.of_order rfl fun hasks => ⟨hasks.human, hasks.decision⟩
    · split <;> exact hgates.of_order rfl fun hasks => ⟨hasks.human, hasks.decision⟩

end Ordered

end Pacto.Delivery
