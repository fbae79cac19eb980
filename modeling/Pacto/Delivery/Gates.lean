import Pacto.Delivery.ConfirmedBreak

/-!
# What each gate asks

The gates of a promote in the form two plans are compared by: the verdicts a
gate adds, and the decision it asks a person for on top of what was asked
before it.  Asking again never lowers an approval to an accepted unknown.
-/

namespace Pacto.Delivery

/-! ## Asking on top of what is asked -/

namespace Plan

/-- `p'` asks what `p` does, of other people or in other words. -/
structure AsksLike (p p' : Plan) : Prop where
  human : p'.floor.human = p.floor.human
  decision : p'.floor.decision = p.floor.decision

/-- `p'` asks for `d` on top of what `p` asks. -/
structure Raised (d : Decision) (p p' : Plan) : Prop where
  human : p'.floor.human = true
  decision : p'.floor.decision =
    if p.floor.human = true ∧ d ≠ .approve then p.floor.decision else some d

def Asks : Option Decision → Plan → Plan → Prop
  | none => fun p p' => p'.floor = p.floor
  | some d => Raised d

/-- `p'` asks for an approval if `c` holds and `p` asks nobody, and otherwise
asks what `p` does. -/
structure HeldIf (c : Prop) (p p' : Plan) : Prop where
  verdicts : p'.verdicts = p.verdicts
  keeps : p.floor.human = true ∨ ¬c → p'.floor = p.floor
  asks : p.floor.human = false → c → p'.AsksApproval

variable {p p' p'' : Plan} {d : Decision}

theorem AsksLike.of_floor (h : p'.floor = p.floor) : AsksLike p p' := ⟨by rw [h], by rw [h]⟩

theorem AsksLike.asksApproval (h : AsksLike p p') : p'.AsksApproval ↔ p.AsksApproval := by
  constructor
  · intro hp
    exact ⟨h.human ▸ hp.human, h.decision ▸ hp.decision⟩
  · intro hp
    exact ⟨h.human.trans hp.human, h.decision.trans hp.decision⟩

theorem Raised.trans_asksLike (h : Raised d p p') (h' : AsksLike p' p'') : Raised d p p'' :=
  ⟨h'.human.trans h.human, h'.decision.trans h.decision⟩

theorem Raised.asksApproval (h : Raised .approve p p') : p'.AsksApproval :=
  ⟨h.human, by rw [h.decision]; simp⟩

/-- A plan that asks keeps its decision when it is asked for less than an
approval. -/
theorem Raised.asksLike (h : Raised d p p') (hd : d ≠ .approve) (hp : p.floor.human = true) :
    AsksLike p p' :=
  ⟨h.human.trans hp.symm, by rw [h.decision, if_pos ⟨hp, hd⟩]⟩

theorem Raised.decision_of_quiet (h : Raised d p p') (hp : p.floor.human = false) :
    p'.floor.decision = some d := by
  rw [h.decision, if_neg (by simp [hp])]

theorem Asks.quiet {asked : Option Decision} (h : Asks asked p p') (hp' : p'.floor.human = false) :
    p'.floor = p.floor := by
  cases asked with
  | none => exact h
  | some d => exact absurd (hp'.symm.trans (Raised.human h)) (by decide)

theorem HeldIf.of_eq {c : Prop} (hverdicts : p'.verdicts = p.verdicts)
    (hkeeps : p.floor.human = true ∨ ¬c → p' = p)
    (hasks : p.floor.human = false → c → p'.AsksApproval) : HeldIf c p p' where
  verdicts := hverdicts
  keeps := fun h => by rw [hkeeps h]
  asks := hasks

theorem HeldIf.quiet {c : Prop} (h : HeldIf c p p') (hp' : p'.floor.human = false) :
    p'.floor = p.floor := by
  by_cases hkeeps : p.floor.human = true ∨ ¬c
  · exact h.keeps hkeeps
  · push Not at hkeeps
    have hasks := h.asks (by simpa using hkeeps.1) hkeeps.2
    exact absurd (hp'.symm.trans hasks.human) (by decide)

end Plan

theorem askServiceTeam_asksLike (input : PlanInput) (p : Plan) :
    p.AsksLike (askServiceTeam input p) :=
  ⟨askServiceTeam_human input, askServiceTeam_decision input⟩

theorem routeToServiceTeam_asksLike (input : PlanInput) (p : Plan) :
    p.AsksLike (routeToServiceTeam input p) :=
  ⟨routeToServiceTeam_human input, routeToServiceTeam_decision input⟩

theorem holdFor_raised (p : Plan) (d : Decision) (why question : String) :
    Plan.Raised d p (holdFor p d why question) := by
  refine ⟨holdFor_human d why question, ?_⟩
  cases hp : p.floor.human <;> by_cases hd : d = .approve <;> simp [holdFor, hp, hd]

/-! ## The gates that need both contracts -/

section Gates

variable (pkg : Packages) (input : PlanInput) (new : Bundle) {p : Plan}

theorem impactGate_adds : ∃ result message, result ≠ .fail ∧
    (impactGate pkg input new p).verdicts = p.verdicts ++
      [impactGateVerdict pkg input (input.snapshot.getD {}) (impactAnalysis pkg input new)
        result message] := by
  unfold impactGate holdForConsumers
  dsimp only
  split
  · split <;> exact ⟨.pass, _, by decide, rfl⟩
  · split
    · exact ⟨.unknown, _, by decide, rfl⟩
    · exact ⟨.pass, _, by decide, rfl⟩

theorem impactGate_of_unseen (h : (impactAnalysis pkg input new).breaksConsumer = false)
    (hunseen : unseenOf pkg input (input.snapshot.getD {}) (impactAnalysis pkg input new) ≠ []) :
    (impactGate pkg input new p).floor = { human := true, decision := some .acceptUnknown } := by
  simp [impactGate, h, hunseen]

theorem impactGate_of_seen (h : (impactAnalysis pkg input new).breaksConsumer = false)
    (hseen : unseenOf pkg input (input.snapshot.getD {}) (impactAnalysis pkg input new) = []) :
    (impactGate pkg input new p).floor = p.floor := by
  simp [impactGate, h, hseen]

theorem impactGate_quiet (h : (impactGate pkg input new p).floor.human = false) :
    (impactGate pkg input new p).floor = p.floor := by
  cases hbreaks : (impactAnalysis pkg input new).breaksConsumer with
  | true =>
    exact absurd (h.symm.trans (impactGate_asksApproval pkg input new hbreaks).human) (by decide)
  | false =>
    by_cases hseen : unseenOf pkg input (input.snapshot.getD {}) (impactAnalysis pkg input new) = []
    · exact impactGate_of_seen pkg input new hbreaks hseen
    · rw [impactGate_of_unseen pkg input new hbreaks hseen] at h
      cases h

def suitesDoubted (p : Plan) : List String :=
  changedSuites p ++ input.stage.checks.flatMap (missingSuite pkg input new)

def suitesVerdict (p : Plan) : Verdict :=
  { gate := gateSuites, phase := "pre", result := .unknown
    message := joinWith "; " (suitesDoubted pkg input new p)
    citation := [("contract", input.to.contractRef)] }

theorem suitesGate_of_none (h : suitesDoubted pkg input new p = []) :
    suitesGate pkg input new p = p := by
  unfold suitesGate
  exact if_pos h

theorem suitesGate_adds (h : suitesDoubted pkg input new p ≠ []) :
    (suitesGate pkg input new p).verdicts = p.verdicts ++ [suitesVerdict pkg input new p] ∧
      Plan.Raised .acceptUnknown p (suitesGate pkg input new p) := by
  have heq : suitesGate pkg input new p = _ := if_neg h
  rw [heq]
  cases hp : p.floor.human with
  | true => exact ⟨by simp [hp]; rfl, by simp [hp], by simp [hp]⟩
  | false => exact ⟨by simp [hp]; rfl, by simp [hp], by simp [hp]⟩

def environmentAsks : Option Decision :=
  if (environmentProblems pkg input new).1 ≠ [] then some .approve
  else if (environmentProblems pkg input new).2 ≠ [] then some .acceptUnknown
  else none

def environmentCitation : List (String × String) :=
  [("environment", input.stage.environment), ("contract", input.to.contractRef)] ++
    if new.contract.environments = [] then [("applicable", "false")] else []

/-- The environment gate adds one verdict, unknown exactly when it asks to
accept an unknown. -/
theorem environmentGate_adds : ∃ v : Verdict, v.gate = gateEnvironment ∧
    v.citation = environmentCitation input new ∧ v.result ≠ .fail ∧
    (v.result = .unknown ↔ environmentAsks pkg input new = some .acceptUnknown) ∧
    (environmentGate pkg input new p).verdicts = p.verdicts ++ [v] := by
  unfold environmentGate environmentAsks environmentCitation
  by_cases hnone : new.contract.environments = []
  · have hproblems : environmentProblems pkg input new = ([], []) := by
      simp [environmentProblems, hnone]
    simp only [hnone, hproblems, if_true]
    exact ⟨_, rfl, rfl, by simp, by simp, rfl⟩
  · simp only [hnone, if_false]
    split
    · rw [Plan.addVerdict_verdicts, askServiceTeam_verdicts, holdFor_verdicts]
      exact ⟨_, rfl, rfl, by simp, by simp, rfl⟩
    · split
      · rw [Plan.addVerdict_verdicts, askServiceTeam_verdicts, holdFor_verdicts]
        exact ⟨_, rfl, rfl, by simp, by simp, rfl⟩
      · exact ⟨_, rfl, rfl, by simp, by simp, rfl⟩

theorem environmentGate_asks :
    Plan.Asks (environmentAsks pkg input new) p (environmentGate pkg input new p) := by
  by_cases hnone : new.contract.environments = []
  · have hproblems : environmentProblems pkg input new = ([], []) := by
      simp [environmentProblems, hnone]
    simp only [environmentAsks, hproblems, environmentGate, hnone, ne_eq, not_true_eq_false,
      if_false, if_true]
    rfl
  · unfold environmentAsks environmentGate
    simp only [hnone, if_false]
    split
    · exact ((holdFor_raised p .approve _ _).trans_asksLike
        (askServiceTeam_asksLike input _)).trans_asksLike ⟨rfl, rfl⟩
    · split
      · exact ((holdFor_raised p .acceptUnknown _ _).trans_asksLike
          (askServiceTeam_asksLike input _)).trans_asksLike ⟨rfl, rfl⟩
      · exact rfl

def ownerAsks (p : Plan) : Option Decision :=
  if (foundDiff p).any (·.cite "owner" ≠ "") then some .approve else none

theorem ownerGate_verdicts : (ownerGate input p).verdicts = p.verdicts := by
  unfold ownerGate
  split
  · rfl
  · split
    · rfl
    · rw [askServiceTeam_verdicts]
      rfl

theorem ownerGate_asks : Plan.Asks (ownerAsks p) p (ownerGate input p) := by
  unfold ownerGate ownerAsks
  cases hdiff : foundDiff p with
  | none => exact rfl
  | some v =>
    by_cases howner : v.cite "owner" = ""
    · simp only [howner, Option.any_some, ne_eq, not_true_eq_false, decide_false, if_true]
      exact rfl
    · simp only [howner, Option.any_some, ne_eq, not_false_eq_true, decide_true, if_true, if_false]
      exact Plan.Raised.trans_asksLike ⟨rfl, by simp⟩ (askServiceTeam_asksLike input _)

theorem suitesGate_quiet (h : (suitesGate pkg input new p).floor.human = false) :
    (suitesGate pkg input new p).floor = p.floor := by
  by_cases hnone : suitesDoubted pkg input new p = []
  · rw [suitesGate_of_none pkg input new hnone]
  · exact absurd (h.symm.trans (suitesGate_adds pkg input new hnone).2.human) (by decide)

/-- Gates that leave nobody asked asked nothing. -/
theorem contractGates_quiet (h : (contractGates pkg input new p).floor.human = false) :
    (contractGates pkg input new p).floor = p.floor := by
  unfold contractGates at h ⊢
  have howner := (ownerGate_asks input).quiet h
  rw [howner] at h ⊢
  have henvironment := (environmentGate_asks pkg input new).quiet h
  rw [henvironment] at h ⊢
  have hsuites := suitesGate_quiet pkg input new h
  rw [hsuites] at h ⊢
  exact impactGate_quiet pkg input new h

end Gates

/-! ## The holds after the gates -/

section Holds

variable (pkg : Packages) (input : PlanInput) {p : Plan}

theorem approvalPolicy_heldIf :
    Plan.HeldIf (input.stage.approvalAlways = true) p (approvalPolicy input p) := by
  refine .of_eq (approvalPolicy_verdicts input) (fun hkeeps => ?_) fun hquiet halways => ?_
  · rcases hkeeps with hhuman | hnot
    · exact approvalPolicy_of_human input hhuman
    · exact if_neg (by simpa using fun h => absurd h hnot)
  · simp only [approvalPolicy, halways, hquiet, Bool.not_false, Bool.and_self, if_true]
    exact ⟨rfl, rfl⟩

/-- The level holds a promote no person raised: always on advise, and unless it
is classified non-breaking on auto-nonbreaking. -/
def LevelHolds (cls : ActorClass) (level : Level) (classification : String) : Prop :=
  cls ≠ .human ∧
    (level = .advise ∨
      (level = .autoNonBreaking ∧ classification ≠ Classification.nonBreaking.text))

theorem levelPromote_heldIf :
    Plan.HeldIf (LevelHolds input.cls (currentLevel input.stage input.status)
      (planClassification p)) p (levelPromote input p) := by
  refine .of_eq (levelPromote_verdicts input) (fun hkeeps => ?_) ?_
  · rcases hkeeps with hhuman | hnot
    · exact levelPromote_of_human input hhuman
    · unfold levelPromote
      unfold LevelHolds at hnot
      split
      · rfl
      · split <;> simp_all
  · rintro hquiet ⟨hcls, hlevel | ⟨hlevel, hbreaking⟩⟩
    · simp only [levelPromote, hcls, hquiet, hlevel, decide_false, Bool.or_self,
        Bool.false_eq_true, if_false]
      exact ⟨rfl, rfl⟩
    · simp only [levelPromote, hcls, hquiet, hlevel, hbreaking, decide_false, Bool.or_self,
        Bool.false_eq_true, if_false, ne_eq, not_false_eq_true, if_true]
      exact ⟨rfl, rfl⟩

/-- A promote that no person raised is held while a Stage that requires records
cannot have them written. -/
def RecordsHold (input : PlanInput) : Prop :=
  recordsUnavailable input.stage input.status ≠ "" ∧ input.cls ≠ .human ∧
    input.cls ≠ .breakGlass

theorem holdForRecords_heldIf (htype : input.spec.type = .promote) :
    Plan.HeldIf (RecordsHold input) p (holdForRecords input p) := by
  refine .of_eq (holdForRecords_verdicts input) (fun hkeeps => ?_) ?_
  · rcases hkeeps with hhuman | hnot
    · exact holdForRecords_of_human input hhuman
    · refine if_pos ?_
      unfold RecordsHold at hnot
      simp only [Bool.or_eq_true, decide_eq_true_eq]
      tauto
  · rintro hquiet ⟨hwhy, hhuman, hglass⟩
    simp only [holdForRecords, hwhy, hhuman, hglass, hquiet, htype, decide_false, ne_eq,
      not_true_eq_false, Bool.false_and, Bool.or_self, Bool.false_eq_true, if_false]
    exact ⟨rfl, rfl⟩

/-- The plan of a promote before it is turned into a prediction. -/
def heldPlan : Plan :=
  holdForRecords input (routeToServiceTeam input
    (levelPromote input (approvalPolicy input (promotePlan pkg input))))

theorem routeToServiceTeam_floor (p : Plan) :
    (routeToServiceTeam input p).floor = { p.floor with owners := routedOwners input p } := by
  unfold routeToServiceTeam
  split <;> rfl

theorem heldPlan_verdicts : (heldPlan pkg input).verdicts = (promotePlan pkg input).verdicts := by
  rw [heldPlan, holdForRecords_verdicts, routeToServiceTeam_verdicts, levelPromote_verdicts,
    approvalPolicy_verdicts]

theorem promotePlan_quiet (h : (promotePlan pkg input).floor.human = false) :
    (promotePlan pkg input).floor = {} := by
  unfold promotePlan promoteGates at h ⊢
  dsimp only at h ⊢
  cases hpub : (publishedGate input).result with
  | fail => rfl
  | unknown => simp [hpub] at h
  | pass =>
    simp only [hpub] at h ⊢
    split
    · rename_i hdiff hnew
      simp only [hdiff, hnew] at h
      exact contractGates_quiet pkg input _ h
    · rename_i result _ _
      split
      · simp_all
      · rfl

/-- A plan that asks nobody asks for nothing and names no consumer. -/
theorem heldPlan_quiet (htype : input.spec.type = .promote)
    (h : (heldPlan pkg input).floor.human = false) :
    (heldPlan pkg input).floor.decision = none ∧ (heldPlan pkg input).floor.consumers = [] := by
  unfold heldPlan at h ⊢
  have hrecords := (holdForRecords_heldIf input htype).quiet h
  rw [hrecords] at h ⊢
  rw [routeToServiceTeam_human] at h
  have hlevel := (levelPromote_heldIf input).quiet h
  rw [hlevel] at h
  have hpolicy := (approvalPolicy_heldIf input).quiet h
  rw [hpolicy] at h
  rw [routeToServiceTeam_floor, hlevel, hpolicy, promotePlan_quiet pkg input h]
  exact ⟨rfl, rfl⟩

/-! ## From the plan to the prediction -/

theorem planFor_of_refusal (h : refusal input ≠ "") :
    (planFor pkg input).predicted = .rejected ∧ (planFor pkg input).floor = {} := by
  simp [planFor, h, initialPlan]

theorem predict_of_fail {p : Plan} (h : p.anyFail = true) :
    (predict input p).predicted = .rejected ∧ (predict input p).floor = {} := by
  simp [predict, h]

theorem predict_of_human {p : Plan} (h : p.anyFail = false) (hhuman : p.floor.human = true) :
    p.AsksLike (predict input p) ∧ (predict input p).predicted = .held := by
  simp only [predict, h, hhuman, Bool.false_eq_true, if_false, if_true]
  exact ⟨⟨hhuman.symm ▸ rfl, rfl⟩, trivial⟩

/-- What ships on its own waits for a freeze to lift or proceeds. -/
theorem predict_of_quiet {p : Plan} (h : p.anyFail = false) (hquiet : p.floor.human = false) :
    (predict input p).floor = p.floor ∧
      (predict input p).predicted =
        if input.status.frozen && input.spec.type = .promote then .waits else .proceeds := by
  simp only [predict, h, hquiet, Bool.false_eq_true, if_false]
  split <;> exact ⟨rfl, rfl⟩

theorem planFor_of_heldPlan (htype : input.spec.type = .promote) (hrefusal : refusal input = "") :
    planFor pkg input = predict input (heldPlan pkg input) :=
  planFor_of_promote pkg input htype hrefusal

/-- A promote that is not rejected keeps the verdicts of its gates and asks
what its holds left. -/
theorem planFor_admitted (htype : input.spec.type = .promote)
    (h : (planFor pkg input).predicted ≠ .rejected) :
    (promotePlan pkg input).anyFail = false ∧
      (planFor pkg input).verdicts = (promotePlan pkg input).verdicts ∧
      (planFor pkg input).floor = (heldPlan pkg input).floor := by
  have hrefusal := refusal_eq_empty_of_planFor h
  rw [planFor_of_heldPlan pkg input htype hrefusal] at h ⊢
  have hfail : (heldPlan pkg input).anyFail = false := by
    by_contra hne
    exact h (predict_of_fail input (by simpa using hne)).1
  refine ⟨?_, ?_, ?_⟩
  · rw [Plan.anyFail, ← heldPlan_verdicts]
    exact hfail
  · rw [← heldPlan_verdicts]
    simp only [predict, hfail, Bool.false_eq_true, if_false]
    split_ifs <;> rfl
  · simp only [predict, hfail, Bool.false_eq_true, if_false]
    split_ifs <;> rfl

end Holds

end Pacto.Delivery
