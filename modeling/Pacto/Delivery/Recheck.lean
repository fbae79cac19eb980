import Pacto.Delivery.Approval
import Pacto.Delivery.Policy

/-!
# What an approval covers

`stillPasses` compares the plan a person approved with the plan an operation
would get now.  Both are plans of promotes, and which gates a promote's plan
can name decides what the comparison is worth.
-/

namespace Pacto.Delivery

/-! ## The comparison -/

namespace Plan

def Passes (p : Plan) (gate : String) : Prop :=
  ∃ v ∈ p.verdicts, v.gate = gate ∧ v.result = .pass

/-- A gate could not tell. -/
def Doubts (p : Plan) (gate : String) : Prop :=
  ∃ v ∈ p.verdicts, v.gate = gate ∧ v.result = .unknown

instance (p : Plan) (gate : String) : Decidable (p.Doubts gate) :=
  inferInstanceAs (Decidable (∃ v ∈ p.verdicts, v.gate = gate ∧ v.result = .unknown))

/-- The impact gate could not tell, for this reason. -/
def ImpactDoubt (p : Plan) (message : String) : Prop :=
  ∃ v ∈ p.verdicts, v.gate = gateImpact ∧ v.result = .unknown ∧ v.message = message

end Plan

theorem subset_iff (a b : List String) : subset a b = true ↔ ∀ x ∈ a, x ∈ b := by
  simp [subset]

/-- What `stillPasses` compares while `cur` asks a person. -/
structure AskedWithin (prev cur : Plan) : Prop where
  owners : ∀ team ∈ cur.floor.owners, team ∈ prev.floor.owners
  consumers : ∀ consumer ∈ cur.floor.consumers, consumer ∈ prev.floor.consumers
  impact : ∀ message, cur.ImpactDoubt message → prev.ImpactDoubt message
  decision : cur.floor.decision = prev.floor.decision ∨ prev.floor.decision = some .approve

theorem newImpactDoubt_eq_false_iff (prev cur : Plan) :
    newImpactDoubt prev cur = false ↔
      ∀ message, cur.ImpactDoubt message → prev.ImpactDoubt message := by
  rw [newImpactDoubt, List.any_eq_false]
  constructor
  · rintro h message ⟨v, hv, hgate, hresult, rfl⟩
    have hseen := h v hv
    simp only [hgate, hresult, decide_true, Bool.and_self, Bool.true_and, Bool.not_eq_true,
      Bool.not_eq_false', List.any_eq_true, Bool.and_eq_true, decide_eq_true_eq, and_assoc] at hseen
    exact hseen
  · rintro h v hv
    simp only [Bool.and_eq_true, decide_eq_true_eq, Bool.not_eq_true', not_and,
      Bool.not_eq_false, List.any_eq_true, and_imp]
    intro hgate hresult
    obtain ⟨w, hw, hgate', hresult', hmessage⟩ := h v.message ⟨v, hv, hgate, hresult, rfl⟩
    exact ⟨w, hw, ⟨hgate'.trans hgate.symm, hresult'.trans hresult.symm⟩, hmessage⟩

theorem lostPass_eq_false_iff (prev cur : Plan) :
    (prev.verdicts.any fun v =>
        v.result = .pass && !cur.verdicts.any fun c => c.gate = v.gate && c.result = .pass) = false ↔
      ∀ gate, prev.Passes gate → cur.Passes gate := by
  rw [List.any_eq_false]
  constructor
  · rintro h gate ⟨v, hv, rfl, hresult⟩
    simpa [hresult, Plan.Passes] using h v hv
  · intro h v hv
    simp only [Bool.and_eq_true, decide_eq_true_eq, Bool.not_eq_true', not_and,
      Bool.not_eq_false, List.any_eq_true]
    exact fun hresult => h v.gate ⟨v, hv, rfl, hresult⟩

theorem stillPasses_iff (prev cur : Plan) :
    stillPasses prev cur = true ↔
      (∀ gate, prev.Passes gate → cur.Passes gate) ∧
        (cur.floor.human = true → AskedWithin prev cur) := by
  rw [← lostPass_eq_false_iff]
  unfold stillPasses
  split
  · simp_all
  · rename_i hlost
    rw [Bool.not_eq_true] at hlost
    simp only [hlost, true_and]
    cases hhuman : cur.floor.human with
    | false => simp
    | true =>
      simp only [Bool.not_true, Bool.false_eq_true, if_false, forall_const]
      constructor
      · intro h
        split at h
        · cases h
        · split at h
          · cases h
          · rename_i hsubset hdoubt
            simp only [Bool.or_eq_true, Bool.not_eq_true', not_or, Bool.not_eq_false,
              subset_iff] at hsubset
            refine ⟨hsubset.1, hsubset.2, ?_, by simpa using h⟩
            rw [← newImpactDoubt_eq_false_iff]
            simpa using hdoubt
      · intro h
        have hdoubt := (newImpactDoubt_eq_false_iff prev cur).mpr h.impact
        simp only [(subset_iff _ _).mpr h.owners, (subset_iff _ _).mpr h.consumers, hdoubt,
          Bool.not_true, Bool.or_self, Bool.false_eq_true, if_false, Bool.or_eq_true,
          decide_eq_true_eq]
        exact h.decision

/-! ## The verdicts of a promote -/

def impactUnread : Verdict :=
  { gate := gateImpact, phase := "pre", result := .unknown
    message := "impact needs the contracts the diff could not read" }

/-- The verdicts of a promote no gate failed, by how far its gates got. -/
inductive Reached (pkg : Packages) (input : PlanInput) : List Verdict → Prop where
  | published (hpub : (publishedGate input).result = .unknown) :
      Reached pkg input [publishedGate input]
  | diff (hpub : (publishedGate input).result = .pass)
      (hdiff : (diffGate pkg input).result = .unknown) :
      Reached pkg input [publishedGate input, diffGate pkg input, impactUnread]
  | contracts (hpub : (publishedGate input).result = .pass)
      (hdiff : (diffGate pkg input).result = .pass) (impact : Verdict) (rest : List Verdict)
      (himpact : impact.gate = gateImpact)
      (hrest : ∀ v ∈ rest, v.gate = gateSuites ∨ v.gate = gateEnvironment) :
      Reached pkg input (publishedGate input :: diffGate pkg input :: impact :: rest)

section Reached

variable (pkg : Packages) (input : PlanInput)

theorem suitesGate_rest (new : Bundle) (p : Plan) : ∃ rest : List Verdict,
    (suitesGate pkg input new p).verdicts = p.verdicts ++ rest ∧ ∀ v ∈ rest, v.gate = gateSuites := by
  by_cases hnone : suitesDoubted pkg input new p = []
  · exact ⟨[], by rw [suitesGate_of_none pkg input new hnone, List.append_nil], by simp⟩
  · exact ⟨[suitesVerdict pkg input new p], (suitesGate_adds pkg input new hnone).1,
      by simp [suitesVerdict]⟩

theorem contractGates_verdicts (new : Bundle) (p : Plan) : ∃ impact rest,
    (contractGates pkg input new p).verdicts = p.verdicts ++ impact :: rest ∧
      impact.gate = gateImpact ∧ ∀ v ∈ rest, v.gate = gateSuites ∨ v.gate = gateEnvironment := by
  obtain ⟨result, message, -, himpact⟩ := impactGate_adds pkg input new (p := p)
  obtain ⟨suites, hsuites, hgate⟩ := suitesGate_rest pkg input new (impactGate pkg input new p)
  obtain ⟨environment, hgate', -, -, -, henvironment⟩ := environmentGate_adds pkg input new
    (p := suitesGate pkg input new (impactGate pkg input new p))
  refine ⟨impactGateVerdict pkg input (input.snapshot.getD {}) (impactAnalysis pkg input new)
    result message, suites ++ [environment], ?_, rfl, ?_⟩
  · rw [contractGates, ownerGate_verdicts, henvironment, hsuites, himpact]
    simp
  · intro v hv
    rcases List.mem_append.mp hv with hv | hv
    · exact .inl (hgate v hv)
    · rw [List.mem_singleton.mp hv]
      exact .inr hgate'

theorem reached_promotePlan (h : (promotePlan pkg input).anyFail = false) :
    Reached pkg input (promotePlan pkg input).verdicts := by
  unfold promotePlan promoteGates at h ⊢
  dsimp only at h ⊢
  cases hpub : (publishedGate input).result with
  | fail => simp [hpub, Plan.anyFail_addVerdict] at h
  | unknown => simpa [hpub, initialPlan] using Reached.published hpub
  | pass =>
    simp only [hpub] at h ⊢
    cases hdiff : (diffGate pkg input).result with
    | fail => simp [hdiff, Plan.anyFail_addVerdict] at h
    | unknown => simpa [hdiff, initialPlan, impactUnread] using Reached.diff hpub hdiff
    | pass =>
      obtain ⟨new, hnew⟩ := diffGate_pass_bundle pkg input hdiff
      simp only [hnew]
      obtain ⟨impact, rest, hverdicts, himpact, hrest⟩ := contractGates_verdicts pkg input new
        (((initialPlan pkg input).addVerdict (publishedGate input)).addVerdict
          (diffGate pkg input))
      rw [hverdicts]
      exact Reached.contracts hpub hdiff impact rest himpact hrest

end Reached

/-! ## What the comparison is worth -/

/-- An approval of `prev` covers `cur`, except for what the suites and the
environment gates could not tell. -/
structure Covers (prev cur : Plan) : Prop where
  passes : ∀ gate, prev.Passes gate → cur.Passes gate
  doubts : ∀ gate, gate ≠ gateSuites → gate ≠ gateEnvironment → cur.Doubts gate → prev.Doubts gate
  asks : cur.floor.human = true → prev.floor.human = true
  owners : cur.floor.human = true → ∀ team ∈ cur.floor.owners, team ∈ prev.floor.owners
  consumers : ∀ consumer ∈ cur.floor.consumers, consumer ∈ prev.floor.consumers
  approve : cur.AsksApproval → prev.AsksApproval

structure Admissible (pkg : Packages) (input : PlanInput) : Prop where
  type : input.spec.type = .promote
  admitted : (planFor pkg input).predicted ≠ .rejected

namespace Admissible

variable {pkg : Packages} {input : PlanInput}

theorem reached (h : Admissible pkg input) : Reached pkg input (planFor pkg input).verdicts := by
  obtain ⟨hfail, hverdicts, -⟩ := planFor_admitted pkg input h.type h.admitted
  rw [hverdicts]
  exact reached_promotePlan pkg input hfail

theorem human_of_decision (h : Admissible pkg input)
    (hdecision : (planFor pkg input).floor.decision ≠ none) :
    (planFor pkg input).floor.human = true := by
  rw [(planFor_admitted pkg input h.type h.admitted).2.2] at hdecision ⊢
  by_contra hquiet
  exact hdecision (heldPlan_quiet pkg input h.type (by simpa using hquiet)).1

theorem consumers_of_quiet (h : Admissible pkg input)
    (hquiet : (planFor pkg input).floor.human = false) :
    (planFor pkg input).floor.consumers = [] := by
  rw [(planFor_admitted pkg input h.type h.admitted).2.2] at hquiet ⊢
  exact (heldPlan_quiet pkg input h.type hquiet).2

theorem decision_of_human (h : Admissible pkg input)
    (hhuman : (planFor pkg input).floor.human = true) :
    (planFor pkg input).floor.decision ≠ none := by
  have hconsistent := planFor_consistent pkg input
  have hheld : (planFor pkg input).predicted = .held := by
    cases hpredicted : (planFor pkg input).predicted with
    | held => rfl
    | rejected => exact absurd hpredicted h.admitted
    | proceeds => exact absurd ((hconsistent.ships (.inl hpredicted)).2.symm.trans hhuman) (by decide)
    | waits => exact absurd ((hconsistent.ships (.inr hpredicted)).2.symm.trans hhuman) (by decide)
  rcases (hconsistent.holds hheld).2.1 with hdecision | hdecision <;> simp [hdecision]

/-- What a gate could not tell is asked of a person. -/
theorem human_of_doubts (h : Admissible pkg input) {gate : String}
    (hdoubts : (planFor pkg input).Doubts gate) : (planFor pkg input).floor.human = true := by
  obtain ⟨v, hv, -, hunknown⟩ := hdoubts
  have hconsistent := planFor_consistent pkg input
  have hpass := fun hships => (hconsistent.ships hships).1 v hv
  cases hpredicted : (planFor pkg input).predicted with
  | held => exact (hconsistent.holds hpredicted).1
  | rejected => exact absurd hpredicted h.admitted
  | proceeds => exact absurd (hunknown.symm.trans (hpass (.inl hpredicted))) (by decide)
  | waits => exact absurd (hunknown.symm.trans (hpass (.inr hpredicted))) (by decide)

end Admissible

section Covers

variable {pkg : Packages} {a b c : PlanInput}

/-- Which gates of a promote can have become unknown: the suites and the
environment gates, since every other unknown needs a gate before it to have
stopped passing or the impact gate to be unknown for a new reason. -/
theorem Reached.unknown {vs ws : List Verdict} (ha : Reached pkg a vs) (hb : Reached pkg b ws)
    (hpasses : ∀ gate, (∃ v ∈ vs, v.gate = gate ∧ v.result = .pass) →
      ∃ w ∈ ws, w.gate = gate ∧ w.result = .pass)
    (himpact : (∃ w ∈ ws, w.gate = gateImpact ∧ w.result = .unknown) →
      ∃ v ∈ vs, v.gate = gateImpact ∧ v.result = .unknown)
    {w : Verdict} (hw : w ∈ ws) (hunknown : w.result = .unknown) (hsuites : w.gate ≠ gateSuites)
    (henvironment : w.gate ≠ gateEnvironment) :
    ∃ v ∈ vs, v.gate = w.gate ∧ v.result = .unknown := by
  have hpublished : (∃ w ∈ ws, w.gate = gatePublished ∧ w.result = .pass) ∨
      vs = [publishedGate a] ∧ (publishedGate a).result = .unknown := by
    cases ha with
    | published hpub => exact .inr ⟨rfl, hpub⟩
    | diff hpub => exact .inl (hpasses _ ⟨_, List.mem_cons_self, publishedGate_gate a, hpub⟩)
    | contracts hpub =>
      exact .inl (hpasses _ ⟨_, List.mem_cons_self, publishedGate_gate a, hpub⟩)
  cases hb with
  | published hpub =>
    rw [List.mem_singleton.mp hw, publishedGate_gate]
    rcases hpublished with ⟨w', hw', -, hpass⟩ | ⟨rfl, hunknown'⟩
    · rw [List.mem_singleton.mp hw', hpub] at hpass
      cases hpass
    · exact ⟨_, List.mem_singleton_self _, publishedGate_gate a, hunknown'⟩
  | diff hpub hdiff =>
    have himpact' := himpact ⟨impactUnread, by simp, rfl, rfl⟩
    simp only [List.mem_cons, List.not_mem_nil, or_false] at hw
    rcases hw with rfl | rfl | rfl
    · exact absurd (hpub.symm.trans hunknown) (by decide)
    · rw [diffGate_gate]
      cases ha with
      | published hpub' =>
        obtain ⟨v, hv, hgate, -⟩ := himpact'
        rw [List.mem_singleton.mp hv, publishedGate_gate] at hgate
        exact absurd hgate (by decide)
      | diff _ hdiff' => exact ⟨_, by simp, diffGate_gate pkg a, hdiff'⟩
      | contracts _ hdiff' =>
        obtain ⟨w', hw', hgate, hpass⟩ :=
          hpasses gateDiff ⟨_, by simp, diffGate_gate pkg a, hdiff'⟩
        simp only [List.mem_cons, List.not_mem_nil, or_false] at hw'
        rcases hw' with rfl | rfl | rfl
        · exact absurd ((publishedGate_gate b).symm.trans hgate) (by decide)
        · exact absurd (hdiff.symm.trans hpass) (by decide)
        · exact absurd hpass (by decide)
    · exact himpact'
  | contracts hpub hdiff impact rest hgate hrest =>
    simp only [List.mem_cons] at hw
    rcases hw with rfl | rfl | rfl | hw
    · exact absurd (hpub.symm.trans hunknown) (by decide)
    · exact absurd (hdiff.symm.trans hunknown) (by decide)
    · rw [hgate]
      exact himpact ⟨_, by simp, hgate, hunknown⟩
    · rcases hrest w hw with hgate' | hgate'
      · exact absurd hgate' hsuites
      · exact absurd hgate' henvironment

theorem covers_of_stillPasses (ha : Admissible pkg a) (hb : Admissible pkg b)
    (h : stillPasses (planFor pkg a) (planFor pkg b) = true) :
    Covers (planFor pkg a) (planFor pkg b) := by
  obtain ⟨hpasses, hasked⟩ := (stillPasses_iff _ _).mp h
  have hhuman : (planFor pkg b).floor.human = true → (planFor pkg a).floor.human = true := by
    intro hhuman
    refine ha.human_of_decision fun hnone => hb.decision_of_human hhuman ?_
    rcases (hasked hhuman).decision with heq | happrove
    · exact heq.trans hnone
    · simp [hnone] at happrove
  refine ⟨hpasses, ?_, hhuman, fun hhuman => (hasked hhuman).owners, ?_, ?_⟩
  · rintro gate hsuites henvironment hdoubts
    have hwithin := hasked (hb.human_of_doubts hdoubts)
    obtain ⟨w, hw, rfl, hunknown⟩ := hdoubts
    refine ha.reached.unknown hb.reached hpasses ?_ hw hunknown hsuites henvironment
    rintro ⟨w, hw, hgate, hresult⟩
    obtain ⟨v, hv, hgate', hresult', -⟩ := hwithin.impact w.message ⟨w, hw, hgate, hresult, rfl⟩
    exact ⟨v, hv, hgate', hresult'⟩
  · intro consumer hconsumer
    cases hquiet : (planFor pkg b).floor.human with
    | true => exact (hasked hquiet).consumers consumer hconsumer
    | false => simp [hb.consumers_of_quiet hquiet] at hconsumer
  · intro happrove
    refine ⟨hhuman happrove.human, ?_⟩
    rcases (hasked happrove.human).decision with heq | heq
    · exact heq.symm.trans happrove.decision
    · exact heq

theorem stillPasses_refl (p : Plan) : stillPasses p p = true :=
  (stillPasses_iff p p).mpr ⟨fun _ h => h, fun _ =>
    ⟨fun _ h => h, fun _ h => h, fun _ h => h, .inl rfl⟩⟩

theorem stillPasses_trans (hb : Admissible pkg b) (hc : Admissible pkg c)
    (hab : stillPasses (planFor pkg a) (planFor pkg b) = true)
    (hbc : stillPasses (planFor pkg b) (planFor pkg c) = true) :
    stillPasses (planFor pkg a) (planFor pkg c) = true := by
  have hhuman := (covers_of_stillPasses hb hc hbc).asks
  obtain ⟨hpasses, hasked⟩ := (stillPasses_iff _ _).mp hab
  obtain ⟨hpasses', hasked'⟩ := (stillPasses_iff _ _).mp hbc
  refine (stillPasses_iff _ _).mpr ⟨fun gate h => hpasses' gate (hpasses gate h), fun hc' => ?_⟩
  have hb' := hasked (hhuman hc')
  have hc' := hasked' hc'
  refine ⟨fun team h => hb'.owners team (hc'.owners team h),
    fun consumer h => hb'.consumers consumer (hc'.consumers consumer h),
    fun message h => hb'.impact message (hc'.impact message h), ?_⟩
  rcases hc'.decision with heq | happrove
  · rw [heq]
    exact hb'.decision
  · rcases hb'.decision with heq' | happrove'
    · exact .inr (heq'.symm.trans happrove)
    · exact .inr happrove'

/-- On the plans of promotes that are not rejected, `stillPasses` is a preorder
and an approval covers whatever it lets through. -/
theorem stillPasses_covers (ha : Admissible pkg a) (hb : Admissible pkg b)
    (hc : Admissible pkg c) :
    (stillPasses (planFor pkg a) (planFor pkg b) = true →
        Covers (planFor pkg a) (planFor pkg b)) ∧
      stillPasses (planFor pkg a) (planFor pkg a) = true ∧
      (stillPasses (planFor pkg a) (planFor pkg b) = true →
        stillPasses (planFor pkg b) (planFor pkg c) = true →
        stillPasses (planFor pkg a) (planFor pkg c) = true) :=
  ⟨covers_of_stillPasses ha hb, stillPasses_refl _, stillPasses_trans hb hc⟩

end Covers

/-! ## A suite nobody was asked about -/

/-- A promote that asks a person to accept that undeclared callers may break. -/
def doubtedPromote : PlanInput := approvedPromote .advise false

/-- The same promote once the Stage has checks whose suites the version does not
ship. -/
def checkedPromote (suites : List String) : PlanInput :=
  { doubtedPromote with
    stage :=
      { doubtedPromote.stage with
        checks := suites.map fun suite => { name := suite, provider := "http", suite := suite } } }

theorem stillPasses_covers_checkedPromote :
    let asked := planFor breakingPackages doubtedPromote
    let checked := planFor breakingPackages (checkedPromote ["smoke"])
    let again := planFor breakingPackages (checkedPromote ["smoke", "load"])
    stillPasses asked checked = true ∧ Covers asked checked ∧ stillPasses checked again = true ∧
      stillPasses asked again = true := by
  obtain ⟨hasked, hchecked, hagain, hfirst, hsecond⟩ :
      (planFor breakingPackages doubtedPromote).predicted ≠ .rejected ∧
      (planFor breakingPackages (checkedPromote ["smoke"])).predicted ≠ .rejected ∧
      (planFor breakingPackages (checkedPromote ["smoke", "load"])).predicted ≠ .rejected ∧
      stillPasses (planFor breakingPackages doubtedPromote)
        (planFor breakingPackages (checkedPromote ["smoke"])) = true ∧
      stillPasses (planFor breakingPackages (checkedPromote ["smoke"]))
        (planFor breakingPackages (checkedPromote ["smoke", "load"])) = true := by
    decide +kernel
  obtain ⟨hcovers, -, htrans⟩ := stillPasses_covers ⟨rfl, hasked⟩ ⟨rfl, hchecked⟩ ⟨rfl, hagain⟩
  exact ⟨hfirst, hcovers hfirst, hsecond, htrans hfirst hsecond⟩

/-- A person accepted the impact gate's unknown.  A check added since leaves
the suites gate unknown as well, and the approval still passes. -/
theorem stillPasses_checkedPromote :
    (planFor breakingPackages doubtedPromote).predicted = .held ∧
      (planFor breakingPackages (checkedPromote ["smoke"])).predicted = .held ∧
      stillPasses (planFor breakingPackages doubtedPromote)
        (planFor breakingPackages (checkedPromote ["smoke"])) = true ∧
      (planFor breakingPackages (checkedPromote ["smoke"])).Doubts gateSuites ∧
      ¬(planFor breakingPackages doubtedPromote).Doubts gateSuites := by
  decide +kernel

end Pacto.Delivery
