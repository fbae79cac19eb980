import Pacto.Delivery.Floor

/-!
# Confirmed breaks and full approvals

A break Pacto confirmed, a consumer the change breaks, an environment the
contract does not back or a change of owner, asks for a full approval and not
for an accepted unknown.  The gates that confirm one each ask for it and no
later gate lowers it.  They run only once both contracts were read, so a new
version's own environment problem goes unasked while the running version's
contract cannot be read.
-/

namespace Pacto.Delivery

/-! ## What a plan can confirm -/

/-- The impact analysis ran and found a consumer the change breaks. -/
def ConsumerBroken (pkg : Packages) (input : PlanInput) : Prop :=
  ∃ new, input.to.bundle = some new ∧ (publishedGate input).result = .pass ∧
    (diffGate pkg input).result = .pass ∧ (impactAnalysis pkg input new).breaksConsumer = true

/-- The new contract declares environments, and the Stage's has errors or is
not among them. -/
def EnvironmentBroken (pkg : Packages) (input : PlanInput) : Prop :=
  ∃ new, input.to.bundle = some new ∧ (environmentProblems pkg input new).1 ≠ []

/-- The two contracts declare different owners. -/
def OwnerChanged (input : PlanInput) (old new : Bundle) : Prop :=
  input.from.bundle = some old ∧ input.to.bundle = some new ∧
    old.contract.owner.displayString ≠ new.contract.owner.displayString

/-- The plan asks for a full approval of everything it could confirm, and asks
the running contract's team about a change of owner. -/
structure ApprovesConfirmed (pkg : Packages) (input : PlanInput) : Prop where
  approve : ConsumerBroken pkg input ∨ EnvironmentBroken pkg input ∨
      (∃ old new, OwnerChanged input old new) →
    (planFor pkg input).floor.decision = some .approve
  owners : ∀ old new, OwnerChanged input old new → old.contract.owner.displayString ≠ "" →
    old.contract.owner.displayString ∈ (planFor pkg input).floor.owners

/-- A version runs on the Stage and its contract could not be read. -/
def RunningUnreadable (input : PlanInput) : Prop :=
  input.from.digest ≠ "" ∧ input.from.bundle = none

/-! ## The change of owner reaches the owner gate -/

theorem path_mem_ownerPaths (pkg : Packages) {old new : Bundle} {path : String}
    {type : ChangeType} (hc : ownerChange path type ∈ diffOwner old.contract.owner new.contract.owner)
    (hpath : hasPrefix "service.owner" path = true) :
    path ∈ ownerPaths (pkg.compare old new) :=
  List.mem_map.mpr ⟨ownerChange path type,
    List.mem_filter.mpr ⟨by simp [Packages.compare, hc], hpath⟩, rfl⟩

theorem ownerPaths_compare_of_ne (pkg : Packages) {old new : Bundle}
    (h : old.contract.owner.displayString ≠ new.contract.owner.displayString) :
    ∃ path ∈ ownerPaths (pkg.compare old new), path ≠ "" := by
  by_cases hteam : old.contract.owner.team = new.contract.owner.team
  · have hdri : old.contract.owner.dri ≠ new.contract.owner.dri := by
      intro hdri
      exact h (by simp [Owner.displayString, hteam, hdri])
    have hc : ownerChange "service.owner.dri"
        (strChangeType old.contract.owner.dri new.contract.owner.dri) ∈
        diffOwner old.contract.owner new.contract.owner := by
      simp [diffOwner, hdri]
    exact ⟨_, path_mem_ownerPaths pkg hc (by decide), by decide⟩
  · have hc : ownerChange "service.owner.team"
        (strChangeType old.contract.owner.team new.contract.owner.team) ∈
        diffOwner old.contract.owner new.contract.owner := by
      simp [diffOwner, hteam]
    exact ⟨_, path_mem_ownerPaths pkg hc (by decide), by decide⟩

theorem diffGate_cites_owner (pkg : Packages) {input : PlanInput} {old new : Bundle}
    (h : OwnerChanged input old new) (hpass : (diffGate pkg input).result = .pass) :
    (diffGate pkg input).cite "owner" ≠ "" := by
  obtain ⟨hfrom, hto, hne⟩ := h
  obtain ⟨path, hmem, hpath⟩ := ownerPaths_compare_of_ne pkg hne
  have hdigest : input.from.digest ≠ "" := input.from.digest_ne (by simp [hfrom])
  have hname : new.contract.serviceName = input.stage.service := by
    by_contra hname
    simp [diffGate, hto, hname, diffVerdict] at hpass
  have hjoin := joinWith_ne_empty ", " hmem hpath
  have hcite : (diffGate pkg input).cite "owner" =
      joinWith ", " (ownerPaths (pkg.compare old new)) := by
    simp only [diffGate, hto, hname, hdigest, hfrom, Verdict.cite, diffVerdict, diffCitation]
    by_cases hsuites : suiteReasons (pkg.compare old new) = [] <;> simp [hsuites, hne, List.lookup_cons]
  rw [hcite]
  exact hjoin

/-! ## Gates only add verdicts -/

section Verdicts

variable (pkg : Packages) (input : PlanInput) (new : Bundle) (p : Plan)

theorem impactGate_verdicts : p.verdicts <+: (impactGate pkg input new p).verdicts := by
  unfold impactGate holdForConsumers
  dsimp only
  split
  · split <;> exact List.prefix_append _ _
  · split <;> exact List.prefix_append _ _

theorem suitesGate_verdicts : p.verdicts <+: (suitesGate pkg input new p).verdicts := by
  unfold suitesGate
  dsimp only
  split
  · exact List.prefix_rfl
  · split <;> exact List.prefix_append _ _

theorem askServiceTeam_verdicts : (askServiceTeam input p).verdicts = p.verdicts := by
  unfold askServiceTeam
  split <;> rfl

theorem holdFor_verdicts (d : Decision) (why question : String) :
    (holdFor p d why question).verdicts = p.verdicts := by
  unfold holdFor
  split <;> rfl

theorem environmentGate_verdicts : p.verdicts <+: (environmentGate pkg input new p).verdicts := by
  unfold environmentGate
  dsimp only
  split_ifs <;>
    simp only [Plan.addVerdict_verdicts, askServiceTeam_verdicts, holdFor_verdicts] <;>
    exact List.prefix_append _ _

/-- The owner gate reads the verdict of the diff gate, whatever the gates
between them added. -/
theorem foundDiff_of_prefix {p q : Plan} {v : Verdict} (hstart : p.verdicts <+: q.verdicts)
    (h : foundDiff p = some v) : foundDiff q = some v :=
  hstart.find?_eq_some h

end Verdicts

/-! ## The gates that need both contracts -/

section Contracts

variable (pkg : Packages) (input : PlanInput) (new : Bundle) {p : Plan}

theorem contractGates_asksApproval_of_consumer
    (h : (impactAnalysis pkg input new).breaksConsumer = true) :
    (contractGates pkg input new p).AsksApproval :=
  ownerGate_asksApproval input
    (environmentGate_asksApproval pkg input new
      (suitesGate_asksApproval pkg input new (impactGate_asksApproval pkg input new h)))

theorem contractGates_asksApproval_of_environment
    (h : (environmentProblems pkg input new).1 ≠ []) :
    (contractGates pkg input new p).AsksApproval :=
  ownerGate_asksApproval input (environmentGate_asksApproval_of_errors pkg input new h)

theorem mem_foldl_insert {team : String} (teams owners : List String)
    (h : team ∈ owners ∨ team ∈ teams) :
    team ∈ teams.foldl (fun owners t => if owners.contains t then owners else owners ++ [t])
      owners := by
  induction teams generalizing owners with
  | nil => simpa using h
  | cons t teams ih =>
    rw [List.foldl_cons]
    apply ih
    by_cases hcontains : owners.contains t
    · have ht : t ∈ owners := by simpa using hcontains
      rw [if_pos hcontains]
      rcases h with h | h
      · exact .inl h
      · rcases List.mem_cons.mp h with rfl | h
        · exact .inl ht
        · exact .inr h
    · rw [if_neg hcontains]
      rcases h with h | h
      · exact .inl (List.mem_append_left _ h)
      · rcases List.mem_cons.mp h with rfl | h
        · exact .inl (by simp)
        · exact .inr h

/-- Asking the service's team leaves nobody named, or names the team. -/
theorem askServiceTeam_owners (p : Plan) :
    (askServiceTeam input p).floor.owners = [] ∨
      ∀ team ∈ serviceTeam input, team ∈ (askServiceTeam input p).floor.owners := by
  unfold askServiceTeam
  split
  · exact .inl ‹_›
  · exact .inr fun team hteam => mem_foldl_insert _ _ (.inr hteam)

/-- A change of owner asks for an approval, and asks the service's team when
other teams are asked already. -/
theorem contractGates_of_owner {v : Verdict} (hfound : foundDiff p = some v)
    (howner : v.cite "owner" ≠ "") :
    (contractGates pkg input new p).AsksApproval ∧
      ((contractGates pkg input new p).floor.owners = [] ∨
        ∀ team ∈ serviceTeam input, team ∈ (contractGates pkg input new p).floor.owners) := by
  have hlast : foundDiff (environmentGate pkg input new
      (suitesGate pkg input new (impactGate pkg input new p))) = some v :=
    foundDiff_of_prefix
      ((impactGate_verdicts pkg input new p).trans
        ((suitesGate_verdicts pkg input new _).trans (environmentGate_verdicts pkg input new _)))
      hfound
  unfold contractGates ownerGate
  simp only [hlast, howner, if_false]
  exact ⟨askServiceTeam_asksApproval input ⟨rfl, rfl⟩, askServiceTeam_owners input _⟩

end Contracts

/-! ## The plan of a promote, by how far its gates got -/

section Stages

variable (pkg : Packages) {input : PlanInput}

/-- A version that cannot be told published names no contract. -/
theorem publishedGate_unknown (h : (publishedGate input).result = .unknown) :
    input.to.bundle = none := by
  have href : input.to.contractRef = "" := by
    unfold publishedGate at h
    dsimp only at h
    split at h
    · unfold upstreamOffers at h
      dsimp only at h
      split at h
      · simp [publishedVerdict] at h
      · split_ifs at h <;> simp [publishedVerdict] at h
    · split at h
      · unfold candidatePublished at h
        dsimp only at h
        split_ifs at h with _ _ href <;> first | exact href | simp [publishedVerdict] at h
      · simp [publishedVerdict] at h
  by_contra hbundle
  exact input.to.contractRef_ne hbundle href

/-- The diff gate leaves unknown only what it could not read. -/
theorem diffGate_unknown (h : (diffGate pkg input).result = .unknown) :
    input.to.bundle = none ∨ RunningUnreadable input := by
  rcases hnew : input.to.bundle with - | new
  · exact .inl rfl
  · refine .inr ?_
    simp only [diffGate, hnew] at h
    split_ifs at h with hname hdigest
    · simp [diffVerdict] at h
    · simp [diffVerdict] at h
    · refine ⟨hdigest, ?_⟩
      by_contra hold
      obtain ⟨old, hold⟩ := Option.ne_none_iff_exists'.mp hold
      simp [hold, diffVerdict] at h

def judgedPlan (input : PlanInput) : Plan :=
  ((initialPlan pkg input).addVerdict (publishedGate input)).addVerdict (diffGate pkg input)

theorem promotePlan_of_pass (hpub : (publishedGate input).result = .pass)
    (hdiff : (diffGate pkg input).result = .pass) {new : Bundle}
    (hnew : input.to.bundle = some new) :
    promotePlan pkg input = contractGates pkg input new (judgedPlan pkg input) := by
  simp [promotePlan, promoteGates, hpub, hdiff, hnew, judgedPlan]

theorem promotePlan_of_diff_unknown (hpub : (publishedGate input).result = .pass)
    (hdiff : (diffGate pkg input).result = .unknown) :
    (promotePlan pkg input).floor = { human := true, decision := some .acceptUnknown } := by
  simp [promotePlan, promoteGates, hpub, hdiff]

theorem publishedGate_gate (input : PlanInput) : (publishedGate input).gate = gatePublished := by
  unfold publishedGate upstreamOffers candidatePublished publishedVerdict
  dsimp only
  split_ifs <;> (try split) <;> (try split_ifs) <;> rfl

theorem diffGate_gate (input : PlanInput) : (diffGate pkg input).gate = gateDiff := by
  unfold diffGate diffVerdict
  split
  · rfl
  · dsimp only
    split_ifs <;> first | rfl | (split <;> rfl)

theorem foundDiff_judgedPlan : foundDiff (judgedPlan pkg input) = some (diffGate pkg input) := by
  have hpub : (publishedGate input).gate ≠ gateDiff := by
    rw [publishedGate_gate]
    decide
  simp [foundDiff, judgedPlan, initialPlan, hpub, diffGate_gate]

/-- A held promote passed the published gate or could not be judged by it, and
the same of the diff gate behind it. -/
theorem held_gates (htype : input.spec.type = .promote)
    (hheld : (planFor pkg input).predicted = .held) :
    (publishedGate input).result = .unknown ∨
      ((publishedGate input).result = .pass ∧
        ((diffGate pkg input).result = .unknown ∨ (diffGate pkg input).result = .pass)) := by
  obtain ⟨-, hfail⟩ := planFor_held pkg input htype hheld
  cases hpub : (publishedGate input).result with
  | unknown => exact .inl rfl
  | fail =>
    simp [promotePlan, promoteGates, hpub, Plan.anyFail_addVerdict] at hfail
  | pass =>
    refine .inr ⟨rfl, ?_⟩
    cases hdiff : (diffGate pkg input).result with
    | unknown => exact .inl rfl
    | pass => exact .inr rfl
    | fail =>
      simp [promotePlan, promoteGates, hpub, hdiff, Plan.anyFail_addVerdict] at hfail

end Stages

/-! ## Full approvals -/

section Main

variable (pkg : Packages) {input : PlanInput}

/-- With both contracts judged, a held promote approves what it confirmed. -/
theorem approvesConfirmed_of_pass (htype : input.spec.type = .promote)
    (hheld : (planFor pkg input).predicted = .held)
    (hpub : (publishedGate input).result = .pass)
    (hdiff : (diffGate pkg input).result = .pass) : ApprovesConfirmed pkg input := by
  obtain ⟨new, hnew⟩ := diffGate_pass_bundle pkg input hdiff
  have hplan := promotePlan_of_pass pkg hpub hdiff hnew
  have hdecided : (promotePlan pkg input).AsksApproval →
      (planFor pkg input).floor.decision = some .approve := by
    intro h
    rw [planFor_floor_of_human pkg input htype hheld h.human]
    exact h.decision
  have howner : ∀ old new', OwnerChanged input old new' →
      (promotePlan pkg input).AsksApproval ∧
        ((promotePlan pkg input).floor.owners = [] ∨
          ∀ team ∈ serviceTeam input, team ∈ (promotePlan pkg input).floor.owners) := by
    intro old new' h
    rw [hplan]
    exact contractGates_of_owner pkg input new (foundDiff_judgedPlan pkg)
      (diffGate_cites_owner pkg h hdiff)
  constructor
  · rintro (⟨new', hnew', -, -, hbreaks⟩ | ⟨new', hnew', herrors⟩ | ⟨old, new', h⟩)
    · obtain rfl : new = new' := by simpa [hnew] using hnew'
      exact hdecided (hplan ▸ contractGates_asksApproval_of_consumer pkg input new hbreaks)
    · obtain rfl : new = new' := by simpa [hnew] using hnew'
      exact hdecided (hplan ▸ contractGates_asksApproval_of_environment pkg input new herrors)
    · exact hdecided (howner old new' h).1
  · intro old new' h hteam
    obtain ⟨hasks, howners⟩ := howner old new' h
    have hdigest : input.from.digest ≠ "" := input.from.digest_ne (by simp [h.1])
    have hservice : serviceTeam input = [old.contract.owner.displayString] := by
      simp [serviceTeam, hdigest, h.1, hteam]
    rw [planFor_floor_of_human pkg input htype hheld hasks.human]
    dsimp only [routedOwners]
    split
    · simp [hservice]
    · rcases howners with hnil | hall
      · contradiction
      · exact hall _ (by simp [hservice])

/-- A held promote asks for a full approval of every break Pacto can confirm,
exactly unless the running contract cannot be read while the new contract's
environment is broken. -/
theorem approvesConfirmed_iff (pkg : Packages) (input : PlanInput)
    (htype : input.spec.type = .promote) (hheld : (planFor pkg input).predicted = .held) :
    ApprovesConfirmed pkg input ↔
      ¬(RunningUnreadable input ∧ EnvironmentBroken pkg input) := by
  constructor
  · rintro happroves ⟨⟨hdigest, hfrom⟩, new, hnew, herrors⟩
    have hdecision := happroves.approve (.inr (.inl ⟨new, hnew, herrors⟩))
    rcases held_gates pkg htype hheld with hpub | ⟨hpub, hdiff | hdiff⟩
    · simp [publishedGate_unknown hpub] at hnew
    · have hfloor := promotePlan_of_diff_unknown pkg hpub hdiff
      rw [planFor_floor_of_human pkg input htype hheld (by simp [hfloor]), hfloor] at hdecision
      simp at hdecision
    · simp only [diffGate, hnew, hfrom, hdigest, if_false] at hdiff
      split at hdiff <;> simp [diffVerdict] at hdiff
  · intro hreadable
    rcases held_gates pkg htype hheld with hpub | ⟨hpub, hdiff | hdiff⟩
    · have hnone := publishedGate_unknown hpub
      exact ⟨by simp [ConsumerBroken, EnvironmentBroken, OwnerChanged, hnone],
        by simp [OwnerChanged, hnone]⟩
    · rcases diffGate_unknown pkg hdiff with hnone | hrunning
      · exact ⟨by simp [ConsumerBroken, EnvironmentBroken, OwnerChanged, hnone],
          by simp [OwnerChanged, hnone]⟩
      · have henvironment : ¬EnvironmentBroken pkg input := fun h => hreadable ⟨hrunning, h⟩
        exact ⟨by simp [ConsumerBroken, hdiff, henvironment, OwnerChanged, hrunning.2],
          by simp [OwnerChanged, hrunning.2]⟩
    · exact approvesConfirmed_of_pass pkg htype hheld hpub hdiff

end Main

/-! ## A broken environment behind an unreadable contract -/

def stagingBundle : Bundle :=
  { contract :=
      { serviceName := "shop", version := "2.0.0", owner := { team := "shop-team" }
        environments := [{ name := "staging" }] } }

def prodPromote (running : Revision) : PlanInput :=
  { spec :=
      { type := .promote, stage := "shop-prod", facet := .pointer
        params := { «from» := "sha256:a", «to» := "sha256:b" }, actor := { user := "ana" } }
    stage :=
      { service := "shop", environment := "prod", startLevel := .advise
        candidates := { ociRepositoryRef := some "shop" } }
    status :=
      { pointer := "sha256:a", verified := ["sha256:a"], published := ["sha256:b"]
        level := .advise }
    «from» := running
    «to» := { digest := "sha256:b", contractRef := "ghcr.io/shop@sha256:2"
              bundle := some stagingBundle, digest_ne := by simp, contractRef_ne := by simp }
    cls := .human }

/-- The running version's artifact could not be read. -/
def unreadableRunning : Revision := { digest := "sha256:a", err := "the registry is down" }

/-- The running version's contract, which declares the same environments. -/
def readableRunning : Revision :=
  { digest := "sha256:a", contractRef := "ghcr.io/shop@sha256:1", bundle := some stagingBundle
    digest_ne := by simp, contractRef_ne := by simp }

/-- The new contract declares no prod environment, and the plan only asks to
accept an unknown. -/
theorem unreadable_running_accepts_broken_environment :
    (planFor quietPackages (prodPromote unreadableRunning)).predicted = .held ∧
      EnvironmentBroken quietPackages (prodPromote unreadableRunning) ∧
      (planFor quietPackages (prodPromote unreadableRunning)).floor.decision =
        some .acceptUnknown :=
  ⟨by decide +kernel, ⟨stagingBundle, rfl, by decide +kernel⟩, by decide +kernel⟩

theorem approvesConfirmed_readableRunning :
    (planFor quietPackages (prodPromote readableRunning)).predicted = .held ∧
      EnvironmentBroken quietPackages (prodPromote readableRunning) ∧
      ApprovesConfirmed quietPackages (prodPromote readableRunning) :=
  ⟨by decide +kernel, ⟨stagingBundle, rfl, by decide +kernel⟩,
    (approvesConfirmed_iff quietPackages (prodPromote readableRunning) rfl (by decide +kernel)).mpr
      fun h => absurd h.1.2 (by decide +kernel)⟩

end Pacto.Delivery
