import Pacto.Evidence.Evaluate
import Pacto.Support.Sequence

/-!
# What an evaluation finds

A pass only adds findings, and what it adds for one check depends on that check
and the evidence alone.  So the findings of an evaluation are those of the checks
of the contract and those of the peers it does not declare.
-/

namespace Pacto.Evidence

open Support

variable (X : Codecs) {c : Contract} {ev ev' : EvidenceSet} {k : Check} {f : Finding}
  {o : Observation}

/-! ## One check -/

/-- The observation of an assertion, when it was collected. -/
def EvidenceSet.seen (ev : EvidenceSet) (kind : Kind) (name : String) : Option Observation :=
  match findObservation ev.observations kind name with
  | none => none
  | some o => if o.outcome = .observed then some o else none

def Assertion.violations (ev : EvidenceSet) (a : Assertion) (o : Observation) : List Finding :=
  (a.contradicted o).toList.map fun v =>
    violationFinding X ev v.1 a.required a.subjectKind a.name a.contractPath o v.2

def Check.violations (ev : EvidenceSet) (k : Check) (o : Observation) : List Finding :=
  k.toAssertion.violations X ev o ++
    ((k.facets o).filter fun g => g.verdict = .violated).map fun g =>
      violationFinding X ev g.code g.required k.subjectKind k.name g.contractPath o g.message

def Assertion.uncertainty (ev : EvidenceSet) (a : Assertion) : List Finding :=
  if a.required then [unknownFinding X ev a (findObservation ev.observations a.kind a.name)] else []

/-- What a check finds: violations where its observation was collected, and
uncertainty where it was not and is required. -/
def Check.findings (ev : EvidenceSet) (k : Check) : List Finding :=
  match ev.seen k.kind k.name with
  | some o => k.violations X ev o
  | none => k.toAssertion.uncertainty X ev

/-- `assert` returns the observation that was collected and adds what it
contradicts, or that nothing was. -/
theorem Pass.assert_spec (ev : EvidenceSet) (p : Pass) (a : Assertion) :
    (p.assert X ev a).1 = ev.seen a.kind a.name ∧
      (p.assert X ev a).2.findings = p.findings ++
        match ev.seen a.kind a.name with
        | some o => a.violations X ev o
        | none => a.uncertainty X ev := by
  unfold Pass.assert EvidenceSet.seen Assertion.uncertainty
  cases findObservation ev.observations a.kind a.name with
  | none => cases a.required <;> simp [Pass.add]
  | some o =>
    by_cases hout : o.outcome = .observed
    · simp only [hout, ne_eq, not_true_eq_false, if_false, if_true, Assertion.violations]
      cases a.contradicted o with
      | none => cases a.required <;> simp
      | some v => cases a.required <;> simp [Pass.add]
    · cases a.required <;> simp [hout, Pass.add]

theorem Pass.findings_facets (ev : EvidenceSet) (o : Observation) (p : Pass)
    (subjectKind name : String) (gs : List Facet) :
    (gs.foldl (Pass.facet X ev subjectKind name o) p).findings =
      p.findings ++ (gs.filter fun g => g.verdict = .violated).map fun g =>
        violationFinding X ev g.code g.required subjectKind name g.contractPath o g.message := by
  induction gs generalizing p with
  | nil => simp
  | cons g gs ih =>
    rw [List.foldl_cons, ih]
    cases hv : g.verdict with
    | satisfied => simp [Pass.facet, hv]
    | violated => simp [Pass.facet, Pass.add, hv]
    | unverified => simp [Pass.facet, Pass.leave, hv]

theorem Pass.findings_check (p : Pass) (k : Check) :
    (p.check X ev k).findings = p.findings ++ k.findings X ev := by
  obtain ⟨hseen, hfindings⟩ := p.assert_spec X ev k.toAssertion
  unfold Pass.check Check.findings
  cases hassert : p.assert X ev k.toAssertion with
  | mk found q =>
    rw [hassert] at hseen hfindings
    subst hseen
    cases hs : ev.seen k.kind k.name with
    | none =>
      rw [hs] at hfindings
      exact hfindings
    | some o =>
      rw [hs] at hfindings
      have hq : q.findings = p.findings ++ k.toAssertion.violations X ev o := hfindings
      simp only [Pass.findings_facets, hq, Check.violations, List.append_assoc]

theorem Pass.findings_foldl_check {ι : Type} (toCheck : ι → Check) (items : List ι) (p : Pass) :
    (items.foldl (fun p i => p.check X ev (toCheck i)) p).findings =
      p.findings ++ (items.map toCheck).flatMap (Check.findings X ev) := by
  induction items generalizing p with
  | nil => simp
  | cons i items ih => simp [ih, Pass.findings_check]

/-! ## The checks of a contract -/

/-- State that is not persistent: its observation is optional, and only its
scope is judged. -/
def scopeCheck (c : Contract) (st : Persistence) : Check :=
  { kind := .persistenceObserved, subjectKind := "service", name := c.serviceName
    contractPath := "state.persistence.scope", required := false
    contradicted := fun _ => none
    facets := fun o => [scopeFacet X st o] }

def stateCheck (c : Contract) (st : Persistence) : Check :=
  if st.durability = durabilityPersistent then durabilityCheck X c st else scopeCheck X c st

/-- The capabilities that have an evaluator. -/
def Contract.observable (c : Contract) : List Capability :=
  c.capabilities.filter fun k => k.type ≠ .extension

def Contract.checks (c : Contract) : List Check :=
  c.interfaces.map (interfaceCheck X) ++ c.observable.map (capabilityCheck X) ++
    c.dependencies.map (dependencyCheck X) ++ c.configurations.map (configurationCheck X) ++
    (if c.workload = "" then [] else [workloadCheck X c]) ++ c.state.toList.map (stateCheck X c)

theorem Pass.findings_capabilities (ks : List Capability) (p : Pass) :
    (p.capabilities X ev ks).findings =
      p.findings ++ ((ks.filter fun k => k.type ≠ .extension).map (capabilityCheck X)).flatMap
        (Check.findings X ev) := by
  induction ks generalizing p with
  | nil => simp [Pass.capabilities]
  | cons k ks ih =>
    unfold Pass.capabilities at ih ⊢
    rw [List.foldl_cons, ih]
    by_cases hk : k.type = .extension
    · simp [hk, Pass.leave]
    · simp [hk, Pass.findings_check]

theorem Pass.findings_workload (p : Pass) :
    (p.workload X ev c).findings =
      p.findings ++ (if c.workload = "" then [] else [workloadCheck X c]).flatMap
        (Check.findings X ev) := by
  unfold Pass.workload
  split
  · simp
  · simp [Pass.findings_check]

theorem Pass.findings_persistence (p : Pass) :
    (p.persistence X ev c).findings =
      p.findings ++ (c.state.toList.map (stateCheck X c)).flatMap (Check.findings X ev) := by
  unfold Pass.persistence
  cases hstate : c.state with
  | none => simp
  | some st =>
    by_cases hdur : st.durability = durabilityPersistent
    · simp [hdur, stateCheck, Pass.findings_check]
    · have hfacet : ∀ o : Observation,
          (p.facet X ev "service" c.serviceName o (scopeFacet X st o)).findings =
            p.findings ++ (scopeCheck X c st).violations X ev o := by
        intro o
        have h := Pass.findings_facets X ev o p "service" c.serviceName
          [scopeFacet X st o]
        simpa [Check.violations, Assertion.violations, scopeCheck] using h
      have hcheck : (scopeCheck X c st).findings X ev =
          match ev.seen .persistenceObserved c.serviceName with
          | some o => (scopeCheck X c st).violations X ev o
          | none => [] := rfl
      simp only [hdur, if_false, Option.toList_some, List.map_cons, List.map_nil, stateCheck,
        List.flatMap_cons, List.flatMap_nil, List.append_nil, hcheck, EvidenceSet.seen]
      cases findObservation ev.observations .persistenceObserved c.serviceName with
      | none => simp
      | some o =>
        by_cases hout : o.outcome = .observed
        · simp only [hout, if_true, hfacet]
        · simp [hout]

/-! ## The peers no dependency names -/

def undeclaredFindings (ev : EvidenceSet) (declared : List String) : List Finding :=
  ev.observations.flatMap fun o => (Pass.undeclaredStep X ev declared {} o).findings

theorem Pass.findings_undeclaredStep (p : Pass) (declared : List String) (o : Observation) :
    (p.undeclaredStep X ev declared o).findings =
      p.findings ++ (Pass.undeclaredStep X ev declared {} o).findings := by
  unfold Pass.undeclaredStep
  split
  · simp
  · dsimp only
    split
    · simp [Pass.add]
    · simp

theorem Pass.findings_undeclared (p : Pass) (declared : List String) :
    (p.undeclared X ev declared).findings = p.findings ++ undeclaredFindings X ev declared := by
  unfold Pass.undeclared undeclaredFindings
  generalize ev.observations = obs
  induction obs generalizing p with
  | nil => simp
  | cons o obs ih =>
    rw [List.foldl_cons, ih, Pass.findings_undeclaredStep, List.flatMap_cons, List.append_assoc]

/-- An undeclared peer is never more than a warning. -/
theorem severity_of_undeclared {declared : List String}
    (h : f ∈ undeclaredFindings X ev declared) : f.severity = .warning := by
  obtain ⟨o, -, hf⟩ := List.mem_flatMap.mp h
  unfold Pass.undeclaredStep at hf
  split at hf
  · cases hf
  · dsimp only at hf
    split at hf
    · simp only [Pass.add, List.nil_append, List.mem_singleton] at hf
      rw [hf]
      rfl
    · cases hf

/-! ## The whole evaluation -/

theorem mem_evaluate :
    f ∈ (evaluate X c ev).1 ↔
      (∃ k ∈ c.checks X, f ∈ k.findings X ev) ∨
        f ∈ undeclaredFindings X ev (c.dependencies.map (·.name)) := by
  have hfindings : (evaluate X c ev).1 =
      (c.interfaces.map (interfaceCheck X)).flatMap (Check.findings X ev) ++
        (c.observable.map (capabilityCheck X)).flatMap (Check.findings X ev) ++
        (c.dependencies.map (dependencyCheck X)).flatMap (Check.findings X ev) ++
        undeclaredFindings X ev (c.dependencies.map (·.name)) ++
        (c.configurations.map (configurationCheck X)).flatMap (Check.findings X ev) ++
        (if c.workload = "" then [] else [workloadCheck X c]).flatMap (Check.findings X ev) ++
        (c.state.toList.map (stateCheck X c)).flatMap (Check.findings X ev) := by
    simp only [evaluate, evaluatePass, Pass.findings_persistence, Pass.findings_workload,
      Pass.configurations, Pass.findings_foldl_check, Pass.dependencies, Pass.findings_undeclared,
      Pass.findings_capabilities, Pass.interfaces, List.nil_append, Contract.observable]
  rw [hfindings]
  simp only [Contract.checks, List.mem_append, List.mem_flatMap, or_and_right, exists_or]
  constructor
  · rintro ((((((h | h) | h) | h) | h) | h) | h)
    · exact .inl (.inl (.inl (.inl (.inl (.inl h)))))
    · exact .inl (.inl (.inl (.inl (.inl (.inr h)))))
    · exact .inl (.inl (.inl (.inl (.inr h))))
    · exact .inr h
    · exact .inl (.inl (.inl (.inr h)))
    · exact .inl (.inl (.inr h))
    · exact .inl (.inr h)
  · rintro ((((((h | h) | h) | h) | h) | h) | h)
    · exact .inl (.inl (.inl (.inl (.inl (.inl h)))))
    · exact .inl (.inl (.inl (.inl (.inl (.inr h)))))
    · exact .inl (.inl (.inl (.inl (.inr h))))
    · exact .inl (.inl (.inr h))
    · exact .inl (.inr h)
    · exact .inr h
    · exact .inl (.inl (.inl (.inr h)))

def statusOf (c : Contract) (ev : EvidenceSet) : Status :=
  deriveStatus (evaluate X c ev).1 (evaluate X c ev).2

theorem statusOf_nonCompliant_iff :
    statusOf X c ev = .nonCompliant ↔
      ∃ k ∈ c.checks X, ∃ f ∈ k.findings X ev, f.severity = .error := by
  have hany : statusOf X c ev = .nonCompliant ↔ ∃ f ∈ (evaluate X c ev).1, f.severity = .error := by
    unfold statusOf deriveStatus
    split
    · next h =>
      simpa using h
    · next h =>
      have hnone : ¬ ∃ f ∈ (evaluate X c ev).1, f.severity = .error := by simpa using h
      simp only [hnone, iff_false]
      split
      · simp
      · split <;> simp
  rw [hany]
  constructor
  · rintro ⟨f, hf, herror⟩
    rcases (mem_evaluate X).mp hf with ⟨k, hk, hfk⟩ | hund
    · exact ⟨k, hk, f, hfk, herror⟩
    · rw [severity_of_undeclared X hund] at herror
      cases herror
  · rintro ⟨k, hk, f, hf, herror⟩
    exact ⟨f, (mem_evaluate X).mpr (.inl ⟨k, hk, hf⟩), herror⟩

/-- An uncertain finding leaves a status of uncertainty or worse. -/
theorem statusOf_of_unknown (hk : k ∈ c.checks X) (hf : f ∈ k.findings X ev)
    (hunknown : f.severity = .unknown) :
    statusOf X c ev = .nonCompliant ∨ statusOf X c ev = .unknown := by
  have hmem : f ∈ (evaluate X c ev).1 := (mem_evaluate X).mpr (.inl ⟨k, hk, hf⟩)
  unfold statusOf deriveStatus
  split
  · exact .inl rfl
  · right
    rw [if_pos]
    simp only [Bool.or_eq_true, List.any_eq_true, decide_eq_true_eq]
    exact .inl ⟨f, hmem, hunknown⟩

/-- A status that is compliant or a warning leaves no violation and no
uncertainty. -/
theorem severity_of_compliant (hstatus : statusOf X c ev = .compliant ∨ statusOf X c ev = .warning)
    (hk : k ∈ c.checks X) (hf : f ∈ k.findings X ev) :
    f.severity ≠ .error ∧ f.severity ≠ .unknown := by
  constructor
  · intro herror
    rw [(statusOf_nonCompliant_iff X).mpr ⟨k, hk, f, hf, herror⟩] at hstatus
    rcases hstatus with h | h <;> cases h
  · intro hunknown
    rcases statusOf_of_unknown X hk hf hunknown with h | h <;> rw [h] at hstatus <;>
      rcases hstatus with h | h <;> cases h

end Pacto.Evidence
