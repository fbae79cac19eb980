import Pacto.Evidence.Findings

/-!
# What a status says

A status that is compliant or a warning is earned: every required assertion was
observed and agrees.  A status that is not compliant rests on an observation that
contradicts the contract.  And evidence that is lost leaves a violation a violation
or makes it uncertain, with one exception: the scope of state that is not
persistent is judged when an observation happens to be there and is missed by
nobody when it is not.
-/

namespace Pacto.Evidence

open Support

variable {X : Codecs} {c : Contract} {ev ev' : EvidenceSet} {k : Check} {f : Finding}
  {o : Observation} {kind : Kind} {name : String}

/-! ## Observations that were collected -/

theorem of_seen (h : ev.seen kind name = some o) :
    o ∈ ev.observations ∧ o.kind = kind ∧ o.subject.name = name ∧ o.outcome = .observed := by
  unfold EvidenceSet.seen at h
  split at h
  · cases h
  · next x hfound =>
    split at h
    · next hout =>
      cases h
      have hkey := List.find?_some hfound
      simp only [Bool.and_eq_true, decide_eq_true_eq] at hkey
      exact ⟨List.mem_of_find?_eq_some hfound, hkey.1, hkey.2, hout⟩
    · cases h

/-- Among accepted observations one that was collected is the one its kind and
name find. -/
theorem seen_of_mem (hvalid : validateEvidenceSet X ev = []) (ho : o ∈ ev.observations)
    (hkind : o.kind = kind) (hname : o.subject.name = name) (hout : o.outcome = .observed)
    (hone : kind.subjectKinds.length = 1) : ev.seen kind name = some o := by
  have hfound : findObservation ev.observations kind name = some o := by
    cases hfind : findObservation ev.observations kind name with
    | none =>
      have hno := List.find?_eq_none.mp hfind o ho
      simp [hkind, hname] at hno
    | some x =>
      have hkey := List.find?_some hfind
      simp only [Bool.and_eq_true, decide_eq_true_eq] at hkey
      rw [eq_of_kind_name hvalid (List.mem_of_find?_eq_some hfind) ho (hkey.1.trans hkind.symm)
        (hkey.2.trans hname.symm) (by rw [hkey.1]; exact hone)]
  simp [EvidenceSet.seen, hfound, hout]

/-! ## Findings of a check -/

theorem of_mem_findings (hf : f ∈ k.findings X ev) (herror : f.severity = .error) :
    ∃ o, ev.seen k.kind k.name = some o ∧ f ∈ k.violations X ev o := by
  unfold Check.findings at hf
  cases hs : ev.seen k.kind k.name with
  | some o =>
    rw [hs] at hf
    exact ⟨o, rfl, hf⟩
  | none =>
    rw [hs] at hf
    have hunseen : f ∈ k.toAssertion.uncertainty X ev := hf
    unfold Assertion.uncertainty at hunseen
    split at hunseen
    · rw [List.mem_singleton.mp hunseen] at herror
      cases herror
    · cases hunseen

theorem mem_violations :
    f ∈ k.violations X ev o ↔
      (∃ code message, k.contradicted o = some (code, message) ∧
        f = violationFinding X ev code k.required k.subjectKind k.name k.contractPath o message) ∨
      ∃ g ∈ k.facets o, g.verdict = .violated ∧
        f = violationFinding X ev g.code g.required k.subjectKind k.name g.contractPath o
          g.message := by
  simp only [Check.violations, Assertion.violations, List.mem_append, List.mem_map,
    Option.mem_toList, List.mem_filter, decide_eq_true_eq, Prod.exists, and_assoc]
  refine or_congr ⟨?_, ?_⟩ ⟨?_, ?_⟩
  · rintro ⟨code, message, hcon, rfl⟩
    exact ⟨code, message, hcon, rfl⟩
  · rintro ⟨code, message, hcon, rfl⟩
    exact ⟨code, message, hcon, rfl⟩
  · rintro ⟨g, hg, hv, rfl⟩
    exact ⟨g, hg, hv, rfl⟩
  · rintro ⟨g, hg, hv, rfl⟩
    exact ⟨g, hg, hv, rfl⟩

/-- A required assertion that was not observed is uncertain. -/
theorem unknown_of_unseen (hreq : k.required = true) (hs : ev.seen k.kind k.name = none) :
    ∃ f ∈ k.findings X ev, f.severity = .unknown := by
  refine ⟨unknownFinding X ev k.toAssertion (findObservation ev.observations k.kind k.name), ?_, rfl⟩
  simp [Check.findings, hs, Assertion.uncertainty, hreq]

/-- How severe a violation is does not depend on the rest of the evidence. -/
theorem exists_same_severity (ev' : EvidenceSet) (hf : f ∈ k.violations X ev o) :
    ∃ f' ∈ k.violations X ev' o, f'.severity = f.severity := by
  rcases mem_violations.mp hf with ⟨code, message, hcon, rfl⟩ | ⟨g, hg, hv, rfl⟩
  · exact ⟨_, mem_violations.mpr (.inl ⟨code, message, hcon, rfl⟩), rfl⟩
  · exact ⟨_, mem_violations.mpr (.inr ⟨g, hg, hv, rfl⟩), rfl⟩

/-! ## The checks one by one -/

/-- The checks of a contract, by dimension. -/
theorem mem_checks : k ∈ c.checks X ↔
    (∃ i ∈ c.interfaces, k = interfaceCheck X i) ∨
    (∃ a ∈ c.capabilities, a.type ≠ .extension ∧ k = capabilityCheck X a) ∨
    (∃ d ∈ c.dependencies, k = dependencyCheck X d) ∨
    (∃ g ∈ c.configurations, k = configurationCheck X g) ∨
    (c.workload ≠ "" ∧ k = workloadCheck X c) ∨
    ∃ st, c.state = some st ∧ k = stateCheck X c st := by
  have hworkload : k ∈ (if c.workload = "" then [] else [workloadCheck X c]) ↔
      c.workload ≠ "" ∧ k = workloadCheck X c := by
    split <;> simp_all
  simp only [Contract.checks, Contract.observable, List.mem_append, List.mem_map, List.mem_filter,
    hworkload, Option.mem_toList, ne_eq, decide_eq_true_eq, or_assoc, and_assoc, eq_comm (b := k)]

/-- Only one check whose observation is optional can end in an error: the scope of
state that is not persistent. -/
theorem scope_of_optional (hk : k ∈ c.checks X) (hreq : k.required = false)
    (hf : f ∈ k.violations X ev o) (herror : f.severity = .error) :
    ∃ st, c.state = some st ∧ st.durability ≠ durabilityPersistent ∧ k = scopeCheck X c st := by
  rcases mem_checks.mp hk with ⟨i, -, rfl⟩ | ⟨a, -, -, rfl⟩ | ⟨d, -, rfl⟩ | ⟨g, -, rfl⟩ | ⟨-, rfl⟩ |
    ⟨st, hst, rfl⟩
  · cases hreq
  · cases hreq
  · have hd : d.required = false := hreq
    rcases mem_violations.mp hf with ⟨code, message, hcon, rfl⟩ | ⟨g, hg, -, rfl⟩
    · simp only [dependencyCheck] at hcon
      split at hcon
      · cases hcon
      · cases hcon
        simp [violationFinding, dependencyCheck, hd, Code.severityFor, Code.metaFor,
          Code.optionalSeverity] at herror
    · simp only [dependencyCheck, List.mem_singleton] at hg
      rw [hg] at herror
      simp [violationFinding, versionFacet, hd, Code.severityFor, Code.metaFor,
        Code.optionalSeverity] at herror
  · have hg : g.required = false := hreq
    rcases mem_violations.mp hf with ⟨code, message, hcon, rfl⟩ | ⟨x, hx, -, rfl⟩
    · simp only [configurationCheck] at hcon
      split at hcon
      · cases hcon
        simp [violationFinding, configurationCheck, hg, Code.severityFor, Code.metaFor,
          Code.optionalSeverity] at herror
      · split at hcon
        · cases hcon
          simp [violationFinding, configurationCheck, hg, Code.severityFor, Code.metaFor,
            Code.optionalSeverity] at herror
        · cases hcon
    · cases hx
  · cases hreq
  · unfold stateCheck at hreq ⊢
    split at hreq
    · cases hreq
    · next hdur =>
      exact ⟨st, hst, hdur, if_neg hdur⟩

theorem subjectKinds_of_mem_checks (hk : k ∈ c.checks X) : k.kind.subjectKinds.length = 1 := by
  rcases mem_checks.mp hk with ⟨i, -, rfl⟩ | ⟨a, -, -, rfl⟩ | ⟨d, -, rfl⟩ | ⟨g, -, rfl⟩ | ⟨-, rfl⟩ |
    ⟨st, -, rfl⟩
  · rfl
  · rfl
  · rfl
  · rfl
  · rfl
  · unfold stateCheck
    split <;> rfl

/-! ## Losing evidence -/

/-- One observation stays as it is, or its outcome becomes one that is not
collected. -/
def Observation.Fades (o' o : Observation) : Prop :=
  o' = o ∨ (o'.kind = o.kind ∧ o'.subject = o.subject ∧ o'.outcome ≠ .observed)

/-- `ev'` comes from `ev` by removing observations and by turning outcomes into
ones that are not collected. -/
def Loses (ev' ev : EvidenceSet) : Prop :=
  List.SublistForall₂ Observation.Fades ev'.observations ev.observations

/-- What is still collected was collected before. -/
theorem seen_of_loses (hvalid : validateEvidenceSet X ev = []) (hloses : Loses ev' ev)
    (hone : kind.subjectKinds.length = 1) (h : ev'.seen kind name = some o) :
    ev.seen kind name = some o := by
  obtain ⟨hmem, hkind, hname, hout⟩ := of_seen h
  obtain ⟨kept, hforall, hsub⟩ := List.sublistForall₂_iff.mp hloses
  obtain ⟨x, hx, hfades⟩ := exists_of_mem_left hforall hmem
  rcases hfades with rfl | ⟨-, -, hlost⟩
  · exact seen_of_mem hvalid (hsub.subset hx) hkind hname hout hone
  · exact absurd hout hlost

/-- The scope of state that is not persistent was violated, nothing else was, and
the observation that said so is lost. -/
def ScopeLost (X : Codecs) (c : Contract) (ev ev' : EvidenceSet) : Prop :=
  ∃ st o, c.state = some st ∧ st.durability ≠ durabilityPersistent ∧ st.scope = scopeLocal ∧
    ev.seen .persistenceObserved c.serviceName = some o ∧
    (o.getPersistence X).shared = some true ∧
    ev'.seen .persistenceObserved c.serviceName = none ∧
    ∀ f ∈ (evaluate X c ev).1, f.severity = .error → f.contractPath = "state.persistence.scope"

theorem scopeVerdict_violated {scope : String} {shared : Option Bool} :
    scopeVerdict scope shared = .violated ↔ scope = scopeLocal ∧ shared = some true := by
  cases shared with
  | none => simp [scopeVerdict]
  | some s =>
    by_cases hlocal : scope = scopeLocal
    · cases s <;> simp [scopeVerdict, hlocal, classify]
    · by_cases hshared : scope = scopeShared
      · cases s <;> simp [scopeVerdict, hshared, classify, scopeLocal, scopeShared]
      · simp [scopeVerdict, hlocal, hshared]

theorem of_scopeCheck_violations {st : Persistence}
    (hf : f ∈ (scopeCheck X c st).violations X ev o) :
    st.scope = scopeLocal ∧ (o.getPersistence X).shared = some true ∧
      f.contractPath = "state.persistence.scope" := by
  rcases mem_violations.mp hf with ⟨code, message, hcon, -⟩ | ⟨g, hg, hv, rfl⟩
  · cases hcon
  · simp only [scopeCheck, List.mem_singleton] at hg
    rw [hg] at hv ⊢
    obtain ⟨hscope, hshared⟩ := scopeVerdict_violated.mp hv
    exact ⟨hscope, hshared, rfl⟩

/-- Losing evidence turns a violation into a violation or into uncertainty, unless
the only violation is the scope of state that is not persistent and its observation
is lost. -/
theorem losing_evidence (c : Contract) (ev ev' : EvidenceSet)
    (hvalid : validateEvidenceSet X ev = []) (hloses : Loses ev' ev)
    (hstatus : statusOf X c ev = .nonCompliant) :
    statusOf X c ev' = .nonCompliant ∨ statusOf X c ev' = .unknown ∨ ScopeLost X c ev ev' := by
  by_cases hkept : ∃ k ∈ c.checks X, (k.required = true ∨ ev'.seen k.kind k.name ≠ none) ∧
      ∃ f ∈ k.findings X ev, f.severity = .error
  · obtain ⟨k, hk, hstays, f, hf, herror⟩ := hkept
    obtain ⟨o, hseen, hviolates⟩ := of_mem_findings hf herror
    cases hs : ev'.seen k.kind k.name with
    | some o' =>
      -- The observation is still there, so it is the same one and violates the same.
      have hsame := seen_of_loses hvalid hloses (subjectKinds_of_mem_checks hk) hs
      rw [hseen, Option.some.injEq] at hsame
      obtain ⟨f', hf', hseverity⟩ := exists_same_severity ev' hviolates
      left
      refine (statusOf_nonCompliant_iff X).mpr ⟨k, hk, f', ?_, hseverity.trans herror⟩
      simpa [Check.findings, hs, ← hsame] using hf'
    | none =>
      have hreq : k.required = true := hstays.resolve_right (by simp [hs])
      obtain ⟨f', hf', hunknown⟩ := unknown_of_unseen (X := X) hreq hs
      rcases statusOf_of_unknown X hk hf' hunknown with h | h
      · exact .inl h
      · exact .inr (.inl h)
  · right
    right
    -- Every error comes from an optional check whose observation is lost.
    have hall : ∀ k ∈ c.checks X, ∀ f ∈ k.findings X ev, f.severity = .error →
        ∃ st o, c.state = some st ∧ st.durability ≠ durabilityPersistent ∧ st.scope = scopeLocal ∧
          ev.seen .persistenceObserved c.serviceName = some o ∧
          (o.getPersistence X).shared = some true ∧
          ev'.seen .persistenceObserved c.serviceName = none ∧
          f.contractPath = "state.persistence.scope" := by
      intro k hk f hf herror
      obtain ⟨o, hseen, hviolates⟩ := of_mem_findings hf herror
      have hneither : ¬ (k.required = true ∨ ev'.seen k.kind k.name ≠ none) :=
        fun h => hkept ⟨k, hk, h, f, hf, herror⟩
      obtain ⟨hreq, hlost⟩ := not_or.mp hneither
      obtain ⟨st, hst, hdur, rfl⟩ := scope_of_optional hk (by simpa using hreq) hviolates herror
      obtain ⟨hscope, hshared, hpath⟩ := of_scopeCheck_violations hviolates
      exact ⟨st, o, hst, hdur, hscope, hseen, hshared, not_not.mp hlost, hpath⟩
    obtain ⟨k, hk, f, hf, herror⟩ := (statusOf_nonCompliant_iff X).mp hstatus
    obtain ⟨st, o, hst, hdur, hscope, hseen, hshared, hlost, -⟩ := hall k hk f hf herror
    refine ⟨st, o, hst, hdur, hscope, hseen, hshared, hlost, ?_⟩
    intro g hg hgerror
    rcases (mem_evaluate X).mp hg with ⟨k', hk', hgk⟩ | hund
    · obtain ⟨-, -, -, -, -, -, -, -, hpath⟩ := hall k' hk' g hgk hgerror
      exact hpath
    · rw [severity_of_undeclared X hund] at hgerror
      cases hgerror

/-! ### A contract with a cache -/

/-- A reader of payloads that are single words. -/
def wordCodecs : Codecs where
  capability := fun s => if s = "up" then .ok { present := true } else .error "not a payload"
  workload := fun s => .ok { type := s }
  interface := fun s =>
    if s = "up" then .ok { present := true, protocol := .http2, exposure := .internal }
    else if s = "down" then .ok {}
    else .error "not a payload"
  dependency := fun s => .ok { reachable := true, version := s }
  configuration := fun _ => .ok { present := true, conformant := true }
  persistence := fun s =>
    if s = "shared" then .ok { shared := some true }
    else if s = "durable" then .ok { durable := true, shared := some false }
    else .error "not a payload"
  provisioned := fun _ => .error "not a payload"
  fields := fun s =>
    .ok (["present", "conformant", "type", "reachable", "durable"].map fun key => (key, s))
  validEnvironment := fun _ => true
  validateProvisioned := fun _ => .ok ()
  formatTime := fun _ => ""
  parseRange := fun s => some fun v => some (s == v)

def collected (kind : Kind) (subjectKind name value : String) : Observation where
  kind := kind
  subject := { kind := subjectKind, name := name }
  outcome := .observed
  value := value
  provenance := { collector := "probe", detectedAt := some 1 }

/-- What a cluster reports about a service. -/
def reported (observations : List Observation) : EvidenceSet where
  subject := { kind := "service", name := "shop/orders" }
  contractRef := "oci://registry/orders"
  source := "k8s"
  observedAt := some 1
  observations := observations

def cachedContract : Contract where
  serviceName := "orders"
  interfaces := [{ name := "api", type := .grpc }]
  state := some { scope := "local", durability := "ephemeral" }

def interfaceUp : Observation := collected .interfaceObserved "interface" "api" "up"
def interfaceDown : Observation := collected .interfaceObserved "interface" "api" "down"
def storageShared : Observation := collected .persistenceObserved "service" "orders" "shared"

theorem losing_evidence_interface :
    statusOf wordCodecs cachedContract (reported [interfaceDown, storageShared]) = .nonCompliant ∧
      (statusOf wordCodecs cachedContract (reported []) = .nonCompliant ∨
        statusOf wordCodecs cachedContract (reported []) = .unknown ∨
          ScopeLost wordCodecs cachedContract (reported [interfaceDown, storageShared])
            (reported [])) :=
  have hstatus : statusOf wordCodecs cachedContract (reported [interfaceDown, storageShared]) =
    .nonCompliant := by decide +kernel
  ⟨hstatus, losing_evidence cachedContract _ (reported []) (by decide +kernel) .nil hstatus⟩

/-- The scope of ephemeral state is violated, and without the observation that says
so the contract is compliant. -/
theorem lost_scope_compliant :
    validateEvidenceSet wordCodecs (reported [interfaceUp, storageShared]) = [] ∧
      Loses (reported [interfaceUp]) (reported [interfaceUp, storageShared]) ∧
      statusOf wordCodecs cachedContract (reported [interfaceUp, storageShared]) = .nonCompliant ∧
      statusOf wordCodecs cachedContract (reported [interfaceUp]) = .compliant :=
  ⟨by decide +kernel, .cons (.inl rfl) .nil, by decide +kernel, by decide +kernel⟩

end Pacto.Evidence
