import Pacto.Evidence.Compliance

/-!
# Compliance is earned

The assertions of a contract and what contradicts them, said without reference to
how an evaluation goes about it: by the payloads of the observations that were
collected.
-/

namespace Pacto.Evidence

variable {X : Codecs} {c : Contract} {ev : EvidenceSet} {k : Check} {f : Finding} {o : Observation}

/-! ## Payloads -/

/-- An observation of a kind and name that was collected, with its payload. -/
def EvidenceSet.Reports {T : Type} (ev : EvidenceSet) (kind : Kind)
    (decode : String → Except String T) (name : String) (P : T → Prop) : Prop :=
  ∃ o ∈ ev.observations, o.kind = kind ∧ o.subject.name = name ∧ o.outcome = .observed ∧
    ∃ p, decode o.value = .ok p ∧ P p

theorem exists_of_map_eq_ok {T : Type} {x : Except String T}
    (h : (x.map fun _ => ()) = .ok ()) : ∃ p, x = .ok p := by
  cases x with
  | error why => cases h
  | ok p => exact ⟨p, rfl⟩

theorem decodes_of_mem (hvalid : validateEvidenceSet X ev = []) (ho : o ∈ ev.observations)
    (hout : o.outcome = .observed) : o.decodes X = .ok () :=
  have h := observationsErrors_eq_nil (observationsErrors_of_valid hvalid)
  (Observation.of_validate (h.1 o ho).2).2 hout

section Payload

variable {T : Type} [Inhabited T] {kind : Kind} {name : String} {decode : String → Except String T}
  (hvalid : validateEvidenceSet X ev = [])
  (hdecodes : ∀ o : Observation, o.kind = kind → o.decodes X = .ok () → ∃ p, decode o.value = .ok p)
  (hseen : ev.seen kind name = some o)

include hvalid hdecodes hseen

/-- In an accepted set what was collected has a payload of its kind, and the getter
returns it. -/
theorem exists_payload : ∃ p, decode o.value = .ok p ∧ o.get kind decode = p := by
  obtain ⟨hmem, hkind, -, hout⟩ := of_seen hseen
  obtain ⟨p, hp⟩ := hdecodes o hkind (decodes_of_mem hvalid hmem hout)
  exact ⟨p, hp, Observation.get_eq hout hkind hp⟩

theorem reports_of_seen {P : T → Prop} (hP : P (o.get kind decode)) :
    ev.Reports kind decode name P := by
  obtain ⟨hmem, hkind, hname, hout⟩ := of_seen hseen
  obtain ⟨p, hp, hget⟩ := exists_payload hvalid hdecodes hseen
  exact ⟨o, hmem, hkind, hname, hout, p, hp, hget ▸ hP⟩

end Payload

/-! ### The payload of each kind -/

theorem interface_decodes (hkind : o.kind = .interfaceObserved) (h : o.decodes X = .ok ()) :
    ∃ p, X.interface o.value = .ok p := by
  rw [Observation.decodes, hkind] at h
  exact exists_of_map_eq_ok h

theorem capability_decodes (hkind : o.kind = .capabilityObserved) (h : o.decodes X = .ok ()) :
    ∃ p, X.capability o.value = .ok p := by
  rw [Observation.decodes, hkind] at h
  exact exists_of_map_eq_ok h

theorem dependency_decodes (hkind : o.kind = .dependencyReachable) (h : o.decodes X = .ok ()) :
    ∃ p, X.dependency o.value = .ok p := by
  rw [Observation.decodes, hkind] at h
  exact exists_of_map_eq_ok h

theorem configuration_decodes (hkind : o.kind = .configurationPresent) (h : o.decodes X = .ok ()) :
    ∃ p, X.configuration o.value = .ok p := by
  rw [Observation.decodes, hkind] at h
  exact exists_of_map_eq_ok h

theorem workload_decodes (hkind : o.kind = .workloadObserved) (h : o.decodes X = .ok ()) :
    ∃ p, X.workload o.value = .ok p := by
  rw [Observation.decodes, hkind] at h
  exact exists_of_map_eq_ok h

theorem persistence_decodes (hkind : o.kind = .persistenceObserved) (h : o.decodes X = .ok ()) :
    ∃ p, X.persistence o.value = .ok p := by
  rw [Observation.decodes, hkind] at h
  exact exists_of_map_eq_ok h

/-! ## What the contract asserts -/

/-- Every required assertion was observed and agrees, and so does every facet of
it. -/
structure Earned (X : Codecs) (c : Contract) (ev : EvidenceSet) : Prop where
  interfaces : ∀ i ∈ c.interfaces, ev.Reports .interfaceObserved X.interface i.name fun p =>
    p.present = true ∧ protocolVerdict i.type p.protocol ≠ .violated ∧
      visibilityVerdict i.effectiveVisibility p.exposure ≠ .violated
  capabilities : ∀ k ∈ c.capabilities, k.type ≠ .extension →
    ev.Reports .capabilityObserved X.capability k.assertionKey fun p => p.present = true
  dependencies : ∀ d ∈ c.dependencies, d.required = true →
    ev.Reports .dependencyReachable X.dependency d.name fun p =>
      p.reachable = true ∧ versionVerdict X d.compatibility p.version ≠ .violated
  configurations : ∀ g ∈ c.configurations, g.required = true →
    ev.Reports .configurationPresent X.configuration g.name fun p =>
      p.present = true ∧ p.conformant = true
  workload : c.workload ≠ "" →
    ev.Reports .workloadObserved X.workload c.serviceName fun p => p.type = c.workload
  durability : ∀ st, c.state = some st → st.durability = durabilityPersistent →
    ev.Reports .persistenceObserved X.persistence c.serviceName fun p =>
      p.durable = true ∧ scopeVerdict st.scope p.shared ≠ .violated

/-- Some observation that was collected contradicts the contract. -/
inductive Contradicted (X : Codecs) (c : Contract) (ev : EvidenceSet) : Prop where
  | interface (i : Interface) (hi : i ∈ c.interfaces)
      (h : ev.Reports .interfaceObserved X.interface i.name fun p =>
        p.present = false ∨ protocolVerdict i.type p.protocol = .violated ∨
          visibilityVerdict i.effectiveVisibility p.exposure = .violated)
  | capability (k : Capability) (hk : k ∈ c.capabilities)
      (h : ev.Reports .capabilityObserved X.capability k.assertionKey fun p => p.present = false)
  | dependency (d : Dependency) (hd : d ∈ c.dependencies)
      (h : ev.Reports .dependencyReachable X.dependency d.name fun p =>
        p.reachable = false ∨ versionVerdict X d.compatibility p.version = .violated)
  | configuration (g : Configuration) (hg : g ∈ c.configurations)
      (h : ev.Reports .configurationPresent X.configuration g.name fun p =>
        p.present = false ∨ p.conformant = false)
  | workload (hne : c.workload ≠ "")
      (h : ev.Reports .workloadObserved X.workload c.serviceName fun p => p.type ≠ c.workload)
  | durability (st : Persistence) (hst : c.state = some st)
      (hdur : st.durability = durabilityPersistent)
      (h : ev.Reports .persistenceObserved X.persistence c.serviceName fun p => p.durable = false)
  | scope (st : Persistence) (hst : c.state = some st)
      (h : ev.Reports .persistenceObserved X.persistence c.serviceName fun p =>
        scopeVerdict st.scope p.shared = .violated)

/-! ## From a status to the assertions -/

/-- Where a status is compliant or a warning, a required check was observed and a
violation of it is at most a warning. -/
theorem agrees_of_compliant (hstatus : statusOf X c ev = .compliant ∨ statusOf X c ev = .warning)
    (hk : k ∈ c.checks X) (hreq : k.required = true) :
    ∃ o, ev.seen k.kind k.name = some o ∧
      (∀ code message, k.contradicted o = some (code, message) →
        code.severityFor k.required ≠ .error) ∧
      ∀ g ∈ k.facets o, g.verdict = .violated → g.code.severityFor g.required ≠ .error := by
  cases hs : ev.seen k.kind k.name with
  | none =>
    obtain ⟨f, hf, hunknown⟩ := unknown_of_unseen (X := X) hreq hs
    exact absurd hunknown (severity_of_compliant X hstatus hk hf).2
  | some o =>
    have hviolations : ∀ f ∈ k.violations X ev o, f.severity ≠ .error := by
      intro f hf
      refine (severity_of_compliant X hstatus hk ?_).1
      simpa [Check.findings, hs] using hf
    refine ⟨o, rfl, ?_, ?_⟩
    · intro code message hcon
      exact hviolations _ (mem_violations.mpr (.inl ⟨code, message, hcon, rfl⟩))
    · intro g hg hv
      exact hviolations _ (mem_violations.mpr (.inr ⟨g, hg, hv, rfl⟩))

theorem earned_of_compliant (hvalid : validateEvidenceSet X ev = [])
    (hstatus : statusOf X c ev = .compliant ∨ statusOf X c ev = .warning) : Earned X c ev where
  interfaces := by
    intro i hi
    obtain ⟨o, hseen, hcon, hfacets⟩ := agrees_of_compliant hstatus
      (mem_checks.mpr (.inl ⟨i, hi, rfl⟩)) rfl
    have hpresent : (o.getInterface X).present = true := by
      by_contra hne
      exact hcon .interfaceAbsent _ (by simp [interfaceCheck, hne]; rfl) rfl
    have hboth : (interfaceCheck X i).facets o =
        [typeFacet i (o.getInterface X), visibilityFacet i (o.getInterface X)] := if_pos hpresent
    rw [hboth] at hfacets
    refine reports_of_seen hvalid (fun o => interface_decodes) hseen ⟨hpresent, ?_, ?_⟩
    · intro hv
      exact hfacets (typeFacet i (o.getInterface X)) (by simp) hv rfl
    · intro hv
      exact hfacets (visibilityFacet i (o.getInterface X)) (by simp) hv rfl
  capabilities := by
    intro a ha hext
    obtain ⟨o, hseen, hcon, -⟩ := agrees_of_compliant hstatus
      (mem_checks.mpr (.inr (.inl ⟨a, ha, hext, rfl⟩))) rfl
    refine reports_of_seen hvalid (fun o => capability_decodes) hseen ?_
    by_contra hne
    exact hcon .capabilityAbsent _
      (by simp [capabilityCheck, Observation.getCapability, hne]; rfl) rfl
  dependencies := by
    intro d hd hreq
    obtain ⟨o, hseen, hcon, hfacets⟩ := agrees_of_compliant hstatus
      (mem_checks.mpr (.inr (.inr (.inl ⟨d, hd, rfl⟩)))) hreq
    refine reports_of_seen hvalid (fun o => dependency_decodes) hseen ⟨?_, ?_⟩
    · by_contra hne
      refine hcon .dependencyUnreachable _
        (by simp [dependencyCheck, Observation.getDependency, hne]; rfl) ?_
      simp [dependencyCheck, hreq, Code.severityFor, Code.metaFor, Code.registry]
    · intro hv
      refine hfacets (versionFacet X d (o.getDependency X)) List.mem_cons_self hv ?_
      simp [versionFacet, hreq, Code.severityFor, Code.metaFor, Code.registry]
  configurations := by
    intro g hg hreq
    obtain ⟨o, hseen, hcon, -⟩ := agrees_of_compliant hstatus
      (mem_checks.mpr (.inr (.inr (.inr (.inl ⟨g, hg, rfl⟩))))) hreq
    have herror : ∀ code : Code, code = .configurationAbsent ∨ code = .configurationMismatch →
        code.severityFor (configurationCheck X g).required = .error := by
      rintro code (rfl | rfl) <;>
        simp [configurationCheck, hreq, Code.severityFor, Code.metaFor, Code.registry]
    have hpresent : (o.getConfiguration X).present = true := by
      by_contra hne
      exact hcon .configurationAbsent _ (by simp [configurationCheck, hne]; rfl)
        (herror _ (.inl rfl))
    refine reports_of_seen hvalid (fun o => configuration_decodes) hseen ⟨hpresent, ?_⟩
    by_contra hne
    have hconform : (o.getConfiguration X).conformant = false := by
      simpa [Observation.getConfiguration] using hne
    exact hcon .configurationMismatch _ (by simp [configurationCheck, hpresent, hconform]; rfl)
      (herror _ (.inr rfl))
  workload := by
    intro hne
    obtain ⟨o, hseen, hcon, -⟩ := agrees_of_compliant hstatus
      (mem_checks.mpr (.inr (.inr (.inr (.inr (.inl ⟨hne, rfl⟩)))))) rfl
    refine reports_of_seen hvalid (fun o => workload_decodes) hseen ?_
    by_contra hmismatch
    exact hcon .workloadMismatch _
      (by simp [workloadCheck, Observation.getWorkload, hmismatch]; rfl) rfl
  durability := by
    intro st hst hdur
    have hcheck : stateCheck X c st = durabilityCheck X c st := if_pos hdur
    obtain ⟨o, hseen, hcon, hfacets⟩ := agrees_of_compliant hstatus
      (mem_checks.mpr (.inr (.inr (.inr (.inr (.inr ⟨st, hst, hcheck.symm⟩)))))) rfl
    refine reports_of_seen hvalid (fun o => persistence_decodes) hseen ⟨?_, ?_⟩
    · by_contra hne
      exact hcon .persistenceMismatch _
        (by simp [durabilityCheck, Observation.getPersistence, hne]; rfl) rfl
    · intro hv
      exact hfacets (scopeFacet X st o) List.mem_cons_self hv rfl

/-- What an error rests on. -/
theorem contradicted_of_nonCompliant (hvalid : validateEvidenceSet X ev = [])
    (hstatus : statusOf X c ev = .nonCompliant) : Contradicted X c ev := by
  obtain ⟨k, hk, f, hf, herror⟩ := (statusOf_nonCompliant_iff X).mp hstatus
  obtain ⟨o, hseen, hviolates⟩ := of_mem_findings hf herror
  rcases mem_checks.mp hk with ⟨i, hi, rfl⟩ | ⟨a, ha, -, rfl⟩ | ⟨d, hd, rfl⟩ | ⟨g, hg, rfl⟩ |
    ⟨hne, rfl⟩ | ⟨st, hst, rfl⟩
  · refine .interface i hi (reports_of_seen hvalid (fun o => interface_decodes) hseen ?_)
    rcases mem_violations.mp hviolates with ⟨code, message, hcon, -⟩ | ⟨x, hx, hv, -⟩
    · simp only [interfaceCheck] at hcon
      split at hcon
      · cases hcon
      · next h => exact .inl (Bool.eq_false_of_not_eq_true h)
    · simp only [interfaceCheck] at hx
      split at hx
      · rcases List.mem_cons.mp hx with rfl | hx
        · exact .inr (.inl hv)
        · rw [List.mem_singleton.mp hx] at hv
          exact .inr (.inr hv)
      · cases hx
  · refine .capability a ha (reports_of_seen hvalid (fun o => capability_decodes) hseen ?_)
    rcases mem_violations.mp hviolates with ⟨code, message, hcon, -⟩ | ⟨x, hx, hv, -⟩
    · simp only [capabilityCheck] at hcon
      split at hcon
      · cases hcon
      · next h => exact Bool.eq_false_of_not_eq_true h
    · cases hx
  · refine .dependency d hd (reports_of_seen hvalid (fun o => dependency_decodes) hseen ?_)
    rcases mem_violations.mp hviolates with ⟨code, message, hcon, -⟩ | ⟨x, hx, hv, -⟩
    · simp only [dependencyCheck] at hcon
      split at hcon
      · cases hcon
      · next h => exact .inl (Bool.eq_false_of_not_eq_true h)
    · simp only [dependencyCheck, List.mem_singleton] at hx
      rw [hx] at hv
      exact .inr hv
  · refine .configuration g hg (reports_of_seen hvalid (fun o => configuration_decodes) hseen ?_)
    rcases mem_violations.mp hviolates with ⟨code, message, hcon, -⟩ | ⟨x, hx, hv, -⟩
    · simp only [configurationCheck] at hcon
      split at hcon
      · next h => exact .inl ((Bool.not_eq_true' _).mp h)
      · split at hcon
        · next h => exact .inr ((Bool.not_eq_true' _).mp h)
        · cases hcon
    · cases hx
  · refine .workload hne (reports_of_seen hvalid (fun o => workload_decodes) hseen ?_)
    rcases mem_violations.mp hviolates with ⟨code, message, hcon, -⟩ | ⟨x, hx, hv, -⟩
    · simp only [workloadCheck] at hcon
      split at hcon
      · next h => exact h
      · cases hcon
    · cases hx
  · by_cases hdur : st.durability = durabilityPersistent
    · have hcheck : stateCheck X c st = durabilityCheck X c st := if_pos hdur
      rw [hcheck] at hviolates hseen
      rcases mem_violations.mp hviolates with ⟨code, message, hcon, -⟩ | ⟨x, hx, hv, -⟩
      · simp only [durabilityCheck] at hcon
        split at hcon
        · cases hcon
        · next h =>
          exact .durability st hst hdur
            (reports_of_seen hvalid (fun o => persistence_decodes) hseen
              (Bool.eq_false_of_not_eq_true h))
      · simp only [durabilityCheck, List.mem_singleton] at hx
        rw [hx] at hv
        exact .scope st hst (reports_of_seen hvalid (fun o => persistence_decodes) hseen hv)
    · have hcheck : stateCheck X c st = scopeCheck X c st := if_neg hdur
      rw [hcheck] at hviolates hseen
      obtain ⟨hscope, hshared, -⟩ := of_scopeCheck_violations hviolates
      exact .scope st hst (reports_of_seen hvalid (fun o => persistence_decodes) hseen
        (scopeVerdict_violated.mpr ⟨hscope, hshared⟩))

/-- Compliance is earned and violations are observed. -/
theorem status_earned (X : Codecs) (c : Contract) (ev : EvidenceSet)
    (hvalid : validateEvidenceSet X ev = []) :
    (statusOf X c ev = .compliant ∨ statusOf X c ev = .warning → Earned X c ev) ∧
      (statusOf X c ev = .nonCompliant → Contradicted X c ev) :=
  ⟨earned_of_compliant hvalid, contradicted_of_nonCompliant hvalid⟩

/-- A contract with something of every dimension. -/
def fullContract : Contract where
  serviceName := "orders"
  interfaces := [{ name := "api", type := .openapi }]
  capabilities := [{ type := .health }, { type := .extension, ref := "acme/tracing" }]
  dependencies := [{ name := "payments", required := true, compatibility := "1.2.0" }]
  configurations := [{ name := "app", required := true }]
  workload := "service"
  state := some { scope := "local", durability := "persistent" }

/-- Evidence that agrees with all of it. -/
def fullEvidence : EvidenceSet :=
  reported [interfaceUp, collected .capabilityObserved "capability" "health" "up",
    collected .dependencyReachable "dependency" "payments" "1.2.0",
    collected .configurationPresent "configuration" "app" "set",
    collected .workloadObserved "service" "orders" "service",
    collected .persistenceObserved "service" "orders" "durable"]

theorem status_earned_full :
    statusOf wordCodecs fullContract fullEvidence = .compliant ∧
      Earned wordCodecs fullContract fullEvidence :=
  have hstatus : statusOf wordCodecs fullContract fullEvidence = .compliant := by decide +kernel
  ⟨hstatus, (status_earned wordCodecs fullContract fullEvidence (by decide +kernel)).1
    (.inl hstatus)⟩

end Pacto.Evidence
