import Pacto.Fleet.Target

/-!
# What one merge does

`mergeTarget` writes the fields of a record in several passes.  `Merged` says
what the whole merge does to each of them.
-/

namespace Pacto.Fleet

open Delivery (Owner orElse)

variable {E : Type} {existing add first : TargetRecord E} {rest : List (TargetRecord E)}

/-! ## What one merge does to each field -/

section Fields

/-- Two values a source may leave empty disagree. -/
def clash (a b : String) : Bool := a ≠ "" && b ≠ "" && a ≠ b

theorem reconcile_fst {field : String} {get : TargetRecord E → String}
    {set : TargetRecord E → String → TargetRecord E} {lims : List Limitation}
    (hget : set existing (get existing) = existing)
    (hset : ∀ v, (set existing v).quarantined = existing.quarantined) :
    (reconcile field get set add (existing, lims)).1 =
      { set existing (orElse (get existing) (get add)) with
        quarantined := existing.quarantined || clash (get existing) (get add) } := by
  unfold reconcile orElse clash
  by_cases ha : get existing = ""
  · simp [ha, ← hset (get add)]
  · by_cases hb : get add = "" ∨ get existing = get add
    · rcases hb with hb | hb
      · simp [ha, hb, hget]
      · simp [ha, ← hb, hget]
    · obtain ⟨hb, hab⟩ := not_or.mp hb
      simp [ha, hb, hab, hget]

theorem mergeTargetIdentity_fst :
    (mergeTargetIdentity existing add).1 =
      { existing with
        service := orElse existing.service add.service
        domain := orElse existing.domain add.domain
        contractRevision := orElse existing.contractRevision add.contractRevision
        digest := orElse existing.digest add.digest
        quarantined := existing.quarantined || clash existing.service add.service ||
          clash existing.domain add.domain ||
          clash existing.contractRevision add.contractRevision ||
          clash existing.digest add.digest } := by
  unfold mergeTargetIdentity
  dsimp only
  rw [← Prod.mk.eta (p := reconcile "contractRevision" _ _ _ _), reconcile_fst rfl fun _ => rfl]
  rw [← Prod.mk.eta (p := reconcile "domain" _ _ _ _), reconcile_fst rfl fun _ => rfl]
  rw [← Prod.mk.eta (p := reconcile "service" _ _ _ _), reconcile_fst rfl fun _ => rfl]
  rw [reconcile_fst rfl fun _ => rfl]

theorem mergeRef_eq (a b : String) : mergeRef a b = (orElse a b, clash a b) := by
  unfold mergeRef orElse clash
  by_cases ha : a = ""
  · simp [ha]
  · by_cases hb : b = ""
    · simp [ha, hb]
    · by_cases hab : a = b
      · simp [hab]
      · simp [ha, hb, hab]

end Fields

/-! ## Labels -/

section Labels

variable {k source : String} {st : TargetRecord E × List Limitation}
  {label : (_ : String) × String} {labels : List ((_ : String) × String)}

def SameButLabels (t u : TargetRecord E) : Prop :=
  u = { t with
    labels := u.labels, environment := u.environment, environmentConflict := u.environmentConflict }

theorem SameButLabels.trans {t u v : TargetRecord E} (htu : SameButLabels t u)
    (huv : SameButLabels u v) : SameButLabels t v := by
  unfold SameButLabels at *
  rw [htu] at huv
  exact huv

theorem mergeLabel_frame : SameButLabels st.1 (mergeLabel source st label).1 := by
  obtain ⟨existing, lims⟩ := st
  obtain ⟨k, v⟩ := label
  unfold mergeLabel
  dsimp only
  split
  · rfl
  · split
    · split
      · split <;> rfl
      · rfl
    · split <;> rfl

theorem foldl_mergeLabel_frame : SameButLabels st.1 (labels.foldl (mergeLabel source) st).1 := by
  induction labels generalizing st with
  | nil => rfl
  | cons label labels ih => exact mergeLabel_frame.trans ih

/-- A label other than the environment keeps the first value it was given. -/
theorem lookup_mergeLabel (hk : k ≠ targetEnvironmentLabel) :
    (mergeLabel source st label).1.labels.lookup k =
      (st.1.labels.lookup k).or ([label].dlookup k) := by
  obtain ⟨existing, lims⟩ := st
  obtain ⟨k', v⟩ := label
  by_cases hkk : k' = k
  · subst hkk
    rw [List.dlookup_cons_eq]
    cases hcur : existing.labels.lookup k' with
    | none => simp [mergeLabel, hk, hcur]
    | some cur =>
      by_cases hv : cur = v
      · simp [mergeLabel, hk, hcur, hv]
      · simp [mergeLabel, hk, hcur, hv]
  · have hne : k ≠ k' := Ne.symm hkk
    have hnone : [(⟨k', v⟩ : (_ : String) × String)].dlookup k = none :=
      List.dlookup_cons_ne _ _ hne
    rw [hnone, Option.or_none]
    unfold mergeLabel
    dsimp only
    split
    · rfl
    · split
      · split
        · split
          · exact AList.lookup_erase_ne hne
          · rfl
        · exact AList.lookup_insert_ne hne
      · split <;> exact AList.lookup_insert_ne hne

/-- What one label does to a part of the record, for the value of one key alone,
all labels do. -/
theorem foldl_mergeLabel_project {S : Type} {π : TargetRecord E → S} {f : S → Option String → S}
    (hnone : ∀ s, f s none = s)
    (hstep : ∀ st label, π (mergeLabel source st label).1 = f (π st.1) ([label].dlookup k))
    (hnodup : labels.NodupKeys) :
    π (labels.foldl (mergeLabel source) st).1 = f (π st.1) (labels.dlookup k) := by
  induction labels generalizing st with
  | nil => rw [List.dlookup_nil, hnone, List.foldl_nil]
  | cons label labels ih =>
    obtain ⟨hfresh, hnodup⟩ := List.nodupKeys_cons.mp hnodup
    rw [List.foldl_cons, ih hnodup, hstep]
    by_cases hk : k = label.1
    · subst hk
      have hrest : labels.dlookup label.1 = none := List.dlookup_eq_none.mpr hfresh
      rw [hrest, hnone, List.dlookup_cons_eq, List.dlookup_cons_eq]
    · rw [List.dlookup_cons_ne _ _ hk, List.dlookup_cons_ne _ _ hk, List.dlookup_nil, hnone]

/-- The environment label, the environment and whether it is in dispute. -/
def TargetRecord.environmentState (t : TargetRecord E) : Option String × String × Bool :=
  (t.labels.lookup targetEnvironmentLabel, t.environment, t.environmentConflict)

/-- What a further environment label does. -/
def mergeEnvironment (st : Option String × String × Bool) (v : Option String) :
    Option String × String × Bool :=
  match st, v with
  | (_, _, true), _ => st
  | _, none => st
  | (none, _, false), some v => (some v, v, false)
  | (some cur, _, false), some v => if cur ≠ v then (none, "", true) else st

@[simp] theorem mergeEnvironment_none (st : Option String × String × Bool) :
    mergeEnvironment st none = st := by
  obtain ⟨cur, env, _ | _⟩ := st <;> rfl

theorem environmentState_mergeLabel :
    (mergeLabel source st label).1.environmentState =
      mergeEnvironment st.1.environmentState ([label].dlookup targetEnvironmentLabel) := by
  obtain ⟨existing, lims⟩ := st
  obtain ⟨k, v⟩ := label
  by_cases hk : k = targetEnvironmentLabel
  · subst hk
    rw [List.dlookup_cons_eq]
    cases hc : existing.environmentConflict with
    | true => simp [mergeLabel, mergeEnvironment, TargetRecord.environmentState, hc]
    | false =>
      cases hcur : existing.labels.lookup targetEnvironmentLabel with
      | none => simp [mergeLabel, mergeEnvironment, TargetRecord.environmentState, hc, hcur]
      | some cur =>
        by_cases hv : cur = v
        · simp [mergeLabel, mergeEnvironment, TargetRecord.environmentState, hc, hcur, hv]
        · simp [mergeLabel, mergeEnvironment, TargetRecord.environmentState, hc, hcur, hv]
  · have hne : targetEnvironmentLabel ≠ k := Ne.symm hk
    have hnone : [(⟨k, v⟩ : (_ : String) × String)].dlookup targetEnvironmentLabel = none :=
      List.dlookup_cons_ne _ _ hne
    rw [hnone, mergeEnvironment_none]
    cases hcur : existing.labels.lookup k with
    | none => simp [mergeLabel, TargetRecord.environmentState, hk, hcur, AList.lookup_insert_ne hne]
    | some cur =>
      by_cases hv : cur = v
      · simp [mergeLabel, TargetRecord.environmentState, hk, hcur, hv, AList.lookup_insert_ne hne]
      · simp [mergeLabel, TargetRecord.environmentState, hk, hcur, hv]

end Labels

/-! ## One merge, field by field -/

section Merge

def mergeIdentity (existing add : TargetRecord E) : TargetRecord E :=
  { existing with
    sources := appendUnique existing.sources add.evaluation.source
    service := orElse existing.service add.service
    domain := orElse existing.domain add.domain
    contractRevision := orElse existing.contractRevision add.contractRevision
    digest := orElse existing.digest add.digest
    resolvedRef := orElse existing.resolvedRef add.resolvedRef
    quarantined := existing.quarantined || clash existing.service add.service ||
      clash existing.domain add.domain ||
      clash existing.contractRevision add.contractRevision ||
      clash existing.digest add.digest || clash existing.resolvedRef add.resolvedRef }

/-- A merge writes the identity fields, the labels with the environment, and
then the rest. -/
theorem mergeTarget_fst :
    ∃ t, SameButLabels (mergeIdentity existing add) t ∧
      (∀ k ≠ targetEnvironmentLabel,
        t.labels.lookup k = (existing.labels.lookup k).or (add.labels.lookup k)) ∧
      t.environmentState = mergeEnvironment existing.environmentState
        (add.labels.lookup targetEnvironmentLabel) ∧
      (mergeTarget existing add).1 = { t with
        owner := if t.owner = {} then add.owner else t.owner
        reportedDomains := add.reportedDomains.foldl appendUnique t.reportedDomains
        domainKnown := t.domainKnown || add.domainKnown
        reportedOfferings := add.reportedOfferings.foldl appendUnique t.reportedOfferings
        reportedSummaries := add.reportedSummaries.foldl appendUnique t.reportedSummaries
        evaluation :=
          if targetFresher add.evaluation t.evaluation then add.evaluation else t.evaluation
        limitations := t.limitations ++ add.limitations } := by
  refine ⟨(mergeTargetLabels (mergeIdentity existing add) add).1, foldl_mergeLabel_frame,
    fun k hk => foldl_mergeLabel_project (π := fun t => t.labels.lookup k) (fun _ => Option.or_none)
      (fun _ _ => lookup_mergeLabel hk) add.labels.nodupKeys,
    foldl_mergeLabel_project (π := (·.environmentState)) mergeEnvironment_none
      (fun _ _ => environmentState_mergeLabel) add.labels.nodupKeys, ?_⟩
  have hidentity : (if clash existing.resolvedRef add.resolvedRef then
      { (mergeTargetIdentity { existing with
          sources := appendUnique existing.sources add.evaluation.source } add).1 with
        quarantined := true }
    else
      { (mergeTargetIdentity { existing with
          sources := appendUnique existing.sources add.evaluation.source } add).1 with
        resolvedRef := orElse existing.resolvedRef add.resolvedRef }) =
      mergeIdentity existing add := by
    rw [mergeTargetIdentity_fst]
    unfold mergeIdentity
    cases hclash : clash existing.resolvedRef add.resolvedRef with
    | false => simp
    | true =>
      have hne : existing.resolvedRef ≠ "" := by
        unfold clash at hclash
        simp only [Bool.and_eq_true, decide_eq_true_eq] at hclash
        exact hclash.1.1
      simp [orElse, hne]
  rw [← hidentity]
  unfold mergeTarget
  simp only [mergeRef_eq, mergeTargetIdentity_fst]
  split <;> rfl

/-- What merging a record into another does to each field. -/
structure Merged (existing add t : TargetRecord E) : Prop where
  key : t.key = existing.key
  service : t.service = orElse existing.service add.service
  domain : t.domain = orElse existing.domain add.domain
  contractRevision : t.contractRevision = orElse existing.contractRevision add.contractRevision
  digest : t.digest = orElse existing.digest add.digest
  requestedRef : t.requestedRef = existing.requestedRef
  resolvedRef : t.resolvedRef = orElse existing.resolvedRef add.resolvedRef
  quarantined : t.quarantined = (mergeIdentity existing add).quarantined
  labels : ∀ k ≠ targetEnvironmentLabel,
    t.labels.lookup k = (existing.labels.lookup k).or (add.labels.lookup k)
  environmentState : t.environmentState = mergeEnvironment existing.environmentState
    (add.labels.lookup targetEnvironmentLabel)
  owner : t.owner = if existing.owner = {} then add.owner else existing.owner
  evaluation : t.evaluation =
    if targetFresher add.evaluation existing.evaluation then add.evaluation else existing.evaluation
  sources : t.sources = appendUnique existing.sources add.evaluation.source
  limitations : t.limitations = existing.limitations ++ add.limitations
  reportedDomains : t.reportedDomains = add.reportedDomains.foldl appendUnique existing.reportedDomains
  domainKnown : t.domainKnown = (existing.domainKnown || add.domainKnown)
  reportedOfferings :
    t.reportedOfferings = add.reportedOfferings.foldl appendUnique existing.reportedOfferings
  reportedSummaries :
    t.reportedSummaries = add.reportedSummaries.foldl appendUnique existing.reportedSummaries

theorem mergeTarget_spec : Merged existing add (mergeTarget existing add).1 := by
  obtain ⟨t, hsame, hlabels, henv, heq⟩ := @mergeTarget_fst E existing add
  rw [heq]
  rw [SameButLabels] at hsame
  generalize t.labels = labels, t.environment = environment, t.environmentConflict = conflict at hsame
  subst hsame
  exact {
    key := rfl
    service := rfl
    domain := rfl
    contractRevision := rfl
    digest := rfl
    requestedRef := rfl
    resolvedRef := rfl
    quarantined := rfl
    labels := hlabels
    environmentState := henv
    owner := rfl
    evaluation := rfl
    sources := rfl
    limitations := rfl
    reportedDomains := rfl
    domainKnown := rfl
    reportedOfferings := rfl
    reportedSummaries := rfl }

end Merge

end Pacto.Fleet
