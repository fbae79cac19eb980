import Mathlib.Data.Int.ConditionallyCompleteOrder
import Mathlib.Order.ConditionallyCompleteLattice.Basic
import Pacto.Fleet.Merge

/-!
# The order of contributions

Merging keeps the first of two values that disagree, so a target depends on the
order of its sources exactly where they disagree.  Each field of the merged
target is a fold over the contributions; where they agree, two steps of the fold
can be swapped, so any order of the contributions gives the same field.
-/

namespace Pacto.Fleet

open Delivery (Owner orElse)

variable {E : Type} {first : TargetRecord E} {rest : List (TargetRecord E)} {now window : Int}

/-! ## Whole collections -/

/-- A report and the source it comes from. -/
structure Contribution (E : Type) where
  raw : RawTarget E
  source : String

def Contribution.record (now window : Int) (c : Contribution E) : TargetRecord E :=
  (targetFrom c.raw c.source now window).1

def mergeAll (now window : Int) : List (Contribution E) → Option (TargetRecord E)
  | [] => none
  | c :: cs => some (mergeTargets (c.record now window) (cs.map (Contribution.record now window)))

theorem mergeAll_eq_some {cs : List (Contribution E)} {t : TargetRecord E}
    (h : mergeAll now window cs = some t) : ∃ c l, cs = c :: l ∧
      t = mergeTargets (c.record now window) (l.map (Contribution.record now window)) := by
  cases cs with
  | nil => cases h
  | cons c l => exact ⟨c, l, rfl, (Option.some.inj h).symm⟩

/-- A field of the merged target that each merge combines with the contribution
is a fold over the contributions. -/
theorem mergeTargets_project {S : Type} (π : TargetRecord E → S) (f : S → TargetRecord E → S)
    (hstep : ∀ t add, π (mergeTarget t add).1 = f (π t) add) :
    π (mergeTargets first rest) = rest.foldl f (π first) := by
  unfold mergeTargets
  induction rest generalizing first with
  | nil => rfl
  | cons add rest ih => rw [List.foldl_cons, List.foldl_cons, ih, hstep]

/-- A field that starts from a neutral value and whose steps can be swapped does
not depend on the order. -/
theorem mergeAll_project {S : Type} (π : TargetRecord E → S) (z : S)
    (f : S → TargetRecord E → S) (hstep : ∀ t add, π (mergeTarget t add).1 = f (π t) add)
    {cs cs' : List (Contribution E)} (hperm : cs.Perm cs')
    (hfirst : ∀ c ∈ cs, π (c.record now window) = f z (c.record now window))
    (hswap : ∀ c ∈ cs, ∀ d ∈ cs, ∀ s,
      f (f s (c.record now window)) (d.record now window) =
        f (f s (d.record now window)) (c.record now window))
    {t u : TargetRecord E} (ht : mergeAll now window cs = some t)
    (hu : mergeAll now window cs' = some u) : π t = π u := by
  have hfold : ∀ {l : List (Contribution E)} {v : TargetRecord E},
      (∀ c ∈ l, c ∈ cs) → mergeAll now window l = some v →
      π v = l.foldl (fun s c => f s (c.record now window)) z := by
    intro l v hl hv
    obtain ⟨c, l, rfl, rfl⟩ := mergeAll_eq_some hv
    rw [mergeTargets_project π f hstep, List.foldl_map, List.foldl_cons,
      hfirst c (hl c List.mem_cons_self)]
  rw [hfold (fun _ h => h) ht, hfold (fun _ h => hperm.mem_iff.mpr h) hu]
  exact hperm.foldl_eq' (fun c hc d hd s => hswap c hc d hd s) z

/-! ### Fields filled by the first value -/

/-- Two values that may be empty agree. -/
def Compatible {α : Type} (empty a b : α) : Prop := a = empty ∨ b = empty ∨ a = b

/-- Filling an empty value from two that agree, in either order. -/
theorem fill_swap {α : Type} [DecidableEq α] {empty x y : α} (h : Compatible empty x y) (z : α) :
    (if (if z = empty then x else z) = empty then y else if z = empty then x else z) =
      if (if z = empty then y else z) = empty then x else if z = empty then y else z := by
  by_cases hz : z = empty
  · rcases h with rfl | rfl | rfl
    · by_cases hy : y = x
      · simp [hz, hy]
      · simp [hz, hy]
    · by_cases hx : x = y
      · simp [hz, hx]
      · simp [hz, hx]
    · rfl
  · simp [hz]

theorem orElse_swap {x y : String} (h : Compatible "" x y) (z : String) :
    orElse (orElse z x) y = orElse (orElse z y) x :=
  fill_swap h z

theorem clash_eq_false {x y : String} (h : Compatible "" x y) : clash x y = false := by
  unfold clash
  rcases h with rfl | rfl | rfl <;> simp

theorem or_swap {α : Type} {x y : Option α} (h : ∀ v w, x = some v → y = some w → v = w)
    (z : Option α) : (z.or x).or y = (z.or y).or x := by
  cases z with
  | some => rfl
  | none =>
    cases x with
    | none => cases y <;> rfl
    | some v =>
      cases y with
      | none => rfl
      | some w => rw [h v w rfl rfl]

/-- The fields that identify what a target runs. -/
def identityFields : List (TargetRecord E → String) :=
  [(·.service), (·.domain), (·.contractRevision), (·.digest), (·.resolvedRef)]

theorem mergeTarget_identity {get : TargetRecord E → String} (h : get ∈ identityFields)
    (t add : TargetRecord E) : get (mergeTarget t add).1 = orElse (get t) (get add) := by
  have hm := @mergeTarget_spec E t add
  simp only [identityFields, List.mem_cons, List.not_mem_nil, or_false] at h
  rcases h with rfl | rfl | rfl | rfl | rfl
  · exact hm.service
  · exact hm.domain
  · exact hm.contractRevision
  · exact hm.digest
  · exact hm.resolvedRef

theorem mergeTarget_quarantined (t add : TargetRecord E) :
    (mergeTarget t add).1.quarantined =
      (t.quarantined || identityFields.any fun get => clash (get t) (get add)) := by
  rw [mergeTarget_spec.quarantined]
  simp [mergeIdentity, identityFields, Bool.or_assoc]

/-! ### Evaluations -/

/-- The time of the evidence, where none is before any. -/
def Evaluation.evidence (e : Evaluation E) : WithBot Int := e.evidenceAt

theorem targetFresher_of_ne {a b : Evaluation E} (h : a.evidence ≠ b.evidence) :
    targetFresher a b = true ↔ b.evidence < a.evidence := by
  unfold targetFresher Evaluation.evidence at *
  cases ha : a.evidenceAt with
  | none =>
    cases hb : b.evidenceAt with
    | none => exact absurd (ha.trans hb.symm) h
    | some u => exact iff_of_false nofun (WithBot.not_lt_bot _)
  | some t =>
    cases b.evidenceAt with
    | none => exact iff_of_true rfl (WithBot.bot_lt_coe t)
    | some u => exact decide_eq_true_iff.trans WithBot.coe_lt_coe.symm

/-- The fresher of the evaluation so far and a further one. -/
def fresher (e : Option (Evaluation E)) (add : TargetRecord E) : Option (Evaluation E) :=
  match e with
  | none => some add.evaluation
  | some e => some (if targetFresher add.evaluation e then add.evaluation else e)

theorem fresher_swap {x y : TargetRecord E} (h : x.evaluation.evidence ≠ y.evaluation.evidence)
    (z : Option (Evaluation E)) : fresher (fresher z x) y = fresher (fresher z y) x := by
  wlog hlt : x.evaluation.evidence < y.evaluation.evidence generalizing x y
  · exact (this h.symm (h.lt_or_gt.resolve_left hlt)).symm
  have hyx : targetFresher y.evaluation x.evaluation = true := (targetFresher_of_ne h.symm).mpr hlt
  have hxy : targetFresher x.evaluation y.evaluation = false := by
    rw [Bool.eq_false_iff, ne_eq, targetFresher_of_ne h]
    exact hlt.asymm
  cases z with
  | none => simp [fresher, hxy, hyx]
  | some e =>
    cases hx : targetFresher x.evaluation e with
    | true =>
      have hle : e.evidence ≤ x.evaluation.evidence := by
        by_cases heq : x.evaluation.evidence = e.evidence
        · exact heq.ge
        · exact ((targetFresher_of_ne heq).mp hx).le
      have hey := hle.trans_lt hlt
      simp [fresher, hx, hxy, hyx, (targetFresher_of_ne hey.ne').mpr hey]
    | false =>
      cases hy : targetFresher y.evaluation e with
      | true => simp [fresher, hx, hy, hxy]
      | false => simp [fresher, hx, hy]

theorem mergeEnvironment_swap (x y : Option String) (st : Option String × String × Bool) :
    mergeEnvironment (mergeEnvironment st x) y = mergeEnvironment (mergeEnvironment st y) x := by
  obtain ⟨cur, env, conflict⟩ := st
  cases conflict with
  | true => rfl
  | false =>
    cases x with
    | none => simp
    | some v =>
      cases y with
      | none => simp
      | some w =>
        cases cur with
        | none =>
          by_cases hvw : v = w
          · rw [hvw]
          · simp [mergeEnvironment, hvw, Ne.symm hvw]
        | some c =>
          by_cases hv : c = v
          · by_cases hw : c = w
            · rw [← hv, ← hw]
            · simp [mergeEnvironment, hv, hv ▸ hw]
          · by_cases hw : c = w
            · simp [mergeEnvironment, hw, hw ▸ hv]
            · simp [mergeEnvironment, hv, hw]

/-! ### Lists -/

theorem mem_appendUnique {s : List String} {v w : String} :
    v ∈ appendUnique s w ↔ v ∈ s ∨ (v = w ∧ w ≠ "") := by
  unfold appendUnique
  split
  · next h =>
    constructor
    · exact .inl
    · rintro (hv | ⟨rfl, hw⟩)
      · exact hv
      · exact h.resolve_left hw
  · next h =>
    obtain ⟨hw, -⟩ := not_or.mp h
    simp [hw]

theorem mem_foldl_appendUnique {s l : List String} {v : String} :
    v ∈ l.foldl appendUnique s ↔ v ∈ s ∨ (v ∈ l ∧ v ≠ "") := by
  induction l generalizing s with
  | nil => simp
  | cons w l ih =>
    rw [List.foldl_cons, ih, mem_appendUnique, List.mem_cons]
    constructor
    · rintro ((h | ⟨rfl, hw⟩) | ⟨h, hv⟩)
      · exact .inl h
      · exact .inr ⟨.inl rfl, hw⟩
      · exact .inr ⟨.inr h, hv⟩
    · rintro (h | ⟨rfl | h, hv⟩)
      · exact .inl (.inl h)
      · exact .inl (.inr ⟨rfl, hv⟩)
      · exact .inr ⟨h, hv⟩

theorem foldl_appendUnique_of_nodup {s l : List String} (hnodup : (s ++ l).Nodup)
    (hnamed : "" ∉ l) : l.foldl appendUnique s = s ++ l := by
  induction l generalizing s with
  | nil => simp
  | cons w l ih =>
    have hw : ¬(w = "" ∨ w ∈ s) := by
      rintro (rfl | h)
      · exact hnamed List.mem_cons_self
      · exact (List.nodup_append.mp hnodup).2.2 w h w List.mem_cons_self rfl
    have happend : s ++ w :: l = s ++ [w] ++ l := by simp
    rw [List.foldl_cons, appendUnique, if_neg hw, happend]
    exact ih (happend ▸ hnodup) fun h => hnamed (List.mem_cons_of_mem _ h)

/-! ## Contributions that agree -/

/-- No two contributions disagree, but for the environment and what each of them
evaluates, and none of several sources is without a name. -/
structure Agree (cs : List (Contribution E)) : Prop where
  named : ∀ c ∈ cs, ∀ d ∈ cs, c.source ≠ d.source → c.source ≠ ""
  requestedRef : ∀ c ∈ cs, ∀ d ∈ cs, c.raw.requestedRef = d.raw.requestedRef
  service : ∀ c ∈ cs, ∀ d ∈ cs, Compatible "" c.raw.service d.raw.service
  domain : ∀ c ∈ cs, ∀ d ∈ cs, Compatible "" c.raw.domain d.raw.domain
  resolvedRef : ∀ c ∈ cs, ∀ d ∈ cs, Compatible "" c.raw.resolvedRef d.raw.resolvedRef
  digest : ∀ c ∈ cs, ∀ d ∈ cs, Compatible "" c.raw.digest d.raw.digest
  owner : ∀ c ∈ cs, ∀ d ∈ cs, Compatible {} c.raw.owner d.raw.owner
  labels : ∀ c ∈ cs, ∀ d ∈ cs, ∀ k ≠ targetEnvironmentLabel, ∀ v w,
    c.raw.labels.lookup k = some v → d.raw.labels.lookup k = some w → v = w

/-- Two records of one target that differ at most in the order of their lists. -/
structure SameTarget (t u : TargetRecord E) : Prop where
  key : t.key = u.key
  service : t.service = u.service
  domain : t.domain = u.domain
  contractRevision : t.contractRevision = u.contractRevision
  digest : t.digest = u.digest
  requestedRef : t.requestedRef = u.requestedRef
  resolvedRef : t.resolvedRef = u.resolvedRef
  labels : ∀ k, t.labels.lookup k = u.labels.lookup k
  environment : t.environment = u.environment
  environmentConflict : t.environmentConflict = u.environmentConflict
  quarantined : t.quarantined = u.quarantined
  owner : t.owner = u.owner
  evaluation : t.evaluation = u.evaluation
  domainKnown : t.domainKnown = u.domainKnown
  reportedDomains : ∀ v, v ∈ t.reportedDomains ↔ v ∈ u.reportedDomains
  reportedOfferings : ∀ v, v ∈ t.reportedOfferings ↔ v ∈ u.reportedOfferings
  reportedSummaries : ∀ v, v ∈ t.reportedSummaries ↔ v ∈ u.reportedSummaries
  sources : t.sources.Perm u.sources
  limitations : t.limitations.Perm u.limitations

section Agreeing

variable {cs cs' : List (Contribution E)} {t u : TargetRecord E}

theorem Agree.identity (h : Agree cs) {get : TargetRecord E → String} (hget : get ∈ identityFields)
    {c d : Contribution E} (hc : c ∈ cs) (hd : d ∈ cs) :
    Compatible "" (get (c.record now window)) (get (d.record now window)) := by
  simp only [identityFields, List.mem_cons, List.not_mem_nil, or_false] at hget
  rcases hget with rfl | rfl | rfl | rfl | rfl
  · exact h.service c hc d hd
  · exact h.domain c hc d hd
  · exact .inl rfl
  · exact h.digest c hc d hd
  · exact h.resolvedRef c hc d hd

/-- What merging keeps of the first contribution. -/
theorem mergeAll_first {S : Type} (π : TargetRecord E → S)
    (hstep : ∀ t add, π (mergeTarget t add).1 = π t) (ht : mergeAll now window cs = some t) :
    ∃ c ∈ cs, π t = π (c.record now window) := by
  obtain ⟨c, l, rfl, rfl⟩ := mergeAll_eq_some ht
  refine ⟨c, List.mem_cons_self, ?_⟩
  rw [mergeTargets_project π (fun s _ => s) hstep]
  induction l with
  | nil => rfl
  | cons d l ih => simp

/-- Contributions that agree are never quarantined: each identity field of the
record so far is that of one of them. -/
theorem mergeAll_not_quarantined (h : Agree cs) (hsub : ∀ c ∈ cs', c ∈ cs)
    (ht : mergeAll now window cs' = some t) : t.quarantined = false := by
  suffices hgo : ∀ (l : List (Contribution E)) (t : TargetRecord E), (∀ c ∈ l, c ∈ cs) →
      t.quarantined = false →
      (∀ get ∈ identityFields, ∃ c ∈ cs, get t = get (c.record now window)) →
      (mergeTargets t (l.map (Contribution.record now window))).quarantined = false by
    obtain ⟨c, l, rfl, rfl⟩ := mergeAll_eq_some ht
    exact hgo l _ (fun d hd => hsub d (List.mem_cons_of_mem _ hd)) rfl
      fun get _ => ⟨c, hsub c List.mem_cons_self, rfl⟩
  intro l
  induction l with
  | nil => exact fun t _ hq _ => hq
  | cons d l ih =>
    intro t hl hq hfields
    have hd : d ∈ cs := hl d List.mem_cons_self
    refine ih _ (fun c hc => hl c (List.mem_cons_of_mem _ hc)) ?_ ?_
    · rw [mergeTarget_quarantined, hq, Bool.false_or, List.any_eq_false]
      intro get hget
      obtain ⟨c, hc, heq⟩ := hfields get hget
      simp [heq, clash_eq_false (h.identity hget hc hd)]
    · intro get hget
      obtain ⟨c, hc, heq⟩ := hfields get hget
      rw [mergeTarget_identity hget]
      unfold orElse
      split
      · exact ⟨d, hd, rfl⟩
      · exact ⟨c, hc, heq⟩

theorem mergeAll_sources (hnodup : (cs.map (·.source)).Nodup)
    (hnamed : ∀ c ∈ cs, ∀ d ∈ cs, c.source ≠ d.source → c.source ≠ "")
    (ht : mergeAll now window cs = some t) : t.sources = cs.map (·.source) := by
  obtain ⟨c, l, rfl, rfl⟩ := mergeAll_eq_some ht
  rw [mergeTargets_project (·.sources) (fun s add => appendUnique s add.evaluation.source)
    fun _ _ => mergeTarget_spec.sources]
  have hnamed' : "" ∉ l.map (·.source) := fun hmem => by
    obtain ⟨d, hd, hempty⟩ := List.mem_map.mp hmem
    refine hnamed d (List.mem_cons_of_mem _ hd) c List.mem_cons_self (fun heq => ?_) hempty
    exact (List.nodup_cons.mp hnodup).1 (List.mem_map.mpr ⟨d, hd, heq⟩)
  have hfold := foldl_appendUnique_of_nodup (s := [c.source]) hnodup hnamed'
  rw [List.foldl_map] at hfold
  rw [List.foldl_map]
  exact hfold

theorem mergeAll_limitations (ht : mergeAll now window cs = some t) :
    t.limitations = cs.flatMap fun c => (c.record now window).limitations := by
  obtain ⟨c, l, rfl, rfl⟩ := mergeAll_eq_some ht
  rw [mergeTargets_project (·.limitations) (fun s add => s ++ add.limitations)
    fun _ _ => mergeTarget_spec.limitations]
  rw [List.foldl_map, List.foldl_append_eq_append]
  rfl

/-- A list of distinct reported values holds what the contributions report. -/
theorem mem_mergeAll_reported {π : TargetRecord E → List String}
    (hstep : ∀ t add, π (mergeTarget t add).1 = (π add).foldl appendUnique (π t))
    (hvalue : ∀ c : Contribution E, "" ∉ π (c.record now window))
    (ht : mergeAll now window cs = some t) (v : String) :
    v ∈ π t ↔ ∃ c ∈ cs, v ∈ π (c.record now window) := by
  have hfold : ∀ (l : List (TargetRecord E)) (s : List String),
      v ∈ l.foldl (fun s add => (π add).foldl appendUnique s) s ↔
        v ∈ s ∨ ∃ add ∈ l, v ∈ π add ∧ v ≠ "" := by
    intro l
    induction l with
    | nil => simp
    | cons add l ih =>
      intro s
      rw [List.foldl_cons, ih, mem_foldl_appendUnique, or_assoc]
      simp
  obtain ⟨c, l, rfl, rfl⟩ := mergeAll_eq_some ht
  rw [mergeTargets_project π (fun s add => (π add).foldl appendUnique s) hstep, hfold]
  simp only [List.mem_map, List.mem_cons, exists_exists_and_eq_and, exists_eq_or_imp]
  refine or_congr_right (exists_congr fun d => and_congr_right fun _ => and_iff_left_of_imp ?_)
  rintro hv rfl
  exact hvalue d hv

theorem not_mem_reportedValue {v : String} {valid : String → Bool} : "" ∉ reportedValue v valid := by
  unfold reportedValue
  split
  · simp
  · next h => simpa using fun he => h (by simp [← he])

theorem not_mem_reportedDomains (c : Contribution E) : "" ∉ (c.record now window).reportedDomains := by
  change "" ∉ (reportedDomainsFrom c.raw).1
  unfold reportedDomainsFrom
  split
  · simp
  · next h =>
    split
    · simpa using Ne.symm h
    · simp

/-- Contributions that agree make the same target in every order. -/
theorem sameTarget_of_agree {cs cs' : List (Contribution E)} (hperm : cs.Perm cs')
    (hkey : ∀ c ∈ cs, ∀ d ∈ cs, newTargetKey c.raw.scope c.raw.kind c.raw.name =
      newTargetKey d.raw.scope d.raw.kind d.raw.name)
    (hsources : (cs.map (·.source)).Nodup) (hevidence : (cs.map (·.raw.evidenceAt)).Nodup)
    (h : Agree cs) {t u : TargetRecord E} (ht : mergeAll now window cs = some t)
    (hu : mergeAll now window cs' = some u) : SameTarget t u := by
  have hmem : ∀ {c}, c ∈ cs' → c ∈ cs := fun hc => hperm.mem_iff.mpr hc
  have hidentity : ∀ get ∈ identityFields, get t = get u := fun get hget =>
    mergeAll_project get "" (fun s add => orElse s (get add)) (mergeTarget_identity hget) hperm
      (fun _ _ => rfl) (fun c hc d hd => orElse_swap (h.identity hget hc hd)) ht hu
  have henvironment : t.environmentState = u.environmentState :=
    mergeAll_project TargetRecord.environmentState (none, "", false)
      (fun s add => mergeEnvironment s (add.labels.lookup targetEnvironmentLabel))
      (fun _ _ => mergeTarget_spec.environmentState) hperm
      (fun c _ => by
        simp only [TargetRecord.environmentState, Contribution.record, targetFrom]
        cases c.raw.labels.lookup targetEnvironmentLabel <;> rfl)
      (fun _ _ _ _ => mergeEnvironment_swap _ _) ht hu
  have hlabels : ∀ k ≠ targetEnvironmentLabel, t.labels.lookup k = u.labels.lookup k :=
    fun k hk => mergeAll_project (fun t => t.labels.lookup k) none
      (fun s add => s.or (add.labels.lookup k)) (fun _ _ => mergeTarget_spec.labels k hk) hperm
      (fun _ _ => rfl) (fun c hc d hd => or_swap (h.labels c hc d hd k hk)) ht hu
  have howner : t.owner = u.owner :=
    mergeAll_project (·.owner) {} (fun s add => if s = {} then add.owner else s)
      (fun _ _ => mergeTarget_spec.owner) hperm (fun _ _ => rfl)
      (fun c hc d hd => fill_swap (h.owner c hc d hd)) ht hu
  have hevaluation : some t.evaluation = some u.evaluation :=
    mergeAll_project (fun t => some t.evaluation) none fresher
      (fun _ _ => congrArg some mergeTarget_spec.evaluation) hperm (fun _ _ => rfl)
      (fun c hc d hd s => by
        by_cases hcd : c = d
        · rw [hcd]
        · refine fresher_swap (fun he => hcd ?_) s
          exact List.inj_on_of_nodup_map hevidence hc hd he) ht hu
  have hreported : ∀ {π : TargetRecord E → List String},
      (∀ t add, π (mergeTarget t add).1 = (π add).foldl appendUnique (π t)) →
      (∀ c : Contribution E, "" ∉ π (c.record now window)) → ∀ v, v ∈ π t ↔ v ∈ π u := by
    intro π hstep hvalue v
    rw [mem_mergeAll_reported hstep hvalue ht, mem_mergeAll_reported hstep hvalue hu]
    simp only [hperm.mem_iff]
  obtain ⟨c, hc, htkey⟩ := mergeAll_first (·.key) (fun _ _ => mergeTarget_spec.key) ht
  obtain ⟨d, hd, hukey⟩ := mergeAll_first (·.key) (fun _ _ => mergeTarget_spec.key) hu
  obtain ⟨c', hc', htref⟩ :=
    mergeAll_first (·.requestedRef) (fun _ _ => mergeTarget_spec.requestedRef) ht
  obtain ⟨d', hd', huref⟩ :=
    mergeAll_first (·.requestedRef) (fun _ _ => mergeTarget_spec.requestedRef) hu
  exact {
    key := htkey.trans ((hkey c hc d (hmem hd)).trans hukey.symm)
    service := hidentity (·.service) (by simp [identityFields])
    domain := hidentity (·.domain) (by simp [identityFields])
    contractRevision := hidentity (·.contractRevision) (by simp [identityFields])
    digest := hidentity (·.digest) (by simp [identityFields])
    requestedRef := htref.trans ((h.requestedRef c' hc' d' (hmem hd')).trans huref.symm)
    resolvedRef := hidentity (·.resolvedRef) (by simp [identityFields])
    labels := fun k => by
      by_cases hk : k = targetEnvironmentLabel
      · subst hk
        exact congrArg Prod.fst henvironment
      · exact hlabels k hk
    environment := congrArg (·.2.1) henvironment
    environmentConflict := congrArg (·.2.2) henvironment
    quarantined := (mergeAll_not_quarantined h (fun _ => id) ht).trans
      (mergeAll_not_quarantined h (fun _ => hmem) hu).symm
    owner := howner
    evaluation := Option.some.inj hevaluation
    domainKnown := mergeAll_project (·.domainKnown) false (fun s add => s || add.domainKnown)
      (fun _ _ => mergeTarget_spec.domainKnown) hperm (fun _ _ => rfl)
      (fun _ _ _ _ s => Bool.or_right_comm s _ _) ht hu
    reportedDomains := hreported (fun _ _ => mergeTarget_spec.reportedDomains) not_mem_reportedDomains
    reportedOfferings :=
      hreported (fun _ _ => mergeTarget_spec.reportedOfferings) fun _ => not_mem_reportedValue
    reportedSummaries :=
      hreported (fun _ _ => mergeTarget_spec.reportedSummaries) fun _ => not_mem_reportedValue
    sources := by
      rw [mergeAll_sources hsources h.named ht, mergeAll_sources
        ((hperm.map _).nodup_iff.mp hsources)
        (fun c hc d hd => h.named c (hmem hc) d (hmem hd)) hu]
      exact hperm.map _
    limitations := by
      rw [mergeAll_limitations ht, mergeAll_limitations hu]
      exact hperm.flatMap_right _ }

theorem Agree.perm (h : Agree cs) (hperm : cs.Perm cs') : Agree cs' := by
  have hmem : ∀ {c}, c ∈ cs' → c ∈ cs := fun hc => hperm.mem_iff.mpr hc
  exact {
    named := fun c hc d hd => h.named c (hmem hc) d (hmem hd)
    requestedRef := fun c hc d hd => h.requestedRef c (hmem hc) d (hmem hd)
    service := fun c hc d hd => h.service c (hmem hc) d (hmem hd)
    domain := fun c hc d hd => h.domain c (hmem hc) d (hmem hd)
    resolvedRef := fun c hc d hd => h.resolvedRef c (hmem hc) d (hmem hd)
    digest := fun c hc d hd => h.digest c (hmem hc) d (hmem hd)
    owner := fun c hc d hd => h.owner c (hmem hc) d (hmem hd)
    labels := fun c hc d hd => h.labels c (hmem hc) d (hmem hd) }

/-! ## Contributions that disagree -/

/-- Any contribution can come first. -/
theorem exists_mergeAll_first (now window : Int) {c : Contribution E} (hc : c ∈ cs) :
    ∃ l, cs.Perm (c :: l) ∧ mergeAll now window (c :: l) =
      some (mergeTargets (c.record now window) (l.map (Contribution.record now window))) := by
  obtain ⟨s, t, rfl⟩ := List.append_of_mem hc
  exact ⟨s ++ t, List.perm_middle, rfl⟩

/-- A field that a merge keeps once it has a value has that of the contribution
that came first. -/
theorem mergeTargets_kept {S : Type} (π : TargetRecord E → S) {v : S}
    (hstep : ∀ t add, π t = v → π (mergeTarget t add).1 = v) (hfirst : π first = v) :
    π (mergeTargets first rest) = v := by
  unfold mergeTargets
  induction rest generalizing first with
  | nil => exact hfirst
  | cons add rest ih => exact ih (hstep first add hfirst)

/-- The targets of two orders, one with each of two contributions first. -/
theorem exists_sameTarget (hsame : ∀ cs₁ cs₂ t u, cs.Perm cs₁ → cs.Perm cs₂ →
      mergeAll now window cs₁ = some t → mergeAll now window cs₂ = some u → SameTarget t u)
    {c d : Contribution E} (hc : c ∈ cs) (hd : d ∈ cs) :
    ∃ l l' : List (Contribution E), SameTarget
      (mergeTargets (c.record now window) (l.map (Contribution.record now window)))
      (mergeTargets (d.record now window) (l'.map (Contribution.record now window))) := by
  obtain ⟨l, hperm, ht⟩ := exists_mergeAll_first now window hc
  obtain ⟨l', hperm', hu⟩ := exists_mergeAll_first now window hd
  exact ⟨l, l', hsame _ _ _ _ hperm hperm' ht hu⟩

theorem compatible_of_kept {α : Type} {empty x y : α}
    (h : x ≠ empty → y ≠ empty → x = y) : Compatible empty x y := by
  by_cases hx : x = empty
  · exact .inl hx
  · by_cases hy : y = empty
    · exact .inr (.inl hy)
    · exact .inr (.inr (h hx hy))

theorem agree_of_sameTarget (hsame : ∀ cs₁ cs₂ t u, cs.Perm cs₁ → cs.Perm cs₂ →
      mergeAll now window cs₁ = some t → mergeAll now window cs₂ = some u → SameTarget t u) :
    Agree cs := by
  -- an identity field with a value keeps it
  have hidentity : ∀ get ∈ identityFields, ∀ {v : TargetRecord E} {l : List (TargetRecord E)},
      get v ≠ "" → get (mergeTargets v l) = get v := by
    intro get hget v l hv
    refine mergeTargets_kept get (fun t add ht => ?_) rfl
    rw [mergeTarget_identity hget, ht, orElse, if_neg hv]
  have hfield : ∀ get ∈ identityFields, (∀ t u : TargetRecord E, SameTarget t u → get t = get u) →
      ∀ c ∈ cs, ∀ d ∈ cs,
        Compatible "" (get (c.record now window)) (get (d.record now window)) := by
    intro get hget hsameGet c hc d hd
    obtain ⟨l, l', htu⟩ := exists_sameTarget hsame hc hd
    refine compatible_of_kept fun hne hne' => ?_
    have heq := hsameGet _ _ htu
    rwa [hidentity get hget hne, hidentity get hget hne'] at heq
  refine {
    named := ?_
    requestedRef := ?_
    service := hfield (·.service) (by simp [identityFields]) fun _ _ h => h.service
    domain := hfield (·.domain) (by simp [identityFields]) fun _ _ h => h.domain
    resolvedRef := hfield (·.resolvedRef) (by simp [identityFields]) fun _ _ h => h.resolvedRef
    digest := hfield (·.digest) (by simp [identityFields]) fun _ _ h => h.digest
    owner := ?_
    labels := ?_ }
  all_goals intro c hc d hd
  all_goals obtain ⟨l, l', htu⟩ := exists_sameTarget hsame hc hd
  · -- the empty name is kept only where it comes first
    intro hne hempty
    have hkept : ∀ {r : TargetRecord E} {l}, "" ∈ (mergeTargets r l).sources ↔ "" ∈ r.sources := by
      intro r l
      refine iff_of_eq (mergeTargets_kept (fun t => "" ∈ t.sources) (fun t add ht => ?_) rfl)
      rw [← ht, mergeTarget_spec.sources, mem_appendUnique]
      exact propext (or_iff_left fun h => h.2 h.1.symm)
    have hmem := htu.sources.mem_iff (a := "")
    rw [hkept, hkept] at hmem
    have hd' : "" ∈ [d.source] := hmem.mp (List.mem_singleton.mpr hempty.symm)
    exact hne (hempty.trans (List.mem_singleton.mp hd'))
  · have hkept : ∀ {v : TargetRecord E} {l}, (mergeTargets v l).requestedRef = v.requestedRef :=
      mergeTargets_kept (·.requestedRef) (fun t add ht => mergeTarget_spec.requestedRef.trans ht) rfl
    have heq := htu.requestedRef
    rwa [hkept, hkept] at heq
  · have hkept : ∀ {v : TargetRecord E} {l}, v.owner ≠ {} → (mergeTargets v l).owner = v.owner :=
      fun hv => mergeTargets_kept (·.owner)
        (fun t add ht => by rw [mergeTarget_spec.owner, ht, if_neg hv]) rfl
    refine compatible_of_kept fun hne hne' => ?_
    have heq := htu.owner
    rwa [hkept hne, hkept hne'] at heq
  · intro k hk v w hv hw
    have hkept : ∀ {r : TargetRecord E} {l x}, r.labels.lookup k = some x →
        (mergeTargets r l).labels.lookup k = some x := fun hr =>
      mergeTargets_kept (fun t => t.labels.lookup k)
        (fun t add ht => by rw [mergeTarget_spec.labels k hk, ht, Option.some_or]) hr
    have heq := htu.labels k
    rw [hkept hv, hkept hw] at heq
    exact Option.some.inj heq

/-- Contributions to one target from distinct sources with distinct evidence
times make the same target in any two orders exactly if they agree. -/
theorem mergeAll_perm (now window : Int) (cs : List (Contribution E))
    (hkey : ∀ c ∈ cs, ∀ d ∈ cs, newTargetKey c.raw.scope c.raw.kind c.raw.name =
      newTargetKey d.raw.scope d.raw.kind d.raw.name)
    (hsources : (cs.map (·.source)).Nodup) (hevidence : (cs.map (·.raw.evidenceAt)).Nodup) :
    (∀ cs₁ cs₂ t u, cs.Perm cs₁ → cs.Perm cs₂ → mergeAll now window cs₁ = some t →
      mergeAll now window cs₂ = some u → SameTarget t u) ↔ Agree cs := by
  refine ⟨agree_of_sameTarget, fun h cs₁ cs₂ t u hperm hperm' ht hu => ?_⟩
  have hmem : ∀ {c}, c ∈ cs₁ → c ∈ cs := fun hc => hperm.mem_iff.mpr hc
  exact sameTarget_of_agree (hperm.symm.trans hperm')
    (fun c hc d hd => hkey c (hmem hc) d (hmem hd)) ((hperm.map _).nodup_iff.mp hsources)
    ((hperm.map _).nodup_iff.mp hevidence) (h.perm hperm) ht hu

private def inventory : Contribution Unit where
  raw :=
    { scope := "prod", kind := "Deployment", name := "api", service := "orders"
      requestedRef := "oci://reg/orders:1", evidenceAt := some 1, details := ()
      labels := [⟨"tier", "gold"⟩].toAList }
  source := "inventory"

private def operator : Contribution Unit where
  raw :=
    { scope := "prod", kind := "Deployment", name := "api", service := "orders-v2"
      requestedRef := "oci://reg/orders:2", evidenceAt := some 2, details := ()
      labels := [⟨"tier", "silver"⟩].toAList }
  source := "operator"

private def agreeing : Contribution Unit :=
  { operator with raw := { inventory.raw with evidenceAt := some 2 } }

theorem mergeAll_perm_two :
    ∃ t u, mergeAll 0 0 [inventory, agreeing] = some t ∧
      mergeAll 0 0 [agreeing, inventory] = some u ∧ SameTarget t u := by
  have hsame : ∀ c ∈ [inventory, agreeing],
      c.raw = { inventory.raw with evidenceAt := c.raw.evidenceAt } := by
    intro c hc
    simp only [List.mem_cons, List.not_mem_nil, or_false] at hc
    rcases hc with rfl | rfl <;> rfl
  have hagree : Agree [inventory, agreeing] := by
    refine ⟨by decide, ?_, ?_, ?_, ?_, ?_, ?_, ?_⟩ <;> intro c hc d hd <;>
      rw [hsame c hc, hsame d hd]
    · exact .inr (.inr rfl)
    · exact .inr (.inr rfl)
    · exact .inr (.inr rfl)
    · exact .inr (.inr rfl)
    · exact .inr (.inr rfl)
    · intro k _ v w hv hw
      exact Option.some.inj (hv.symm.trans hw)
  have hkey : ∀ c ∈ [inventory, agreeing], ∀ d ∈ [inventory, agreeing],
      newTargetKey c.raw.scope c.raw.kind c.raw.name =
        newTargetKey d.raw.scope d.raw.kind d.raw.name := by
    intro c hc d hd
    rw [hsame c hc, hsame d hd]
  have horders := (mergeAll_perm 0 0 _ hkey (by decide) (by decide)).mpr hagree
  exact ⟨_, _, rfl, rfl, horders _ _ _ _ (.refl _) (.swap ..) rfl rfl⟩

/-- Two sources that disagree on the service, the requested ref and a label: the
one merged first is kept in each of them. -/
theorem mergeAll_first_wins :
    ([inventory, operator].map (·.source)).Nodup ∧
    ([inventory, operator].map (·.raw.evidenceAt)).Nodup ∧
    ∃ t u, mergeAll 0 0 [inventory, operator] = some t ∧
      mergeAll 0 0 [operator, inventory] = some u ∧
      t.service = "orders" ∧ u.service = "orders-v2" ∧
      t.requestedRef = "oci://reg/orders:1" ∧ u.requestedRef = "oci://reg/orders:2" ∧
      t.labels.lookup "tier" = some "gold" ∧ u.labels.lookup "tier" = some "silver" := by
  refine ⟨by decide, by decide, _, _, rfl, rfl, ?_⟩
  decide +kernel

end Agreeing

end Pacto.Fleet
