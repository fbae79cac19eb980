import Pacto.Diff.Classification
import Pacto.Impact.Guarantees

/-!
# Guarantees that weaken

`pkg/diff/guarantee.go` compares what an interface guarantees before and after by asking
`Unmet` whether each side meets what the other one guarantees.  A guarantee is reported
as weakened or removed exactly when some consumer could lose: when there is a requirement
that the old guarantees meet and the new ones do not.
-/

namespace Pacto.Diff

open Delivery Support Impact

variable (R : Readers)

/-- What `Unmet` finds for one requirement on a provider of the given interfaces. -/
def unmetAmong (consumer provider : String) (interfaces : List Impact.Interface) (r : Requirement) :
    List Mismatch :=
  match interfaces.reverse.find? (·.name = r.interface) with
  | none =>
    [{ consumer := consumer, provider := provider, interface := r.interface
       guarantee := "interface", required := r.interface }]
  | some i =>
    (guaranteeChecks R r.guarantees (i.guarantees.getD {})).filterMap
      fun (name, required, offered, ok) =>
        if required ≠ "" && !ok then
          some { consumer := consumer, provider := provider, interface := r.interface
                 guarantee := name, required := required, offered := offered }
        else none

theorem unmetRequirement_eq (consumer : String) (provider : Contract) (r : Requirement) :
    unmetRequirement R consumer provider r =
      unmetAmong R consumer provider.serviceName (R.declarations provider).interfaces r := rfl

/-- `offeredBy`: what `want` guarantees that `given` does not meet. -/
def offeredBy (name : String) (want given : Option Guarantees) : List Mismatch :=
  match want with
  | none => []
  | some want =>
    unmetAmong R "" "" [{ name := name, guarantees := given }]
      { interface := name, guarantees := want }

def guaranteeChange (path : String) (ct : ChangeType) (name guarantee oldVal newVal : String) :
    SpecChange :=
  let side (v : String) : Json := if v = "" then .null else .str (name ++ ": " ++ guarantee ++ " " ++ v)
  { path := path, reason := path ++ " " ++ ct.text, classification := classify path ct, type := ct
    oldValue := side oldVal, newValue := side newVal }

/-- `diffGuarantees`.  A guarantee that moves both ways is reported once, as weakened. -/
def diffGuarantees (name : String) (old new : Option Guarantees) : List SpecChange :=
  let weaker := offeredBy R name old new
  let stronger := offeredBy R name new old
  (weaker.map fun m =>
      if m.offered = "" then
        guaranteeChange "interfaces.guarantees" .removed name m.guarantee m.required m.offered
      else
        guaranteeChange "interfaces.guarantees.weakened" .modified name m.guarantee m.required
          m.offered) ++
    (stronger.filter fun m => !(weaker.map (·.guarantee)).contains m.guarantee).map fun m =>
      if m.offered = "" then
        guaranteeChange "interfaces.guarantees" .added name m.guarantee m.offered m.required
      else
        guaranteeChange "interfaces.guarantees.strengthened" .modified name m.guarantee m.offered
          m.required

/-- No guarantee is reported as weakened or removed. -/
def Keeps (name : String) (old new : Option Guarantees) : Prop :=
  ∀ c ∈ diffGuarantees R name old new,
    c.path ≠ "interfaces.guarantees.weakened" ∧ c.type ≠ .removed

/-- A provider of the interface with these guarantees meets the requirement, as `Unmet`
judges it. -/
def Meets (name : String) (given : Option Guarantees) (required : Guarantees) : Prop :=
  unmetAmong R "" "" [{ name := name, guarantees := given }]
    { interface := name, guarantees := required } = []

/-- The durations that are given can be read. -/
def Readable (g : Option Guarantees) : Prop :=
  ∀ d ∈ [(g.getD {}).dedupeWindow, (g.getD {}).retention, (g.getD {}).timeout],
    d ≠ "" → (R.parseDuration d).isSome

instance : DecidablePred (Readable R) := fun _ => inferInstanceAs (Decidable (∀ d ∈ _, _))

instance (name : String) (old new : Option Guarantees) : Decidable (Keeps R name old new) :=
  inferInstanceAs (Decidable (∀ c ∈ _, _))

variable {R} {name : String} {old new given : Option Guarantees} {r : Guarantees}

/-! ## One term at a time -/

/-- What is required of one term is nothing, or it is met. -/
theorem meets_iff :
    Meets R name given r ↔
      ∀ c ∈ guaranteeChecks R r (given.getD {}), c.2.1 ≠ "" → c.2.2.2 = true := by
  simp only [Meets, unmetAmong, List.reverse_singleton, List.find?_singleton, decide_true, if_true,
    List.filterMap_eq_nil_iff]
  refine forall₂_congr fun c _ => ?_
  simp

/-- The verdict is the one `Unmet` gives a consumer with this one requirement. -/
theorem unmet_eq_nil_iff {consumer : String} {dep : Dependency} {provider : Contract}
    (hrequires : dep.requires = [{ interface := name, guarantees := r }])
    (hdeclares : (R.declarations provider).interfaces = [{ name := name, guarantees := given }]) :
    unmet R consumer dep provider = [] ↔ Meets R name given r := by
  rw [meets_iff, unmet, hrequires, List.flatMap_singleton, unmetRequirement_eq, hdeclares]
  simp only [unmetAmong, List.reverse_singleton, List.find?_singleton, decide_true, if_true,
    List.filterMap_eq_nil_iff]
  refine forall₂_congr fun c _ => ?_
  simp

theorem meets_iff_terms :
    Meets R name given r ↔
      let o := given.getD {}
      (r.delivery ≠ "" → r.delivery = o.delivery) ∧
        (r.ordering ≠ "" → r.ordering = o.ordering ∨ o.ordering = "global") ∧
        (r.dedupeWindow ≠ "" → atLeast R o.dedupeWindow r.dedupeWindow = true) ∧
        (r.retention ≠ "" → atLeast R o.retention r.retention = true) ∧
        (r.timeout ≠ "" → atLeast R r.timeout o.timeout = true) ∧
        (r.idempotent = true → o.idempotent = true) := by
  rw [meets_iff]
  cases hidem : r.idempotent <;> simp [guaranteeChecks, boolText, hidem]

theorem keeps_iff : Keeps R name old new ↔ Meets R name new (old.getD {}) := by
  have hoffered : Keeps R name old new ↔ offeredBy R name old new = [] := by
    constructor
    · intro h
      rw [List.eq_nil_iff_forall_not_mem]
      intro m hm
      have hc := h _ (List.mem_append_left _ (List.mem_map_of_mem hm))
      split_ifs at hc with hgone
      · exact hc.2 rfl
      · exact hc.1 rfl
    · intro hnil c hc
      simp only [diffGuarantees, hnil, List.map_nil, List.nil_append, List.mem_map] at hc
      obtain ⟨m, -, rfl⟩ := hc
      split_ifs <;> simp [guaranteeChange]
  rw [hoffered]
  cases old with
  | none => simp [offeredBy, meets_iff_terms]
  | some want => rfl

/-! ## The order of the durations -/

theorem atLeast_iff {a b : String} :
    atLeast R a b = true ↔
      ∃ da db, R.parseDuration a = some da ∧ R.parseDuration b = some db ∧ db ≤ da := by
  cases ha : R.parseDuration a <;> cases hb : R.parseDuration b <;> simp [atLeast, ha, hb]

theorem atLeast_self {a : String} (h : (R.parseDuration a).isSome) : atLeast R a a = true := by
  obtain ⟨d, hd⟩ := Option.isSome_iff_exists.mp h
  exact atLeast_iff.mpr ⟨d, d, hd, hd, le_rfl⟩

theorem atLeast_trans {a b c : String} (hab : atLeast R a b = true) (hbc : atLeast R b c = true) :
    atLeast R a c = true := by
  obtain ⟨da, db, ha, hb, hle⟩ := atLeast_iff.mp hab
  obtain ⟨db', dc, hb', hc, hle'⟩ := atLeast_iff.mp hbc
  cases hb.symm.trans hb'
  exact atLeast_iff.mpr ⟨da, dc, ha, hc, hle'.trans hle⟩

theorem ne_empty_of_atLeast (hempty : R.parseDuration "" = none) {a b : String}
    (h : atLeast R a b = true) : a ≠ "" ∧ b ≠ "" := by
  obtain ⟨da, db, ha, hb, -⟩ := atLeast_iff.mp h
  constructor
  · rintro rfl
    exact absurd (hempty.symm.trans ha) nofun
  · rintro rfl
    exact absurd (hempty.symm.trans hb) nofun

/-! ## Meeting a requirement is a preorder -/

theorem meets_self (h : Readable R given) : Meets R name given (given.getD {}) := by
  have hread : ∀ d ∈ _, d ≠ "" → atLeast R d d = true :=
    fun d hd hne => atLeast_self (h d hd hne)
  refine meets_iff_terms.mpr ⟨fun _ => rfl, fun _ => .inl rfl, hread _ ?_, hread _ ?_, hread _ ?_, id⟩
    <;> simp

theorem meets_trans (hempty : R.parseDuration "" = none) {mid : Option Guarantees}
    (hmid : Meets R name given (mid.getD {})) (hr : Meets R name mid r) :
    Meets R name given r := by
  obtain ⟨hdelivery, hordering, hdedupe, hretention, htimeout, hidem⟩ := meets_iff_terms.mp hmid
  obtain ⟨kdelivery, kordering, kdedupe, kretention, ktimeout, kidem⟩ := meets_iff_terms.mp hr
  refine meets_iff_terms.mpr ⟨fun hne => ?_, fun hne => ?_, fun hne => ?_, fun hne => ?_,
    fun hne => ?_, fun hr => hidem (kidem hr)⟩
  · have heq := kdelivery hne
    exact heq.trans (hdelivery (heq ▸ hne))
  · rcases kordering hne with heq | hglobal
    · exact (hordering (heq ▸ hne)).imp_left heq.trans
    · exact .inr ((hordering (by simp [hglobal])).elim (fun heq => heq.symm.trans hglobal) id)
  · have hmid := kdedupe hne
    exact atLeast_trans (hdedupe (ne_empty_of_atLeast hempty hmid).1) hmid
  · have hmid := kretention hne
    exact atLeast_trans (hretention (ne_empty_of_atLeast hempty hmid).1) hmid
  · have hmid := ktimeout hne
    exact atLeast_trans hmid (htimeout (ne_empty_of_atLeast hempty hmid).2)

/-- **What is reported as weakened or removed is what a consumer can lose.**  Between two
sets of guarantees with readable durations nothing is weakened or removed exactly when
every requirement that the old set meets the new one meets too, so keeping one's
guarantees is reflexive and transitive. -/
theorem keeps_iff_meets (R : Readers) (hempty : R.parseDuration "" = none) (name : String) :
    (∀ old new, Readable R old → Readable R new →
      (Keeps R name old new ↔ ∀ r, Meets R name old r → Meets R name new r)) ∧
    (∀ given, Readable R given → Keeps R name given given) ∧
    (∀ old mid new, Readable R old → Readable R mid → Readable R new →
      Keeps R name old mid → Keeps R name mid new → Keeps R name old new) := by
  have hiff : ∀ old new, Readable R old →
      (Keeps R name old new ↔ ∀ r, Meets R name old r → Meets R name new r) := by
    intro old new hread
    rw [keeps_iff]
    exact ⟨fun h r => meets_trans hempty h, fun h => h _ (meets_self hread)⟩
  refine ⟨fun old new hold _ => hiff old new hold, fun given hread => ?_, ?_⟩
  · exact keeps_iff.mpr (meets_self hread)
  · intro old mid new hold hmid _ hfirst hsecond
    rw [hiff old mid hold] at hfirst
    rw [hiff mid new hmid] at hsecond
    exact (hiff old new hold).mpr fun r hr => hsecond r (hfirst r hr)

/-- Readers that know two durations. -/
def minuteReaders : Readers where
  declarations _ := {}
  parseDuration s := if s = "1m" then some 60 else if s = "2m" then some 120 else none

/-- A provider that keeps messages for longer keeps every consumer. -/
theorem keeps_iff_meets_longer :
    let old : Option Guarantees := some { retention := "1m", ordering := "partition" }
    let new : Option Guarantees := some { retention := "2m", ordering := "global" }
    (∀ r, Meets minuteReaders "events" old r → Meets minuteReaders "events" new r) ∧
      ¬ Keeps minuteReaders "events" new old :=
  ⟨((keeps_iff_meets minuteReaders (by decide) "events").1 _ _ (by decide) (by decide)).mp (by decide),
    by decide⟩

end Pacto.Diff
