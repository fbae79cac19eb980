import Pacto.Delivery.Plan

/-!
# A proposal is earned

`ProposeLevel` walks the conclusions a Stage keeps, newest first, back to its last level
change.  A proposal without blockers on an advising or automatic Stage means that, apart
from what a step-down explains, the newest promotes it needs all verified and nothing
went wrong.
-/

namespace Pacto.Delivery

open Support

/-- How many verified promotes the next level takes. -/
def StageSpec.promotesNeeded (spec : StageSpec) : Nat :=
  if spec.proposeAfter = 0 then defaultProposeAfter else spec.proposeAfter

/-- A failure, or a rollback or a freeze nobody asked for. -/
def Concluded.incident (c : Concluded) : Bool :=
  c.outcome = .failed || (!c.person && (c.type = .rollback || c.type = .freeze))

def Concluded.verifiedPromote (c : Concluded) : Prop :=
  c.outcome = .succeeded ∧ c.verification = some .verified

/-- What counts: the conclusions that the cause of a step-down does not explain. -/
def counted (cause : String) (cs : List Concluded) : List Concluded :=
  cs.filter fun c => !explainedBy c cause

def promotes (cs : List Concluded) : List Concluded := cs.filter (·.type = .promote)

section Scan

variable {n : Nat} {cause : String} {c : Concluded} {cs : List Concluded} {e : Evidence}

/-- What one turn of the scan does: it skips, blocks, passes over, or counts. -/
theorem promoteEvidenceStep_cases :
    explainedBy c cause = true ∧ promoteEvidenceStep n cause e c = e ∨
    (promoteEvidenceStep n cause e c).blockers ≠ [] ∧
      (promoteEvidenceStep n cause e c).found = e.found ∨
    explainedBy c cause = false ∧ c.incident = false ∧
      (c.type ≠ .promote ∨ e.found.length = n) ∧ promoteEvidenceStep n cause e c = e ∨
    explainedBy c cause = false ∧ c.incident = false ∧ c.type = .promote ∧ e.found.length ≠ n ∧
      c.verifiedPromote ∧ promoteEvidenceStep n cause e c =
        { e with found := e.found ++ [c.uid], cleared := e.cleared || c.clearedBreaking } := by
  unfold promoteEvidenceStep
  split_ifs with hexplained hincident hpassed hunverified
  · exact .inl ⟨hexplained, rfl⟩
  · exact .inr (.inl ⟨by simp [Evidence.block], rfl⟩)
  · refine .inr (.inr (.inl ⟨by simpa using hexplained, Bool.eq_false_iff.mpr hincident, ?_, rfl⟩))
    simpa using hpassed
  · exact .inr (.inl ⟨by simp [Evidence.block], rfl⟩)
  · simp only [Bool.or_eq_true, decide_eq_true_eq, not_or, not_not] at hpassed hunverified
    exact .inr (.inr (.inr ⟨by simpa using hexplained, Bool.eq_false_iff.mpr hincident, hpassed.1,
      hpassed.2, hunverified, rfl⟩))

/-- A scan that ends without a blocker has met no incident, and the newest promotes it
was to count all verified. -/
theorem foldl_promoteEvidenceStep (hroom : e.found.length ≤ n)
    (h : (cs.foldl (promoteEvidenceStep n cause) e).blockers = []) :
    e.blockers = [] ∧ (∀ c ∈ counted cause cs, c.incident = false) ∧
      (∀ c ∈ (promotes (counted cause cs)).take (n - e.found.length), c.verifiedPromote) ∧
      (cs.foldl (promoteEvidenceStep n cause) e).found.length =
        min n (e.found.length + (promotes (counted cause cs)).length) := by
  induction cs generalizing e with
  | nil =>
    refine ⟨h, by simp [counted], by simp [counted, promotes], ?_⟩
    simpa [counted, promotes] using hroom
  | cons c cs ih =>
    rw [List.foldl_cons] at h ⊢
    rcases @promoteEvidenceStep_cases n cause c e with ⟨hexplained, hstep⟩ | ⟨hblocked, hfound⟩ |
      ⟨hexplained, hincident, hpassed, hstep⟩ |
      ⟨hexplained, hincident, htype, hlen, hverified, hstep⟩
    · have hcounted : counted cause (c :: cs) = counted cause cs := by simp [counted, hexplained]
      rw [hstep] at h ⊢
      rw [hcounted]
      exact ih hroom h
    · exact absurd (ih (hfound ▸ hroom) h).1 hblocked
    · have hcounted : counted cause (c :: cs) = c :: counted cause cs := by
        simp [counted, hexplained]
      rw [hstep] at h ⊢
      rw [hcounted]
      obtain ⟨hnone, hall, hverified, hlength⟩ := ih hroom h
      refine ⟨hnone, by simpa [hincident] using hall, ?_, ?_⟩
      · rcases hpassed with htype | hfull
        · simpa [promotes, htype] using hverified
        · simp [hfull]
      · rw [hlength]
        rcases hpassed with htype | hfull
        · simp [promotes, htype]
        · omega
    · have hcounted : counted cause (c :: cs) = c :: counted cause cs := by
        simp [counted, hexplained]
      rw [hstep] at h ⊢
      rw [hcounted]
      obtain ⟨hnone, hall, hrest, hlength⟩ := ih (by simp; omega) h
      have hpromotes : promotes (c :: counted cause cs) = c :: promotes (counted cause cs) := by
        simp [promotes, htype]
      have hroom' : n - e.found.length = (n - (e.found ++ [c.uid]).length) + 1 := by
        simp only [List.length_append, List.length_singleton]
        omega
      refine ⟨hnone, by simpa [hincident] using hall, ?_, ?_⟩
      · rw [hpromotes, hroom', List.take_succ_cons]
        exact List.forall_mem_cons.mpr ⟨hverified, hrest⟩
      · rw [hlength, hpromotes]
        simp only [List.length_append, List.length_cons, List.length_nil]
        omega

end Scan

/-! ## The proposal -/

section Proposal

variable {spec : StageSpec} {st : StageStatus} {latest : Option Plan}

/-- What the window holds of the conclusions since the last level change. -/
theorem since_window {history : List Concluded}
    (hwindow : st.stream.concluded = keepLast maxConcluded history) :
    st.stream.concluded.reverse.takeWhile (!·.changedLevel) =
      (history.reverse.takeWhile (!·.changedLevel)).take maxConcluded := by
  have hnewest : st.stream.concluded.reverse = history.reverse.take maxConcluded := by
    rw [hwindow, keepLast, List.reverse_drop, List.take_eq_take_iff, List.length_reverse]
    omega
  rw [hnewest, List.take_takeWhile]

/-- A check adds no blocker exactly when it passes. -/
theorem ite_block_eq_nil {p : Prop} [Decidable p] {e : Evidence} {kind subject message : String} :
    (if p then e.block kind subject message else e).blockers = [] ↔ ¬ p ∧ e.blockers = [] := by
  split_ifs with hp <;> simp [Evidence.block, hp]

theorem promoteEvidence_unblocked {n : Nat} {history : List Concluded}
    (hwindow : st.stream.concluded = keepLast maxConcluded history)
    (h : (promoteEvidence st n).blockers = []) :
    let since := (history.reverse.takeWhile (!·.changedLevel)).take maxConcluded
    let counting := counted (stepDownCause st) since
    n ≤ (promotes counting).length ∧ (∀ c ∈ (promotes counting).take n, c.verifiedPromote) ∧
      ∀ c ∈ counting, c.incident = false := by
  unfold promoteEvidence at h
  dsimp only at h
  rw [since_window hwindow] at h
  obtain ⟨hfound, hnone⟩ := ite_block_eq_nil.mp h
  obtain ⟨-, hincident, hverified, hlength⟩ :=
    foldl_promoteEvidenceStep (e := {}) (Nat.zero_le _) hnone
  refine ⟨?_, by simpa using hverified, hincident⟩
  rw [hlength] at hfound
  simp only [List.length_nil, Nat.zero_add] at hfound
  omega

/-- What blocks an advising or automatic Stage. -/
def promoteBlockers (spec : StageSpec) (st : StageStatus) (latest : Option Plan) : Evidence :=
  let e := promoteEvidence st spec.promotesNeeded
  let e :=
    if st.frozen then
      e.block blockerIncident spec.service ("the Stage is frozen: " ++ st.frozenReason)
    else e
  let e :=
    if !conditionIs st conditionRecordStoreReady then
      e.block blockerNoRecordStore spec.service
        "the recorder is not writing this Stage's records, and every grant of autonomy must be a signed record"
    else e
  if levelAt ((currentLevel spec st).rank + 1) = .autonomous then graphReady latest spec.service e
  else e

theorem proposeLevel_eq (hlevel : currentLevel spec st ∈ [Level.advise, .autoNonBreaking]) :
    proposeLevel spec st latest =
      if (promoteBlockers spec st latest).blockers.take maxBlockers = [] then
        { level := levelAt ((currentLevel spec st).rank + 1)
          evidence := (promoteBlockers spec st latest).found }
      else { blockers := (promoteBlockers spec st latest).blockers.take maxBlockers } := by
  have hauto : currentLevel spec st ≠ .autonomous := by rintro heq; simp [heq] at hlevel
  have hobserve : currentLevel spec st ≠ .observe := by rintro heq; simp [heq] at hlevel
  unfold proposeLevel
  dsimp only
  rw [if_neg hauto, if_neg hobserve]
  rfl

theorem graphReady_unblocked {service : String} {e : Evidence}
    (h : (graphReady latest service e).blockers = []) : e.blockers = [] ∧ e.cleared = true := by
  unfold graphReady at h
  dsimp only at h
  split at h
  · simp [Evidence.block] at h
  · split_ifs at h <;> simp_all [Evidence.block]

theorem promoteBlockers_unblocked (h : (promoteBlockers spec st latest).blockers = []) :
    (promoteEvidence st spec.promotesNeeded).blockers = [] ∧ st.frozen = false ∧
      conditionIs st conditionRecordStoreReady = true ∧
      (levelAt ((currentLevel spec st).rank + 1) = .autonomous →
        (promoteEvidence st spec.promotesNeeded).cleared = true) := by
  unfold promoteBlockers at h
  dsimp only at h
  by_cases hnext : levelAt ((currentLevel spec st).rank + 1) = .autonomous
  · rw [if_pos hnext] at h
    obtain ⟨h, hcleared⟩ := graphReady_unblocked h
    obtain ⟨hready, h⟩ := ite_block_eq_nil.mp h
    obtain ⟨hfrozen, h⟩ := ite_block_eq_nil.mp h
    rw [if_neg hready, if_neg hfrozen] at hcleared
    exact ⟨h, by simpa using hfrozen, by simpa using hready, fun _ => hcleared⟩
  · rw [if_neg hnext] at h
    obtain ⟨hready, h⟩ := ite_block_eq_nil.mp h
    obtain ⟨hfrozen, h⟩ := ite_block_eq_nil.mp h
    exact ⟨h, by simpa using hfrozen, by simpa using hready, fun heq => absurd heq hnext⟩

/-- Without the newest promote's plan only the graph is missing. -/
theorem kind_of_mem_promoteBlockers_none (h : (promoteBlockers spec st latest).blockers = []) :
    ∀ b ∈ (promoteBlockers spec st none).blockers, b.kind = blockerPartialGraph := by
  obtain ⟨hevidence, hfrozen, hready, hcleared⟩ := promoteBlockers_unblocked h
  intro b hb
  unfold promoteBlockers at hb
  simp only [hfrozen, hready, Bool.not_true, Bool.false_eq_true, if_false] at hb
  split_ifs at hb with hnext
  · simp only [graphReady, Option.bind_none, hcleared hnext, Bool.not_true, Bool.false_eq_true,
      if_false, Evidence.block, hevidence, List.nil_append, List.mem_singleton] at hb
    exact hb ▸ rfl
  · simp [hevidence] at hb

end Proposal

/-- **A proposal to raise the level is earned.**  If a Stage that advises or is automatic
proposes the next level with no blocker, then of the newest `maxConcluded` conclusions
since its last level change, apart from what that change explains, there are as many
promotes as it takes, the newest of them all succeeded and verified, nothing failed and
nobody's rollback or freeze is among them; and the proposal is earned again on the same
status. -/
theorem proposeLevel_earned (input : PlanInput) (latest : Option Plan) (history : List Concluded)
    (hwindow : input.status.stream.concluded = keepLast maxConcluded history)
    (hlevel : currentLevel input.stage input.status ∈ [Level.advise, .autoNonBreaking])
    (hproposed : (proposeLevel input.stage input.status latest).blockers = []) :
    let since := (history.reverse.takeWhile (!·.changedLevel)).take maxConcluded
    let counting := counted (stepDownCause input.status) since
    input.stage.promotesNeeded ≤ (promotes counting).length ∧
      (∀ c ∈ (promotes counting).take input.stage.promotesNeeded, c.verifiedPromote) ∧
      (∀ c ∈ counting, c.incident = false) ∧
      earned input (proposeLevel input.stage input.status latest).level = true := by
  intro since counting
  have hmax : maxBlockers ≠ 0 := by decide
  have hblockers : (promoteBlockers input.stage input.status latest).blockers = [] := by
    rw [proposeLevel_eq hlevel] at hproposed
    split_ifs at hproposed with hnone
    · exact (List.take_eq_nil_iff.mp hnone).resolve_left hmax
    · exact absurd hproposed hnone
  obtain ⟨hevidence, hfrozen, hready, hcleared⟩ := promoteBlockers_unblocked hblockers
  have hscan := promoteEvidence_unblocked hwindow hevidence
  refine ⟨hscan.1, hscan.2.1, hscan.2.2, ?_⟩
  have hproposes : (proposeLevel input.stage input.status latest).level =
      levelAt ((currentLevel input.stage input.status).rank + 1) := by
    rw [proposeLevel_eq hlevel, hblockers, List.take_nil, if_pos rfl]
  have hrank : ¬ ((currentLevel input.stage input.status).rank < 0 ||
      levelOrder.length ≤ (currentLevel input.stage input.status).rank + 1) := by
    rcases List.mem_pair.mp hlevel with heq | heq <;> rw [heq] <;> decide
  rw [hproposes]
  unfold earned
  dsimp only
  rw [if_neg (by simpa using hrank), List.all_eq_true]
  intro b hb
  have hkind := kind_of_mem_promoteBlockers_none hblockers b
  rw [proposeLevel_eq hlevel] at hb
  split_ifs at hb with hnone
  · simp at hb
  · simp [hkind (List.mem_of_mem_take hb)]

def verifiedAs (i : Nat) : Concluded :=
  { uid := toString i, seq := i, outcome := .succeeded, verification := some .verified
    type := .promote }

/-- An advising Stage that takes one verified promote, with these conclusions. -/
def advisingAfter (history : List Concluded) : PlanInput :=
  { spec :=
      { type := .autonomy, stage := "shop-prod", facet := .level, actor := { user := "ana" } }
    stage := { service := "shop", proposeAfter := 1 }
    status :=
      { level := .advise, stream := { concluded := keepLast maxConcluded history }
        conditions := [{ type := conditionRecordStoreReady, status := "True" }] }
    «from» := { digest := "", contractRef := "" }
    «to» := { digest := "", contractRef := "" }
    cls := .human }

theorem proposeLevel_earned_once :
    let input := advisingAfter [verifiedAs 1]
    (proposeLevel input.stage input.status none).level = .autoNonBreaking ∧
      earned input .autoNonBreaking = true := by
  intro input
  have hproposes : (proposeLevel input.stage input.status none).level = .autoNonBreaking := by
    decide +kernel
  have hearned := (proposeLevel_earned input none [verifiedAs 1] rfl (by decide)
    (by decide +kernel)).2.2.2
  rw [hproposes] at hearned
  exact ⟨hproposes, hearned⟩

/-- Twenty promotes later a failed one has left the window, and the level is proposed
although nothing explains the failure. -/
theorem proposeLevel_past_failure :
    let failure : Concluded := { uid := "0", seq := 0, outcome := .failed, type := .promote }
    let history := failure :: (List.range 20).map fun i => verifiedAs (i + 1)
    let input := advisingAfter history
    (proposeLevel input.stage input.status none).blockers = [] ∧
      (proposeLevel input.stage input.status none).level = .autoNonBreaking ∧
      failure ∈ counted (stepDownCause input.status) (history.reverse.takeWhile (!·.changedLevel)) ∧
      failure.incident = true := by
  decide +kernel

end Pacto.Delivery
