import Pacto.Delivery.Plan
import Pacto.Support.Cut

/-!
# The versions a Stage may take

Three functions say which versions a Stage may be promoted to: the list people are
shown (`pkg/delivery/candidates.go`), the version automation ships
(`pkg/delivery/lifecycle.go`) and the gate that judges a promote
(`pkg/delivery/plan.go`).  They describe one set, whether the candidates come from an
upstream Stage or from an OCIRepository.
-/

namespace Pacto.Delivery

open Support

/-- The candidates come from an upstream Stage, here or in another cluster. -/
def Candidates.fromUpstream (c : Candidates) : Bool :=
  c.upstreamStage ≠ none || c.upstreamRecords ≠ none

/-- `CandidateDigests`: the digests the published gate admits, newest first.  An upstream
Stage that cannot be read has no status. -/
def candidateDigests (stage : StageSpec) (status : StageStatus) (upstream : Option StageStatus) :
    List String :=
  let offered :=
    if stage.candidates.fromUpstream then
      match upstream with
      | some u => u.offered.filter u.verified.contains
      | none => []
    else if stage.candidates.ociRepositoryRef ≠ none then status.published
    else []
  (offered.filter fun d => !status.failedDigests.contains d).reverse

/-- `RevisionDigest`: the digest of an artifact revision, empty without one. -/
def revisionDigest (revision : String) : String :=
  let digest :=
    match splitLast '@' revision.toList with
    | some (_, digest) => String.ofList digest
    | none => revision
  if isDigest digest then digest else ""

/-- The candidate, unless the Stage runs it or it failed there. -/
def unlessKnown (status : StageStatus) (cand : String) : String :=
  if cand = status.pointer || status.failedDigests.contains cand then "" else cand

/-- `NewestCandidate`: the version auto-promotion would ship, empty when there is nothing
new. -/
def newestCandidate (status : StageStatus) (ociRevision : String)
    (upstream : Option StageStatus) : String :=
  match upstream with
  | some u =>
    unlessKnown status ((u.verified.reverse.find? fun d =>
      u.offered.contains d && !u.failedDigests.contains d &&
        !status.failedDigests.contains d).getD "")
  | none =>
    let cand := revisionDigest ociRevision
    if status.verified.contains cand || !status.published.contains cand then ""
    else unlessKnown status cand

/-- The newest candidate of the Stage's source: of its upstream, or of the revision its
OCIRepository is on. -/
def newestOfSource (stage : StageSpec) (status : StageStatus) (ociRevision : String)
    (upstream : Option StageStatus) : String :=
  if stage.candidates.fromUpstream then newestCandidate status "" upstream
  else if stage.candidates.ociRepositoryRef ≠ none then newestCandidate status ociRevision none
  else ""

variable {stage : StageSpec} {status : StageStatus} {upstream : Option StageStatus}
  {input : PlanInput} {d : String}

/-! ## What is listed -/

theorem mem_candidateDigests :
    d ∈ candidateDigests stage status upstream ↔ d ∉ status.failedDigests ∧
      if stage.candidates.fromUpstream then ∃ u ∈ upstream, d ∈ u.offered ∧ d ∈ u.verified
      else stage.candidates.ociRepositoryRef ≠ none ∧ d ∈ status.published := by
  unfold candidateDigests
  rw [List.mem_reverse, List.mem_filter]
  cases hup : stage.candidates.fromUpstream with
  | true => cases upstream <;> simp [and_comm]
  | false => cases stage.candidates.ociRepositoryRef <;> simp [and_comm]

theorem upstreamOffers_ne_fail :
    (upstreamOffers input).result ≠ .fail ↔
      ∃ u ∈ input.upstream, input.spec.params.to ∈ u.offered ∧ input.spec.params.to ∈ u.verified := by
  unfold upstreamOffers publishedVerdict
  cases input.upstream with
  | none => simp
  | some u =>
    dsimp only
    split_ifs with hoffered hfailed
    · simpa [and_comm] using hoffered
    · simpa [and_comm] using hoffered
    · simpa [and_comm] using hoffered

/-- With its contract read, the gate asks of a version only that it was published. -/
theorem candidatePublished_ne_fail (hcontract : input.to.noContract = false) (ref : String) :
    (candidatePublished input ref).result ≠ .fail ↔
      input.spec.params.to ∈ input.status.published := by
  unfold candidatePublished publishedVerdict
  by_cases hpublished : input.spec.params.to ∈ input.status.published
  · by_cases href : input.to.contractRef = ""
    · simp [hpublished, hcontract, href]
    · simp [hpublished, hcontract, href]
  · simp [hpublished]

theorem publishedGate_ne_fail (hcontract : input.to.noContract = false) :
    (publishedGate input).result ≠ .fail ↔
      if input.stage.candidates.fromUpstream then
        ∃ u ∈ input.upstream, input.spec.params.to ∈ u.offered ∧ input.spec.params.to ∈ u.verified
      else input.stage.candidates.ociRepositoryRef ≠ none ∧
        input.spec.params.to ∈ input.status.published := by
  unfold publishedGate
  change (if input.stage.candidates.fromUpstream then _ else _ : Verdict).result ≠ .fail ↔ _
  cases hup : input.stage.candidates.fromUpstream with
  | true => simpa using upstreamOffers_ne_fail
  | false =>
    cases href : input.stage.candidates.ociRepositoryRef with
    | none => simp [publishedVerdict]
    | some ref => simpa using candidatePublished_ne_fail hcontract ref

/-! ## What is picked -/

theorem unlessKnown_eq {cand : String} (h : unlessKnown status cand = d) (hd : d ≠ "") :
    cand = d ∧ d ≠ status.pointer ∧ d ∉ status.failedDigests := by
  unfold unlessKnown at h
  split_ifs at h with hknown
  · exact absurd h.symm hd
  · subst h
    simpa using hknown

theorem newestCandidate_upstream {u : StageStatus} {ociRevision : String}
    (h : newestCandidate status ociRevision (some u) = d) (hd : d ≠ "") :
    d ∈ u.offered ∧ d ∈ u.verified ∧ d ≠ status.pointer ∧ d ∉ status.failedDigests := by
  obtain ⟨hfind, hrest⟩ := unlessKnown_eq h hd
  generalize hfound : u.verified.reverse.find? _ = found at hfind
  cases found with
  | none => exact absurd hfind.symm hd
  | some d' =>
    obtain rfl : d' = d := hfind
    have hoffered := List.find?_some hfound
    simp only [Bool.and_eq_true, List.contains_iff_mem] at hoffered
    exact ⟨hoffered.1.1, List.mem_reverse.mp (List.mem_of_find?_eq_some hfound), hrest⟩

theorem newestCandidate_published {ociRevision : String}
    (h : newestCandidate status ociRevision none = d) (hd : d ≠ "") :
    revisionDigest ociRevision = d ∧ d ∈ status.published ∧ d ≠ status.pointer ∧
      d ∉ status.failedDigests := by
  unfold newestCandidate at h
  dsimp only at h
  split_ifs at h with hshipped
  · exact absurd h.symm hd
  · obtain ⟨hcand, hrest⟩ := unlessKnown_eq h hd
    have hfresh : d ∉ status.verified ∧ d ∈ status.published := by
      simpa [hcand] using hshipped
    exact ⟨hcand, hfresh.2, hrest⟩

/-- What is picked is listed, and is not what runs. -/
theorem mem_of_newestOfSource {ociRevision : String}
    (h : newestOfSource stage status ociRevision upstream = d) (hd : d ≠ "") :
    d ∈ candidateDigests stage status upstream ∧ d ≠ status.pointer := by
  rw [mem_candidateDigests]
  unfold newestOfSource at h
  split_ifs at h with hup hoci
  · cases upstream with
    | none =>
      have hempty := (newestCandidate_published h hd).1
      exact absurd hempty.symm (by rw [show revisionDigest "" = "" by decide]; exact hd)
    | some u =>
      obtain ⟨hoffered, hverified, hpointer, hfailed⟩ := newestCandidate_upstream h hd
      exact ⟨⟨hfailed, by simp [hup, hoffered, hverified]⟩, hpointer⟩
  · obtain ⟨-, hpublished, hpointer, hfailed⟩ := newestCandidate_published h hd
    exact ⟨⟨hfailed, by simp [hup, hoci, hpublished]⟩, hpointer⟩
  · exact absurd h.symm hd

/-- The input on a Stage that remembers no failed digest. -/
def PlanInput.forgetFailed (input : PlanInput) : PlanInput :=
  { input with status := { input.status with failedDigests := [] } }

/-- A promote that is refused for nothing else is refused for its digest exactly when the
digest failed. -/
theorem refusal_iff_failed (hpromote : input.spec.type = .promote)
    (helse : refusal input.forgetFailed = "") :
    refusal input = "" ↔ input.spec.params.to ∉ input.status.failedDigests := by
  have hack : admitAcknowledge input.spec input.stage = "" := by simp [admitAcknowledge, hpromote]
  unfold refusal at helse
  dsimp only at helse
  split_ifs at helse with hraise hpointer hlevel hobserves
  iterate 5 simp at helse
  · unfold refusal
    dsimp only
    rw [if_neg (by exact hraise), if_neg (by exact hpointer), if_neg (by exact hlevel),
      if_neg (by exact hobserves), hack]
    by_cases hfailed : input.spec.params.to ∈ input.status.failedDigests
    · simp [hpromote, hfailed]
    · simp [hfailed]

/-- What is listed can be promoted and what is picked is listed: the candidates are the
digests a promote is refused for neither as a failed digest nor, with the contract read,
by the published gate, and the newest candidate of the source is one of them that does
not run. -/
theorem candidateDigests_exact (input : PlanInput) (hpromote : input.spec.type = .promote)
    (hcontract : input.to.noContract = false) (ociRevision : String) :
    (input.spec.params.to ∈ candidateDigests input.stage input.status input.upstream ↔
        input.spec.params.to ∉ input.status.failedDigests ∧
          (publishedGate input).result ≠ .fail) ∧
      (refusal input.forgetFailed = "" →
        (refusal input = "" ↔ input.spec.params.to ∉ input.status.failedDigests)) ∧
      ∀ d, newestOfSource input.stage input.status ociRevision input.upstream = d → d ≠ "" →
        d ∈ candidateDigests input.stage input.status input.upstream ∧ d ≠ input.status.pointer := by
  refine ⟨?_, refusal_iff_failed hpromote, fun d => mem_of_newestOfSource⟩
  rw [mem_candidateDigests, publishedGate_ne_fail hcontract]

/-- A promote of a published version, while an older one runs. -/
def publishedPromote : PlanInput :=
  { spec :=
      { type := .promote, stage := "shop-prod", facet := .pointer
        params := { «from» := "sha256:a", «to» := "sha256:b" }, actor := { user := "ana" } }
    stage := { service := "shop", candidates := { ociRepositoryRef := some "shop" } }
    status := { pointer := "sha256:a", published := ["sha256:a", "sha256:b"], level := .advise }
    «from» := { digest := "sha256:a", contractRef := "shop@sha256:a" }
    «to» := { digest := "sha256:b", contractRef := "shop@sha256:b" }
    cls := .human }

theorem candidateDigests_exact_published :
    (publishedGate publishedPromote).result = .pass ∧
      "sha256:b" ∈ candidateDigests publishedPromote.stage publishedPromote.status none :=
  ⟨by decide +kernel,
    (candidateDigests_exact publishedPromote rfl rfl "").1.mpr ⟨by decide, by decide +kernel⟩⟩

end Pacto.Delivery
