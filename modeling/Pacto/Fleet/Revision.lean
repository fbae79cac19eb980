import Pacto.Fleet.Target
import Pacto.Support.Consensus

/-!
# Revisions from several sources

Several sources may contribute one immutable revision, and `mergeRevision` folds each
later contribution into the record that is there.  Most projections fill what is empty.
The lock and the documents are backed by bytes the snapshot does not own: contributors
that disagree on them are not settled by arrival order, and the disagreement is kept.
-/

namespace Pacto.Fleet

open Delivery (orElse)
open Support

/-- One document of a bundle.  An empty digest means its body was not fingerprinted. -/
structure DocRef where
  path : String
  title : String := ""
  digest : String := ""
  deriving DecidableEq, Repr

/-- A `pacto.lock`: the version that wrote it, and all else `reflect.DeepEqual` compares,
where an absent list is not an empty one. -/
structure RecordedLock (L : Type) where
  pacto : String
  resolutions : L

structure BundleProvenance where
  source : String
  detail : String
  deriving DecidableEq, Repr

/-- A revision as one source contributes it.  `hasFS` says that its bundle carries files;
projections nothing here looks into are texts. -/
structure Contributed (L : Type) where
  key : String
  source : String
  sources : List String := []
  resolvedRef : String := ""
  readiness : Option String := none
  validation : List String := []
  valid : Bool := false
  validated : Bool := false
  stages : List String := []
  environments : List String := []
  tools : List String := []
  skills : List String := []
  provenance : Option BundleProvenance := none
  docs : List DocRef := []
  hasFS : Bool := false
  bundle : String := ""
  fixedPolicy : Bool := false
  lock : Option (RecordedLock L) := none

/-- A revision of the snapshot: why its documents and its lock are not served, if they
are not. -/
structure ContractRevision (L : Type) extends Contributed L where
  docConflict : String := ""
  lockConflict : String := ""

variable {L : Type}

/-! ## Merging -/

/-- The same paths in the same order with the same fingerprints. -/
def sameDocSet (a b : List DocRef) : Bool :=
  a.map (fun d => (d.path, d.digest)) = b.map fun d => (d.path, d.digest)

def lockConflictReason : String :=
  "two sources contributed this revision with disagreeing pacto.lock resolutions, so the pins it recorded were discarded rather than picked by arrival order"

def docConflictReason : String :=
  "two sources contributed this revision with different document content, so no document body can be attributed to it"

def lockConflictLimitation (source key : String) : Limitation where
  code := "REVISION_LOCK_CONFLICT"
  source := source
  message := "sources disagree on the pacto.lock of revision " ++ key ++
    "; its recorded resolutions are not used to resolve dependencies or references"

def docConflictLimitation (source key : String) : Limitation where
  code := "REVISION_DOCUMENT_CONFLICT"
  source := source
  message := "sources disagree on the documents of revision " ++ key ++
    "; its document bodies are not served"

def mergeRevisionDocs (existing : ContractRevision L) (add : Contributed L) :
    ContractRevision L × List Limitation :=
  if !add.hasFS then (existing, [])
  else if !existing.hasFS then
    ({ existing with
        docs := add.docs, hasFS := add.hasFS, bundle := add.bundle, fixedPolicy := add.fixedPolicy }, [])
  else if existing.docConflict ≠ "" || sameDocSet existing.docs add.docs then (existing, [])
  else
    ({ existing with docConflict := docConflictReason },
      [docConflictLimitation add.source existing.key])

/-- Of two sources that both checked, the one that sorts first is kept. -/
def mergeProvenance (existing add : Option BundleProvenance) : Option BundleProvenance :=
  match existing, add with
  | ours, none => ours
  | none, some theirs => some theirs
  | some ours, some theirs => if theirs.source < ours.source then some theirs else some ours

/-- The projections of a later contribution that fill what is empty. -/
def fillProjections (existing : ContractRevision L) (add : Contributed L) : ContractRevision L :=
  let findings := existing.validation.isEmpty && !add.validation.isEmpty
  let stages := existing.stages.isEmpty && !add.stages.isEmpty
  { existing with
    sources := appendUnique existing.sources add.source
    resolvedRef := orElse existing.resolvedRef add.resolvedRef
    readiness := existing.readiness.or add.readiness
    validation := if findings then add.validation else existing.validation
    valid := if findings then add.valid else existing.valid
    validated := if findings then existing.validated || add.validated else existing.validated
    stages := if stages then add.stages else existing.stages
    environments := if stages then add.environments else existing.environments
    tools := if existing.tools.isEmpty then add.tools else existing.tools
    skills := if existing.skills.isEmpty then add.skills else existing.skills
    provenance := mergeProvenance existing.provenance add.provenance }

section

variable [DecidableEq L]

def sameResolutions (a b : RecordedLock L) : Bool := a.resolutions = b.resolutions

def mergeRevisionLock (existing : ContractRevision L) (add : Contributed L) :
    ContractRevision L × List Limitation :=
  match add.lock with
  | none => (existing, [])
  | some theirs =>
    if existing.lockConflict ≠ "" then (existing, [])
    else match existing.lock with
      | none => ({ existing with lock := some theirs }, [])
      | some ours =>
        if sameResolutions ours theirs then (existing, [])
        else
          ({ existing with lock := none, lockConflict := lockConflictReason },
            [lockConflictLimitation add.source existing.key])

def mergeRevision (existing : ContractRevision L) (add : Contributed L) :
    ContractRevision L × List Limitation :=
  let (withDocs, docLims) := mergeRevisionDocs (fillProjections existing add) add
  let (withLock, lockLims) := mergeRevisionLock withDocs add
  (withLock, docLims ++ lockLims)

/-- The revision after all contributions, and what was reported on the way. -/
def mergeContributions (first : Contributed L) (later : List (Contributed L)) :
    ContractRevision L × List Limitation :=
  later.foldl
    (fun (rev, lims) add => ((mergeRevision rev add).1, lims ++ (mergeRevision rev add).2))
    ({ toContributed := first }, [])

end

/-! ## What is agreed on -/

/-- What a contribution says of the lock. -/
@[simp] def Contributed.saidLock (c : Contributed L) : Option L := c.lock.map (·.resolutions)

/-- What a contribution says of the documents: without files it says nothing. -/
@[simp] def Contributed.saidDocs (c : Contributed L) : Option (List (String × String)) :=
  if c.hasFS then some (c.docs.map fun d => (d.path, d.digest)) else none

@[simp] def ContractRevision.lockConsensus (rev : ContractRevision L) : Consensus L :=
  if rev.lockConflict ≠ "" then .contested
  else rev.saidLock.elim .unsaid .agreed

@[simp] def ContractRevision.docConsensus (rev : ContractRevision L) :
    Consensus (List (String × String)) :=
  if rev.docConflict ≠ "" then .contested
  else rev.saidDocs.elim .unsaid .agreed

/-- What merging keeps: the verdicts on what was heard, and that a conflict withholds the
lock and is reported of the documents. -/
structure Settled (heard : List (Contributed L)) (rev : ContractRevision L)
    (lims : List Limitation) : Prop where
  lock : Consensus.Judges (heard.filterMap (·.saidLock)) rev.lockConsensus
  docs : Consensus.Judges (heard.filterMap (·.saidDocs)) rev.docConsensus
  withheld : rev.lockConflict ≠ "" → rev.lockConflict = lockConflictReason ∧ rev.lock = none
  files : rev.docConflict ≠ "" → rev.hasFS = true
  reported : rev.docConflict ≠ "" ↔ ∃ lim ∈ lims, lim.code = "REVISION_DOCUMENT_CONFLICT"

section Step

variable {heard : List (Contributed L)} {rev rev' : ContractRevision L} {lims : List Limitation}
  (add : Contributed L)

theorem lockConsensus_congr (hlock : rev'.lock = rev.lock)
    (hconflict : rev'.lockConflict = rev.lockConflict) : rev'.lockConsensus = rev.lockConsensus := by
  simp [hlock, hconflict]

theorem docConsensus_congr (hdocs : rev'.docs = rev.docs) (hfiles : rev'.hasFS = rev.hasFS)
    (hconflict : rev'.docConflict = rev.docConflict) : rev'.docConsensus = rev.docConsensus := by
  simp [hdocs, hfiles, hconflict]

theorem mergeRevisionDocs_frame (rev : ContractRevision L) :
    (mergeRevisionDocs rev add).1.lock = rev.lock ∧
      (mergeRevisionDocs rev add).1.lockConflict = rev.lockConflict := by
  unfold mergeRevisionDocs
  split_ifs <;> exact ⟨rfl, rfl⟩

theorem mergeRevisionDocs_reports (hfiles : rev.docConflict ≠ "" → rev.hasFS = true) :
    ((mergeRevisionDocs rev add).1.docConflict ≠ "" → (mergeRevisionDocs rev add).1.hasFS = true) ∧
      ((mergeRevisionDocs rev add).1.docConflict ≠ "" ↔
        rev.docConflict ≠ "" ∨
          ∃ lim ∈ (mergeRevisionDocs rev add).2, lim.code = "REVISION_DOCUMENT_CONFLICT") := by
  unfold mergeRevisionDocs
  split_ifs with htheirs hours hsame
  · exact ⟨hfiles, by simp⟩
  · exact ⟨fun _ => by simpa using htheirs, by simp⟩
  · exact ⟨hfiles, by simp⟩
  · exact ⟨fun _ => by simpa using hours, by simp [docConflictReason, docConflictLimitation]⟩

/-- Merging the documents hears what the contribution says of them. -/
theorem docConsensus_mergeRevisionDocs (hfiles : rev.docConflict ≠ "" → rev.hasFS = true) :
    (mergeRevisionDocs rev add).1.docConsensus = rev.docConsensus.hear add.saidDocs := by
  cases htheirs : add.hasFS with
  | false => simp [mergeRevisionDocs, htheirs]
  | true =>
    by_cases hnone : rev.docConflict = ""
    · cases hours : rev.hasFS with
      | false => simp [mergeRevisionDocs, hnone, hours, htheirs]
      | true =>
        by_cases hsame : rev.docs.map (fun d => (d.path, d.digest)) =
            add.docs.map fun d => (d.path, d.digest)
        · simp [mergeRevisionDocs, hnone, hours, htheirs, sameDocSet, hsame]
        · simp [mergeRevisionDocs, hnone, hours, htheirs, sameDocSet, hsame, docConflictReason]
    · simp [mergeRevisionDocs, hnone, hfiles hnone, htheirs]

/-- A first contribution is the only one heard. -/
theorem settled_first (first : Contributed L) : Settled [first] { toContributed := first } [] := by
  refine ⟨?_, ?_, by simp, by simp, by simp⟩
  · cases hlock : first.lock <;> simp [hlock]
  · cases hfiles : first.hasFS <;> simp [hfiles]

theorem docConflict_iff : rev.docConflict ≠ "" ↔ rev.docConsensus = .contested := by
  unfold ContractRevision.docConsensus
  by_cases hnone : rev.docConflict = ""
  · cases rev.saidDocs <;> simp [hnone]
  · simp [hnone]

theorem lockConflict_iff : rev.lockConflict ≠ "" ↔ rev.lockConsensus = .contested := by
  unfold ContractRevision.lockConsensus
  by_cases hnone : rev.lockConflict = ""
  · cases rev.saidLock <;> simp [hnone]
  · simp [hnone]

/-- A lock is carried exactly when one is agreed on. -/
theorem Settled.lock_isSome_iff (h : Settled heard rev lims) :
    rev.lock.isSome ↔ ∃ k, rev.lockConsensus = .agreed k := by
  unfold ContractRevision.lockConsensus
  by_cases hnone : rev.lockConflict = ""
  · cases hlock : rev.lock <;> simp [hnone, hlock]
  · simp [hnone, (h.withheld hnone).2]

variable [DecidableEq L]

theorem mergeRevisionLock_frame (rev : ContractRevision L) :
    (mergeRevisionLock rev add).1.docs = rev.docs ∧
      (mergeRevisionLock rev add).1.hasFS = rev.hasFS ∧
      (mergeRevisionLock rev add).1.docConflict = rev.docConflict ∧
      ∀ lim ∈ (mergeRevisionLock rev add).2, lim.code = "REVISION_LOCK_CONFLICT" := by
  unfold mergeRevisionLock
  split
  · exact ⟨rfl, rfl, rfl, nofun⟩
  · split_ifs
    · exact ⟨rfl, rfl, rfl, nofun⟩
    · split
      · exact ⟨rfl, rfl, rfl, nofun⟩
      · split_ifs
        · exact ⟨rfl, rfl, rfl, nofun⟩
        · exact ⟨rfl, rfl, rfl, by simp [lockConflictLimitation]⟩

/-- Merging the lock hears what the contribution says of it. -/
theorem lockConsensus_mergeRevisionLock :
    (mergeRevisionLock rev add).1.lockConsensus = rev.lockConsensus.hear add.saidLock := by
  cases htheirs : add.lock with
  | none => simp [mergeRevisionLock, htheirs]
  | some theirs =>
    by_cases hnone : rev.lockConflict = ""
    · cases hours : rev.lock with
      | none => simp [mergeRevisionLock, hnone, hours, htheirs]
      | some ours =>
        by_cases hsame : ours.resolutions = theirs.resolutions
        · simp [mergeRevisionLock, hnone, hours, htheirs, sameResolutions, hsame]
        · simp [mergeRevisionLock, hnone, hours, htheirs, sameResolutions, hsame, lockConflictReason]
    · simp [mergeRevisionLock, hnone, htheirs]

theorem mergeRevisionLock_withholds
    (h : rev.lockConflict ≠ "" → rev.lockConflict = lockConflictReason ∧ rev.lock = none) :
    (mergeRevisionLock rev add).1.lockConflict ≠ "" →
      (mergeRevisionLock rev add).1.lockConflict = lockConflictReason ∧
        (mergeRevisionLock rev add).1.lock = none := by
  unfold mergeRevisionLock
  split
  · exact h
  · split_ifs with hnone
    · exact h
    · split
      · exact fun hne => absurd hne hnone
      · split_ifs
        · exact h
        · exact fun _ => ⟨rfl, rfl⟩

theorem Settled.step (h : Settled heard rev lims) :
    Settled (heard ++ [add]) (mergeRevision rev add).1 (lims ++ (mergeRevision rev add).2) := by
  -- the projections that are filled are not the ones the verdicts are on
  have hfiles : (fillProjections rev add).docConflict ≠ "" → (fillProjections rev add).hasFS = true :=
    h.files
  obtain ⟨hlock, hconflict⟩ := mergeRevisionDocs_frame add (fillProjections rev add)
  obtain ⟨hfiles', hreports⟩ := mergeRevisionDocs_reports add hfiles
  have hheard := docConsensus_mergeRevisionDocs add hfiles
  generalize hmid : mergeRevisionDocs (fillProjections rev add) add = mid at *
  obtain ⟨hdocs, hhasFS, hdocConflict, hcode⟩ := mergeRevisionLock_frame add mid.1
  have hmerge : mergeRevision rev add =
      ((mergeRevisionLock mid.1 add).1, mid.2 ++ (mergeRevisionLock mid.1 add).2) := by
    rw [← hmid]
    rfl
  rw [hmerge]
  constructor
  · rw [lockConsensus_mergeRevisionLock, lockConsensus_congr hlock hconflict]
    exact h.lock.hear add
  · rw [docConsensus_congr hdocs hhasFS hdocConflict, hheard]
    exact h.docs.hear add
  · exact mergeRevisionLock_withholds add (by rw [hlock, hconflict]; exact h.withheld)
  · exact fun hne => hhasFS.trans (hfiles' (hdocConflict ▸ hne))
  · have hnone : ¬ ∃ lim ∈ (mergeRevisionLock mid.1 add).2,
        lim.code = "REVISION_DOCUMENT_CONFLICT" := by
      rintro ⟨lim, hlim, hdoc⟩
      exact absurd ((hcode lim hlim).symm.trans hdoc) (by decide)
    simp only [List.mem_append, or_and_right, exists_or, hnone, or_false, ← h.reported]
    rw [hdocConflict, hreports]
    rfl

theorem settled_mergeContributions (first : Contributed L) (later : List (Contributed L)) :
    Settled (first :: later) (mergeContributions first later).1 (mergeContributions first later).2 := by
  induction later using List.reverseRecOn with
  | nil => exact settled_first first
  | append_singleton later add ih =>
    rw [mergeContributions, List.foldl_append]
    exact ih.step add

end Step

/-- Two contributions with files do not agree on the documents. -/
def DocsDisagree (cs : List (Contributed L)) : Prop :=
  ∃ c ∈ cs, ∃ c' ∈ cs, c.hasFS = true ∧ c'.hasFS = true ∧ sameDocSet c.docs c'.docs = false

theorem docsDisagree_iff {cs : List (Contributed L)} :
    DocsDisagree cs ↔ ∃ k ∈ cs.filterMap (·.saidDocs), ∃ k' ∈ cs.filterMap (·.saidDocs), k ≠ k' := by
  simp only [DocsDisagree, List.mem_filterMap, Contributed.saidDocs, sameDocSet]
  constructor
  · rintro ⟨c, hc, c', hc', hfiles, hfiles', hne⟩
    exact ⟨_, ⟨c, hc, if_pos hfiles⟩, _, ⟨c', hc', if_pos hfiles'⟩, of_decide_eq_false hne⟩
  · rintro ⟨k, ⟨c, hc, hk⟩, k', ⟨c', hc', hk'⟩, hne⟩
    obtain ⟨hfiles, hk⟩ := Option.ite_none_right_eq_some.mp hk
    obtain ⟨hfiles', hk'⟩ := Option.ite_none_right_eq_some.mp hk'
    refine ⟨c, hc, c', hc', hfiles, hfiles', decide_eq_false fun heq => hne ?_⟩
    exact (Option.some.inj hk).symm.trans (heq.trans (Option.some.inj hk'))

variable [DecidableEq L]

/-- Two contributions carry locks that do not agree. -/
def LocksDisagree (cs : List (Contributed L)) : Prop :=
  ∃ c ∈ cs, ∃ c' ∈ cs, ∃ l ∈ c.lock, ∃ l' ∈ c'.lock, sameResolutions l l' = false

theorem locksDisagree_iff {cs : List (Contributed L)} :
    LocksDisagree cs ↔ ∃ k ∈ cs.filterMap (·.saidLock), ∃ k' ∈ cs.filterMap (·.saidLock), k ≠ k' := by
  constructor
  · rintro ⟨c, hc, c', hc', l, hl, l', hl', hne⟩
    exact ⟨_, List.mem_filterMap.mpr ⟨c, hc, Option.mem_map_of_mem _ hl⟩, _,
      List.mem_filterMap.mpr ⟨c', hc', Option.mem_map_of_mem _ hl'⟩, of_decide_eq_false hne⟩
  · rintro ⟨k, hk, k', hk', hne⟩
    obtain ⟨c, hc, hl⟩ := List.mem_filterMap.mp hk
    obtain ⟨c', hc', hl'⟩ := List.mem_filterMap.mp hk'
    obtain ⟨l, hlock, rfl⟩ := Option.map_eq_some_iff.mp hl
    obtain ⟨l', hlock', rfl⟩ := Option.map_eq_some_iff.mp hl'
    exact ⟨c, hc, c', hc', l, hlock, l', hlock', decide_eq_false hne⟩

/-- **A contested lock stays contested.**  A merged revision carries a lock exactly when
some contribution does and all that do agree; once two disagree it carries none and the
reason is kept whatever comes later; and a conflict of the documents is reported exactly
when two contributions with files disagree on them. -/
theorem mergeContributions_contested (first : Contributed L) (later : List (Contributed L)) :
    let merged := mergeContributions first later
    (merged.1.lock.isSome ↔
      (∃ c ∈ first :: later, c.lock.isSome) ∧ ¬ LocksDisagree (first :: later)) ∧
    (LocksDisagree (first :: later) → ∀ more,
      (mergeContributions first (later ++ more)).1.lock = none ∧
        (mergeContributions first (later ++ more)).1.lockConflict = lockConflictReason) ∧
    ((∃ lim ∈ merged.2, lim.code = "REVISION_DOCUMENT_CONFLICT") ↔
      DocsDisagree (first :: later)) ∧
    (merged.1.docConflict ≠ "" ↔ DocsDisagree (first :: later)) := by
  have hsettled := settled_mergeContributions first later
  have hdocs : (mergeContributions first later).1.docConflict ≠ "" ↔ DocsDisagree (first :: later) := by
    rw [docConflict_iff, hsettled.docs.contested_iff, docsDisagree_iff]
  refine ⟨?_, fun hdisagree more => ?_, hsettled.reported.symm.trans hdocs, hdocs⟩
  · rw [hsettled.lock_isSome_iff, hsettled.lock.agreed_iff, locksDisagree_iff]
    push Not
    refine and_congr_left fun _ => ?_
    simp only [ne_eq, List.filterMap_eq_nil_iff, Contributed.saidLock, Option.map_eq_none_iff,
      Option.isSome_iff_ne_none, not_forall, exists_prop]
  · have hlater := settled_mergeContributions first (later ++ more)
    have hcontested : LocksDisagree (first :: (later ++ more)) := by
      obtain ⟨c, hc, c', hc', hrest⟩ := hdisagree
      exact ⟨c, List.mem_append_left more hc, c', List.mem_append_left more hc', hrest⟩
    rw [locksDisagree_iff, ← hlater.lock.contested_iff, ← lockConflict_iff] at hcontested
    exact (hlater.withheld hcontested).symm

end Pacto.Fleet
