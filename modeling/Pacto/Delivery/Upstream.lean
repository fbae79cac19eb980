import Pacto.Delivery.History

/-!
# The remote view of a Stage

`pkg/delivery/upstream.go`: a Stage that follows a Stage in another cluster
rebuilds what that Stage verified, offered and failed from its records.
-/

namespace Pacto.Delivery

open Support

variable {s : StageStatus}

/-! ## The fold of the source -/

/-- `failUpstream` marks `d` failed in the remote view. -/
def failUpstream (s : StageStatus) (d : String) : StageStatus :=
  { s with
    failedDigests := addDigest s.failedDigests d maxFailedDigests
    verified := removeDigest s.verified d }

/-- `failedCause`: `p` is a rollback or a freeze raised on a `fail` verdict,
which leaves the version it moves from, or stays on, failed. -/
def failedCause (p : RecordPredicate) : Bool :=
  match p.type, p.intent.params, p.intent.cause with
  | some t, some params, some { verdict := some v, .. } =>
    (t.id = .rollback || t.id = .freeze) && v.result = .fail && params.from ≠ ""
  | _, _, _ => false

/-- The version a record names as the one it moves from. -/
def RecordPredicate.fromDigest (p : RecordPredicate) : String :=
  (p.intent.params.map (·.from)).getD ""

def foldOutcome (s : StageStatus) (type : TypeID) (to' : String) (verdicts : List Verdict)
    (o : RecordOutcome) : StageStatus :=
  if to' = "" then s
  else
    match o.result with
    | some .succeeded =>
      if o.verification ≠ some .verified then s
      else
        let s := { s with verified := addDigest s.verified to' maxVerified }
        if type = .promote && passedPublished verdicts then
          { s with offered := addDigest s.offered to' maxOffered }
        else s
    | some .failed => failUpstream s to'
    | _ => s

/-- `foldUpstream` applies one record to the remote view. -/
def foldUpstream (s : StageStatus) (p : RecordPredicate) : StageStatus :=
  match p.type, p.intent.params, p.outcome with
  | some t, some params, some o =>
    if p.kind ≠ .operation then s
    else
      let s := if failedCause p then failUpstream s params.from else s
      foldOutcome s t.id params.to p.verdicts o
  | _, _, _ => s

def unrecordableProblems (recs : List StoredRecord) : List String :=
  recs.filterMap fun r =>
    r.predicate.unrecordable.map fun u =>
      "seq " ++ toString r.seq ++ " (" ++ orElse r.predicate.intent.name (short r.id) ++
        ", record " ++ r.id ++ ") is an unrecordable stand-in (" ++ u.check ++ ": " ++ u.message ++
        "): what it did is not in the record"

/-- The id of the newest record read at `seq`, empty when there is none: the
map `at` of the source. -/
def recordAt (recs : List StoredRecord) (seq : Int) : String :=
  ((recs.reverse.find? (·.seq = seq)).map (·.id)).getD ""

/-- `UpstreamTruncated`: why a read of an upstream stream that ends at `got`
cannot be trusted by a Stage that already read it up to `seen`. -/
def upstreamTruncated (seen : RecordMark) (got : Stream) (at' : Int → String) : Option String :=
  if (seen.stream ≠ got.id && got.id ≠ "") || seen.seq = 0 then none
  else if got.seq < seen.seq then
    some ("the stream ends at seq " ++ toString got.seq ++
      ", but this Stage already read it up to seq " ++ toString seen.seq ++ " (record " ++
      short seen.record ++ "): its newest records were removed")
  else if at' seen.seq ≠ seen.record then
    some ("seq " ++ toString seen.seq ++ " is record " ++ short (at' seen.seq) ++
      ", but this Stage read " ++ short seen.record ++ " there: the stream was rewritten")
  else none

/-- One turn of the loop of `upstreamFromRecords`: the record's effects, and
its place as the newest record read. -/
def readUpstream (s : StageStatus) (r : StoredRecord) : StageStatus :=
  let s := foldUpstream s r.predicate
  { s with stream := { s.stream with id := r.predicate.chain.stream, seq := r.seq } }

/-- The view a whole stream gives: its records read in order, and its head. -/
def upstreamView (f : Fold) : StageStatus :=
  let s := f.records.foldl readUpstream {}
  { s with stream := { s.stream with head := f.head } }

/-- The stand-ins of a stream that nobody acknowledged. -/
def openStandIns (f : Fold) (acked : List String) : List String :=
  unrecordableProblems (f.records.filter fun r => !acked.contains r.id)

/-- `UpstreamFromRecords` rebuilds what a Stage in another cluster verified
from its stream's records, or says why it offers nothing. -/
def upstreamFromRecords (recs : List StoredRecord) (seen : RecordMark) (acked : List String) :
    Except String StageStatus :=
  let f := foldStream recs
  if f.problems ≠ [] then
    .error ("the stream is not whole: " ++ joinWith "; " f.problems)
  else
    let bad := openStandIns f acked
    if bad ≠ [] then
      .error (joinWith "; " bad ++
        "; once a person of this Stage's team has checked what it did upstream, " ++
        "they can acknowledge it (" ++ TypeID.acknowledge.text ++
        " with that record id and a reason), or break-glass can override")
    else
      let s := upstreamView f
      match upstreamTruncated seen s.stream (recordAt f.records) with
      | some why => .error why
      | none => .ok s

/-- The effects of a record neither read nor write the view's place in the
stream. -/
theorem foldUpstream_withStream (s : StageStatus) (stream : Stream) (p : RecordPredicate) :
    foldUpstream { s with stream := stream } p =
      { foldUpstream s p with stream := stream } := by
  unfold foldUpstream
  split
  · split
    · rfl
    · unfold foldOutcome
      split_ifs <;> first | rfl | (split <;> rfl)
  · rfl

/-! ## The memories of the remote view -/

/-- The failed digests of a view are a bounded memory: each once, the cap
kept. -/
structure FailuresBounded (s : StageStatus) : Prop where
  nodup : s.failedDigests.Nodup
  length_le : s.failedDigests.length ≤ maxFailedDigests

theorem failUpstream_failuresBounded (h : FailuresBounded s) (d : String) :
    FailuresBounded (failUpstream s d) where
  nodup := nodup_remember _ d h.nodup
  length_le := length_remember_le _ _ _

theorem foldOutcome_failuresBounded
    (h : FailuresBounded s) (type : TypeID) (d : String)
    (verdicts : List Verdict) (o : RecordOutcome) :
    FailuresBounded (foldOutcome s type d verdicts o) := by
  unfold foldOutcome
  split
  · exact h
  · split
    · split
      · exact h
      · dsimp only
        split <;> exact ⟨h.nodup, h.length_le⟩
    · exact failUpstream_failuresBounded h d
    · exact h

theorem foldUpstream_failuresBounded
    (h : FailuresBounded s) (p : RecordPredicate) :
    FailuresBounded (foldUpstream s p) := by
  unfold foldUpstream
  split
  · split
    · exact h
    · apply foldOutcome_failuresBounded
      split
      · exact failUpstream_failuresBounded h _
      · exact h
  · exact h

theorem foldl_readUpstream_failuresBounded
    (recs : List StoredRecord) (h : FailuresBounded s) :
    FailuresBounded (recs.foldl readUpstream s) := by
  induction recs generalizing s with
  | nil => exact h
  | cons r recs ih =>
    have hr := foldUpstream_failuresBounded h r.predicate
    exact ih ⟨hr.nodup, hr.length_le⟩

/-- Marking a version failed leaves the view as it is exactly when the version
is the newest failure already and is not listed as verified. -/
theorem failUpstream_unchanged_iff (h : FailuresBounded s) (d : String) :
    ((failUpstream s d).verified = s.verified ∧
        (failUpstream s d).failedDigests = s.failedDigests) ↔
      (s.failedDigests.getLast? = some d ∧ d ∉ s.verified) := by
  have hfailed : (failUpstream s d).failedDigests = s.failedDigests ↔
      s.failedDigests.getLast? = some d :=
    remember_eq_self_iff (by decide) h.nodup h.length_le
  have hverified : (failUpstream s d).verified = s.verified ↔ d ∉ s.verified := by
    simp only [failUpstream, removeDigest, List.filter_eq_self, ne_eq, decide_not,
      Bool.not_eq_true', decide_eq_false_iff_not]
    exact ⟨fun hne hd => hne d hd rfl, fun hd x hx hxd => hd (hxd ▸ hx)⟩
  rw [hfailed, hverified]
  exact and_comm

theorem upstreamView_failuresBounded (f : Fold) : FailuresBounded (upstreamView f) := by
  have h := foldl_readUpstream_failuresBounded f.records (s := {}) ⟨by simp, by simp⟩
  exact ⟨h.nodup, h.length_le⟩

/-! ## A stream that grew by one record -/

/-- The view is offered exactly when the stream is whole, holds no stand-in
nobody acknowledged, and still holds the record the follower saw last. -/
theorem upstreamFromRecords_eq_ok_iff
    (recs : List StoredRecord) (seen : RecordMark) (acked : List String) (s : StageStatus) :
    upstreamFromRecords recs seen acked = .ok s ↔
      (foldStream recs).problems = [] ∧
        openStandIns (foldStream recs) acked = [] ∧
        upstreamTruncated seen (upstreamView (foldStream recs)).stream
          (recordAt (foldStream recs).records) = none ∧
        upstreamView (foldStream recs) = s := by
  unfold upstreamFromRecords
  dsimp only
  by_cases hp : (foldStream recs).problems = []
  · by_cases hb : openStandIns (foldStream recs) acked = []
    · cases ht : upstreamTruncated seen (upstreamView (foldStream recs)).stream
          (recordAt (foldStream recs).records) <;> simp [hp, hb]
    · simp [hp, hb]
  · simp [hp]

theorem upstreamTruncated_eq_none_iff (seen : RecordMark) (got : Stream) (at' : Int → String) :
    upstreamTruncated seen got at' = none ↔
      (seen.stream ≠ got.id ∧ got.id ≠ "") ∨ seen.seq = 0 ∨
        (seen.seq ≤ got.seq ∧ at' seen.seq = seen.record) := by
  unfold upstreamTruncated
  split_ifs with hskip hshort hother
  · simp only [Bool.or_eq_true, Bool.and_eq_true, decide_eq_true_eq] at hskip
    tauto
  · simp only [Bool.or_eq_true, Bool.and_eq_true, decide_eq_true_eq, not_or] at hskip
    have hle : ¬seen.seq ≤ got.seq := by omega
    simp [hskip, hle]
  · simp only [Bool.or_eq_true, Bool.and_eq_true, decide_eq_true_eq, not_or] at hskip
    simp [hskip, hother]
  · have hle : seen.seq ≤ got.seq := by omega
    exact iff_of_true rfl (.inr (.inr ⟨hle, not_not.mp hother⟩))

/-- The newest record read is the view's place in the stream. -/
theorem upstreamView_stream_of_last (f : Fold) {front : List StoredRecord} {r : StoredRecord}
    (h : f.records = front ++ [r]) :
    (upstreamView f).stream.id = r.predicate.chain.stream ∧
      (upstreamView f).stream.seq = r.seq := by
  simp [upstreamView, h, readUpstream]

theorem recordAt_append_of_ne
    (recs : List StoredRecord) (r : StoredRecord) {n : Int} (h : r.seq ≠ n) :
    recordAt (recs ++ [r]) n = recordAt recs n := by
  simp [recordAt, h]

theorem unrecordableProblems_append
    (recs recs' : List StoredRecord) :
    unrecordableProblems (recs ++ recs') =
      unrecordableProblems recs ++ unrecordableProblems recs' := by
  simp [unrecordableProblems]

/-- `r` extends the stream `recs`: it is a record of the same stream with the
newest seq, it keeps a record of what was done, and the stream is whole with
it. -/
structure Extends (recs : List StoredRecord) (r : StoredRecord) : Prop where
  newest : ∀ x ∈ recs, x.seq < r.seq
  numbered : 1 ≤ r.seq
  stream : ∀ x ∈ recs, x.predicate.chain.stream = r.predicate.chain.stream
  recorded : r.predicate.unrecordable = none
  whole : (foldStream (recs ++ [r])).problems = []

namespace Extends

variable {recs : List StoredRecord} {r : StoredRecord}

theorem records_eq (h : Extends recs r) :
    (foldStream (recs ++ [r])).records = (foldStream recs).records ++ [r] :=
  foldStream_records_append_newest h.newest

/-- A stream that still held the last record seen holds it after it grew. -/
theorem truncated_eq_none (h : Extends recs r) {seen : RecordMark}
    (hseen : upstreamTruncated seen (upstreamView (foldStream recs)).stream
      (recordAt (foldStream recs).records) = none) :
    upstreamTruncated seen (upstreamView (foldStream (recs ++ [r]))).stream
      (recordAt (foldStream (recs ++ [r])).records) = none := by
  obtain ⟨hid, hseq⟩ := upstreamView_stream_of_last _ h.records_eq
  have hagain : ∀ n, n < r.seq →
      recordAt (foldStream (recs ++ [r])).records n = recordAt (foldStream recs).records n := by
    intro n hn
    rw [h.records_eq]
    exact recordAt_append_of_ne _ r (by omega)
  rw [upstreamTruncated_eq_none_iff] at hseen ⊢
  rw [hid, hseq]
  rcases List.eq_nil_or_concat' (foldStream recs).records with hnil | ⟨front, last, hlast⟩
  · have hempty : (upstreamView (foldStream recs)).stream.id = "" ∧
        (upstreamView (foldStream recs)).stream.seq = 0 := by
      simp [upstreamView, hnil]
    have hpos := h.numbered
    rcases hseen with ⟨-, hne⟩ | hzero | ⟨hle, hrec⟩
    · exact absurd hempty.1 hne
    · exact .inr (.inl hzero)
    · refine .inr (.inr ⟨by omega, ?_⟩)
      rw [hagain _ (by omega), hrec]
  · obtain ⟨hid', hseq'⟩ := upstreamView_stream_of_last _ hlast
    have hmem : last ∈ recs := mem_foldStream_records.mp (by simp [hlast])
    have hlt := h.newest last hmem
    rw [hid', hseq', h.stream last hmem] at hseen
    rcases hseen with hother | hzero | ⟨hle, hrec⟩
    · exact .inl hother
    · exact .inr (.inl hzero)
    · refine .inr (.inr ⟨by omega, ?_⟩)
      rw [hagain _ (by omega), hrec]

theorem openStandIns_eq_nil (h : Extends recs r) {acked : List String}
    (hopen : openStandIns (foldStream recs) acked = []) :
    openStandIns (foldStream (recs ++ [r])) acked = [] := by
  have hr : unrecordableProblems ([r].filter fun r => !acked.contains r.id) = [] := by
    simp [unrecordableProblems, h.recorded]
  rw [openStandIns, h.records_eq, List.filter_append, unrecordableProblems_append, hr,
    List.append_nil]
  exact hopen

/-- A follower that read a stream reads it again once it grew, and what it
remembers is what the new record makes of what it remembered. -/
theorem upstreamFromRecords_ok (h : Extends recs r) {seen : RecordMark} {acked : List String}
    (hview : upstreamFromRecords recs seen acked = .ok s) :
    ∃ s', upstreamFromRecords (recs ++ [r]) seen acked = .ok s' ∧
      s'.verified = (foldUpstream s r.predicate).verified ∧
      s'.offered = (foldUpstream s r.predicate).offered ∧
      s'.failedDigests = (foldUpstream s r.predicate).failedDigests := by
  rw [upstreamFromRecords_eq_ok_iff] at hview
  obtain ⟨-, hopen, hseen, rfl⟩ := hview
  refine ⟨upstreamView (foldStream (recs ++ [r])), ?_, ?_⟩
  · rw [upstreamFromRecords_eq_ok_iff]
    exact ⟨h.whole, h.openStandIns_eq_nil hopen, h.truncated_eq_none hseen, rfl⟩
  · have hgrown : (foldStream (recs ++ [r])).records.foldl readUpstream {} =
        readUpstream ((foldStream recs).records.foldl readUpstream {}) r := by
      rw [h.records_eq, List.foldl_append]
      rfl
    simp only [upstreamView, hgrown, foldUpstream_withStream]
    exact ⟨rfl, rfl, rfl⟩

end Extends

/-! ## Refused operations -/

/-- The operation of the record was refused. -/
def RecordPredicate.rejected (p : RecordPredicate) : Prop :=
  ∃ o, p.outcome = some o ∧ o.result = some .rejected

/-- A refused operation changes the view only through the cause it cites. -/
theorem foldUpstream_of_rejected (s : StageStatus) {p : RecordPredicate} (h : p.rejected) :
    foldUpstream s p =
      if p.kind = .operation ∧ failedCause p = true then failUpstream s p.fromDigest else s := by
  obtain ⟨o, ho, hresult⟩ := h
  rcases htype : p.type with - | t
  · simp [foldUpstream, htype, failedCause]
  rcases hparams : p.intent.params with - | params
  · simp [foldUpstream, hparams, failedCause]
  by_cases hkind : p.kind = .operation
  · have hfrom : p.fromDigest = params.from := by simp [RecordPredicate.fromDigest, hparams]
    have houtcome : ∀ s, foldOutcome s t.id params.to p.verdicts o = s := by
      intro s
      simp [foldOutcome, hresult]
    simp only [foldUpstream, htype, hparams, ho, hkind, houtcome, hfrom]
    simp
  · simp [foldUpstream, htype, hparams, ho, hkind]

/-- A refused operation leaves a follower's view untouched exactly when it
cites no `fail` verdict against the version it names, or the view lists that
version as its newest failure already. -/
theorem upstreamFromRecords_rejected_iff
    (recs : List StoredRecord) (r : StoredRecord) (seen : RecordMark) (acked : List String)
    (s : StageStatus) (hview : upstreamFromRecords recs seen acked = .ok s)
    (hext : Extends recs r) (hrejected : r.predicate.rejected) :
    ∃ s', upstreamFromRecords (recs ++ [r]) seen acked = .ok s' ∧
      ((s'.verified = s.verified ∧ s'.offered = s.offered ∧
          s'.failedDigests = s.failedDigests) ↔
        (r.predicate.kind ≠ .operation ∨ failedCause r.predicate = false ∨
          (s.failedDigests.getLast? = some r.predicate.fromDigest ∧
            r.predicate.fromDigest ∉ s.verified))) := by
  obtain ⟨s', hs', hverified, hoffered, hfailed⟩ := hext.upstreamFromRecords_ok hview
  refine ⟨s', hs', ?_⟩
  have hbounded : FailuresBounded s := by
    rw [upstreamFromRecords_eq_ok_iff] at hview
    obtain ⟨-, -, -, rfl⟩ := hview
    exact upstreamView_failuresBounded _
  rw [hverified, hoffered, hfailed, foldUpstream_of_rejected s hrejected]
  by_cases hmarks : r.predicate.kind = .operation ∧ failedCause r.predicate = true
  · have hiff := failUpstream_unchanged_iff hbounded r.predicate.fromDigest
    have hoff : (failUpstream s r.predicate.fromDigest).offered = s.offered := rfl
    simp only [hmarks, and_self, if_true, hoff, true_and, ne_eq, not_true_eq_false,
      Bool.true_eq_false, false_or]
    exact hiff
  · rw [if_neg hmarks]
    have hquiet : r.predicate.kind ≠ .operation ∨ failedCause r.predicate = false := by
      rw [← Bool.not_eq_true]
      tauto
    simp only [and_self, true_iff]
    tauto

def exampleRecord (id parent : String) (seq : Int) (spec : OperationSpec)
    (status : OperationStatus) : StoredRecord :=
  { id := id
    statement := newOperationRecord
      { stage := { metadata := { name := "shop", uid := "stage-1" }, spec := { service := "shop" } }
        operation := { metadata := { name := "op", uid := id }, spec := spec, status := status }
        chain := { stream := "c/ns/shop", seq := seq, parent := parent } } }

def shippedRecord : StoredRecord :=
  exampleRecord "r1" "" 1
    { type := .promote, stage := "shop", facet := .pointer
      params := { «from» := "sha256:a", «to» := "sha256:b" }, actor := { user := "ci" } }
    { phase := .concluded, outcome := some .succeeded, verification := some .verified
      pointer := ⟨"sha256:a", "sha256:b"⟩, applied := true, seq := 1 }

/-- A rollback off `sha256:b` that an agent raised on a `fail` verdict the
promoter ran again and did not confirm: refused, nothing moved. -/
def refusedRecord : StoredRecord :=
  exampleRecord "r2" "r1" 2
    { type := .rollback, stage := "shop", facet := .pointer
      params := { «from» := "sha256:b", «to» := "sha256:a", undoes := "r1" }
      actor := { user := "agent" }
      cause := some
        { verdict := some { gate := gateContract, phase := "verify", result := .fail } } }
    { phase := .concluded, outcome := some .rejected, reason := "CauseUnconfirmed"
      actorClass := some .agent, seq := 2 }

theorem refusedRecord_extends : Extends [shippedRecord] refusedRecord where
  newest := by decide
  numbered := by decide
  stream := by decide
  recorded := by decide
  whole := by decide

theorem refusedRecord_rejected : refusedRecord.predicate.rejected :=
  ⟨_, rfl, rfl⟩

/-- The view of the stream before the refused rollback. -/
def shippedView : StageStatus := upstreamView (foldStream [shippedRecord])

theorem upstreamFromRecords_shippedRecord :
    upstreamFromRecords [shippedRecord] {} [] = .ok shippedView := by
  rw [upstreamFromRecords_eq_ok_iff]
  exact ⟨by decide, by decide, by decide, rfl⟩

/-- The refused rollback marks the version it names failed downstream. -/
theorem refused_rollback_marks_failed :
    Extends [shippedRecord] refusedRecord ∧ refusedRecord.predicate.rejected ∧
      shippedView.verified = ["sha256:b"] ∧ shippedView.failedDigests = [] ∧
      ∃ s', upstreamFromRecords ([shippedRecord] ++ [refusedRecord]) {} [] = .ok s' ∧
        s'.verified = [] ∧ s'.failedDigests = ["sha256:b"] := by
  refine ⟨refusedRecord_extends, refusedRecord_rejected, by decide, by decide,
    upstreamView (foldStream ([shippedRecord] ++ [refusedRecord])), ?_, by decide, by decide⟩
  rw [upstreamFromRecords_eq_ok_iff]
  exact ⟨by decide, by decide, by decide, rfl⟩

theorem upstreamFromRecords_rejected_iff_refusedRecord :
    ∃ s', upstreamFromRecords ([shippedRecord] ++ [refusedRecord]) {} [] = .ok s' ∧
      ((s'.verified = shippedView.verified ∧ s'.offered = shippedView.offered ∧
          s'.failedDigests = shippedView.failedDigests) ↔
        (refusedRecord.predicate.kind ≠ .operation ∨ failedCause refusedRecord.predicate = false ∨
          (shippedView.failedDigests.getLast? = some refusedRecord.predicate.fromDigest ∧
            refusedRecord.predicate.fromDigest ∉ shippedView.verified))) :=
  upstreamFromRecords_rejected_iff [shippedRecord] refusedRecord {} [] shippedView
    upstreamFromRecords_shippedRecord refusedRecord_extends refusedRecord_rejected

end Pacto.Delivery
