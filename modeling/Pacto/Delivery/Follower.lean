import Pacto.Delivery.Upstream

/-!
# Following a stream

A Stage that follows another cluster's Stage remembers the newest record it
read and refuses a read that does not hold it.  Record ids are the digests of
what the records say, so one id at one seq stands for the whole chain behind
it: whatever a follower accepts extends everything it accepted before.
-/

namespace Pacto.Delivery

/-! ## The follower -/

/-- One read of a stream: the records the registry lists and the stand-ins the
Stage's people acknowledged. -/
structure StreamRead where
  records : List StoredRecord
  acked : List String := []
  deriving DecidableEq, Repr

/-- The mark a Stage keeps of its newest accepted read, and the records of every
read it accepted, oldest first. -/
structure Follower where
  seen : RecordMark := {}
  accepted : List (List StoredRecord) := []
  deriving DecidableEq, Repr

/-- What `StageReconciler.ready` stores of an accepted read: its newest record,
once the stream grew or changed. -/
def noteUpstream (seen : RecordMark) (got : Stream) : RecordMark :=
  if got.id ≠ "" && (got.id ≠ seen.stream || seen.seq < got.seq) then
    { stream := got.id, seq := got.seq, record := got.head }
  else seen

def Follower.read (f : Follower) (r : StreamRead) : Follower :=
  match upstreamFromRecords r.records f.seen r.acked with
  | .ok up =>
    { seen := noteUpstream f.seen up.stream
      accepted := f.accepted ++ [(foldStream r.records).records] }
  | .error _ => f

/-- A sequence of reads. -/
def Follower.run (f : Follower) (reads : List StreamRead) : Follower := reads.foldl Follower.read f

/-- What a record says, whichever manifest carries it. -/
def StoredRecord.content (r : StoredRecord) : String × Statement := (r.id, r.statement)

def Continues (earlier later : List StoredRecord) : Prop :=
  earlier.map StoredRecord.content <+: later.map StoredRecord.content

/-- The records of `pool` belong to `stream`, have a seq, and are told apart by
their ids. -/
structure Legitimate (stream : String) (pool : List StoredRecord) : Prop where
  named : stream ≠ ""
  stream : ∀ r ∈ pool, r.predicate.chain.stream = stream
  numbered : ∀ r ∈ pool, 1 ≤ r.seq
  ids : ∀ r ∈ pool, ∀ r' ∈ pool, r.id = r'.id → r.statement = r'.statement

/-! ## One id stands for a chain -/

theorem headOf_concat (l : List StoredRecord) (r : StoredRecord) : headOf (l ++ [r]) = r.id := by
  simp [headOf]

/-- Two chains whose heads have the same id say the same, record by record: the
heads say the same, so they name the same parent. -/
theorem map_content_eq_of_headOf {k l : List StoredRecord} (hk : Linked k) (hl : Linked l)
    (hids : ∀ r ∈ k, ∀ r' ∈ l, r.id = r'.id → r.statement = r'.statement)
    (hlength : k.length = l.length) (hhead : headOf k = headOf l) :
    k.map StoredRecord.content = l.map StoredRecord.content := by
  induction k using List.reverseRecOn generalizing l with
  | nil =>
    obtain rfl : l = [] := by simpa using hlength.symm
    rfl
  | append_singleton k r ih =>
    obtain rfl | ⟨l, r', rfl⟩ := List.eq_nil_or_concat' l
    · simp at hlength
    have hid : r.id = r'.id := by simpa only [headOf_concat] using hhead
    have hstatement := hids r (by simp) r' (by simp) hid
    have hparent : headOf k = headOf l := by
      rw [← (hk k r List.prefix_rfl).2, ← (hl l r' List.prefix_rfl).2,
        StoredRecord.predicate, StoredRecord.predicate, hstatement]
    have hfront := ih (hk.of_prefix (List.prefix_append _ _))
      (hl.of_prefix (List.prefix_append _ _))
      (fun x hx y hy => hids x (List.mem_append_left _ hx) y (List.mem_append_left _ hy))
      (by simpa using hlength) hparent
    rw [List.map_append, List.map_append, hfront]
    simp [StoredRecord.content, hid, hstatement]

/-- A chain holds at each seq the head of the chain up to it. -/
theorem recordAt_of_linked {l recs : List StoredRecord} {r : StoredRecord} (h : Linked recs)
    (hpre : l ++ [r] <+: recs) : recordAt recs ((l.length : Int) + 1) = r.id := by
  induction recs using List.reverseRecOn with
  | nil => simp at hpre
  | append_singleton recs last ih =>
    have hlast := (h recs last List.prefix_rfl).1
    rcases List.prefix_concat_iff.mp hpre with heq | hfront
    · obtain ⟨rfl, hr⟩ := List.append_inj' heq rfl
      obtain rfl : r = last := by simpa using hr
      simp [recordAt, hlast]
    · have hlt : l.length + 1 ≤ recs.length := by simpa using hfront.length_le
      rw [recordAt_append_of_ne recs last (by omega)]
      exact ih (h.of_prefix (List.prefix_append _ _)) hfront

/-- At the seq of a prefix a chain holds the head of that prefix. -/
theorem recordAt_length {l recs : List StoredRecord} (h : Linked recs) (hpre : l <+: recs)
    (hne : l ≠ []) : recordAt recs l.length = headOf l := by
  obtain rfl | ⟨front, last, rfl⟩ := List.eq_nil_or_concat' l
  · exact absurd rfl hne
  · rw [headOf_concat, List.length_append, List.length_singleton]
    exact recordAt_of_linked h hpre

/-! ## Accepted reads -/

/-- The mark of a chain of `stream` that was read to its end. -/
def markOf (stream : String) (recs : List StoredRecord) : RecordMark :=
  { stream := stream, seq := recs.length, record := headOf recs }

section Accepted

variable {stream : String} {r : StreamRead} {seen : RecordMark} {up : StageStatus}

theorem Legitimate.mono {pool pool' : List StoredRecord} (h : Legitimate stream pool)
    (hsub : pool' ⊆ pool) : Legitimate stream pool' where
  named := h.named
  stream := fun x hx => h.stream x (hsub hx)
  numbered := fun x hx => h.numbered x (hsub hx)
  ids := fun x hx y hy => h.ids x (hsub hx) y (hsub hy)

theorem linked_of_accepted (h : Legitimate stream r.records)
    (hok : upstreamFromRecords r.records seen r.acked = .ok up) :
    Linked (foldStream r.records).records := by
  rw [upstreamFromRecords_eq_ok_iff] at hok
  exact (linked_foldStream h.numbered hok.1).1

/-- An accepted read of some records ends at the newest of them. -/
theorem stream_of_accepted (h : Legitimate stream r.records)
    (hok : upstreamFromRecords r.records seen r.acked = .ok up)
    (hne : (foldStream r.records).records ≠ []) :
    up.stream.id = stream ∧ up.stream.seq = (foldStream r.records).records.length ∧
      up.stream.head = headOf (foldStream r.records).records := by
  have hlinked := linked_of_accepted h hok
  rw [upstreamFromRecords_eq_ok_iff] at hok
  obtain ⟨hwhole, -, -, rfl⟩ := hok
  obtain hnil | ⟨front, last, hlast⟩ := List.eq_nil_or_concat' (foldStream r.records).records
  · exact absurd hnil hne
  obtain ⟨hid, hseq⟩ := upstreamView_stream_of_last _ hlast
  have hmem : last ∈ r.records := mem_foldStream_records.mp (by simp [hlast])
  refine ⟨hid.trans (h.stream last hmem), ?_, (linked_foldStream h.numbered hwhole).2⟩
  rw [hseq, (hlinked front last (hlast ▸ List.prefix_rfl)).1, hlast]
  simp

/-- The mark of an accepted read is checked against the records it holds. -/
theorem seen_of_accepted (h : Legitimate stream r.records)
    (hok : upstreamFromRecords r.records seen r.acked = .ok up) (hstream : seen.stream = stream)
    (hseq : seen.seq ≠ 0) :
    seen.seq ≤ (foldStream r.records).records.length ∧
      recordAt (foldStream r.records).records seen.seq = seen.record := by
  have hok' := hok
  rw [upstreamFromRecords_eq_ok_iff] at hok'
  obtain ⟨-, -, htruncated, hup⟩ := hok'
  rw [hup, upstreamTruncated_eq_none_iff] at htruncated
  by_cases hne : (foldStream r.records).records = []
  · have hempty : up.stream.id = "" ∧ up.stream.seq = 0 := by
      rw [← hup]
      simp [upstreamView, hne]
    rw [hempty.1, hempty.2] at htruncated
    simpa [hseq, hne] using htruncated
  · obtain ⟨hid, hlength, -⟩ := stream_of_accepted h hok hne
    rw [hid, hlength] at htruncated
    rcases htruncated with ⟨hother, -⟩ | hzero | hheld
    · exact absurd hstream hother
    · exact absurd hzero hseq
    · exact hheld

/-- The mark stored after a read is the mark of what was read. -/
theorem noteUpstream_of_accepted (h : Legitimate stream r.records)
    (hok : upstreamFromRecords r.records seen r.acked = .ok up)
    (hne : (foldStream r.records).records ≠ []) :
    noteUpstream seen up.stream = markOf stream (foldStream r.records).records := by
  obtain ⟨hid, hseq, hhead⟩ := stream_of_accepted h hok hne
  unfold noteUpstream
  rw [hid, hseq, hhead]
  split_ifs with hgrew
  · rfl
  · -- The stream did not grow, so the read ends at the record the mark names.
    simp only [ne_eq, h.named, not_false_eq_true, decide_true, Bool.true_and, Bool.or_eq_true,
      decide_eq_true_eq, not_or, not_not, not_lt] at hgrew
    obtain ⟨hstream, hle⟩ := hgrew
    have hpos := List.length_pos_iff.mpr hne
    obtain ⟨hge, hrecord⟩ := seen_of_accepted h hok hstream.symm (by omega)
    have heq : seen.seq = (foldStream r.records).records.length := le_antisymm hge hle
    rw [heq, recordAt_length (linked_of_accepted h hok) List.prefix_rfl hne] at hrecord
    obtain ⟨s, n, id⟩ := seen
    simp only at hstream heq hrecord
    rw [markOf, ← hstream, heq, hrecord]

/-- A read accepted against the mark of a chain continues that chain. -/
theorem continues_of_accepted {k : List StoredRecord} (hpool : Legitimate stream (k ++ r.records))
    (hk : Linked k) (hok : upstreamFromRecords r.records (markOf stream k) r.acked = .ok up) :
    Continues k (foldStream r.records).records := by
  obtain rfl | hne := eq_or_ne k []
  · exact List.nil_prefix
  have h : Legitimate stream r.records := hpool.mono (List.subset_append_right _ _)
  have hlinked := linked_of_accepted h hok
  have hpos := List.length_pos_iff.mpr hne
  obtain ⟨hle, hrecord⟩ := seen_of_accepted h hok rfl (by simp [markOf]; omega)
  simp only [markOf, Int.ofNat_le] at hle hrecord
  set recs := (foldStream r.records).records with hrecs
  have hpre : recs.take k.length <+: recs := List.take_prefix _ _
  have hlength : (recs.take k.length).length = k.length := List.length_take_of_le hle
  have hhead : headOf k = headOf (recs.take k.length) := by
    have hat := recordAt_length hlinked hpre (by rw [← List.length_pos_iff, hlength]; exact hpos)
    rw [hlength] at hat
    exact hrecord.symm.trans hat
  have hids : ∀ x ∈ k, ∀ y ∈ recs.take k.length, x.id = y.id → x.statement = y.statement :=
    fun x hx y hy => hpool.ids x (List.mem_append_left _ hx) y
      (List.mem_append_right _ (mem_foldStream_records.mp (List.mem_of_mem_take hy)))
  rw [Continues, map_content_eq_of_headOf hk (hlinked.of_prefix hpre) hids hlength.symm hhead]
  exact hpre.map _

end Accepted

/-! ## Runs -/

theorem Continues.trans {a b c : List StoredRecord} (h : Continues a b) (h' : Continues b c) :
    Continues a c :=
  List.IsPrefix.trans h h'

/-- The follower accepted `known` last: every earlier read is the start of it,
and its mark is the mark of it. -/
structure Follower.Tracks (stream : String) (pool : List StoredRecord) (f : Follower)
    (known : List StoredRecord) : Prop where
  pool : known ⊆ pool
  linked : Linked known
  covers : ∀ k ∈ f.accepted, Continues k known
  ordered : f.accepted.Pairwise Continues
  mark : known ≠ [] → f.seen = markOf stream known

theorem Follower.Tracks.read {stream : String} {pool : List StoredRecord} {f : Follower}
    {known : List StoredRecord} (h : f.Tracks stream pool known) (hpool : Legitimate stream pool)
    {r : StreamRead} (hr : r.records ⊆ pool) : ∃ known, (f.read r).Tracks stream pool known := by
  unfold Follower.read
  cases hok : upstreamFromRecords r.records f.seen r.acked with
  | error why => exact ⟨known, h⟩
  | ok up =>
    have hlegit := hpool.mono hr
    have hcontinues : Continues known (foldStream r.records).records := by
      obtain rfl | hne := eq_or_ne known []
      · exact List.nil_prefix
      · rw [h.mark hne] at hok
        exact continues_of_accepted (hpool.mono (List.append_subset.mpr ⟨h.pool, hr⟩)) h.linked hok
    refine ⟨(foldStream r.records).records, ?_, linked_of_accepted hlegit hok, ?_, ?_, ?_⟩
    · exact fun x hx => hr (mem_foldStream_records.mp hx)
    · intro k hk
      rcases List.mem_append.mp hk with hk | hk
      · exact (h.covers k hk).trans hcontinues
      · rw [List.mem_singleton.mp hk]
        exact List.prefix_rfl
    · refine List.pairwise_append.mpr ⟨h.ordered, List.pairwise_singleton _ _, ?_⟩
      intro k hk k' hk'
      rw [List.mem_singleton.mp hk']
      exact (h.covers k hk).trans hcontinues
    · exact noteUpstream_of_accepted hlegit hok

theorem Follower.Tracks.run {stream : String} {pool : List StoredRecord}
    (hpool : Legitimate stream pool) (reads : List StreamRead)
    (hreads : ∀ r ∈ reads, r.records ⊆ pool) {f : Follower} {known : List StoredRecord}
    (h : f.Tracks stream pool known) : ∃ known, (f.run reads).Tracks stream pool known := by
  induction reads generalizing f known with
  | nil => exact ⟨known, h⟩
  | cons r reads ih =>
    obtain ⟨known', h'⟩ := h.read hpool (hreads r List.mem_cons_self)
    exact ih (fun x hx => hreads x (List.mem_cons_of_mem _ hx)) h'

/-- Whatever mark a follower starts from, each read it accepts continues every
read it accepted before, as long as the records it reads have a stream and a
seq. -/
theorem accepted_continues (stream : String) (mark : RecordMark) (reads : List StreamRead)
    (h : Legitimate stream (reads.flatMap StreamRead.records)) :
    (Follower.run { seen := mark } reads).accepted.Pairwise Continues := by
  obtain ⟨known, htracks⟩ := Follower.Tracks.run (f := { seen := mark }) h reads
    (fun r hr x hx => List.mem_flatMap.mpr ⟨r, hr, hx⟩)
    ⟨List.nil_subset _, Linked.nil, by simp, List.Pairwise.nil, fun hne => absurd rfl hne⟩
  exact htracks.ordered

/-- A follower that reads a stream of one record and later the same stream
with one more. -/
def grownReads : List StreamRead :=
  [{ records := [shippedRecord] }, { records := [shippedRecord, refusedRecord] }]

theorem accepted_continues_grownReads :
    (Follower.run {} grownReads).accepted.length = 2 ∧
      (Follower.run {} grownReads).accepted.Pairwise Continues :=
  ⟨by decide, accepted_continues "c/ns/shop" {} grownReads
    ⟨by decide, by decide, by decide, by decide⟩⟩

/-! ## A record with no seq -/

/-- A record signed without a seq. -/
def unnumberedRecord : StoredRecord :=
  exampleRecord "r0" "" 0
    { type := .promote, stage := "shop", facet := .pointer
      params := { «from» := "", «to» := "sha256:a" }, actor := { user := "ci" } }
    { phase := .concluded, outcome := some .failed, pointer := ⟨"", "sha256:a"⟩, applied := true }

/-- A stream of one record that has no seq is whole and is accepted, its mark
checks nothing, and the next read may hold other records. -/
theorem unnumbered_read_is_forgotten :
    (Follower.run {} [{ records := [unnumberedRecord] }, { records := [shippedRecord] }]).accepted =
        [[unnumberedRecord], [shippedRecord]] ∧
      ¬Continues [unnumberedRecord] [shippedRecord] := by
  refine ⟨by decide, ?_⟩
  unfold Continues
  decide

end Pacto.Delivery
