import Mathlib.Data.List.Induction
import Mathlib.Data.List.TakeDrop
import Mathlib.Data.String.Basic
import Pacto.Delivery.Record
import Pacto.Support.Sequence

/-!
# Folding a stream

`pkg/delivery/history.go`: `foldStream` sorts the records a registry holds for
one stream, checks that they form one chain, and checks that each recorded
move starts where the change before it left the Stage.
-/

namespace Pacto.Delivery

/-- One record read back from the registry. -/
structure StoredRecord where
  id : String
  manifest : String := ""
  statement : Statement
  deriving DecidableEq, Repr

/-- The record itself. -/
def StoredRecord.predicate (r : StoredRecord) : RecordPredicate := r.statement.predicate

def StoredRecord.seq (r : StoredRecord) : Int := r.predicate.chain.seq

/-- The order `foldStream` sorts by: the seq, then the id. -/
def StoredRecord.before (a b : StoredRecord) : Prop :=
  a.seq < b.seq ∨ (a.seq = b.seq ∧ a.id ≤ b.id)

instance : DecidableRel StoredRecord.before := fun a b =>
  inferInstanceAs (Decidable (a.seq < b.seq ∨ (a.seq = b.seq ∧ a.id ≤ b.id)))

def seqRange (lo hi : Int) : String :=
  if lo = hi then "seq " ++ toString lo ++ " is"
  else "seqs " ++ toString lo ++ " to " ++ toString hi ++ " are"

/-- `checkMove` checks the move `p` records against the version the change
before it left, and returns the version `p` leaves and the problem, if any. -/
def checkMove (p : RecordPredicate) (lastAfter : String) : String × Option String :=
  match p.unrecordable, p.outcome with
  | some _, _ => ("", none)
  | none, none => (lastAfter, none)
  | none, some o =>
    if o.pointer.after = "" then (lastAfter, none)
    else if lastAfter ≠ "" && o.pointer.before ≠ lastAfter then
      (o.pointer.after,
        some ("seq " ++ toString p.chain.seq ++ " moved the Stage from " ++
          short o.pointer.before ++ ", but the change before it left " ++ short lastAfter ++
          ": something moved it with no record"))
    else (o.pointer.after, none)

/-- A stream's records in seq order, its head and everything wrong with it. -/
structure Fold where
  records : List StoredRecord
  head : String
  problems : List String
  deriving DecidableEq, Repr

/-- What the loop of `foldStream` carries from one record to the next. -/
structure FoldState where
  prev : Option StoredRecord := none
  lastAfter : String := ""
  lastSeq : Int := 0
  head : String := ""
  problems : List String := []
  deriving DecidableEq, Repr

/-- Where the chain breaks at `r`, if it does. -/
def chainProblem (f : FoldState) (r : StoredRecord) : Option String :=
  let p := r.predicate
  if f.lastSeq + 1 < r.seq then
    some (seqRange (f.lastSeq + 1) (r.seq - 1) ++ " missing: the registry holds no record for them")
  else
    match f.prev with
    | some prev =>
      if p.chain.parent ≠ prev.id then
        some ("the record at seq " ++ toString r.seq ++ " does not chain from " ++ short prev.id ++
          " at seq " ++ toString f.lastSeq)
      else none
    | none =>
      if r.seq = 1 && p.chain.parent ≠ "" then
        some ("the record at seq 1 names a parent, " ++ p.chain.parent ++
          ", so older history is missing")
      else none

def gapProblem (r : StoredRecord) : Option String :=
  r.predicate.gap.map fun n =>
    "seq " ++ toString r.seq ++ " is a gap: the operation with local seq " ++ toString n ++
      " was gone before it was recorded"

def foldStep (f : FoldState) (r : StoredRecord) : FoldState :=
  match f.prev with
  | some prev =>
    if r.seq = f.lastSeq then
      { f with
        problems := f.problems ++
          ["seq " ++ toString r.seq ++ " has two records, " ++ short prev.id ++ " and " ++
            short r.id ++ ": the stream forked"] }
    else next
  | none => next
where
  /-- The turn on a record that does not repeat the seq before it. -/
  next : FoldState :=
    let (after, hidden) := checkMove r.predicate f.lastAfter
    { prev := some r
      lastAfter := after
      lastSeq := r.seq
      head := r.id
      problems := f.problems ++ (chainProblem f r).toList ++ (gapProblem r).toList ++ hidden.toList }

def foldStream (recs : List StoredRecord) : Fold :=
  let sorted := recs.insertionSort StoredRecord.before
  let f := sorted.foldl foldStep {}
  { records := sorted, head := f.head, problems := f.problems }

/-! ## Reading a stream that grew -/

/-- The loop of `foldStream` on records already in order. -/
def foldRecords (sorted : List StoredRecord) : FoldState := sorted.foldl foldStep {}

theorem foldStream_problems (recs : List StoredRecord) :
    (foldStream recs).problems = (foldRecords (foldStream recs).records).problems :=
  rfl

theorem mem_foldStream_records {recs : List StoredRecord} {r : StoredRecord} :
    r ∈ (foldStream recs).records ↔ r ∈ recs :=
  (List.perm_insertionSort _ recs).mem_iff

theorem foldStream_records_append_newest
    {recs : List StoredRecord} {r : StoredRecord} (h : ∀ x ∈ recs, x.seq < r.seq) :
    (foldStream (recs ++ [r])).records = (foldStream recs).records ++ [r] :=
  Support.insertionSort_append_singleton _ recs fun x hx => .inl (h x hx)

/-! ## Chains of records -/

/-- The id the record after `recs` names as its parent. -/
def headOf (recs : List StoredRecord) : String := (recs.getLast?.map StoredRecord.id).getD ""

/-- The records are numbered from one and each names the one before it. -/
def Linked (recs : List StoredRecord) : Prop :=
  ∀ l r, l ++ [r] <+: recs → r.seq = (l.length : Int) + 1 ∧ r.predicate.chain.parent = headOf l

theorem Linked.of_prefix {recs l : List StoredRecord} (h : Linked recs) (hl : l <+: recs) :
    Linked l :=
  fun l' r hr => h l' r (hr.trans hl)

theorem Linked.nil : Linked [] := by
  intro l r hr
  simp at hr

theorem Linked.concat {recs : List StoredRecord} (h : Linked recs) {r : StoredRecord}
    (hseq : r.seq = (recs.length : Int) + 1) (hparent : r.predicate.chain.parent = headOf recs) :
    Linked (recs ++ [r]) := by
  intro l x hx
  rcases List.prefix_concat_iff.mp hx with heq | hpre
  · obtain ⟨rfl, hlast⟩ := List.append_inj' heq rfl
    obtain rfl : x = r := by simpa using hlast
    exact ⟨hseq, hparent⟩
  · exact h l x hpre

theorem foldRecords_append (l : List StoredRecord) (r : StoredRecord) :
    foldRecords (l ++ [r]) = foldStep (foldRecords l) r := by
  simp [foldRecords]

/-- What the loop carries after a chain of records. -/
structure FoldState.After (f : FoldState) (recs : List StoredRecord) : Prop where
  prev : f.prev = recs.getLast?
  lastSeq : f.lastSeq = recs.length
  head : f.head = headOf recs

theorem FoldState.After.chainProblem {f : FoldState} {l : List StoredRecord} (h : f.After l)
    {r : StoredRecord} (hseq : r.seq = l.length + 1)
    (hparent : r.predicate.chain.parent = headOf l) : chainProblem f r = none := by
  unfold Delivery.chainProblem
  rw [if_neg (by rw [h.lastSeq, hseq]; omega), h.prev]
  cases hlast : l.getLast? with
  | none =>
    obtain rfl := List.getLast?_eq_none_iff.mp hlast
    simp [hparent, headOf]
  | some prev => simp [hparent, headOf, hlast]

/-- A record that continues the chain is not taken for a fork. -/
theorem FoldState.After.foldStep {f : FoldState} {l : List StoredRecord} (h : f.After l)
    {r : StoredRecord} (hseq : r.seq = l.length + 1) :
    Delivery.foldStep f r =
      { prev := some r
        lastAfter := (checkMove r.predicate f.lastAfter).1
        lastSeq := r.seq
        head := r.id
        problems :=
          f.problems ++ (Delivery.chainProblem f r).toList ++ (gapProblem r).toList ++
            (checkMove r.predicate f.lastAfter).2.toList } := by
  unfold Delivery.foldStep
  split
  · rw [if_neg (by rw [h.lastSeq, hseq]; omega)]
    rfl
  · rfl

/-- The loop of `foldStream` along a chain of records without gaps: what holds of
the records read and the version they leave, and lets the next move follow,
holds at the end, and no problem is reported. -/
theorem foldRecords_of_linked {recs : List StoredRecord} (hlinked : Linked recs)
    (hgap : ∀ r ∈ recs, r.predicate.gap = none) {P : List StoredRecord → String → Prop}
    (hnil : P [] "")
    (hstep : ∀ l r last, l ++ [r] <+: recs → P l last →
      (checkMove r.predicate last).2 = none ∧ P (l ++ [r]) (checkMove r.predicate last).1) :
    (foldRecords recs).After recs ∧ (foldRecords recs).problems = [] ∧
      P recs (foldRecords recs).lastAfter := by
  induction recs using List.reverseRecOn with
  | nil => exact ⟨⟨rfl, rfl, rfl⟩, rfl, hnil⟩
  | append_singleton l r ih =>
    obtain ⟨hafter, hproblems, hP⟩ := ih (hlinked.of_prefix (List.prefix_append l [r]))
      (fun x hx => hgap x (List.mem_append_left _ hx))
      (fun l' x last hpre => hstep l' x last (hpre.trans (List.prefix_append l [r])))
    obtain ⟨hseq, hparent⟩ := hlinked l r List.prefix_rfl
    obtain ⟨hmove, hP'⟩ := hstep l r _ List.prefix_rfl hP
    rw [foldRecords_append, hafter.foldStep hseq, hafter.chainProblem hseq hparent, hproblems,
      hmove, gapProblem, hgap r (by simp)]
    refine ⟨⟨by simp, ?_, by simp [headOf]⟩, rfl, hP'⟩
    simp [hseq]

/-- A chain of records is folded in its own order. -/
theorem Linked.foldStream_records {recs : List StoredRecord} (h : Linked recs) :
    (foldStream recs).records = recs := by
  refine List.Pairwise.insertionSort_eq ?_
  rw [List.pairwise_iff_getElem]
  intro i j hi hj hij
  have hseq : ∀ k (hk : k < recs.length), recs[k].seq = k + 1 := by
    intro k hk
    have hpre : recs.take k ++ [recs[k]] <+: recs := by
      rw [List.take_concat_get']
      exact List.take_prefix _ _
    rw [(h _ _ hpre).1, List.length_take_of_le hk.le]
  left
  rw [hseq i hi, hseq j hj]
  omega

/-! ## Whole streams are chains -/

instance : Std.Total StoredRecord.before where
  total a b := by
    unfold StoredRecord.before
    rcases lt_trichotomy a.seq b.seq with h | h | h
    · exact .inl (.inl h)
    · exact (le_total a.id b.id).imp (fun hid => .inr ⟨h, hid⟩) (fun hid => .inr ⟨h.symm, hid⟩)
    · exact .inr (.inl h)

instance : IsTrans StoredRecord StoredRecord.before where
  trans a b c := by
    rintro (h | ⟨h, hid⟩) (h' | ⟨h', hid'⟩)
    · exact .inl (h.trans h')
    · exact .inl (h' ▸ h)
    · exact .inl (h ▸ h')
    · exact .inr ⟨h.trans h', hid.trans hid'⟩

theorem foldStream_records_sorted (recs : List StoredRecord) :
    (foldStream recs).records.Pairwise fun a b => a.seq ≤ b.seq := by
  refine (List.pairwise_insertionSort StoredRecord.before recs).imp ?_
  rintro a b (h | ⟨h, -⟩)
  · exact h.le
  · exact h.le

/-- Problems are reported and never taken back. -/
theorem foldStep_problems (f : FoldState) (r : StoredRecord) :
    f.problems <+: (foldStep f r).problems := by
  unfold foldStep foldStep.next
  split
  · split
    · exact List.prefix_append _ _
    · simp only [List.append_assoc]
      exact List.prefix_append _ _
  · simp only [List.append_assoc]
    exact List.prefix_append _ _

/-- A record that leaves no problem behind continues the chain. -/
theorem FoldState.After.linked {f : FoldState} {l : List StoredRecord} (h : f.After l)
    {r : StoredRecord} (hnumbered : 1 ≤ r.seq) (hsorted : ∀ x ∈ l, x.seq ≤ r.seq)
    (hlinked : Linked l) (hproblems : (Delivery.foldStep f r).problems = []) :
    r.seq = (l.length : Int) + 1 ∧ r.predicate.chain.parent = headOf l := by
  have hnext : ∀ {g : FoldState}, g = foldStep.next f r → g.problems = [] →
      Delivery.chainProblem f r = none := by
    rintro _ rfl hg
    simp only [foldStep.next, List.append_eq_nil_iff] at hg
    simpa using hg.1.1.2
  rcases List.eq_nil_or_concat' l with rfl | ⟨front, last, rfl⟩
  · have hprev : f.prev = none := by simpa using h.prev
    have hchain := hnext (by simp [Delivery.foldStep, hprev]) hproblems
    have hseq : r.seq = 1 := by
      by_contra hne
      simp [Delivery.chainProblem, h.lastSeq, show 1 < r.seq by omega] at hchain
    refine ⟨by simpa using hseq, ?_⟩
    simpa [Delivery.chainProblem, h.lastSeq, hprev, hseq, headOf] using hchain
  · have hprev : f.prev = some last := by simpa using h.prev
    have hlast : last.seq = f.lastSeq := by
      rw [(hlinked front last List.prefix_rfl).1, h.lastSeq]
      simp
    have hfork : r.seq ≠ f.lastSeq := by
      intro heq
      simp [Delivery.foldStep, hprev, heq] at hproblems
    have hchain := hnext (by simp [Delivery.foldStep, hprev, hfork]) hproblems
    have hle : last.seq ≤ r.seq := hsorted last (by simp)
    have hseq : r.seq = f.lastSeq + 1 := by
      by_contra hne
      simp [Delivery.chainProblem, show f.lastSeq + 1 < r.seq by omega] at hchain
    refine ⟨by rw [hseq, h.lastSeq], ?_⟩
    simpa [Delivery.chainProblem, hseq, hprev, headOf] using hchain

/-- A stream with nothing wrong whose records are numbered from one is a
chain. -/
theorem linked_of_problems {recs : List StoredRecord} (hnumbered : ∀ r ∈ recs, 1 ≤ r.seq)
    (hsorted : recs.Pairwise fun a b => a.seq ≤ b.seq)
    (hproblems : (foldRecords recs).problems = []) :
    Linked recs ∧ (foldRecords recs).After recs := by
  induction recs using List.reverseRecOn with
  | nil => exact ⟨Linked.nil, rfl, rfl, rfl⟩
  | append_singleton l r ih =>
    rw [foldRecords_append] at hproblems ⊢
    rw [List.pairwise_append] at hsorted
    obtain ⟨hlinked, hafter⟩ := ih (fun x hx => hnumbered x (List.mem_append_left _ hx))
      hsorted.1 (List.prefix_nil.mp (hproblems ▸ foldStep_problems _ r))
    obtain ⟨hseq, hparent⟩ := hafter.linked (hnumbered r (by simp))
      (fun x hx => hsorted.2.2 x hx r (by simp)) hlinked hproblems
    refine ⟨hlinked.concat hseq hparent, ?_⟩
    rw [hafter.foldStep hseq]
    exact ⟨by simp, by simp [hseq], by simp [headOf]⟩

/-- The folded records of a whole stream numbered from one are a chain, and its
head is the newest of them. -/
theorem linked_foldStream {recs : List StoredRecord} (hnumbered : ∀ r ∈ recs, 1 ≤ r.seq)
    (hproblems : (foldStream recs).problems = []) :
    Linked (foldStream recs).records ∧ (foldStream recs).head = headOf (foldStream recs).records := by
  obtain ⟨hlinked, hafter⟩ := linked_of_problems
    (fun r hr => hnumbered r (mem_foldStream_records.mp hr)) (foldStream_records_sorted recs)
    hproblems
  exact ⟨hlinked, hafter.head⟩

end Pacto.Delivery
