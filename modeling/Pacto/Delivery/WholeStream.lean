import Pacto.Delivery.History

/-!
# Whole streams

`foldStream` finds nothing wrong exactly with whole chains: the records carry
the seqs from one on, each names the one before it, none is a gap, and each move
starts where the move before it ended, unless an unrecordable record between the
two hides what it moved.  The order in which a registry lists the records plays
no part.
-/

namespace Pacto.Delivery

variable {recs l front mid rest : List StoredRecord} {r a b : StoredRecord} {c d : PointerChange}

/-! ## What a record says about the pointer -/

def StoredRecord.hides (r : StoredRecord) : Bool := r.predicate.unrecordable.isSome

def StoredRecord.move (r : StoredRecord) : Option PointerChange :=
  if r.hides then none
  else (r.predicate.outcome.map (·.pointer)).filter fun c => c.after ≠ ""

/-- A record that neither moves the pointer nor hides a move. -/
def StoredRecord.Quiet (r : StoredRecord) : Prop := r.move = none ∧ r.hides = false

theorem StoredRecord.after_ne_of_move (h : r.move = some c) : c.after ≠ "" := by
  unfold StoredRecord.move at h
  split at h
  · cases h
  · rw [Option.filter_eq_some_iff] at h
    simpa using h.2

/-- `checkMove` forgets the version at a record that hides its move, keeps it at
a quiet one and compares it with where a move starts. -/
theorem checkMove_cases (r : StoredRecord) (last : String) :
    (r.hides = true ∧ checkMove r.predicate last = ("", none)) ∨
      (r.Quiet ∧ checkMove r.predicate last = (last, none)) ∨
        ∃ c, r.move = some c ∧ (checkMove r.predicate last).1 = c.after ∧
          ((checkMove r.predicate last).2 = none ↔ last = "" ∨ c.before = last) := by
  cases hhides : r.predicate.unrecordable with
  | some refusal =>
    left
    simp [StoredRecord.hides, checkMove, hhides]
  | none =>
    right
    cases hout : r.predicate.outcome with
    | none =>
      left
      simp [StoredRecord.Quiet, StoredRecord.move, StoredRecord.hides, checkMove, hhides, hout]
    | some o =>
      by_cases hafter : o.pointer.after = ""
      · left
        simp [StoredRecord.Quiet, StoredRecord.move, StoredRecord.hides, checkMove, hhides,
          hout, hafter]
      · right
        refine ⟨o.pointer, ?_, ?_, ?_⟩
        · simp [StoredRecord.move, StoredRecord.hides, hhides, hout, hafter, Option.filter]
        · simp only [checkMove, hhides, hout, hafter, if_false]
          split <;> rfl
        · simp only [checkMove, hhides, hout, hafter, if_false]
          by_cases hlast : last = ""
          · simp [hlast]
          · by_cases hbefore : o.pointer.before = last
            · simp [hbefore]
            · simp [hlast, hbefore]

/-! ## The version a stream leaves -/

def versionLeft (recs : List StoredRecord) : String :=
  recs.foldl (fun last r => (checkMove r.predicate last).1) ""

theorem versionLeft_concat (l : List StoredRecord) (r : StoredRecord) :
    versionLeft (l ++ [r]) = (checkMove r.predicate (versionLeft l)).1 := by
  simp [versionLeft]

/-- Quiet records leave the version of the move before them. -/
theorem versionLeft_of_move (hmove : a.move = some c) (hquiet : ∀ r ∈ mid, r.Quiet) :
    versionLeft (front ++ a :: mid) = c.after := by
  induction mid using List.reverseRecOn with
  | nil =>
    rw [versionLeft_concat]
    rcases checkMove_cases a (versionLeft front) with ⟨hhides, -⟩ | ⟨hnone, -⟩ | ⟨c', hc', hafter, -⟩
    · simp [StoredRecord.move, hhides] at hmove
    · rw [hnone.1] at hmove
      cases hmove
    · rw [hmove, Option.some.injEq] at hc'
      rw [hafter, hc']
  | append_singleton mid r ih =>
    have hr : r.Quiet := hquiet r (by simp)
    rw [← List.cons_append, ← List.append_assoc, versionLeft_concat,
      ih fun x hx => hquiet x (List.mem_append_left _ hx)]
    rcases checkMove_cases r c.after with ⟨hhides, -⟩ | ⟨-, heq⟩ | ⟨c', hc', -⟩
    · rw [hr.2] at hhides
      cases hhides
    · rw [heq]
    · rw [hr.1] at hc'
      cases hc'

/-- A version that is known was left by a move with only quiet records after
it. -/
theorem exists_move_of_versionLeft (h : versionLeft l ≠ "") :
    ∃ front a mid c, l = front ++ a :: mid ∧ a.move = some c ∧ (∀ r ∈ mid, r.Quiet) ∧
      versionLeft l = c.after := by
  induction l using List.reverseRecOn with
  | nil => exact absurd rfl h
  | append_singleton l r ih =>
    rw [versionLeft_concat] at h ⊢
    rcases checkMove_cases r (versionLeft l) with ⟨-, heq⟩ | ⟨hquiet, heq⟩ | ⟨c, hmove, hafter, -⟩
    · rw [heq] at h
      exact absurd rfl h
    · rw [heq] at h ⊢
      obtain ⟨front, a, mid, c, rfl, hmove, hmid, hleft⟩ := ih h
      refine ⟨front, a, mid ++ [r], c, by simp, hmove, ?_, hleft⟩
      intro x hx
      rcases List.mem_append.mp hx with hx | hx
      · exact hmid x hx
      · rw [List.mem_singleton.mp hx]
        exact hquiet
    · exact ⟨l, r, [], c, rfl, hmove, by simp, hafter⟩

/-! ## Whole chains -/

/-- Every move starts from the version the last move before it left, unless a
record between the two hides a move. -/
def MovesMeet (l : List StoredRecord) : Prop :=
  ∀ front a mid b rest c d, l = front ++ a :: (mid ++ b :: rest) → a.move = some c →
    b.move = some d → (∀ r ∈ mid, r.Quiet) → d.before = c.after

/-- The records of a whole stream, in order. -/
structure WholeChain (l : List StoredRecord) : Prop where
  seqs : l.map (·.seq) = (List.range l.length).map fun i : ℕ => (i : Int) + 1
  first : ∀ r rest, l = r :: rest → r.predicate.chain.parent = ""
  links : ∀ front a b rest, l = front ++ a :: b :: rest → b.predicate.chain.parent = a.id
  gapless : ∀ r ∈ l, r.predicate.gap = none
  moves : MovesMeet l

theorem movesMeet_iff :
    MovesMeet l ↔
      ∀ l' r, l' ++ [r] <+: l → (checkMove r.predicate (versionLeft l')).2 = none := by
  constructor
  · rintro h l' r ⟨rest, rfl⟩
    rcases checkMove_cases r (versionLeft l') with ⟨-, heq⟩ | ⟨-, heq⟩ | ⟨d, hd, -, hiff⟩
    · rw [heq]
    · rw [heq]
    · rw [hiff]
      by_cases hleft : versionLeft l' = ""
      · exact .inl hleft
      · obtain ⟨front, a, mid, c, rfl, hc, hquiet, hafter⟩ := exists_move_of_versionLeft hleft
        right
        rw [hafter]
        exact h front a mid r rest c d (by simp) hc hd hquiet
  · rintro h front a mid b rest c d rfl hc hd hquiet
    have hpre : (front ++ a :: mid) ++ [b] <+: front ++ a :: (mid ++ b :: rest) :=
      ⟨rest, by simp⟩
    have hnone := h _ b hpre
    rw [versionLeft_of_move hc hquiet] at hnone
    rcases checkMove_cases b c.after with ⟨hhides, -⟩ | ⟨hq, -⟩ | ⟨d', hd', -, hiff⟩
    · simp [StoredRecord.move, hhides] at hd
    · rw [hq.1] at hd
      cases hd
    · rw [hd, Option.some.injEq] at hd'
      rw [hd']
      exact (hiff.mp hnone).resolve_left (StoredRecord.after_ne_of_move hc)

theorem seq_eq_of_seqs (h : l.map (·.seq) = (List.range l.length).map fun i : ℕ => (i : Int) + 1)
    (hl : l = front ++ r :: rest) : r.seq = front.length + 1 := by
  have hget := congrArg (fun s : List Int => s[front.length]?) h
  simpa [hl] using hget

theorem linked_iff :
    Linked l ↔
      l.map (·.seq) = (List.range l.length).map (fun i : ℕ => (i : Int) + 1) ∧
        (∀ r rest, l = r :: rest → r.predicate.chain.parent = "") ∧
          ∀ front a b rest, l = front ++ a :: b :: rest → b.predicate.chain.parent = a.id := by
  constructor
  · intro h
    refine ⟨?_, ?_, ?_⟩
    · apply List.ext_getElem (by simp)
      intro i hi _
      have hil : i < l.length := by simpa using hi
      have hpre : l.take i ++ [l[i]] <+: l := by
        rw [List.take_concat_get']
        exact List.take_prefix _ _
      simpa [List.length_take_of_le hil.le] using (h _ _ hpre).1
    · rintro r rest rfl
      exact (h [] r ⟨rest, rfl⟩).2
    · rintro front a b rest rfl
      simpa [headOf] using (h (front ++ [a]) b ⟨rest, by simp⟩).2
  · rintro ⟨hseqs, hfirst, hlinks⟩ l' r ⟨rest, hl⟩
    have hl' : l = l' ++ r :: rest := by simp [← hl]
    refine ⟨seq_eq_of_seqs hseqs hl', ?_⟩
    rcases List.eq_nil_or_concat' l' with rfl | ⟨front, a, rfl⟩
    · simpa [headOf] using hfirst r rest (by simpa using hl')
    · simpa [headOf] using hlinks front a r rest (by simpa using hl')

theorem wholeChain_iff : WholeChain l ↔
    Linked l ∧ (∀ r ∈ l, r.predicate.gap = none) ∧
      ∀ l' r, l' ++ [r] <+: l → (checkMove r.predicate (versionLeft l')).2 = none := by
  rw [linked_iff, ← movesMeet_iff]
  exact ⟨fun h => ⟨⟨h.seqs, h.first, h.links⟩, h.gapless, h.moves⟩,
    fun ⟨⟨hseqs, hfirst, hlinks⟩, hgap, hmoves⟩ => ⟨hseqs, hfirst, hlinks, hgap, hmoves⟩⟩

/-! ## What the loop reports -/

/-- Along a whole chain the loop reports nothing. -/
theorem problems_of_wholeChain (h : WholeChain l) : (foldRecords l).problems = [] := by
  obtain ⟨hlinked, hgap, hmoves⟩ := wholeChain_iff.mp h
  refine (foldRecords_of_linked hlinked hgap (P := fun l' last => last = versionLeft l') rfl ?_).2.1
  rintro l' r last hpre rfl
  exact ⟨hmoves l' r hpre, (versionLeft_concat l' r).symm⟩

/-- The loop carries the version left, as long as it reports nothing. -/
theorem lastAfter_foldRecords (hnumbered : ∀ r ∈ l, 1 ≤ r.seq)
    (hsorted : l.Pairwise fun a b => a.seq ≤ b.seq) (hproblems : (foldRecords l).problems = []) :
    (foldRecords l).lastAfter = versionLeft l := by
  induction l using List.reverseRecOn with
  | nil => rfl
  | append_singleton l r ih =>
    obtain ⟨hlinked, -⟩ := linked_of_problems hnumbered hsorted hproblems
    rw [foldRecords_append] at hproblems ⊢
    rw [List.pairwise_append] at hsorted
    have hfront : (foldRecords l).problems = [] :=
      List.prefix_nil.mp (hproblems ▸ foldStep_problems _ r)
    have hnumbered' : ∀ x ∈ l, 1 ≤ x.seq := fun x hx => hnumbered x (List.mem_append_left _ hx)
    obtain ⟨-, hafter⟩ := linked_of_problems hnumbered' hsorted.1 hfront
    rw [hafter.foldStep (hlinked l r List.prefix_rfl).1, versionLeft_concat,
      ih hnumbered' hsorted.1 hfront]

/-- Where the loop reports nothing, a record is no gap and its move meets the
one before. -/
theorem quiet_step {f : FoldState} (hafter : f.After l) (hseq : r.seq = l.length + 1)
    (hproblems : (foldStep f r).problems = []) :
    r.predicate.gap = none ∧ (checkMove r.predicate f.lastAfter).2 = none := by
  rw [hafter.foldStep hseq] at hproblems
  simp only [List.append_eq_nil_iff, Option.toList_eq_nil_iff, gapProblem,
    Option.map_eq_none_iff] at hproblems
  exact ⟨hproblems.1.2, hproblems.2⟩

theorem wholeChain_of_problems (hnumbered : ∀ r ∈ l, 1 ≤ r.seq)
    (hsorted : l.Pairwise fun a b => a.seq ≤ b.seq) (hproblems : (foldRecords l).problems = []) :
    WholeChain l := by
  have hlinked := (linked_of_problems hnumbered hsorted hproblems).1
  have hstep : ∀ l' r, l' ++ [r] <+: l →
      r.predicate.gap = none ∧ (checkMove r.predicate (versionLeft l')).2 = none := by
    rintro l' r ⟨rest, rfl⟩
    -- No problem at the end means none at any earlier point.
    have hprefix : ∀ s t, (foldRecords s).problems <+: (foldRecords (s ++ t)).problems := by
      intro s t
      induction t using List.reverseRecOn with
      | nil => simp
      | append_singleton t x ih =>
        rw [← List.append_assoc, foldRecords_append]
        exact ih.trans (foldStep_problems _ x)
    have hfront : (foldRecords (l' ++ [r])).problems = [] :=
      List.prefix_nil.mp (hproblems ▸ hprefix (l' ++ [r]) rest)
    have hl' : (foldRecords l').problems = [] :=
      List.prefix_nil.mp (hfront ▸ hprefix l' [r])
    have hsorted' : l'.Pairwise fun a b => a.seq ≤ b.seq :=
      hsorted.sublist ((List.prefix_append l' [r]).trans (List.prefix_append _ rest)).sublist
    have hnumbered' : ∀ x ∈ l', 1 ≤ x.seq := fun x hx => hnumbered x (by simp [hx])
    rw [foldRecords_append] at hfront
    rw [← lastAfter_foldRecords hnumbered' hsorted' hl']
    exact quiet_step (linked_of_problems hnumbered' hsorted' hl').2
      (hlinked l' r ⟨rest, rfl⟩).1 hfront
  refine wholeChain_iff.mpr ⟨hlinked, ?_, fun l' r hpre => (hstep l' r hpre).2⟩
  intro r hr
  obtain ⟨front, rest, rfl⟩ := List.append_of_mem hr
  exact (hstep front r ⟨rest, by simp⟩).1

/-! ## Any listing order -/

/-- With distinct ids the order of the records is determined. -/
theorem before_antisymm (hids : (recs.map (·.id)).Nodup) (ha : a ∈ recs) (hb : b ∈ recs)
    (hab : a.before b) (hba : b.before a) : a = b := by
  have hid : a.id = b.id := by
    rcases hab with hab | ⟨hseq, hab⟩
    · rcases hba with hba | ⟨hseq, -⟩ <;> omega
    · rcases hba with hba | ⟨-, hba⟩
      · omega
      · exact le_antisymm hab hba
  exact List.inj_on_of_nodup_map hids ha hb hid

theorem foldStream_perm {recs' : List StoredRecord} (hids : (recs.map (·.id)).Nodup)
    (hperm : recs'.Perm recs) : foldStream recs' = foldStream recs := by
  have hsorted : recs'.insertionSort StoredRecord.before = recs.insertionSort StoredRecord.before := by
    have hp := (List.perm_insertionSort StoredRecord.before recs').trans
      (hperm.trans (List.perm_insertionSort StoredRecord.before recs).symm)
    refine hp.eq_of_pairwise ?_ (List.pairwise_insertionSort _ _) (List.pairwise_insertionSort _ _)
    intro a b ha hb
    exact before_antisymm hids
      (hperm.mem_iff.mp ((List.perm_insertionSort _ recs').mem_iff.mp ha))
      ((List.perm_insertionSort _ recs).mem_iff.mp hb)
  simp only [foldStream, hsorted]

/-- Two listings in order by seq carry the same seqs, so where one counts from
one on they are the same listing. -/
theorem eq_of_sorted_of_seqs {l' : List StoredRecord} (hperm : l'.Perm l)
    (hsorted : l.Pairwise fun a b => a.seq ≤ b.seq)
    (hsorted' : l'.Pairwise fun a b => a.seq ≤ b.seq)
    (hseqs : (l.map (·.seq)).Nodup) : l' = l := by
  refine hperm.eq_of_pairwise ?_ hsorted' hsorted
  intro a b ha hb hab hba
  exact List.inj_on_of_nodup_map hseqs (hperm.mem_iff.mp ha) hb (le_antisymm hab hba)

theorem WholeChain.nodup_seqs (h : WholeChain l) : (l.map (·.seq)).Nodup := by
  rw [h.seqs]
  apply List.Nodup.map _ List.nodup_range
  intro i j hij
  have hint : (i : Int) + 1 = j + 1 := hij
  omega

/-- `FoldStream` accepts exactly the whole chains, in whatever order they are
listed, and its head is then the newest record. -/
theorem foldStream_whole (recs : List StoredRecord) (hids : (recs.map (·.id)).Nodup)
    (hnumbered : ∀ r ∈ recs, 1 ≤ r.seq) :
    (∀ recs', recs'.Perm recs → foldStream recs' = foldStream recs) ∧
      (∀ l, l.Perm recs → (l.Pairwise fun a b => a.seq ≤ b.seq) →
        ((foldStream recs).problems = [] ↔ WholeChain l)) ∧
      ((foldStream recs).problems = [] →
        ∀ r ∈ recs, r.seq = recs.length → (foldStream recs).head = r.id) := by
  have hrecords := List.perm_insertionSort StoredRecord.before recs
  have hnumbered' : ∀ r ∈ (foldStream recs).records, 1 ≤ r.seq :=
    fun r hr => hnumbered r (mem_foldStream_records.mp hr)
  have hsorted := foldStream_records_sorted recs
  have hwhole : (foldStream recs).problems = [] → WholeChain (foldStream recs).records :=
    fun h => wholeChain_of_problems hnumbered' hsorted h
  refine ⟨fun recs' => foldStream_perm hids, ?_, ?_⟩
  · intro l hperm hl
    have hsame : l.Perm (foldStream recs).records := hperm.trans hrecords.symm
    constructor
    · intro h
      rw [eq_of_sorted_of_seqs hsame hsorted hl (hwhole h).nodup_seqs]
      exact hwhole h
    · intro h
      have heq := eq_of_sorted_of_seqs hsame.symm hl hsorted h.nodup_seqs
      rw [foldStream_problems, heq]
      exact problems_of_wholeChain h
  · intro h r hr hseq
    obtain ⟨-, hhead⟩ := linked_foldStream hnumbered h
    have hmem : r ∈ (foldStream recs).records := mem_foldStream_records.mpr hr
    obtain ⟨front, rest, hsplit⟩ := List.append_of_mem hmem
    have hplace := seq_eq_of_seqs (hwhole h).seqs hsplit
    have hlength : (foldStream recs).records.length = recs.length := hrecords.length_eq
    rw [hsplit] at hlength
    have hrest : rest = [] := by
      apply List.eq_nil_of_length_eq_zero
      simp only [List.length_append, List.length_cons] at hlength
      omega
    rw [hhead, hsplit, hrest]
    simp [headOf]

/-- A promotion, an operation that could not be recorded and a promotion after
it, listed out of order. -/
def sampleStream : List StoredRecord :=
  let promoted (id : String) (seq : Int) (parent before after : String) : StoredRecord :=
    { id := id
      statement :=
        { predicate :=
            { kind := .operation, chain := { stream := "c/ns/s", seq := seq, parent := parent }
              outcome := some { pointer := { before := before, after := after } } } } }
  [promoted "3" 3 "2" "B" "C", promoted "1" 1 "" "" "A",
    { id := "2"
      statement :=
        { predicate :=
            { kind := .unrecordable, chain := { stream := "c/ns/s", seq := 2, parent := "1" }
              unrecordable := some ⟨"approval", "refused"⟩ } } }]

theorem foldStream_whole_sample :
    (foldStream sampleStream).problems = [] ∧ (foldStream sampleStream).head = "3" ∧
      ∀ recs', recs'.Perm sampleStream → foldStream recs' = foldStream sampleStream :=
  have h := foldStream_whole sampleStream (by decide) (by decide)
  ⟨by decide +kernel, by decide +kernel, h.1⟩

end Pacto.Delivery
