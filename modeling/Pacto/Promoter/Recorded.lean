import Pacto.Promoter.Chronicle
import Pacto.Promoter.FailedDigest

/-!
# Reading a run's records back

The records of the operations on a Stage, one for each seq from the first on,
are folded by `foldStream` without a problem: each move a record tells starts
where the last told move ended.
-/

namespace Pacto.Promoter

open Delivery Support

variable {r : Reconciler} {s s' : Store}

/-- The records of the Stage's first conclusions: a chain that has the record of
the operation with the local seq `n` at `n`. -/
structure Recorded (s : Store) (recs : List StoredRecord) : Prop where
  linked : Linked recs
  built : ∀ l rec, l ++ [rec] <+: recs → ∃ X cell input, s.ops X = some cell ∧
    cell.latest.status.phase = .concluded ∧ cell.latest.status.seq = (l.length : Int) + 1 ∧
    input.operation = cell.latest.toOperationObject ∧ rec.statement = newOperationRecord input

/-- The version the first `n` records leave, as far as they tell: nothing, the
one the Stage was seeded with, or where the last of the recorded ships went. -/
inductive Tells (s : Store) (seed : Option (Stage × Stage)) (n : Nat) (last : String) : Prop where
  | nothing (hlast : last = "")
  | seeded (w : Stage × Stage) (hw : w ∈ seed) (hlast : last = w.2.status.pointer)
      (hseq : w.2.status.stream.seq ≤ n)
      (hnone : ∀ v ∈ s.ships, ∀ e, s.Given v.2.status.lastOp e → (n : Int) < e.seq)
  | shipped (k : Nat) (w : Stage × Stage) (hw : s.ships[k]? = some w)
      (hlast : last = w.2.status.pointer) (hdone : ∃ e, s.Given w.2.status.lastOp e ∧ e.seq ≤ n)
      (hlater : ∀ j v e, s.ships[j]? = some v → s.Given v.2.status.lastOp e → e.seq ≤ n → j ≤ k)

/-- What the records of a run are read against. -/
structure Told (r : Reconciler) (s : Store) (seed : Option (Stage × Stage)) : Prop where
  inv : Inv r s
  seqs : ExactSeqs s
  holderOpen : HolderOpen s
  movers : Movers s
  chronicle : Chronicle s seed
  pointed : Pointed s

namespace Told

variable {seed : Option (Stage × Stage)} {X : String} {cell : Cell} {e : Concluded}

theorem mem_movers {w : Stage × Stage} (hw : w ∈ s.ships) : w.2.status.lastOp ∈ s.movers :=
  List.mem_map.mpr ⟨w, (List.mem_filter.mp hw).1, rfl⟩

/-- A concluded operation that shipped says so. -/
theorem applied (h : Told r s seed) (hcell : s.ops X = some cell) (he : s.Given X e)
    (hmover : X ∈ s.movers) : cell.latest.status.applied = true := by
  obtain ⟨cell', hcell', hway⟩ := h.movers.noted X hmover
  cases hcell.symm.trans hcell'
  refine hway.resolve_right ?_
  rintro ⟨-, hheld, -⟩
  obtain ⟨_, hholding⟩ := h.holderOpen (by rw [hheld]; exact h.inv.ne_empty hcell)
  rw [hheld] at hholding
  exact hholding.isOpen e he

theorem type_ne (h : Told r s seed) (hcell : s.ops X = some cell)
    (happlied : cell.latest.status.applied = true) : cell.latest.spec.type ≠ .autonomy :=
  ((h.inv.cells X cell hcell).version _ cell.register.latest_mem).started (.inr happlied)

/-- The pointer change a concluded operation is recorded with: none, the seed,
or its own ship. -/
theorem change (h : Told r s seed) (hcell : s.ops X = some cell) (he : s.Given X e)
    (hphase : cell.latest.status.seq = e.seq) :
    (cell.latest.status.pointer.after = "" ∧ ∀ w ∈ s.ships, w.2.status.lastOp ≠ X) ∨
      (∃ w ∈ seed, w.2.status.stream.seq = e.seq ∧
        cell.latest.status.pointer = ⟨w.1.status.pointer, w.2.status.pointer⟩) ∨
      ∃ (k : Nat) (w : Stage × Stage), s.ships[k]? = some w ∧ w.2.status.lastOp = X ∧
        cell.latest.status.pointer = ⟨w.1.status.pointer, w.2.status.pointer⟩ := by
  have hpointed := h.pointed X cell hcell
  by_cases hship : ∃ w ∈ s.ships, w.2.status.lastOp = X
  · obtain ⟨w, hw, rfl⟩ := hship
    have happlied := h.applied hcell he (mem_movers hw)
    obtain ⟨k, hk⟩ := List.mem_iff_getElem?.mp hw
    obtain ⟨cell', hcell', hfrom, hto⟩ := h.chronicle.intended w hw
    cases hcell.symm.trans hcell'
    refine .inr (.inr ⟨k, w, hk, rfl, ?_⟩)
    rw [hpointed.plain (h.type_ne hcell happlied), happlied, hfrom, hto]
    rfl
  · have hnone : ∀ w ∈ s.ships, w.2.status.lastOp ≠ X := fun w hw hX => hship ⟨w, hw, hX⟩
    by_cases htype : cell.latest.spec.type = .autonomy
    · rcases hpointed.level htype with hempty | ⟨-, w, hw, hne, hafter, hbefore, hpointer⟩
      · exact .inl ⟨hempty, hnone⟩
      by_cases hempty : w.2.status.pointer = ""
      · exact .inl ⟨by rw [hpointer]; exact hempty, hnone⟩
      -- The level change gave the Stage a version, and moves take no seq.
      have hpath : w ∈ s.path :=
        List.mem_filter.mpr ⟨hw, by simp [hempty, Ne.symm hne]⟩
      rw [h.chronicle.parts, List.mem_append] at hpath
      rcases hpath with hseed | hmove
      · exact .inr (.inl ⟨w, by simpa using hseed, hafter.trans hphase, hpointer⟩)
      · have hapart := h.chronicle.apart w (List.mem_filter.mp hmove).1
        omega
    · left
      refine ⟨?_, hnone⟩
      rw [hpointed.plain htype]
      cases happlied : cell.latest.status.applied with
      | false => rfl
      | true =>
        have hmoved := ((h.inv.cells X cell hcell).version _ cell.register.latest_mem).moved happlied
        have hmover := (h.movers.listed X (h.inv.ne_empty hcell)).mp hmoved
        obtain ⟨w, hw, hX⟩ := List.mem_map.mp hmover
        obtain ⟨cell', hcell', hto⟩ := h.chronicle.target w hw
        rw [hX] at hcell'
        cases hcell.symm.trans hcell'
        by_contra hne
        refine hnone w (List.mem_filter.mpr ⟨hw, ?_⟩) hX
        rw [hto]
        simpa using hne

/-- The next ship to be recorded starts where the last one went. -/
theorem connects (h : Told r s seed) {n k : Nat} {last : String} {w : Stage × Stage}
    (htells : Tells s seed n last) (hw : s.ships[k]? = some w) (he : s.Given w.2.status.lastOp e)
    (hseq : e.seq = (n : Int) + 1) : last = "" ∨ w.1.status.pointer = last := by
  have hpath := h.chronicle.connected
  rw [h.chronicle.parts] at hpath
  obtain ⟨hk, hget⟩ := List.getElem?_eq_some_iff.mp hw
  -- Ships before this one were recorded before it.
  have hbefore : ∀ j (hj : j < k), ∃ e', s.Given (s.ships[j]).2.status.lastOp e' ∧ e'.seq ≤ n := by
    intro j hj
    obtain ⟨e', he', hlt⟩ := List.pairwise_iff_getElem.mp h.chronicle.ordered j k (hj.trans hk) hk hj e
      (by rw [hget]; exact he)
    exact ⟨e', he', by omega⟩
  cases htells with
  | nothing hlast => exact .inl hlast
  | seeded v hv hlast hseq' hnone =>
    right
    obtain rfl : k = 0 := by
      by_contra hpos
      obtain ⟨e', he', hle⟩ := hbefore 0 (by omega)
      have hlt := hnone _ (List.getElem_mem _) e' he'
      omega
    obtain ⟨rest, hrest⟩ : ∃ rest, s.ships = w :: rest := by
      cases hships : s.ships with
      | nil =>
        rw [hships] at hw
        cases hw
      | cons x rest =>
        rw [hships] at hw
        exact ⟨rest, by rw [Option.some.inj hw]⟩
    have hseed : seed = some v := hv
    rw [hrest, hseed] at hpath
    rw [hlast]
    exact (List.isChain_cons_cons.mp hpath).1.symm
  | shipped j v hv hlast hdone hlater =>
    right
    obtain ⟨hj, hgetj⟩ := List.getElem?_eq_some_iff.mp hv
    have hjk : j + 1 = k := by
      by_contra hne
      rcases Nat.lt_or_ge j k with hlt | hge
      · obtain ⟨e', he', hle⟩ := hbefore (j + 1) (by omega)
        have hle' := hlater (j + 1) _ e' (List.getElem?_eq_getElem _) he' hle
        omega
      · obtain ⟨e', he', hle⟩ := hdone
        rcases Nat.eq_or_lt_of_le hge with rfl | hlt
        · cases hw.symm.trans hv
          have hsame := (h.seqs.once _ e e' he he').1
          omega
        · obtain ⟨e'', he'', hlt'⟩ := List.pairwise_iff_getElem.mp h.chronicle.ordered k j hk hj hlt e'
            (by rw [hgetj]; exact he')
          rw [hget] at he''
          have hsame := (h.seqs.once _ e e'' he he'').1
          omega
    subst hjk
    have hships := (List.isChain_append.mp hpath).2.1
    have hlink := List.isChain_iff_getElem.mp hships j hk
    rw [hgetj, hget] at hlink
    rw [hlast, hlink]

/-- One more record. -/
theorem step (h : Told r s seed) {n : Nat} {last : String} (htells : Tells s seed n last)
    (hcell : s.ops X = some cell) (he : s.Given X e) (hstatus : cell.latest.status.seq = e.seq)
    (hseq : e.seq = (n : Int) + 1) {p : RecordPredicate} (hrecord : p.unrecordable = none)
    (houtcome : p.outcome.map (·.pointer) = some cell.latest.status.pointer) :
    (checkMove p last).2 = none ∧ Tells s seed (n + 1) (checkMove p last).1 := by
  obtain ⟨o, ho, hpointer⟩ := Option.map_eq_some_iff.mp houtcome
  -- Only one conclusion has this seq.
  have hunique : ∀ Y e', s.Given Y e' → e'.seq ≤ (n : Int) + 1 → Y ≠ X → e'.seq ≤ n := by
    intro Y e' he' hle hne
    by_contra hgt
    exact hne (h.seqs.distinct Y X e' e he' he (by omega))
  rcases h.change hcell he hstatus with ⟨hempty, hnone⟩ | ⟨w, hw, hwseq, hchange⟩ | ⟨k, w, hw, hX, hchange⟩
  · have hmove : checkMove p last = (last, none) := by
      simp [checkMove, hrecord, ho, hpointer, hempty]
    rw [hmove]
    refine ⟨rfl, ?_⟩
    cases htells with
    | nothing hlast => exact .nothing hlast
    | seeded v hv hlast hseq' hlater =>
      refine .seeded v hv hlast (by omega) fun w hw e' he' => ?_
      have hlt := hlater w hw e' he'
      by_contra hle
      have := hunique _ e' he' (by omega) (hnone w hw)
      omega
    | shipped k v hv hlast hdone hlater =>
      obtain ⟨e', he', hle⟩ := hdone
      refine .shipped k v hv hlast ⟨e', he', by omega⟩ fun j w e'' hj he'' hle'' => ?_
      exact hlater j w e'' hj he'' (hunique _ e'' he'' (by omega)
        (hnone w (List.mem_of_getElem? hj)))
  · -- The seed is recorded before every ship.
    have hlast : last = "" := by
      cases htells with
      | nothing hlast => exact hlast
      | seeded v hv _ hseq' =>
        cases hw.symm.trans hv
        omega
      | shipped k v hv _ hdone =>
        obtain ⟨e', he', hle⟩ := hdone
        have hlt := h.chronicle.early w hw v (List.mem_of_getElem? hv) e' he'
        omega
    by_cases hempty : w.2.status.pointer = ""
    · have hmove : checkMove p last = (last, none) := by
        simp [checkMove, hrecord, ho, hpointer, hchange, hempty]
      rw [hmove]
      exact ⟨rfl, .nothing hlast⟩
    · have hmove : checkMove p last = (w.2.status.pointer, none) := by
        simp [checkMove, hrecord, ho, hpointer, hchange, hempty, hlast]
      rw [hmove]
      refine ⟨rfl, .seeded w hw rfl (by omega) fun v hv e' he' => ?_⟩
      have hlt := h.chronicle.early w hw v hv e' he'
      omega
  · subst hX
    have hne : w.2.status.pointer ≠ "" := by
      simpa using (List.mem_filter.mp (List.mem_of_getElem? hw)).2
    have hmove : checkMove p last = (w.2.status.pointer, none) := by
      rcases h.connects htells hw he hseq with hlast | hlast
      · simp [checkMove, hrecord, ho, hpointer, hchange, hne, hlast]
      · simp [checkMove, hrecord, ho, hpointer, hchange, hne, ← hlast]
    rw [hmove]
    refine ⟨rfl, .shipped k w hw rfl ⟨e, he, by omega⟩ fun j v e' hj he' hle => ?_⟩
    by_contra hlt
    obtain ⟨hk, hget⟩ := List.getElem?_eq_some_iff.mp hw
    obtain ⟨hj', hgetj⟩ := List.getElem?_eq_some_iff.mp hj
    obtain ⟨e'', he'', hlt'⟩ := List.pairwise_iff_getElem.mp h.chronicle.ordered k j hk hj' (by omega) e'
      (by rw [hgetj]; exact he')
    rw [hget] at he''
    have hsame := (h.seqs.once _ e e'' he he'').1
    omega

theorem problems (h : Told r s seed) {recs : List StoredRecord} (hrecs : Recorded s recs) :
    (foldStream recs).problems = [] := by
  have hpredicate : ∀ l rec, l ++ [rec] <+: recs → ∃ X cell, s.ops X = some cell ∧
      cell.latest.status.phase = .concluded ∧ cell.latest.status.seq = (l.length : Int) + 1 ∧
      rec.predicate.gap = none ∧ rec.predicate.unrecordable = none ∧
      rec.predicate.outcome.map (·.pointer) = some cell.latest.status.pointer := by
    intro l rec hpre
    obtain ⟨X, cell, input, hcell, hphase, hseq, hinput, hrec⟩ := hrecs.built l rec hpre
    refine ⟨X, cell, hcell, hphase, hseq, ?_, ?_, ?_⟩
    · rw [StoredRecord.predicate, hrec]
      rfl
    · rw [StoredRecord.predicate, hrec]
      rfl
    · rw [StoredRecord.predicate, hrec]
      simp only [newOperationRecord, statement, Option.map_some, hinput]
  have hgap : ∀ rec ∈ recs, rec.predicate.gap = none := by
    intro rec hrec
    obtain ⟨i, hi, rfl⟩ := List.getElem_of_mem hrec
    have hpre : recs.take i ++ [recs[i]] <+: recs := by
      rw [List.take_concat_get']
      exact List.take_prefix _ _
    obtain ⟨_, _, _, _, _, hgap, _⟩ := hpredicate _ _ hpre
    exact hgap
  rw [foldStream_problems, hrecs.linked.foldStream_records]
  refine (foldRecords_of_linked (P := fun l last => Tells s seed l.length last) hrecs.linked hgap
    (.nothing rfl) fun l rec last hpre htells => ?_).2.1
  obtain ⟨X, cell, hcell, hphase, hseq, -, hunrecordable, houtcome⟩ := hpredicate l rec hpre
  obtain ⟨e, he, heseq, -⟩ := h.seqs.written X cell hcell _ cell.register.latest_mem hphase
  have hstatus : cell.latest.status.seq = e.seq := heseq
  rw [List.length_append, List.length_singleton]
  exact h.step htells hcell he hstatus (hstatus.symm.trans hseq) hunrecordable houtcome

end Told

/-- What the runs are asked for: no concluded operation takes the lock again, no
move is left without its status write, status writes are timely, a Stage is
seeded with a version once, and operations that shipped conclude in order. -/
structure Legible (s s' : Store) : Prop where
  retired : Retired s s'
  noted : Noted s s'
  timely : Timely s s'
  seedsOnce : SeedsOnce s s'
  queued : Queued s s'

instance (s s' : Store) : Decidable (Legible s s') :=
  decidable_of_iff
    (Retired s s' ∧ Noted s s' ∧ Timely s s' ∧ SeedsOnce s s' ∧ Queued s s')
    ⟨fun h => ⟨h.1, h.2.1, h.2.2.1, h.2.2.2.1, h.2.2.2.2⟩,
      fun h => ⟨h.retired, h.noted, h.timely, h.seedsOnce, h.queued⟩⟩

/-- In every legible run the records of the Stage's first conclusions, as many as
are concluded, read as one untampered history. -/
theorem no_problems_of_legible {metadata : ObjectMeta} {spec : StageSpec}
    {σ : System.Config api String} (hrun : r.Runs Legible metadata spec σ)
    {recs : List StoredRecord} (hrecs : Recorded σ.shared recs) :
    (foldStream recs).problems = [] := by
  obtain ⟨hinv, ⟨hopen, hwritten, hmovers, hwaiting⟩, hdistinct, hpointed, seed, hchronicle⟩ :=
    runs_keep (P := fun s => (HolderOpen s ∧ Written s ∧ Movers s ∧ Waiting s) ∧ Distinct s ∧
        Pointed s ∧ ∃ seed, Chronicle s seed) hrun
      ⟨⟨.fresh metadata spec, .fresh metadata spec, .fresh metadata spec, .fresh metadata spec⟩,
        ⟨[], .fresh metadata spec, List.nodup_nil⟩, .fresh metadata spec, none,
        .fresh metadata spec⟩
      fun s s' hinv ⟨⟨hopen, hwritten, hmovers, hwaiting⟩, hdistinct, hpointed, seed, hchronicle⟩
          hlegible hstep => by
        obtain ⟨log, hledger, -⟩ := id hdistinct
        exact ⟨⟨hopen.step hlegible.retired hstep, hwritten.step hstep,
            hmovers.step hinv hopen hwritten hlegible.noted hstep, hwaiting.step hstep⟩,
          hdistinct.step hlegible.timely hstep,
          hpointed.step hinv hledger hlegible.timely hstep,
          hchronicle.step hinv hledger hopen hmovers hwaiting hlegible.seedsOnce hlegible.queued
            hstep⟩
  exact Told.problems ⟨hinv, hdistinct.exactSeqs hwritten, hopen, hmovers, hchronicle, hpointed⟩ hrecs

/-! ## Records built by hand -/

namespace Recorded

theorem nil : Recorded s [] := by
  refine ⟨.nil, fun l rec hpre => ?_⟩
  simp at hpre

theorem concat {recs : List StoredRecord} (h : Recorded s recs) {X : String} {cell : Cell}
    (hcell : s.ops X = some cell) (hphase : cell.latest.status.phase = .concluded)
    (hseq : cell.latest.status.seq = (recs.length : Int) + 1) (id : String) (input : RecordInput)
    (hinput : input.operation = cell.latest.toOperationObject)
    (hchain : input.chain.seq = (recs.length : Int) + 1 ∧ input.chain.parent = headOf recs) :
    Recorded s (recs ++ [{ id := id, statement := newOperationRecord input }]) := by
  refine ⟨h.linked.concat hchain.1 hchain.2, fun l rec hpre => ?_⟩
  rcases List.prefix_concat_iff.mp hpre with heq | hold
  · obtain ⟨rfl, hlast⟩ := List.append_inj' heq rfl
    obtain rfl : rec = { id := id, statement := newOperationRecord input } := by simpa using hlast
    exact ⟨X, cell, input, hcell, hphase, hseq, hinput, rfl⟩
  · exact h.built l rec hold

end Recorded

/-- The record of `X` after `recs`, under the uid as its id, if `X` has the next
seq. -/
def Store.recordNext (s : Store) (recs : List StoredRecord) (X : String) : List StoredRecord :=
  match s.ops X with
  | some cell =>
    if cell.latest.status.phase = .concluded ∧ cell.latest.status.seq = (recs.length : Int) + 1 then
      recs ++
        [{ id := X
           statement := newOperationRecord
            { stage := s.stage.latest.toStageObject
              operation := cell.latest.toOperationObject
              chain := { stream := "", seq := recs.length + 1, parent := headOf recs } } }]
    else recs
  | none => recs

theorem Recorded.recordNext {recs : List StoredRecord} (h : Recorded s recs) (X : String) :
    Recorded s (s.recordNext recs X) := by
  unfold Store.recordNext
  split
  · split
    · rename_i cell hcell hconcluded
      exact h.concat hcell hconcluded.1 hconcluded.2 X _ rfl ⟨rfl, rfl⟩
    · exact h
  · exact h

theorem recorded_foldl (s : Store) (order : List String) :
    Recorded s (order.foldl s.recordNext []) :=
  List.foldlRecOn order s.recordNext .nil fun _ h X _ => h.recordNext X

/-- Two promotes, one after the other. -/
theorem no_problems_agentPromotes :
    ∃ σ recs, quietReconciler.Runs Legible quietStage autonomousStage σ ∧
      Recorded σ.shared recs ∧ recs.length = 2 ∧ (foldStream recs).problems = [] := by
  obtain ⟨σ, hrun, hend⟩ := quietReconciler.exists_run Legible quietStage autonomousStage
    (agentVerifies ++ quietReconciler.reconciles "p2" (List.replicate 8 (shipping {} 'b')))
    (fun s => (["p1", "p2"].foldl s.recordNext []).length) 2 (by decide +kernel)
  have hrecs := recorded_foldl σ.shared ["p1", "p2"]
  exact ⟨σ, _, hrun, hrecs, hend, no_problems_of_legible hrun hrecs⟩

/-- A person rolls the second promote back while it is verified, and the rollback
concludes first. -/
def overtakenPromote : List (System.Event quietReconciler.system) :=
  agentVerifies ++
    quietReconciler.starts "r1"
      (moveOf .rollback person { «from» := digestOf 'b', «to» := digestOf 'a', undoes := "p2" }) 7 9
      (shipping (shopRevision 'b') 'a') ++
    quietReconciler.reconciles "r1" (List.replicate 10 (shipping {} 'a')) ++
    quietReconciler.acts [.showOp "r1", .showOp "r1"] ++
    quietReconciler.reconciles "r1" (List.replicate 8 (shipping {} 'a')) ++
    quietReconciler.reconciles "p2" (List.replicate 8 {})

/-- The rollback is recorded as a move from a version the records before it did
not leave. -/
theorem problems_overtakenPromote :
    ∃ σ recs, quietReconciler.Runs (fun _ _ => True) quietStage autonomousStage σ ∧
      Recorded σ.shared recs ∧ recs.length = 3 ∧ (foldStream recs).problems ≠ [] := by
  obtain ⟨σ, hrun, hend⟩ := quietReconciler.exists_run (fun _ _ => True) quietStage autonomousStage
    overtakenPromote
    (fun s => ((["p1", "r1", "p2"].foldl s.recordNext []).length,
      (foldStream (["p1", "r1", "p2"].foldl s.recordNext [])).problems.isEmpty)) (3, false)
    (by decide +kernel)
  rw [Prod.mk.injEq] at hend
  refine ⟨σ, _, hrun, recorded_foldl σ.shared ["p1", "r1", "p2"], hend.1, fun hnone => ?_⟩
  rw [hnone] at hend
  exact absurd hend.2 (by decide)

end Pacto.Promoter
