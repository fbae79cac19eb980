import Pacto.Delivery.Effects
import Pacto.Delivery.Upstream

/-!
# The remote view and the Stage agree

The promoter keeps what a Stage verified, offered and failed in its status,
and a follower in another cluster rebuilds the same three memories from the
records of what was concluded.  For promotes and rollbacks nobody raised on a
verdict the two agree after every sequence of conclusions.
-/

namespace Pacto.Delivery

/-- One concluded promote or rollback with the id of its record.  It ships a
version, it was raised on no verdict, and its status says how it ended. -/
structure Shipment where
  id : String
  input : RecordInput
  conclusion : Conclusion
  type : input.operation.spec.type = .promote ∨ input.operation.spec.type = .rollback
  ships : input.operation.spec.params.to ≠ ""
  unprompted : ∀ cause, input.operation.spec.cause = some cause → cause.verdict = none
  outcome : input.operation.status.outcome = some conclusion.outcome
  verification : input.operation.status.verification = conclusion.verification

namespace Shipment

def record (x : Shipment) : StoredRecord :=
  { id := x.id, statement := newOperationRecord x.input }

def conclude (s : StageStatus) (x : Shipment) : StageStatus :=
  let op := x.input.operation
  applyEffects s op.metadata.name op.metadata.uid op.spec op.status x.conclusion

end Shipment

/-- The two Stages remember the same versions. -/
structure SameMemories (s s' : StageStatus) : Prop where
  verified : s'.verified = s.verified
  offered : s'.offered = s.offered
  failedDigests : s'.failedDigests = s.failedDigests

theorem SameMemories.trans {s s' s'' : StageStatus} (h : SameMemories s s')
    (h' : SameMemories s' s'') : SameMemories s s'' :=
  ⟨h'.verified.trans h.verified, h'.offered.trans h.offered,
    h'.failedDigests.trans h.failedDigests⟩

theorem SameMemories.symm {s s' : StageStatus} (h : SameMemories s s') : SameMemories s' s :=
  ⟨h.verified.symm, h.offered.symm, h.failedDigests.symm⟩

/-! ## One conclusion -/

section Step

variable (s : StageStatus) (name uid : String) (spec : OperationSpec) (st : OperationStatus)
  (c : Conclusion)

theorem autoHoldEffect_sameMemories : SameMemories s (autoHoldEffect s spec st) := by
  unfold autoHoldEffect
  split_ifs <;> exact ⟨rfl, rfl, rfl⟩

theorem freezeEffect_sameMemories : SameMemories s (freezeEffect name c s) := by
  unfold freezeEffect
  split <;> exact ⟨rfl, rfl, rfl⟩

theorem failed_sameMemories : SameMemories s (failed s uid spec st c).1 := by
  unfold failed
  split_ifs <;> exact ⟨rfl, rfl, rfl⟩

theorem foldOutcome_sameMemories {s s' : StageStatus} (h : SameMemories s s') (type : TypeID)
    (d : String) (verdicts : List Verdict) (o : RecordOutcome) :
    SameMemories (foldOutcome s type d verdicts o) (foldOutcome s' type d verdicts o) := by
  have hverified := h.verified
  have hoffered := h.offered
  have hfailed := h.failedDigests
  unfold foldOutcome failUpstream
  split
  · exact h
  · split
    · dsimp only
      split_ifs <;> exact ⟨by simp [hverified], by simp [hoffered], by simp [hfailed]⟩
    · exact ⟨by simp [hverified], by simp [hoffered], by simp [hfailed]⟩
    · exact h

/-- A promote or rollback that succeeds is remembered as a follower remembers
its record. -/
theorem succeeded_sameMemories (htype : spec.type = .promote ∨ spec.type = .rollback)
    (hto : spec.params.to ≠ "") (o : RecordOutcome) (hresult : o.result = some .succeeded)
    (hverification : o.verification = c.verification) :
    SameMemories (foldOutcome s spec.type spec.params.to st.verdicts o)
      (succeeded s name spec st c) := by
  unfold foldOutcome succeeded
  simp only [hto, if_false, hresult, hverification]
  by_cases hverified : c.verification = some .verified
  · simp only [hverified, ne_eq, not_true_eq_false, if_false, if_true]
    rcases htype with htype | htype <;> simp only [htype] <;> exact ⟨rfl, rfl, rfl⟩
  · simp only [hverified, ne_eq, not_false_eq_true, if_true, if_false]
    rcases htype with htype | htype <;> simp only [htype] <;> exact ⟨rfl, rfl, rfl⟩

/-- What a conclusion makes a Stage remember is what its outcome makes a
follower remember. -/
theorem applyEffects_sameMemories (htype : spec.type = .promote ∨ spec.type = .rollback)
    (hto : spec.params.to ≠ "") (o : RecordOutcome) (hresult : o.result = some c.outcome)
    (hverification : o.verification = c.verification) :
    SameMemories (foldOutcome s spec.type spec.params.to st.verdicts o)
      (applyEffects s name uid spec st c) := by
  have hauto := foldOutcome_sameMemories (autoHoldEffect_sameMemories s spec st) spec.type
    spec.params.to st.verdicts o
  by_cases hs : c.outcome = .succeeded
  · rw [applyEffects_succeeded s name uid spec st c hs]
    rw [hs] at hresult
    exact (hauto.trans (succeeded_sameMemories _ name spec st c htype hto o hresult
      hverification)).trans (freezeEffect_sameMemories _ name c)
  · by_cases hf : c.outcome = .failed
    · rw [applyEffects_failed s name uid spec st c hf]
      refine (hauto.trans ?_).trans
        ((failed_sameMemories _ uid spec st c).trans (freezeEffect_sameMemories _ name _))
      simp only [foldOutcome, hto, if_false, hresult, hf]
      exact ⟨rfl, rfl, rfl⟩
    · obtain ⟨c', hc'⟩ := applyEffects_other s name uid spec st c hs hf
      rw [hc']
      refine (hauto.trans ?_).trans (freezeEffect_sameMemories _ name c')
      have hsame : foldOutcome (autoHoldEffect s spec st) spec.type spec.params.to st.verdicts o =
          autoHoldEffect s spec st := by
        simp only [foldOutcome, hto, if_false, hresult]
        split <;> simp_all
      rw [hsame]
      exact ⟨rfl, rfl, rfl⟩

end Step

/-! ## The records of a sequence -/

namespace Shipment

variable (x : Shipment)

theorem record_type : ∃ version, x.record.predicate.type =
    some { id := x.input.operation.spec.type, version := version } := by
  rcases x.type with h | h <;>
    exact ⟨_, by simp only [record, StoredRecord.predicate, newOperationRecord, statement, h]; rfl⟩

theorem record_failedCause : failedCause x.record.predicate = false := by
  obtain ⟨version, htype⟩ := x.record_type
  have hparams : x.record.predicate.intent.params = some x.input.operation.spec.params := rfl
  have hcause : x.record.predicate.intent.cause = x.input.operation.spec.cause := rfl
  simp only [failedCause, htype, hparams, hcause]
  cases hspec : x.input.operation.spec.cause with
  | none => rfl
  | some cause =>
    have hverdict := x.unprompted cause hspec
    obtain ⟨operation, verdict⟩ := cause
    simp only at hverdict
    rw [hverdict]

/-- A follower reads the outcome of the record. -/
theorem foldUpstream_record (s : StageStatus) : ∃ o : RecordOutcome,
    o.result = some x.conclusion.outcome ∧ o.verification = x.conclusion.verification ∧
      foldUpstream s x.record.predicate = foldOutcome s x.input.operation.spec.type
        x.input.operation.spec.params.to x.input.operation.status.verdicts o := by
  obtain ⟨version, htype⟩ := x.record_type
  have hkind : x.record.predicate.kind = .operation := rfl
  have hparams : x.record.predicate.intent.params = some x.input.operation.spec.params := rfl
  obtain ⟨o, ho, hresult, hverification⟩ : ∃ o, x.record.predicate.outcome = some o ∧
      o.result = x.input.operation.status.outcome ∧
      o.verification = x.input.operation.status.verification := ⟨_, rfl, rfl, rfl⟩
  refine ⟨o, hresult.trans x.outcome, hverification.trans x.verification, ?_⟩
  simp only [foldUpstream, htype, hparams, ho, hkind, x.record_failedCause, ne_eq,
    not_true_eq_false, if_false, Bool.false_eq_true]
  rfl

/-- One conclusion keeps the two views together. -/
theorem sameMemories_step {s s' : StageStatus} (h : SameMemories s s') :
    SameMemories (x.conclude s) (readUpstream s' x.record) := by
  obtain ⟨o, hresult, hverification, hfold⟩ := x.foldUpstream_record s'
  have hread : SameMemories (foldUpstream s' x.record.predicate) (readUpstream s' x.record) :=
    ⟨rfl, rfl, rfl⟩
  refine SameMemories.trans ?_ hread
  rw [hfold]
  exact (applyEffects_sameMemories s _ _ _ _ x.conclusion x.type x.ships o hresult
    hverification).symm.trans (foldOutcome_sameMemories h _ _ _ o)

/-- A whole run keeps the two views together. -/
theorem sameMemories_foldl (xs : List Shipment) {s s' : StageStatus} (h : SameMemories s s') :
    SameMemories (xs.foldl conclude s) ((xs.map record).foldl readUpstream s') := by
  induction xs generalizing s s' with
  | nil => exact h
  | cons x xs ih => exact ih (x.sameMemories_step h)

end Shipment

/-! ## Agreement -/

/-- A follower that reads the records of a sequence of promotes and rollbacks,
chained in order and whole, remembers what the Stage remembers. -/
theorem upstreamFromRecords_agrees (xs : List Shipment) (acked : List String)
    (hlinked : Linked (xs.map Shipment.record))
    (hwhole : (foldStream (xs.map Shipment.record)).problems = []) :
    ∃ s, upstreamFromRecords (xs.map Shipment.record) {} acked = .ok s ∧
      SameMemories (xs.foldl Shipment.conclude {}) s := by
  refine ⟨upstreamView (foldStream (xs.map Shipment.record)), ?_, ?_⟩
  · rw [upstreamFromRecords_eq_ok_iff]
    refine ⟨hwhole, ?_, ?_, rfl⟩
    · refine List.filterMap_eq_nil_iff.mpr fun r hr => ?_
      obtain ⟨x, -, rfl⟩ :=
        List.mem_map.mp (mem_foldStream_records.mp (List.mem_of_mem_filter hr))
      rfl
    · rw [upstreamTruncated_eq_none_iff]
      exact .inr (.inl rfl)
  · have hsame : SameMemories ({} : StageStatus) {} := ⟨rfl, rfl, rfl⟩
    have h := Shipment.sameMemories_foldl xs hsame
    rw [← hlinked.foldStream_records] at h
    exact h.trans ⟨rfl, rfl, rfl⟩

/-- A promote on the Stage `shop` that made `change` and ended as `outcome`,
recorded at `seq` after `parent`. -/
def shopShipment (id parent : String) (seq : Int) (change : PointerChange) (outcome : Outcome)
    (hships : change.after ≠ "") : Shipment where
  id := id
  input :=
    { stage := { metadata := { name := "shop", uid := "stage-1" }, spec := { service := "shop" } }
      operation :=
        { metadata := { name := "op", uid := id }
          spec :=
            { type := .promote, stage := "shop", facet := .pointer
              params := { «from» := change.before, «to» := change.after }
              actor := { user := "ci" } }
          status :=
            { phase := .concluded, outcome := some outcome, verification := some .verified
              verdicts := [{ gate := gatePublished, phase := "pre", result := .pass }]
              pointer := change, applied := true, seq := seq } }
      chain := { stream := "c/ns/shop", seq := seq, parent := parent } }
  conclusion := { outcome := outcome, verification := some .verified }
  type := .inl rfl
  ships := hships
  unprompted := fun _ h => by cases h
  outcome := rfl
  verification := rfl

/-- A version that shipped and one after it that failed. -/
def shopShipments : List Shipment :=
  [shopShipment "r1" "" 1 ⟨"", "sha256:a"⟩ .succeeded (by decide),
    shopShipment "r2" "r1" 2 ⟨"sha256:a", "sha256:b"⟩ .failed (by decide)]

theorem linked_shopShipments : Linked (shopShipments.map Shipment.record) :=
  (Linked.nil.concat rfl rfl).concat rfl rfl

theorem upstreamFromRecords_agrees_shopShipments :
    ∃ s, upstreamFromRecords (shopShipments.map Shipment.record) {} [] = .ok s ∧
      SameMemories (shopShipments.foldl Shipment.conclude {}) s :=
  upstreamFromRecords_agrees shopShipments [] linked_shopShipments (by decide)

end Pacto.Delivery
