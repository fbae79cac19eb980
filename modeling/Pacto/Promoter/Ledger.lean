import Pacto.Promoter.Steps

/-!
# The ledger of conclusions

The Stage remembers its newest conclusions and how many there were.  Both are
views of one ledger to which every concluding compare-and-swap appends: the
Stage's stream refines an append-only list whose entries are numbered from
one.
-/

namespace Pacto.Promoter

open Delivery Support

variable {r : Reconciler} {s s' : Store} {log : List Concluded}

/-- `log` is the ledger the Stage's streams are views of. -/
structure Ledger (s : Store) (log : List Concluded) : Prop where
  numbered : ∀ (i : Nat) (e : Concluded), log[i]? = some e → e.seq = i + 1
  window : ∀ st ∈ s.stage.versions, ∃ n : Nat, n ≤ log.length ∧ st.status.stream.seq = n ∧
    st.status.stream.concluded = keepLast maxConcluded (log.take n)
  latest : s.status.stream.seq = log.length
  given : ∀ e ∈ log, s.Given e.uid e
  ordered : ∀ a ∈ s.stage.versions, ∀ b ∈ s.stage.versions,
    a.resourceVersion ≤ b.resourceVersion → a.status.stream.seq ≤ b.status.stream.seq

namespace Ledger

theorem congr (h : Ledger s log) (hversions : s'.stage.versions = s.stage.versions) :
    Ledger s' log := by
  have hlatest : s'.stage.latest = s.stage.latest := by simp only [Register.latest, hversions]
  exact
    { numbered := h.numbered
      window := by
        rw [hversions]
        exact h.window
      latest := by
        rw [Store.status, hlatest]
        exact h.latest
      given := by
        intro e he
        obtain ⟨huid, st, hst, hmem⟩ := h.given e he
        exact ⟨huid, st, hversions ▸ hst, hmem⟩
      ordered := by
        rw [hversions]
        exact h.ordered }

theorem version_lt_write (st : Stage) {v : Stage} (hv : v ∈ s.stage.versions) :
    v.resourceVersion < (Resource.withVersion s.stage.versions.length st : Stage).resourceVersion :=
  Inv.version_lt hv

/-- Writing a Stage whose stream is a view of the ledger grown by `more`. -/
theorem write (h : Ledger s log) (st : Stage) (more : List Concluded)
    (hnumbered : ∀ (i : Nat) (e : Concluded), (log ++ more)[i]? = some e → e.seq = i + 1)
    (hseq : st.status.stream.seq = (log ++ more).length)
    (hconcluded : st.status.stream.concluded = keepLast maxConcluded (log ++ more))
    (hgiven : ∀ e ∈ more, e ∈ st.status.stream.concluded) :
    Ledger (s.setStage (s.stage.write st)) (log ++ more) := by
  have hmem : ∀ v ∈ (s.setStage (s.stage.write st)).stage.versions,
      v ∈ s.stage.versions ∨ v = Resource.withVersion s.stage.versions.length st := by
    intro v hv
    simpa [Store.setStage] using hv
  have hbound : ∀ v ∈ s.stage.versions, v.status.stream.seq ≤ log.length := by
    intro v hv
    obtain ⟨n, hn, hvseq, -⟩ := h.window v hv
    omega
  exact
    { numbered := hnumbered
      window := by
        intro v hv
        rcases hmem v hv with hold | rfl
        · obtain ⟨n, hn, hvseq, hvconcluded⟩ := h.window v hold
          refine ⟨n, by rw [List.length_append]; omega, hvseq, ?_⟩
          rw [List.take_append_of_le_length hn]
          exact hvconcluded
        · refine ⟨_, le_rfl, hseq, ?_⟩
          rw [List.take_length]
          exact hconcluded
      latest := by
        rw [Store.status, Store.setStage, Register.latest_write]
        exact hseq
      given := by
        intro e he
        rcases List.mem_append.mp he with hold | hnew
        · have hgrows : Evolves s (s.setStage (s.stage.write st)) := .setStage (.write _ _)
          exact hgrows.given (h.given e hold)
        · refine ⟨rfl, _, (s.stage.write st).latest_mem, ?_⟩
          rw [Register.latest_write]
          exact hgiven e hnew
      ordered := by
        intro a ha b hb hab
        rcases hmem a ha with ha | rfl
        · rcases hmem b hb with hb | rfl
          · exact h.ordered a ha b hb hab
          · change a.status.stream.seq ≤ st.status.stream.seq
            have hle := hbound a ha
            rw [hseq, List.length_append]
            omega
        · rcases hmem b hb with hb | rfl
          · have hlt := version_lt_write st hb
            omega
          · exact le_rfl }

theorem write_same (h : Ledger s log) {st : Stage}
    (hseq : st.status.stream.seq = s.status.stream.seq)
    (hconcluded : st.status.stream.concluded = s.status.stream.concluded) :
    Ledger (s.setStage (s.stage.write st)) log := by
  obtain ⟨n, hn, hlatest, hwindow⟩ := h.window _ s.stage.latest_mem
  have hall : n = log.length := by
    have hlen := h.latest
    rw [Store.status, hlatest] at hlen
    exact_mod_cast hlen
  have hgrown := h.write st []
    (by simpa using h.numbered) (by simpa using hseq.trans h.latest)
    (by
      rw [hconcluded, List.append_nil]
      rw [hall, List.take_length] at hwindow
      exact hwindow)
    (by simp)
  simpa using hgrown

theorem latest_concluded (h : Ledger s log) :
    s.status.stream.concluded = keepLast maxConcluded log := by
  obtain ⟨n, -, hseq, hwindow⟩ := h.window _ s.stage.latest_mem
  have hlen := h.latest
  rw [Store.status, hseq] at hlen
  have hall : n = log.length := by exact_mod_cast hlen
  rw [Store.status, hwindow, hall, List.take_length]

/-- A concluding compare-and-swap appends its conclusion, any other step leaves
the ledger alone. -/
theorem step (h : Ledger s log) (hstep : StageStep r s s') :
    Ledger s' log ∨ ∃ X op c, FinishEvidence r X op c s ∧ concludedOn s.status X = none ∧
      Ledger s'
        (log ++ [concludedEntry op (settled op c s.stage.latest) (s.status.stream.seq + 1)]) := by
  cases hstep with
  | quiet hversions => exact .inl (h.congr hversions)
  | aside st hs' haside =>
    subst hs'
    exact .inl (h.write_same haside.seq haside.concluded)
  | lock X op hev hlock hs' =>
    subst hs'
    exact .inl (h.write_same rfl rfl)
  | move X op hev hheld hs' =>
    subst hs'
    exact .inl (h.write_same rfl rfl)
  | finish X op c squat hev hs' =>
    subst hs'
    cases hconcluded : concludedOn s.status op.uid with
    | some done =>
      left
      have hstream := finishOn_stream_of_concluded c squat hconcluded
      exact h.write_same (congrArg Stream.seq hstream) (congrArg Stream.concluded hstream)
    | none =>
      right
      refine ⟨X, op, c, hev, by rw [← hev.uid]; exact hconcluded, ?_⟩
      have hstream := finishOn_stream_of_open c squat hconcluded
      have hwindow : (finishOn squat (op, c) s.stage.latest).2.status.stream.concluded =
          keepLast maxConcluded (log ++
            [concludedEntry op (settled op c s.stage.latest) (s.status.stream.seq + 1)]) := by
        rw [← keepLast_keepLast_append, ← h.latest_concluded]
        exact congrArg Stream.concluded hstream
      refine h.write _ _ ?_ ?_ hwindow ?_
      · intro i e he
        rcases Nat.lt_or_ge i log.length with hlt | hge
        · rw [List.getElem?_append_left hlt] at he
          exact h.numbered i e he
        · rw [List.getElem?_append_right hge, List.getElem?_singleton] at he
          split at he
          · cases he
            have hi : i = log.length := by omega
            rw [hi, ← h.latest]
            rfl
          · cases he
      · have hseq := congrArg Stream.seq hstream
        change _ = s.status.stream.seq + 1 at hseq
        rw [hseq, h.latest, List.length_append, List.length_singleton]
        rfl
      · intro e he
        rw [List.mem_singleton] at he
        subst he
        exact hstream ▸ mem_concludeStream_self _ _

theorem fresh (metadata : ObjectMeta) (spec : StageSpec) : Ledger (Store.fresh metadata spec) [] := by
  have hmem : ∀ st ∈ (Store.fresh metadata spec).stage.versions,
      st = (Store.fresh metadata spec).stage.latest := by
    intro st hst
    simpa [Store.fresh] using hst
  exact
    { numbered := by simp
      window := by
        intro st hst
        rw [hmem st hst]
        exact ⟨0, le_rfl, rfl, rfl⟩
      latest := rfl
      given := by simp
      ordered := by
        intro a ha b hb _
        rw [hmem a ha, hmem b hb] }

/-! ## Reading the ledger -/

theorem mem_of_given (h : Ledger s log) {X : String} {e : Concluded} (he : s.Given X e) :
    e ∈ log ∧ e.uid = X := by
  obtain ⟨huid, st, hst, hmem⟩ := he
  obtain ⟨n, -, -, hwindow⟩ := h.window st hst
  rw [hwindow] at hmem
  exact ⟨List.mem_of_mem_take ((keepLast_suffix _ _).subset hmem), huid⟩

theorem getElem?_of_mem (h : Ledger s log) {e : Concluded} (he : e ∈ log) :
    ∃ i : Nat, log[i]? = some e ∧ e.seq = i + 1 := by
  obtain ⟨i, hi⟩ := List.mem_iff_getElem?.mp he
  exact ⟨i, hi, h.numbered i e hi⟩

/-- Two conclusions of one seq are one conclusion. -/
theorem eq_of_seq (h : Ledger s log) {e e' : Concluded} (he : e ∈ log) (he' : e' ∈ log)
    (hseq : e.seq = e'.seq) : e = e' := by
  obtain ⟨i, hi, hn⟩ := h.getElem?_of_mem he
  obtain ⟨j, hj, hm⟩ := h.getElem?_of_mem he'
  have hij : i = j := by omega
  rw [hij, hj] at hi
  exact (Option.some.inj hi).symm

/-- A Stage version remembers the conclusions of its newest seqs. -/
theorem mem_window (h : Ledger s log) {st : Stage} (hst : st ∈ s.stage.versions) {e : Concluded}
    (he : e ∈ log) (hle : e.seq ≤ st.status.stream.seq)
    (hlt : st.status.stream.seq < e.seq + maxConcluded) : e ∈ st.status.stream.concluded := by
  obtain ⟨n, hn, hseq, hwindow⟩ := h.window st hst
  obtain ⟨i, hi, hnum⟩ := h.getElem?_of_mem he
  rw [hwindow]
  have hin : i < n := by omega
  refine mem_keepLast (i := i) (by rw [List.getElem?_take_of_lt hin]; exact hi) ?_
  rw [List.length_take, min_eq_left hn]
  omega

theorem seq_le_of_given (h : Ledger s log) {X : String} {e : Concluded} (he : s.Given X e) :
    1 ≤ e.seq ∧ e.seq ≤ s.status.stream.seq := by
  obtain ⟨i, hi, hseq⟩ := h.getElem?_of_mem (h.mem_of_given he).1
  have hlt := (List.getElem?_eq_some_iff.mp hi).1
  rw [h.latest]
  omega

theorem seq_le (h : Ledger s log) {st : Stage} (hst : st ∈ s.stage.versions) :
    st.status.stream.seq ≤ s.status.stream.seq := by
  obtain ⟨n, hn, hseq, -⟩ := h.window st hst
  rw [h.latest, hseq]
  exact_mod_cast hn

end Ledger

end Pacto.Promoter
