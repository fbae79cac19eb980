import Pacto.Promoter.Ledger

/-!
# One seq per operation

A conclusion is two writes, and what joins them is the Stage's memory of its
newest conclusions.  As long as an operation's status write comes before the
Stage forgets its conclusion, the operation takes exactly one seq.
-/

namespace Pacto.Promoter

open Delivery Support

variable {r : Reconciler} {s s' : Store} {log : List Concluded}

/-- Fewer than `maxConcluded` other operations take a seq between an
operation's compare-and-swap and its status write. -/
def Timely (s s' : Store) : Prop :=
  ∀ st ∈ s.stage.versions, ∀ e ∈ st.status.stream.concluded, ∀ cell ∈ s.ops e.uid,
    cell.latest.status.phase ≠ .concluded → s'.status.stream.seq < e.seq + maxConcluded

instance (s s' : Store) : Decidable (Timely s s') := by
  unfold Timely
  infer_instance

/-- What an operation's concluded status says is what the Stage concluded. -/
def Written (s : Store) : Prop :=
  ∀ X cell, s.ops X = some cell → ∀ v ∈ cell.register.versions, v.status.phase = .concluded →
    ∃ e, s.Given X e ∧ v.status.seq = e.seq ∧ v.status.outcome = some e.outcome

theorem Written.step (h : Written s) (hstep : Step r s s') : Written s' := by
  intro X cell' hcell' v hv hphase
  have hevolves := hstep.evolves
  have hold : ∀ cell, s.ops X = some cell → v ∈ cell.register.versions →
      ∃ e, s'.Given X e ∧ v.status.seq = e.seq ∧ v.status.outcome = some e.outcome := by
    intro cell hcell hmem
    obtain ⟨e, hgiven, hrest⟩ := h X cell hcell v hmem hphase
    exact ⟨e, hevolves.given hgiven, hrest⟩
  cases hstep.opStep X with
  | absent _ hnone =>
    rw [hnone] at hcell'
    cases hcell'
  | created cell _ hnew hstatus honly =>
    cases hnew.symm.trans hcell'
    rw [honly v hv, hstatus] at hphase
    cases hphase
  | kept cell new hcell hnew hversions =>
    cases hnew.symm.trans hcell'
    rw [hversions] at hv
    exact hold cell hcell hv
  | touched cell new hcell hnew hmem _ _ _ hstatus =>
    cases hnew.symm.trans hcell'
    rcases hmem v hv with hv | rfl
    · exact hold cell hcell hv
    · rw [hstatus] at hphase ⊢
      obtain ⟨e, hgiven, hrest⟩ := h X cell hcell _ cell.register.latest_mem hphase
      exact ⟨e, hevolves.given hgiven, hrest⟩
  | saved cell new hcell hnew hmem _ _ _ hsaved =>
    cases hnew.symm.trans hcell'
    rcases hmem v hv with hv | rfl
    · exact hold cell hcell hv
    · obtain ⟨e, hgiven, hrest⟩ := hsaved.concluded hphase
      exact ⟨e, hevolves.given hgiven, hrest⟩

theorem Written.fresh (metadata : ObjectMeta) (spec : StageSpec) :
    Written (Store.fresh metadata spec) := by
  intro X cell hcell
  cases hcell

/-- A conclusion the Stage has forgotten belongs to an operation whose status is
written, so it is not concluded again. -/
theorem Ledger.uid_not_mem (h : Ledger s log) (htimely : Timely s s')
    (hgrows : s.status.stream.seq ≤ s'.status.stream.seq) {X : String} {op : Operation}
    {c : Conclusion} (hev : FinishEvidence r X op c s) (hopen : concludedOn s.status X = none) :
    X ∉ log.map (·.uid) := by
  intro hmem
  obtain ⟨e, he, rfl⟩ := List.mem_map.mp hmem
  obtain ⟨-, st, hst, hgiven⟩ := h.given e he
  obtain ⟨cell, hcell, hprogress, -⟩ := hev.cell
  have hlive : cell.latest.status.phase ≠ .concluded := by
    rw [show cell.latest.status.phase = op.status.phase from (congrArg Progress.phase hprogress).symm]
    exact hev.live
  have hwindow := htimely st hst e hgiven cell hcell hlive
  have hle : e.seq ≤ s.status.stream.seq := by
    obtain ⟨i, hi, hseq⟩ := h.getElem?_of_mem he
    have hlt := (List.getElem?_eq_some_iff.mp hi).1
    rw [h.latest]
    omega
  have hnow := h.mem_window s.stage.latest_mem he hle (by
    change s.status.stream.seq < _
    omega)
  exact concludedOn_eq_none hopen hnow rfl

/-- The ledger names each operation once. -/
def Distinct (s : Store) : Prop := ∃ log, Ledger s log ∧ (log.map (·.uid)).Nodup

theorem Distinct.step (h : Distinct s) (htimely : Timely s s') (hstep : Step r s s') :
    Distinct s' := by
  obtain ⟨log, hledger, hnodup⟩ := h
  rcases hledger.step hstep.stageStep with hsame | ⟨X, op, c, hev, hopen, hgrown⟩
  · exact ⟨log, hsame, hnodup⟩
  · refine ⟨_, hgrown, ?_⟩
    have hseq : s.status.stream.seq ≤ s'.status.stream.seq := by
      rw [hledger.latest, hgrown.latest, List.length_append]
      omega
    have hfresh := hledger.uid_not_mem htimely hseq hev hopen
    have huid : (concludedEntry op (settled op c s.stage.latest) (s.status.stream.seq + 1)).uid = X :=
      hev.uid
    rw [List.map_append, List.map_singleton, huid]
    exact List.nodup_append.mpr ⟨hnodup, List.nodup_singleton X, fun a ha b hb hab =>
      hfresh (by rw [← List.mem_singleton.mp hb, ← hab]; exact ha)⟩

/-- The numbering of a Stage's conclusions: each operation has one seq and one
outcome, no seq is shared or skipped, and the Stage remembers the newest ones
in order. -/
structure ExactSeqs (s : Store) : Prop where
  once : ∀ X e e', s.Given X e → s.Given X e' → e.seq = e'.seq ∧ e.outcome = e'.outcome
  written : ∀ X cell, s.ops X = some cell → ∀ v ∈ cell.register.versions,
    v.status.phase = .concluded →
      ∃ e, s.Given X e ∧ v.status.seq = e.seq ∧ v.status.outcome = some e.outcome
  distinct : ∀ X Y e e', s.Given X e → s.Given Y e' → e.seq = e'.seq → X = Y
  gapless : ∀ n : Int, (∃ X e, s.Given X e ∧ e.seq = n) ↔ 1 ≤ n ∧ n ≤ s.status.stream.seq
  window : ∀ st ∈ s.stage.versions, st.status.stream.concluded.length ≤ maxConcluded ∧
    ∀ (i : Nat) (e : Concluded), st.status.stream.concluded[i]? = some e →
      e.seq = st.status.stream.seq - st.status.stream.concluded.length + 1 + i

theorem Ledger.gapless (h : Ledger s log) (n : Int) :
    (∃ X e, s.Given X e ∧ e.seq = n) ↔ 1 ≤ n ∧ n ≤ s.status.stream.seq := by
  constructor
  · rintro ⟨X, e, hgiven, rfl⟩
    obtain ⟨i, hi, hseq⟩ := h.getElem?_of_mem (h.mem_of_given hgiven).1
    have hlt := (List.getElem?_eq_some_iff.mp hi).1
    rw [h.latest]
    omega
  · rintro ⟨hpos, hle⟩
    rw [h.latest] at hle
    have hlt : n.toNat - 1 < log.length := by omega
    have hget : log[n.toNat - 1]? = some log[n.toNat - 1] := List.getElem?_eq_getElem hlt
    refine ⟨_, _, h.given _ (List.mem_of_getElem? hget), ?_⟩
    rw [h.numbered _ _ hget]
    omega

/-- The conclusions a Stage version remembers end at its seq. -/
theorem Ledger.window_seq (h : Ledger s log) {st : Stage} (hst : st ∈ s.stage.versions) {i : Nat}
    {e : Concluded} (he : st.status.stream.concluded[i]? = some e) :
    e.seq = st.status.stream.seq - st.status.stream.concluded.length + 1 + i := by
  obtain ⟨n, hn, hseq, hwindow⟩ := h.window st hst
  have hlen : (log.take n).length = n := by
    rw [List.length_take]
    omega
  have hi : i < st.status.stream.concluded.length := (List.getElem?_eq_some_iff.mp he).1
  have hkept : st.status.stream.concluded.length = min maxConcluded n := by
    rw [hwindow, length_keepLast, hlen]
  rw [hwindow, getElem?_keepLast, hlen] at he
  rw [List.getElem?_take_of_lt (by omega)] at he
  rw [h.numbered _ _ he, hseq, hkept]
  omega

theorem Distinct.exactSeqs (h : Distinct s) (hwritten : Written s) : ExactSeqs s := by
  obtain ⟨log, hledger, hnodup⟩ := h
  exact
    { once := by
        intro X e e' he he'
        obtain ⟨hmem, huid⟩ := hledger.mem_of_given he
        obtain ⟨hmem', huid'⟩ := hledger.mem_of_given he'
        have heq : e = e' := List.inj_on_of_nodup_map hnodup hmem hmem' (huid.trans huid'.symm)
        exact ⟨congrArg Concluded.seq heq, congrArg Concluded.outcome heq⟩
      written := hwritten
      distinct := by
        intro X Y e e' he he' hseq
        obtain ⟨hmem, huid⟩ := hledger.mem_of_given he
        obtain ⟨hmem', huid'⟩ := hledger.mem_of_given he'
        rw [← huid, ← huid', hledger.eq_of_seq hmem hmem' hseq]
      gapless := hledger.gapless
      window := by
        intro st hst
        refine ⟨?_, fun i e he => hledger.window_seq hst he⟩
        obtain ⟨n, -, -, hwindow⟩ := hledger.window st hst
        rw [hwindow]
        exact length_keepLast_le _ _ }

/-- In every run in which status writes are timely, each operation takes
exactly one seq, whatever finishes lose, crash or are retried. -/
theorem exactSeqs_of_timely {metadata : ObjectMeta} {spec : StageSpec}
    {σ : System.Config api String} (hrun : r.Runs Timely metadata spec σ) : ExactSeqs σ.shared := by
  obtain ⟨-, hdistinct, hwritten⟩ := runs_keep (P := fun s => Distinct s ∧ Written s) hrun
    ⟨⟨[], .fresh metadata spec, List.nodup_nil⟩, .fresh metadata spec⟩
    fun s s' _ ⟨hdistinct, hwritten⟩ htimely hstep =>
      ⟨hdistinct.step htimely hstep, hwritten.step hstep⟩
  exact hdistinct.exactSeqs hwritten

def personalFreeze : OperationSpec where
  type := .freeze
  stage := "prod"
  facet := .freeze
  intentDigest := "sha256:intent"
  actor := { user := "ada" }

/-- A person freezes the Stage that runs `«from»`, or unfreezes it, with the number of
requests the admission takes. -/
def Reconciler.personally (r : Reconciler) (uid : String) (type : TypeID) («from» : String)
    (admitting : Nat) : List (System.Event r.system) :=
  r.acts
      [.propose uid uid 0 { personalFreeze with type := type, params := { «from» := «from» } },
        .showOp uid] ++
    r.reconciles uid (List.replicate admitting {}) ++ r.acts [.showOp uid] ++
    r.reconciles uid (List.replicate 8 {})

/-- Two freezes: the first dies after its compare-and-swap, the second concludes,
then the first is reconciled again and finds its conclusion on the Stage. -/
def crashedFreeze : List (System.Event quietReconciler.system) :=
  quietReconciler.acts [.showStage, .propose "u1" "first" 0 personalFreeze, .showOp "u1",
      .propose "u2" "second" 0 personalFreeze, .showOp "u2"] ++
    quietReconciler.reconciles "u1" (List.replicate 6 {}) ++
    quietReconciler.reconciles "u2" (List.replicate 6 {}) ++
    quietReconciler.acts [.showOp "u1", .showOp "u2"] ++
    quietReconciler.reconciles "u1" (List.replicate 6 {}) ++ [.crash "u1"] ++
    quietReconciler.reconciles "u2" (List.replicate 8 {}) ++
    quietReconciler.reconciles "u1" (List.replicate 8 {})

theorem exactSeqs_crashedFreeze :
    ∃ σ, quietReconciler.Runs Timely quietStage { service := "shop" } σ ∧
      (σ.shared.status.stream.concluded.map fun e => (e.uid, e.seq)) = [("u1", 1), ("u2", 2)] ∧
      ((σ.shared.ops "u1").map fun cell => cell.latest.status.seq) = some 1 ∧
      ExactSeqs σ.shared := by
  obtain ⟨σ, hrun, hend⟩ := quietReconciler.exists_run Timely quietStage { service := "shop" }
    crashedFreeze
    (fun s => ((s.status.stream.concluded.map fun e => (e.uid, e.seq)),
      (s.ops "u1").map fun cell => cell.latest.status.seq))
    ([("u1", 1), ("u2", 2)], some 1) (by decide +kernel)
  rw [Prod.mk.injEq] at hend
  exact ⟨σ, hrun, hend.1, hend.2, exactSeqs_of_timely hrun⟩

end Pacto.Promoter
