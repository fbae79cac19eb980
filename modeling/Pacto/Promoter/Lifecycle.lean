import Pacto.Promoter.FailedDigest

/-!
# What no run takes back

No step is excluded here: writes may be late, lost or repeated.
-/

namespace Pacto.Promoter

open Delivery Support

section

variable {r : Reconciler} {allowed : Store → Store → Prop} {metadata : ObjectMeta}
  {spec : StageSpec} {σ σ' : System.Config api String} {e : System.Event r.system} {X : String}
  (hrun : r.Runs allowed metadata spec σ) (hexec : r.system.exec σ e = some σ')

include hrun hexec

theorem runs_step : Step r σ.shared σ'.shared := by
  obtain ⟨hgood, -⟩ := runs_good (P := fun _ => True) hrun trivial fun _ _ _ _ _ _ => trivial
  exact .of_protocol (hgood.step (reconcile_sound r) hexec).2

/-- A conclusion is final: no reconcile writes a concluded operation again. -/
theorem concluded_final {cell : Cell} (hcell : σ.shared.ops X = some cell)
    (hphase : cell.latest.status.phase = .concluded) :
    ∃ cell', σ'.shared.ops X = some cell' ∧ cell'.latest.status = cell.latest.status := by
  cases (runs_step hrun hexec).opStep X with
  | absent hnone => simp [hnone] at hcell
  | created _ hnone => simp [hnone] at hcell
  | kept old new hold hnew hversions =>
    cases hold.symm.trans hcell
    exact ⟨new, hnew, by rw [Cell.latest_congr hversions]⟩
  | touched old new hold hnew _ _ _ _ hstatus =>
    cases hold.symm.trans hcell
    exact ⟨new, hnew, hstatus⟩
  | saved old new hold _ _ _ _ _ hsaved =>
    cases hold.symm.trans hcell
    exact absurd hphase hsaved.live

/-- Whoever is given the pointer never moved it, is meant from where it stands,
is no promote on a frozen Stage, and finds it free or given up. -/
theorem lock_granted (hX : σ'.shared.holder = X) (hne : X ≠ "") (hnew : σ.shared.holder ≠ X) :
    ∃ cell, σ.shared.ops X = some cell ∧ cell.latest.spec.facet = .pointer ∧
      σ.shared.status.pointer = cell.latest.spec.params.from ∧ ¬σ.shared.Moved X ∧
      ¬(σ.shared.status.frozen = true ∧ cell.latest.spec.type = .promote) ∧
      (σ.shared.holder = "" ∨ σ.shared.Yields cell.latest σ.shared.holder) := by
  subst hX
  obtain ⟨op, hev, hfacet, hfree, hfrom⟩ :=
    (runs_step hrun hexec).stageStep.taken hnew.symm hne
  obtain ⟨cell, hcell, -, hspec, -⟩ := hev.cell
  have hbefore := hev.free
  rw [hfacet] at hbefore
  simp only [Store.Yields, hspec] at hfacet hfree hfrom hbefore
  exact ⟨cell, hcell, hfacet, hfrom, hev.unmoved, hfree,
    hbefore.imp_right fun h => h.resolve_left hnew⟩

end

/-- A freeze that concluded is reconciled again on a copy from before. -/
theorem concluded_final_staleFreeze :
    ∃ σ σ' cell, quietReconciler.Runs (fun _ _ => True) quietStage { service := "shop" } σ ∧
      quietReconciler.system.exec σ (.call "u1" {}) = some σ' ∧ σ.shared.ops "u1" = some cell ∧
      cell.cached.map (·.status.phase) = some .pending ∧
      ∃ cell', σ'.shared.ops "u1" = some cell' ∧ cell'.latest.status.phase = .concluded := by
  obtain ⟨σ, σ', hrun, hexec, hend⟩ := quietReconciler.exists_step (fun _ _ => True) quietStage
    { service := "shop" }
    (crashedFreeze ++ quietReconciler.reconciles "u1" (List.replicate 3 {})) (.call "u1" {})
    (fun s _ => (s.ops "u1").map fun cell =>
      (cell.latest.status.phase, cell.cached.map (·.status.phase)))
    (some (.concluded, some .pending)) (by decide +kernel)
  obtain ⟨cell, hcell, hphases⟩ := Option.map_eq_some_iff.mp hend
  obtain ⟨hphase, hcached⟩ := Prod.mk.inj hphases
  obtain ⟨cell', hcell', hstatus⟩ := concluded_final hrun hexec hcell hphase
  exact ⟨σ, σ', cell, hrun, hexec, hcell, hcached, cell', hcell', by rw [hstatus]; exact hphase⟩

theorem lock_granted_agentPromotes :
    ∃ σ cell, quietReconciler.Runs (fun _ _ => True) quietStage autonomousStage σ ∧
      σ.shared.ops "p1" = some cell ∧
      σ.shared.status.pointer = cell.latest.spec.params.from ∧ ¬σ.shared.Moved "p1" := by
  obtain ⟨σ, σ', hrun, hexec, hend⟩ := quietReconciler.exists_step (fun _ _ => True) quietStage
    autonomousStage (agentPromotes.take 19) (.call "p1" (shipping {} 'a'))
    (fun s s' => (s.holder, s'.holder)) ("", "p1") (by decide +kernel)
  obtain ⟨hbefore, hafter⟩ := Prod.mk.inj hend
  obtain ⟨cell, hcell, -, hfrom, hunmoved, -⟩ :=
    lock_granted hrun hexec hafter (by decide) (by rw [hbefore]; decide)
  exact ⟨σ, cell, hrun, hcell, hfrom, hunmoved⟩

end Pacto.Promoter
