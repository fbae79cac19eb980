import Pacto.Promoter.Pointer

/-!
# A Stage that observes

On observe GitOps owns what runs, and the Stage's pointer is empty.  Lowering
the level clears the pointer but does not look at the lock, so an operation
that holds it can still move the pointer afterwards.
-/

namespace Pacto.Promoter

open Delivery Support

variable {r : Reconciler} {s s' : Store}

/-- The Stage comes to observe. -/
def Lowers (s s' : Store) : Prop :=
  s.status.level ≠ .observe ∧ s'.status.level = .observe

/-- A Stage is lowered to observe only while nobody holds its pointer, and no
operation that starts from an empty pointer takes the lock while it observes.
A write that concludes nothing sets it to observe only while its pointer is
empty. -/
structure Vacant (s s' : Store) : Prop where
  lowered : Lowers s s' → s.holder = ""
  seeded : Lowers s s' → s'.status.stream.seq = s.status.stream.seq → s.status.pointer = ""
  taken : s.status.level = .observe → s'.holder ≠ s.holder →
    ∀ cell ∈ s.ops s'.holder, cell.latest.spec.params.from ≠ ""

instance (s s' : Store) : Decidable (Lowers s s') := inferInstanceAs (Decidable (_ ∧ _))

instance (s s' : Store) : Decidable (Vacant s s') :=
  decidable_of_iff
    ((Lowers s s' → s.holder = "") ∧
      (Lowers s s' → s'.status.stream.seq = s.status.stream.seq → s.status.pointer = "") ∧
      (s.status.level = .observe → s'.holder ≠ s.holder →
        ∀ cell ∈ s.ops s'.holder, cell.latest.spec.params.from ≠ ""))
    ⟨fun h => ⟨h.1, h.2.1, h.2.2⟩, fun h => ⟨h.lowered, h.seeded, h.taken⟩⟩

def Untouched (s : Store) : Prop :=
  s.status.level = .observe → s.status.pointer = "" ∧ s.holder = ""

theorem Untouched.step (hinv : Inv r s) (h : Untouched s) (hvacant : Vacant s s')
    (hstep : Step r s s') : Untouched s' := by
  cases hstep.stageStep with
  | quiet hversions =>
    rw [Untouched, status_congr hversions, holder_congr hversions]
    exact h
  | aside st hs' haside =>
    intro hobserve
    have hlevel : s'.status.level = st.status.level := by rw [hs', status_write]
    have hkept : s'.status.pointer = s.status.pointer ∧ s'.holder = s.holder := by
      rw [hs', status_write, holder_write, haside.pointer, haside.locks]
      exact ⟨rfl, rfl⟩
    rw [hkept.1, hkept.2]
    rcases haside.level with hsame | ⟨hunset, -⟩
    · exact h (by rw [← hsame, ← hlevel]; exact hobserve)
    · have hlowers : Lowers s s' := ⟨by rw [hunset]; decide, hobserve⟩
      have hseq : s'.status.stream.seq = s.status.stream.seq := by
        rw [hs', status_write]
        exact haside.seq
      exact ⟨hvacant.seeded hlowers hseq, hvacant.lowered hlowers⟩
  | lock X op hev hlock hs' =>
    intro hobserve
    have hlevel : s.status.level = .observe := by
      rw [hs', status_write] at hobserve
      exact hobserve
    obtain ⟨hpointer, hholder⟩ := h hlevel
    have hpointer' : s'.status.pointer = "" := by
      rw [hs', status_write]
      exact hpointer
    refine ⟨hpointer', ?_⟩
    by_contra hne
    obtain ⟨cell, hcell, -, hspec, -⟩ := hev.cell
    have hX : s'.holder = X := by
      by_cases hfacet : op.spec.facet = .pointer
      · rw [hs', holder_write, ← hev.uid]
        exact hfacet ▸ Locks.get_set_self _ _ _
      · refine absurd ?_ hne
        rw [← hholder, hs', holder_write]
        exact Locks.get_set_of_ne _ _ (Ne.symm hfacet)
    refine hvacant.taken hlevel (hholder ▸ hne) cell (by rw [hX]; exact hcell) ?_
    rw [← hspec, ← hlock.2]
    exact hpointer
  | move X op hev hheld hs' =>
    intro hobserve
    rw [hs', status_write] at hobserve
    obtain ⟨cell, hcell, -⟩ := hev.cell
    exact absurd (hheld.symm.trans (h hobserve).2) (hinv.ne_empty hcell)
  | finish X op c squat hev hs' =>
    intro hobserve
    obtain ⟨-, -, -, -, hlocks⟩ := finishOn_keeps op c squat s.stage.latest
    have hholder : s.holder = "" → s'.holder = "" := by
      intro hempty
      rw [hs', holder_write, hlocks]
      rcases releaseLock_get op s.stage.latest .pointer with hsame | hreleased
      · exact hsame.trans hempty
      · exact hreleased
    have hstatus : s'.status = (finishOn squat (op, c) s.stage.latest).2.status := by
      rw [hs', status_write]
    rcases finishOn_pointer op c squat s.stage.latest with
      ⟨hsame, hlevel⟩ | ⟨-, -, -, t, -, -, hpointer, hlevel⟩
    · obtain ⟨hpointer, hempty⟩ := h (by
        rw [hstatus, hlevel] at hobserve
        exact hobserve)
      exact ⟨by rw [hstatus, hsame]; exact hpointer, hholder hempty⟩
    · have hto : Level.ofName op.spec.params.to = .observe := by
        rw [← changeLevel_level t op.spec, ← hlevel, ← hstatus]
        exact hobserve
      refine ⟨by rw [hstatus, hpointer, changeLevel_pointer_of_enter t op.spec hto], hholder ?_⟩
      by_cases hbefore : s.status.level = .observe
      · exact (h hbefore).2
      · exact hvacant.lowered ⟨hbefore, hobserve⟩

/-- The event is the conclusion of a level change that leaves observe and adopts
the digest GitOps runs. -/
def Adopts (r : Reconciler) (e : System.Event r.system) (s s' : Store) : Prop :=
  ∃ X o cell rev, e = .call X o ∧ s.ops X = some cell ∧ cell.latest.spec.type = .autonomy ∧
    Level.ofName cell.latest.spec.params.from = .observe ∧ s'.status.level ≠ .observe ∧
    s.status.observedRevision = some rev ∧ s'.status.pointer = rev.digest

/-- While the Stage observes, only the conclusion that leaves observe gives it a
pointer. -/
theorem adopts_of_untouched (hinv : Inv r s) (h : Untouched s) (hobserve : s.status.level = .observe)
    {e : System.Event r.system} (hprotocol : r.system.Protocol (Move r) e s s')
    (hne : s'.status.pointer ≠ "") : Adopts r e s s' := by
  obtain ⟨hempty, hholder⟩ := h hobserve
  cases hprotocol with
  | start X => exact absurd hempty hne
  | crash X => exact absurd hempty hne
  | act a hact => exact absurd ((Disturbs.of_act a hact).byHolder.1.trans hempty) hne
  | call X o hmove =>
    cases hmove with
    | idle => exact absurd hempty hne
    | read => exact absurd hempty hne
    | save => exact absurd hempty hne
    | raise => exact absurd hempty hne
    | lock op st hlock hev =>
      obtain ⟨-, -, rfl⟩ := lockOn_eq_ok_iff.mp hlock
      rw [status_write] at hne
      exact absurd hempty hne
    | move op st hmove hev =>
      obtain ⟨hheld, -⟩ := moveOn_eq_ok_iff.mp hmove
      obtain ⟨cell, hcell, -⟩ := hev.cell
      exact absurd ((hheld.trans hev.uid).symm.trans hholder) (hinv.ne_empty hcell)
    | finish op c squat hev =>
      rw [status_write] at hne
      rcases finishOn_pointer op c squat s.stage.latest with
        ⟨hsame, -⟩ | ⟨-, htype, -, t, htp, hto, hpointer, hlevel⟩
      · exact absurd (hsame.trans hempty) hne
      have hleaves : Level.ofName op.spec.params.to ≠ .observe := by
        intro hto
        exact hne (by rw [hpointer, changeLevel_pointer_of_enter t op.spec hto])
      obtain ⟨cell, hcell, hprogress, -⟩ := hev.cell
      have hspec : op.spec = cell.latest.spec := congrArg Progress.spec hprogress
      rcases changeLevel_pointer_of_not_enter t op.spec hleaves with hkept | ⟨rev, hrev, hfrom, hnew⟩
      · exact absurd (hpointer.trans (hkept.trans (htp.trans hempty))) hne
      · refine ⟨X, o, cell, rev, rfl, hcell, ?_, ?_, ?_, ?_, ?_⟩
        · rw [← hspec]
          exact htype
        · rw [← hspec]
          exact hfrom
        · rw [status_write, hlevel, changeLevel_level]
          exact hleaves
        · rw [← hrev, hto]
          rfl
        · rw [status_write, hpointer, hnew]

/-- In every run in which a Stage is lowered to observe only while nobody holds
its pointer, and no operation that starts from an empty pointer takes the lock
while it observes, an observing Stage has no pointer and gets one only from the
level change that leaves observe. -/
theorem untouched_of_vacant {metadata : ObjectMeta} {spec : StageSpec}
    {σ : System.Config api String} (hrun : r.Runs Vacant metadata spec σ) :
    (σ.shared.status.level = .observe → σ.shared.status.pointer = "") ∧
      ∀ e σ', r.system.exec σ e = some σ' → σ.shared.status.level = .observe →
        σ'.shared.status.pointer ≠ "" → Adopts r e σ.shared σ'.shared := by
  obtain ⟨hgood, huntouched⟩ := runs_good (P := Untouched) hrun (fun _ => ⟨rfl, rfl⟩)
    fun s s' hinv h hvacant hstep => h.step hinv hvacant hstep
  refine ⟨fun hobserve => (huntouched hobserve).1, fun e σ' hexec hobserve hne => ?_⟩
  exact adopts_of_untouched hgood.holds huntouched hobserve
    (hgood.step (reconcile_sound r) hexec).2 hne

/-- A Stage that starts on advise, and a person who lowers it to observe. -/
def advising : StageSpec := { service := "shop", startLevel := .advise }

@[inherit_doc advising]
def lowering : List (System.Event quietReconciler.system) :=
  quietReconciler.acts
      [.propose "u2" "second" 0
          { type := .autonomy, stage := "prod", facet := .level
            params := { «from» := "advise", «to» := "observe" }
            intentDigest := "sha256:intent", actor := person },
        .showOp "u2"] ++
    quietReconciler.reconciles "u2" (List.replicate 6 {}) ++ quietReconciler.acts [.showOp "u2"] ++
    quietReconciler.reconciles "u2" (List.replicate 9 (shipping {} 'a'))

/-- The level change comes after the override concluded. -/
theorem untouched_lowering :
    ∃ σ, quietReconciler.Runs Vacant quietStage advising σ ∧
      σ.shared.trajectory = [("", digestOf 'a')] ∧ σ.shared.status.level = .observe ∧
      σ.shared.status.pointer = "" := by
  obtain ⟨σ, hrun, hend⟩ := quietReconciler.exists_run Vacant quietStage advising
    (overridden ++ lowering) (fun s => (s.trajectory, s.status.level))
    ([("", digestOf 'a')], .observe) (by decide +kernel)
  rw [Prod.mk.injEq] at hend
  exact ⟨σ, hrun, hend.1, hend.2, (untouched_of_vacant hrun).1 hend.2⟩

/-- The level change comes between the override's lock and its move, and the
override moves the pointer of the observing Stage. -/
theorem moved_lowering :
    ∃ σ, quietReconciler.Runs (fun _ _ => True) quietStage advising σ ∧
      σ.shared.status.level = .observe ∧ σ.shared.status.pointer = digestOf 'a' ∧
      σ.shared.status.lastOp = "u1" := by
  obtain ⟨σ, hrun, hend⟩ := quietReconciler.exists_run (fun _ _ => True) quietStage advising
    (startsOverride ++ lowering ++ quietReconciler.reconciles "u1" (List.replicate 6 {}))
    (fun s => (s.status.level, s.status.pointer, s.status.lastOp)) (.observe, digestOf 'a', "u1")
    (by decide +kernel)
  simp only [Prod.mk.injEq] at hend
  exact ⟨σ, hrun, hend⟩

end Pacto.Promoter
