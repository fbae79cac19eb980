import Pacto.Promoter.Movers

/-!
# The lock serialises the moves

While the Stage keeps its level, the pointer lock serialises the moves of the
pointer: its trajectory is the chain of the operations that moved it.
-/

namespace Pacto.Promoter

open Delivery Support

variable {r : Reconciler} {s s' : Store}

def Store.level (s : Store) : Level := currentLevel s.stage.latest.spec s.status

/-- The Stage keeps its level. -/
def Steady (s s' : Store) : Prop := s'.level = s.level

instance (s s' : Store) : Decidable (Steady s s') := inferInstanceAs (Decidable (_ = _))

/-! ## The lock guards the pointer -/

/-- While `X` holds the lock the pointer stands where `X` found it, or where
`X` put it. -/
def Standing (s : Store) (X : String) (cell : Cell) : Prop :=
  (¬s.Moved X ∧ s.status.pointer = cell.latest.spec.params.from) ∨
    (s.status.lastOp = X ∧ s.status.pointer = cell.latest.spec.params.to)

def Guarded (s : Store) : Prop :=
  s.holder ≠ "" → ∃ cell, s.ops s.holder = some cell ∧ Standing s s.holder cell

/-- While the level is steady no conclusion touches the pointer. -/
theorem finishOn_pointer_of_steady {X : String} {op : Operation} {c : Conclusion} {squat : String}
    (hev : FinishEvidence r X op c s)
    (hsteady : Steady s (s.setStage (s.stage.write (finishOn squat (op, c) s.stage.latest).2))) :
    (finishOn squat (op, c) s.stage.latest).2.status.pointer = s.status.pointer := by
  rcases finishOn_pointer op c squat s.stage.latest with
    ⟨hsame, -⟩ | ⟨-, htype, hsucceeded, t, -, -, -, hlevel⟩
  · exact hsame
  exfalso
  obtain ⟨hchanges, hrank⟩ := hev.level htype (settled_succeeded hev.started htype hsucceeded)
  have hfrom := from_of_levelRefusal (levelRefusal_of_settled htype hsucceeded)
  rw [changeLevel_level] at hlevel
  have hnew : (s.setStage (s.stage.write (finishOn squat (op, c) s.stage.latest).2)).level =
      Level.ofName op.spec.params.to := by
    have hstatus := status_write s (finishOn squat (op, c) s.stage.latest).2
    rw [Store.level, currentLevel_of_rank, hstatus, hlevel]
    rw [hstatus, hlevel]
    exact hrank
  have hold : s.level = Level.ofName op.spec.params.from := by
    rw [hfrom, releaseLock_status]
    rfl
  rw [Steady, hnew, hold] at hsteady
  exact hchanges hsteady

namespace Guarded

theorem congr (h : Guarded s) (hstep : Step r s s')
    (hversions : s'.stage.versions = s.stage.versions) : Guarded s' := by
  intro hne
  rw [holder_congr hversions] at hne ⊢
  obtain ⟨cell, hcell, hstanding⟩ := h hne
  obtain ⟨cell', hcell', hspec, -⟩ := hstep.cell hcell
  refine ⟨cell', hcell', ?_⟩
  rw [Standing, hspec, status_congr hversions, moved_congr hversions]
  exact hstanding

/-- A write that moves nothing and at most releases the lock. -/
theorem write (h : Guarded s) {st : Stage}
    (hlock : st.status.locks.get .pointer = s.holder ∨ st.status.locks.get .pointer = "")
    (hpointer : st.status.pointer = s.status.pointer)
    (hlast : st.status.lastOp = s.status.lastOp) : Guarded (s.setStage (s.stage.write st)) := by
  intro hne
  rw [holder_write] at hne ⊢
  have hsame := hlock.resolve_right hne
  rw [hsame] at hne ⊢
  obtain ⟨cell, hcell, hstanding⟩ := h hne
  refine ⟨cell, hcell, ?_⟩
  rw [Standing, status_write, moved_write_of_eq hlast, hpointer, hlast]
  exact hstanding

theorem step (h : Guarded s) (hsteady : Steady s s') (hstep : Step r s s') : Guarded s' := by
  cases hstep.stageStep with
  | quiet hversions => exact h.congr hstep hversions
  | aside st hs' haside =>
    subst hs'
    refine h.write (.inl ?_) haside.pointer haside.lastOp
    rw [haside.locks]
    rfl
  | lock X op hev hlock hs' =>
    subst hs'
    by_cases hfacet : op.spec.facet = .pointer
    · -- The operation that takes the lock has moved nothing yet.
      intro _
      have hholder : (s.status.locks.set op.spec.facet op.uid).get .pointer = X := by
        rw [hfacet, Locks.get_set_self, hev.uid]
      obtain ⟨cell, hcell, -, hspec, -⟩ := hev.cell
      refine ⟨cell, by rw [holder_write]; exact hholder ▸ hcell, .inl ⟨?_, ?_⟩⟩
      · rw [holder_write]
        dsimp only
        rw [hholder]
        refine fun hmoved => hev.unmoved ((moved_write_of_eq ?_ X).mp hmoved)
        rfl
      · rw [status_write, ← hspec]
        exact hlock.2
    · refine h.write (.inl ?_) rfl rfl
      exact Locks.get_set_of_ne _ _ (Ne.symm hfacet)
  | move X op hev hheld hs' =>
    intro _
    have hholder : s'.holder = X := by
      rw [hs', holder_write]
      exact hheld
    obtain ⟨cell, hcell, -, hspec, -⟩ := hev.cell
    rw [hholder, hs']
    refine ⟨cell, hcell, .inr ⟨?_, ?_⟩⟩
    · rw [status_write]
    · rw [status_write, ← hspec]
  | finish X op c squat hev hs' =>
    subst hs'
    obtain ⟨-, -, -, hlast, hlocks⟩ := finishOn_keeps op c squat s.stage.latest
    refine h.write ?_ (finishOn_pointer_of_steady hev hsteady) hlast
    rw [hlocks]
    exact releaseLock_get op s.stage.latest .pointer

/-- The pointer under the operation in the lock. -/
theorem standing (h : Guarded s) (hinv : Inv r s) {X : String} {cell : Cell}
    (hheld : s.holder = X) (hcell : s.ops X = some cell) : Standing s X cell := by
  obtain ⟨cell', hcell', hstanding⟩ := h (by rw [hheld]; exact hinv.ne_empty hcell)
  rw [hheld] at hcell' hstanding
  cases hcell.symm.trans hcell'
  exact hstanding

end Guarded

/-! ## Moves are serial -/

/-- What the moves of a run did to the pointer. -/
structure Serial (s : Store) : Prop where
  still : ∀ w ∈ s.stage.writes, w.2.status.lastOp = w.1.status.lastOp →
    w.2.status.pointer = w.1.status.pointer
  chained : ∀ w ∈ s.moves, ∃ cell, s.ops w.2.status.lastOp = some cell ∧
    w.1.status.pointer = cell.latest.spec.params.from ∧
    w.2.status.pointer = cell.latest.spec.params.to

namespace Serial

theorem write (h : Serial s) {st : Stage} (hlast : st.status.lastOp = s.status.lastOp)
    (hpointer : st.status.pointer = s.status.pointer) :
    Serial (s.setStage (s.stage.write st)) := by
  refine ⟨fun w hw hsame => ?_, ?_⟩
  · rcases mem_writes_write s st hw with hold | rfl
    · exact h.still w hold hsame
    · exact hpointer
  · rw [moves_write_of_eq s st hlast]
    exact h.chained

theorem step (hinv : Inv r s) (h : Serial s) (hguarded : Guarded s) (hsteady : Steady s s')
    (hstep : Step r s s') : Serial s' := by
  cases hstep.stageStep with
  | quiet hversions =>
    refine ⟨by rw [writes_congr hversions]; exact h.still, ?_⟩
    rw [moves_congr hversions]
    exact fun w hw => hstep.intent (P := fun spec => w.1.status.pointer = spec.params.from ∧
      w.2.status.pointer = spec.params.to) (h.chained w hw)
  | aside st hs' haside =>
    subst hs'
    exact h.write haside.lastOp haside.pointer
  | lock X op hev hlock hs' =>
    subst hs'
    exact h.write rfl rfl
  | move X op hev hheld hs' =>
    subst hs'
    obtain ⟨cell, hcell, -, hspec, -⟩ := hev.cell
    rcases hguarded.standing hinv hheld hcell with ⟨hunmoved, hfrom⟩ | ⟨hlast, hto⟩
    · have hne := Store.ne_last hunmoved
      refine ⟨fun w hw hsame => ?_, fun w hw => ?_⟩
      · rcases mem_writes_write s _ hw with hold | rfl
        · exact h.still w hold hsame
        · exact absurd hsame hne
      · rw [moves_write_of_ne s _ hne, List.mem_append, List.mem_singleton] at hw
        rcases hw with hold | rfl
        · exact h.chained w hold
        · exact ⟨cell, hcell, hfrom, congrArg (fun spec => spec.params.to) hspec⟩
    · -- The move was made before and its status write lost.
      exact h.write hlast.symm (by rw [hto, ← hspec])
  | finish X op c squat hev hs' =>
    subst hs'
    obtain ⟨-, -, -, hlast, -⟩ := finishOn_keeps op c squat s.stage.latest
    exact h.write hlast (finishOn_pointer_of_steady hev hsteady)

theorem fresh (metadata : ObjectMeta) (spec : StageSpec) : Serial (Store.fresh metadata spec) := by
  refine ⟨fun w hw => ?_, fun w hw => ?_⟩ <;> cases hw

end Serial

/-! ## Serialised runs -/

/-- What an operation asks the pointer to do. -/
def Store.intended (s : Store) (X : String) : Option (String × String) :=
  (s.ops X).map fun cell => (cell.latest.spec.params.from, cell.latest.spec.params.to)

/-- The pointer's trajectory is the chain of the operations that moved it, each
once.  Those are the applied operations, and at most the newest of them is
still to write that it applied. -/
structure Serialised (s : Store) : Prop where
  still : ∀ w ∈ s.stage.writes, w.2.status.lastOp = w.1.status.lastOp →
    w.2.status.pointer = w.1.status.pointer
  trajectory : s.trajectory.map some = s.movers.map s.intended
  once : s.movers.Nodup
  moved : ∀ X cell, s.ops X = some cell → cell.latest.status.applied = true → X ∈ s.movers
  applied : ∀ X ∈ s.movers, ∃ cell, s.ops X = some cell ∧
    (cell.latest.status.applied = true ∨
      (s.status.lastOp = X ∧ s.holder = X ∧ cell.latest.status.phase ≠ .concluded))

theorem Serial.serialised (hinv : Inv r s) (h : Serial s) (hmovers : Movers s)
    (hopen : HolderOpen s) (hwritten : Written s) : Serialised s where
  still := h.still
  trajectory := by
    simp only [Store.trajectory, Store.movers, List.map_map]
    refine List.map_congr_left fun w hw => ?_
    obtain ⟨cell, hcell, hfrom, hto⟩ := h.chained w hw
    simp [Store.intended, hcell, hfrom, hto]
  once := hmovers.once
  moved := by
    intro X cell hcell happlied
    exact (hmovers.listed X (hinv.ne_empty hcell)).mp
      (((hinv.cells X cell hcell).version _ cell.register.latest_mem).moved happlied)
  applied := by
    intro X hX
    obtain ⟨cell, hcell, hway⟩ := hmovers.noted X hX
    refine ⟨cell, hcell, ?_⟩
    cases happlied : cell.latest.status.applied with
    | true => exact .inl rfl
    | false =>
      obtain ⟨hlast, hheld, hthere⟩ := hway.resolve_left (by simp [happlied])
      refine .inr ⟨hlast, hheld, fun hphase => ?_⟩
      have hunnoted : Unnoted s X cell := ⟨hcell, happlied, hlast, hheld, hthere⟩
      obtain ⟨e, hgiven, -⟩ := hwritten X cell hcell _ cell.register.latest_mem hphase
      exact hunnoted.isOpen hinv hopen e hgiven

/-- An event that moves the pointer is a call of the lock's holder, which takes
it from where the holder starts to where it goes, and a lock is only ever
removed by its holder. -/
structure ByHolder (r : Reconciler) (e : System.Event r.system) (s s' : Store) : Prop where
  pointer : s'.status.pointer ≠ s.status.pointer →
    (∃ o, e = .call s.holder o) ∧ s.intended s.holder = some (s.status.pointer, s'.status.pointer)
  locks : ∀ f, s.status.locks.get f ≠ "" → s'.status.locks.get f = "" →
    ∃ o, e = .call (s.status.locks.get f) o

/-- The calls of a reconcile move the pointer only in the name of the lock's
holder, and remove only their own lock. -/
theorem Move.byHolder {X : String} (hinv : Inv r s) (hguarded : Guarded s) (hmove : Move r X s s')
    (hsteady : Steady s s') :
    (s'.status.pointer ≠ s.status.pointer →
        s.holder = X ∧ s.intended X = some (s.status.pointer, s'.status.pointer)) ∧
      ∀ f, s.status.locks.get f ≠ "" → s'.status.locks.get f = "" → s.status.locks.get f = X := by
  cases hmove with
  | idle => exact ⟨fun hne => absurd rfl hne, fun f hne hempty => absurd hempty hne⟩
  | read => exact ⟨fun hne => absurd rfl hne, fun f hne hempty => absurd hempty hne⟩
  | save cell op hcell hgone hstep hclass =>
    exact ⟨fun hne => absurd rfl hne, fun f hne hempty => absurd hempty hne⟩
  | raise uid created op hne hfresh hstage =>
    exact ⟨fun hne => absurd rfl hne, fun f hne hempty => absurd hempty hne⟩
  | lock op st hlock hev =>
    obtain ⟨-, -, rfl⟩ := lockOn_eq_ok_iff.mp hlock
    obtain ⟨cell, hcell, -⟩ := hev.cell
    refine ⟨fun hne => absurd (by rw [status_write]; rfl) hne, fun f hne hempty => ?_⟩
    rw [status_write] at hempty
    by_cases hfacet : f = op.spec.facet
    · rw [hfacet] at hempty
      have hX := (Locks.get_set_self _ _ _).symm.trans hempty
      exact absurd (hev.uid.symm.trans hX) (hinv.ne_empty hcell)
    · exact absurd ((Locks.get_set_of_ne _ _ hfacet).symm.trans hempty) hne
  | move op st hmove hev =>
    obtain ⟨hheld, rfl⟩ := moveOn_eq_ok_iff.mp hmove
    rw [hev.uid] at hheld
    refine ⟨fun hne => ⟨hheld, ?_⟩, fun f hne hempty => absurd ?_ hne⟩
    · obtain ⟨cell, hcell, -, hspec, -⟩ := hev.cell
      rw [status_write] at hne ⊢
      dsimp only at hne ⊢
      rcases hguarded.standing hinv hheld hcell with ⟨-, hfrom⟩ | ⟨-, hto⟩
      · rw [Store.intended, hcell, Option.map_some, hfrom, hspec]
      · rw [hspec] at hne
        exact absurd hto.symm hne
    · rw [status_write] at hempty
      exact hempty
  | finish op c squat hev =>
    refine ⟨fun hne => absurd ?_ hne, fun f hne hempty => ?_⟩
    · rw [status_write]
      exact finishOn_pointer_of_steady hev hsteady
    · obtain ⟨-, -, -, -, hlocks⟩ := finishOn_keeps op c squat s.stage.latest
      rw [status_write, hlocks] at hempty
      by_contra hother
      exact hne ((releaseLock_get_of_ne rfl (by rw [hev.uid]; exact hother)).symm.trans hempty)

theorem Disturbs.byHolder (h : Disturbs s s') :
    s'.status.pointer = s.status.pointer ∧ s'.status.locks = s.status.locks := by
  cases h with
  | showStage => exact ⟨rfl, rfl⟩
  | writeStage st hmetadata haside =>
    rw [status_write]
    exact ⟨haside.pointer, haside.locks⟩
  | cell => exact ⟨rfl, rfl⟩
  | touch => exact ⟨rfl, rfl⟩
  | propose => exact ⟨rfl, rfl⟩
  | approve => exact ⟨rfl, rfl⟩

theorem byHolder_of_protocol (hinv : Inv r s) (hguarded : Guarded s)
    {e : System.Event r.system} (h : r.system.Protocol (Move r) e s s') (hsteady : Steady s s') :
    ByHolder r e s s' := by
  cases h with
  | start X => exact ⟨fun hne => absurd rfl hne, fun f hne hempty => absurd hempty hne⟩
  | crash X => exact ⟨fun hne => absurd rfl hne, fun f hne hempty => absurd hempty hne⟩
  | call X o hmove =>
    obtain ⟨hpointer, hlocks⟩ := hmove.byHolder hinv hguarded hsteady
    refine ⟨fun hne => ?_, fun f hne hempty => ⟨o, by rw [hlocks f hne hempty]⟩⟩
    obtain ⟨hheld, hintended⟩ := hpointer hne
    rw [hheld]
    exact ⟨⟨o, rfl⟩, hintended⟩
  | act a hact =>
    obtain ⟨hpointer, hlocks⟩ := (Disturbs.of_act a hact).byHolder
    refine ⟨fun hne => absurd hpointer hne, fun f hne hempty => absurd ?_ hne⟩
    rw [← hlocks]
    exact hempty

/-- In every run on a steady level in which no concluded operation takes the
lock again and no move is left without its status write, the lock serialises
the moves of the pointer. -/
theorem serialised_of_noted {metadata : ObjectMeta} {spec : StageSpec}
    {σ : System.Config api String}
    (hrun : r.Runs (fun s s' => Steady s s' ∧ Retired s s' ∧ Noted s s') metadata spec σ) :
    Serialised σ.shared ∧
      ∀ e σ', r.system.exec σ e = some σ' → Steady σ.shared σ'.shared →
        ByHolder r e σ.shared σ'.shared := by
  obtain ⟨hgood, hopen, hguarded, hserial, hmovers, hwritten⟩ :=
    runs_good (P := fun s => HolderOpen s ∧ Guarded s ∧ Serial s ∧ Movers s ∧ Written s) hrun
      ⟨.fresh metadata spec, fun hne => absurd rfl hne, .fresh metadata spec, .fresh metadata spec,
        .fresh metadata spec⟩
      fun s s' hinv ⟨hopen, hguarded, hserial, hmovers, hwritten⟩ ⟨hsteady, hretired, hnoted⟩ hstep =>
        ⟨hopen.step hretired hstep, hguarded.step hsteady hstep,
          hserial.step hinv hguarded hsteady hstep,
          hmovers.step hinv hopen hwritten hnoted hstep, hwritten.step hstep⟩
  refine ⟨hserial.serialised hgood.holds hmovers hopen hwritten, fun e σ' hexec hsteady => ?_⟩
  exact byHolder_of_protocol hgood.holds hguarded (hgood.step (reconcile_sound r) hexec).2 hsteady

/-- An override on an empty Stage, up to its lock. -/
def startsOverride : List (System.Event quietReconciler.system) :=
  quietReconciler.starts "u1" (moveOf .override onCall { «to» := digestOf 'a' }) 6 8 (shipping {} 'a')

/-- The override moves the pointer, is confirmed and concludes. -/
def overridden : List (System.Event quietReconciler.system) :=
  startsOverride ++ quietReconciler.reconciles "u1" (List.replicate 14 (shipping {} 'a'))

/-- Another override follows it. -/
def overriddenTwice : List (System.Event quietReconciler.system) :=
  overridden ++
    quietReconciler.starts "u2"
      (moveOf .override onCall { «from» := digestOf 'a', «to» := digestOf 'b' }) 6 8
      (shipping (shopRevision 'a') 'b') ++
    quietReconciler.reconciles "u2" (List.replicate 14 (shipping {} 'b'))

theorem serialised_overriddenTwice :
    ∃ σ, quietReconciler.Runs (fun s s' => Steady s s' ∧ Retired s s' ∧ Noted s s') quietStage
        { service := "shop" } σ ∧
      σ.shared.trajectory = [("", digestOf 'a'), (digestOf 'a', digestOf 'b')] ∧
      (σ.shared.ops "u2").map (·.latest.status.phase) = some .concluded ∧
      Serialised σ.shared := by
  obtain ⟨σ, hrun, hend⟩ := quietReconciler.exists_run
    (fun s s' => Steady s s' ∧ Retired s s' ∧ Noted s s') quietStage { service := "shop" }
    overriddenTwice
    (fun s => (s.trajectory, (s.ops "u2").map (·.latest.status.phase)))
    ([("", digestOf 'a'), (digestOf 'a', digestOf 'b')], some .concluded) (by decide +kernel)
  rw [Prod.mk.injEq] at hend
  exact ⟨σ, hrun, hend.1, hend.2, (serialised_of_noted hrun).1⟩

/-- The override moves the pointer, its status write fails, and it is reconciled
again after its execution deadline. -/
def unnotedOverride : List (System.Event quietReconciler.system) :=
  startsOverride ++
    quietReconciler.reconciles "u1" (List.replicate 5 ({} : Oracle) ++ [{ fault := .failed }]) ++
    quietReconciler.reconciles "u1" (List.replicate 8 { now := 1000000 })

/-- The override concludes as errored and never says it applied, although it
moved the pointer. -/
theorem not_serialised_unnotedOverride :
    ∃ σ, quietReconciler.Runs Steady quietStage { service := "shop" } σ ∧
      σ.shared.trajectory = [("", digestOf 'a')] ∧ ¬Serialised σ.shared := by
  obtain ⟨σ, hrun, hend⟩ := quietReconciler.exists_run Steady quietStage { service := "shop" }
    unnotedOverride
    (fun s => (s.trajectory, s.movers, (s.ops "u1").map fun cell =>
      (cell.latest.status.applied, cell.latest.status.phase)))
    ([("", digestOf 'a')], ["u1"], some (false, .concluded)) (by decide +kernel)
  simp only [Prod.mk.injEq, Option.map_eq_some_iff] at hend
  obtain ⟨htrajectory, hmovers, cell, hcell, hunapplied, hphase⟩ := hend
  refine ⟨σ, hrun, htrajectory, fun h => ?_⟩
  obtain ⟨cell', hcell', hway⟩ := h.applied "u1" (by rw [hmovers]; simp)
  cases hcell.symm.trans hcell'
  rcases hway with happlied | ⟨-, -, hlive⟩
  · simp [hunapplied] at happlied
  · exact hlive hphase

end Pacto.Promoter
