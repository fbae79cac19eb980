import Pacto.Promoter.Lock

/-!
# Versions that failed

A promote is checked against the Stage's failed digests when it is planned, a
rollback when it is admitted.  Neither is checked again when it moves the
pointer, so a version stays out only as long as nothing marks it failed while an
operation that ships it is open.
-/

namespace Pacto.Promoter

open Delivery Support

variable {r : Reconciler} {s s' : Store}

/-- The operation ships `digest`, and its status does not say it concluded. -/
structure ShipsOpen (cell : Cell) (digest : String) : Prop where
  ships : Ships cell.latest.spec
  target : cell.latest.spec.params.to = digest
  live : cell.latest.status.phase ≠ .concluded

instance (spec : OperationSpec) : Decidable (Ships spec) := inferInstanceAs (Decidable (_ ∨ _))

instance (cell : Cell) (digest : String) : Decidable (ShipsOpen cell digest) :=
  decidable_of_iff
    (Ships cell.latest.spec ∧ cell.latest.spec.params.to = digest ∧
      cell.latest.status.phase ≠ .concluded)
    ⟨fun h => ⟨h.1, h.2.1, h.2.2⟩, fun h => ⟨h.ships, h.target, h.live⟩⟩

/-- No digest is marked failed while an operation that ships it is open, unless
the mark is that operation's own conclusion. -/
def Unmarked (s s' : Store) : Prop :=
  ∀ d ∈ s'.status.failedDigests, d ∉ s.status.failedDigests →
    ∀ X ∈ s.uids, ∀ cell ∈ s.ops X, ShipsOpen cell d →
      concludedOn s.status X = none ∧ concludedOn s'.status X ≠ none

instance (s s' : Store) : Decidable (Unmarked s s') := by
  unfold Unmarked
  infer_instance

/-- An operation for a digest that failed is created only once the cache shows
the mark. -/
def Shown (s s' : Store) : Prop :=
  ∀ X ∈ s'.uids, (s.ops X).isNone → ∀ cell ∈ s'.ops X,
    cell.latest.spec.params.to ∈ s.status.failedDigests →
      ∀ st ∈ s.stage.versions, cell.born ≤ st.resourceVersion →
        cell.latest.spec.params.to ∈ st.status.failedDigests

instance (s s' : Store) : Decidable (Shown s s') := by
  unfold Shown
  infer_instance

/-- What an open operation was checked for is not marked failed before it moved
the pointer, nor while it may move it again. -/
def Clear (s : Store) : Prop :=
  ∀ X cell d, s.ops X = some cell → ShipsOpen cell d → s.Checked X d →
    (¬s.Moved X ∨ s.holder = X) → d ∉ s.status.failedDigests

/-- Only its own conclusion takes a seq for an operation. -/
theorem StageStep.concludes (h : StageStep r s s') {X : String}
    (hbefore : concludedOn s.status X = none) (hafter : concludedOn s'.status X ≠ none) :
    ∃ op c squat, FinishEvidence r X op c s ∧
      s' = s.setStage (s.stage.write (finishOn squat (op, c) s.stage.latest).2) := by
  have hsame : s'.status.stream.concluded ≠ s.status.stream.concluded := by
    intro hsame
    exact hafter (by rw [concludedOn, hsame]; exact hbefore)
  cases h with
  | quiet hversions => exact absurd (by rw [status_congr hversions]) hsame
  | aside st hs' haside => exact absurd (by rw [hs', status_write, haside.concluded]) hsame
  | lock Y op hev hlock hs' => exact absurd (by rw [hs', status_write]) hsame
  | move Y op hev hheld hs' => exact absurd (by rw [hs', status_write]) hsame
  | finish Y op c squat hev hs' =>
    obtain ⟨e, he⟩ := Option.ne_none_iff_exists'.mp hafter
    obtain ⟨hmem, huid⟩ := concludedOn_eq_some he
    rw [hs', status_write] at hmem
    rcases mem_finishOn_concluded hmem with hold | ⟨-, rfl⟩
    · exact absurd huid (concludedOn_eq_none hbefore hold)
    · obtain rfl : Y = X := hev.uid.symm.trans huid
      exact ⟨op, c, squat, hev, hs'⟩

namespace Clear

theorem congr (hinv' : Inv r s') (h : Clear s) (hshown : Shown s s') (hstep : Step r s s')
    (hversions : s'.stage.versions = s.stage.versions) : Clear s' := by
  intro X cell' d hcell' hships hchecked hmay
  rw [status_congr hversions]
  rw [moved_congr hversions, holder_congr hversions] at hmay
  obtain ⟨cell'', hcell'', st, hst, hborn, hfailed⟩ := hchecked
  cases hcell'.symm.trans hcell''
  rw [hversions] at hst
  -- The operation as it was, when its intent, phase and birth are the same.
  have hold : ∀ cell, s.ops X = some cell → cell'.latest.spec = cell.latest.spec →
      cell.latest.status.phase ≠ .concluded → cell'.born = cell.born →
      d ∉ s.status.failedDigests := by
    intro cell hcell hspec hlive hsame
    refine h X cell d hcell ⟨?_, ?_, hlive⟩ ⟨cell, hcell, st, hst, hsame ▸ hborn, hfailed⟩ hmay
    · rw [← hspec]
      exact hships.ships
    · rw [← hspec]
      exact hships.target
  cases hstep.opStep X with
  | absent _ hnone =>
    rw [hnone] at hcell'
    cases hcell'
  | created cell hnone hnew =>
    cases hnew.symm.trans hcell'
    intro hmem
    rw [← hships.target] at hmem hfailed
    exact hfailed (hshown X (hinv'.listed X cell' hcell') (by simp [hnone]) cell' hcell' hmem st hst
      hborn)
  | kept cell new hcell hnew hsame hborn' =>
    cases hnew.symm.trans hcell'
    have hlatest := Cell.latest_congr hsame
    exact hold cell hcell (by rw [hlatest]) (by rw [← hlatest]; exact hships.live) hborn'
  | touched cell new hcell hnew _ _ hborn' hprogress hstatus =>
    cases hnew.symm.trans hcell'
    exact hold cell hcell (congrArg Progress.spec hprogress)
      (by rw [← hstatus]; exact hships.live) hborn'
  | saved cell new hcell hnew _ _ _ hborn' hsaved =>
    cases hnew.symm.trans hcell'
    exact hold cell hcell hsaved.spec hsaved.live hborn'

theorem write (hinv : Inv r s) (h : Clear s) (hopen : HolderOpen s) (hunmarked : Unmarked s s')
    (hstep : StageStep r s s') {st : Stage} (hs' : s' = s.setStage (s.stage.write st)) :
    Clear s' := by
  intro X cell d hcell hships hchecked hmay hmem
  have hops : s'.ops = s.ops := by rw [hs']; rfl
  rw [hops] at hcell
  -- Before the write the operation had not moved either, or was in the lock.
  have hmay' : ¬s.Moved X ∨ s.holder = X := by
    rcases hmay with hunmoved | hheld
    · left
      intro hmoved
      exact hunmoved (by rw [hs', moved_write]; exact .inl hmoved)
    · cases hstep.lockStep with
      | kept hsame => exact .inr (hsame.symm.trans hheld)
      | released hempty => exact absurd (hheld.symm.trans hempty) (hinv.ne_empty hcell)
      | taken Y op hev _ _ hY =>
        obtain rfl : Y = X := hY.symm.trans hheld
        exact .inl hev.unmoved
  by_cases hbefore : d ∈ s.status.failedDigests
  · refine h X cell d hcell hships ?_ hmay' hbefore
    obtain ⟨cell', hcell', v, hv, hborn, hfailed⟩ := hchecked
    rw [hs', ops_setStage, hcell] at hcell'
    obtain rfl := Option.some.inj hcell'
    have hv' : v ∈ s.stage.versions ∨ v.status = st.status := by
      rw [hs'] at hv
      rcases mem_versions_setStage_write hv with hv | rfl
      · exact .inl hv
      · exact .inr rfl
    rcases hv' with hv' | hlatest
    · exact ⟨cell, hcell, v, hv', hborn, hfailed⟩
    · refine absurd ?_ hfailed
      rw [hlatest]
      rw [hs', status_write] at hmem
      exact hmem
  · obtain ⟨hnone, hsome⟩ := hunmarked d hmem hbefore X (hinv.listed X cell hcell) cell hcell hships
    obtain ⟨op, c, squat, hev, hfinish⟩ := hstep.concludes hnone hsome
    -- The mark is the operation's own, so it moved and gave the lock up.
    rw [hfinish, status_write] at hmem
    rcases mem_failedDigests_finishOn hmem with hold | ⟨-, hfailed, -⟩
    · exact hbefore hold
    have hmoved : s.Moved X := hev.failed (settled_failed hfailed)
    have hheld : s'.holder = X := hmay.resolve_left fun hunmoved =>
      hunmoved (by rw [hs', moved_write]; exact .inl hmoved)
    have hbefore' : s.holder = X := hmay'.resolve_left fun hunmoved => hunmoved hmoved
    exact (hopen.holding hinv hcell hbefore').released hev squat (hinv.ne_empty hcell)
      (hfinish ▸ hheld)

end Clear

theorem Clear.step (hinv : Inv r s) (hinv' : Inv r s') (h : Clear s) (hopen : HolderOpen s)
    (hunmarked : Unmarked s s') (hshown : Shown s s') (hstep : Step r s s') : Clear s' := by
  rcases hstep.stageStep.versions with hversions | ⟨st, hs'⟩
  · exact h.congr hinv' hshown hstep hversions
  · exact h.write hinv hopen hunmarked hstep.stageStep hs'

theorem Clear.fresh (metadata : ObjectMeta) (spec : StageSpec) :
    Clear (Store.fresh metadata spec) := by
  intro X cell d hcell
  cases hcell

/-! ## No failed version is shipped -/

/-- The event is a compare-and-swap of the Stage by `X`, which holds the pointer
lock before and after it and is the last mover then: `running` sets the
pointer. -/
structure SetsPointer (r : Reconciler) (e : System.Event r.system) (X : String) (s s' : Store) :
    Prop where
  call : ∃ o, e = .call X o
  wrote : s'.stage.versions ≠ s.stage.versions
  before : s.holder = X
  after : s'.holder = X
  last : s'.status.lastOp = X

theorem Move.of_setsPointer {X : String} (hinv : Inv r s) (hopen : HolderOpen s)
    (hmove : Move r X s s') (hwrote : s'.stage.versions ≠ s.stage.versions) (hbefore : s.holder = X)
    (hafter : s'.holder = X) (hlast : s'.status.lastOp = X) :
    ∃ op, MoveEvidence X op s ∧ s'.status.pointer = op.spec.params.to := by
  cases hmove with
  | idle => exact absurd rfl hwrote
  | read => exact absurd rfl hwrote
  | save => exact absurd rfl hwrote
  | raise => exact absurd rfl hwrote
  | lock op st hlock hev =>
    obtain ⟨-, -, rfl⟩ := lockOn_eq_ok_iff.mp hlock
    rw [status_write] at hlast
    exact absurd (Store.moved_of_last hlast) hev.unmoved
  | move op st hmove hev =>
    obtain ⟨-, rfl⟩ := moveOn_eq_ok_iff.mp hmove
    exact ⟨op, hev, by rw [status_write]⟩
  | finish op c squat hev =>
    obtain ⟨cell, hcell, -⟩ := hev.cell
    exact absurd hafter ((hopen.holding hinv hcell hbefore).released hev squat (hinv.ne_empty hcell))

/-- In every run in which no digest is marked failed under an open operation
that ships it, no operation for a failed digest is created before the cache
shows the mark, and no concluded operation takes the lock again, no promote or
rollback sets the pointer to a digest the Stage lists as failed. -/
theorem not_failed_of_unmarked {metadata : ObjectMeta} {spec : StageSpec}
    {σ : System.Config api String}
    (hrun : r.Runs (fun s s' => Retired s s' ∧ Unmarked s s' ∧ Shown s s') metadata spec σ) :
    ∀ e σ' X cell, r.system.exec σ e = some σ' → SetsPointer r e X σ.shared σ'.shared →
      σ.shared.ops X = some cell → Ships cell.latest.spec →
        σ'.shared.status.pointer = cell.latest.spec.params.to ∧
          cell.latest.spec.params.to ∉ σ.shared.status.failedDigests := by
  obtain ⟨hgood, hopen, hclear, hwritten⟩ :=
    runs_good (P := fun s => HolderOpen s ∧ Clear s ∧ Written s) hrun
      ⟨.fresh metadata spec, .fresh metadata spec, .fresh metadata spec⟩
      fun s s' hinv ⟨hopen, hclear, hwritten⟩ ⟨hretired, hunmarked, hshown⟩ hstep =>
        ⟨hopen.step hretired hstep,
          hclear.step hinv (hinv.step hstep) hopen hunmarked hshown hstep, hwritten.step hstep⟩
  intro e σ' X cell hexec hsets hcell hships
  obtain ⟨o, rfl⟩ := hsets.call
  have hprotocol := (hgood.step (reconcile_sound r) hexec).2
  cases hprotocol with
  | call X o hmove =>
    obtain ⟨op, hev, hpointer⟩ :=
      hmove.of_setsPointer hgood.holds hopen hsets.wrote hsets.before hsets.after hsets.last
    obtain ⟨cell', hcell', -, hspec, -⟩ := hev.cell
    cases hcell.symm.trans hcell'
    refine ⟨by rw [hpointer, hspec], ?_⟩
    have hlive : cell.latest.status.phase ≠ .concluded := by
      intro hphase
      obtain ⟨e, hgiven, -⟩ := hwritten X cell hcell _ cell.register.latest_mem hphase
      exact (hopen.holding hgood.holds hcell hsets.before).isOpen e hgiven
    refine hclear X cell _ hcell ⟨hships, rfl, hlive⟩ ?_ (.inr hsets.before)
    have hchecked := hev.checked (by rw [hspec]; exact hships)
    rw [hspec] at hchecked
    exact hchecked

/-! ## A rollback to a version that failed meanwhile -/

/-- What shows that a call sets the pointer: the lock before and after it, the
last mover, how many versions the Stage has, what the operation ships, and what
failed on the Stage. -/
structure PointerSwap where
  before : String
  after : String
  last : String
  versions : Nat × Nat
  intent : Option (TypeID × String)
  failed : List String
  deriving DecidableEq

@[inherit_doc PointerSwap]
def pointerSwap (X : String) (s s' : Store) : PointerSwap where
  before := s.holder
  after := s'.holder
  last := s'.status.lastOp
  versions := (s.stage.versions.length, s'.stage.versions.length)
  intent := (s.ops X).map fun cell => (cell.latest.spec.type, cell.latest.spec.params.to)
  failed := s.status.failedDigests

theorem setsPointer_of_eq {e : System.Event r.system} {X digest : String} {o : Oracle} {m n : Nat}
    {type : TypeID} {failed : List String} (he : e = .call X o) (hmn : m ≠ n)
    (h : pointerSwap X s s' = ⟨X, X, X, (m, n), some (type, digest), failed⟩) :
    SetsPointer r e X s s' ∧ s.status.failedDigests = failed ∧
      ∃ cell, s.ops X = some cell ∧ cell.latest.spec.type = type ∧
        cell.latest.spec.params.to = digest := by
  simp only [pointerSwap, PointerSwap.mk.injEq, Prod.mk.injEq, Option.map_eq_some_iff] at h
  obtain ⟨hbefore, hafter, hlast, ⟨hm, hn⟩, ⟨cell, hcell, htype, hdigest⟩, hfailed⟩ := h
  refine ⟨⟨⟨o, he⟩, fun hsame => hmn ?_, hbefore, hafter, hlast⟩, hfailed, cell, hcell, htype,
    hdigest⟩
  rw [← hm, ← hn, hsame]

/-- An agent's promote of the first of two versions is verified. -/
def agentShips : List (System.Event quietReconciler.system) :=
  quietReconciler.acts
      [.writeStage (.published (digestOf 'a')), .writeStage (.published (digestOf 'b'))] ++
    quietReconciler.starts "p1" (moveOf .promote agent { «to» := digestOf 'a' }) 6 9
      (shipping {} 'a') ++
    quietReconciler.reconciles "p1" (List.replicate 10 (shipping {} 'a')) ++
    quietReconciler.acts [.showOp "p1", .showOp "p1"] ++
    quietReconciler.reconciles "p1" (List.replicate 8 (shipping {} 'a'))

/-- The agent's promote of the second version, up to its lock. -/
def startsSecond : List (System.Event quietReconciler.system) :=
  quietReconciler.starts "p2"
    (moveOf .promote agent { «from» := digestOf 'a', «to» := digestOf 'b' }) 6 9
    (shipping (shopRevision 'a') 'b')

@[inherit_doc startsSecond]
def agentPromotes : List (System.Event quietReconciler.system) := agentShips ++ startsSecond

/-- The second promote is being verified. -/
def agentVerifies : List (System.Event quietReconciler.system) :=
  agentPromotes ++ quietReconciler.reconciles "p2" (List.replicate 10 (shipping {} 'b')) ++
    quietReconciler.acts [.showOp "p2", .showOp "p2"]

/-- The second promote fails, and the rollback the promoter raises takes the lock. -/
def rolledBack : List (System.Event quietReconciler.system) :=
  let fails : Oracle := { verdicts := [{ gate := "smoke", phase := "verify", result := .fail }] }
  agentVerifies ++
    quietReconciler.reconciles "p2"
      (List.replicate 6 { fails with uid := "s1" } ++ List.replicate 5 { fails with uid := "s2" }) ++
    quietReconciler.acts [.showOp "p2", .showOp "s2"] ++
    quietReconciler.reconciles "s2" (List.replicate 7 {}) ++ quietReconciler.acts [.showOp "s2"] ++
    quietReconciler.reconciles "s2" (List.replicate 8 (shipping (shopRevision 'b') 'a')) ++
    quietReconciler.acts [.showOp "s2"]

/-- The rollback ships the version before the one that failed. -/
theorem not_failed_rolledBack :
    ∃ σ σ' cell, quietReconciler.Runs (fun s s' => Retired s s' ∧ Unmarked s s' ∧ Shown s s')
        quietStage autonomousStage σ ∧
      quietReconciler.system.exec σ (.call "s2" {}) = some σ' ∧
      SetsPointer quietReconciler (.call "s2" {}) "s2" σ.shared σ'.shared ∧
      σ.shared.ops "s2" = some cell ∧ σ'.shared.status.pointer = digestOf 'a' ∧
      σ.shared.status.failedDigests = [digestOf 'b'] ∧
      cell.latest.spec.params.to ∉ σ.shared.status.failedDigests := by
  obtain ⟨σ, σ', hrun, hexec, hend⟩ := quietReconciler.exists_step
    (fun s s' => Retired s s' ∧ Unmarked s s' ∧ Shown s s') quietStage autonomousStage
    (rolledBack ++ quietReconciler.reconciles "s2" (List.replicate 4 {})) (.call "s2" {})
    (pointerSwap "s2")
    ⟨"s2", "s2", "s2", (10, 11), some (.rollback, digestOf 'a'), [digestOf 'b']⟩
    (by decide +kernel)
  obtain ⟨hsets, hfailed, cell, hcell, htype, hdigest⟩ := setsPointer_of_eq rfl (by decide) hend
  obtain ⟨hpointer, hclear⟩ :=
    not_failed_of_unmarked hrun _ σ' "s2" cell hexec hsets hcell (.inr htype)
  exact ⟨σ, σ', cell, hrun, hexec, hsets, hcell, hpointer.trans hdigest, hfailed, hclear⟩

/-- An agent rolls its second promote back, and a person undoes that before the
promote is judged.  The promote then fails, and the person's rollback, admitted
earlier, takes the lock. -/
def undoneRollback : List (System.Event quietReconciler.system) :=
  agentVerifies ++
    quietReconciler.starts "r1"
      (moveOf .rollback agent
        { «from» := digestOf 'b', «to» := digestOf 'a', undoes := "p2" }) 7 9
      (shipping (shopRevision 'b') 'a') ++
    quietReconciler.reconciles "r1" (List.replicate 10 (shipping {} 'a')) ++
    quietReconciler.acts
      [.showOp "r1", .showOp "r1",
        .propose "r2" "r2" 0
          (moveOf .rollback person
            { «from» := digestOf 'a', «to» := digestOf 'b', undoes := "r1" }),
        .showOp "r2"] ++
    quietReconciler.reconciles "r2" (List.replicate 7 {}) ++ quietReconciler.acts [.showOp "r2"] ++
    quietReconciler.reconciles "p2" (List.replicate 10 { uid := "s1" }) ++
    quietReconciler.reconciles "r2" (List.replicate 9 (shipping (shopRevision 'a') 'b')) ++
    quietReconciler.acts [.showOp "r2"]

/-- The person's rollback ships the version that failed. -/
theorem failed_undoneRollback :
    ∃ σ σ' cell, quietReconciler.Runs (fun _ _ => True) quietStage autonomousStage σ ∧
      quietReconciler.system.exec σ (.call "r2" {}) = some σ' ∧
      SetsPointer quietReconciler (.call "r2" {}) "r2" σ.shared σ'.shared ∧
      σ.shared.ops "r2" = some cell ∧ cell.latest.spec.type = .rollback ∧
      cell.latest.spec.params.to ∈ σ.shared.status.failedDigests := by
  obtain ⟨σ, σ', hrun, hexec, hend⟩ := quietReconciler.exists_step (fun _ _ => True) quietStage
    autonomousStage (undoneRollback ++ quietReconciler.reconciles "r2" (List.replicate 4 {}))
    (.call "r2" {}) (pointerSwap "r2")
    ⟨"r2", "r2", "r2", (12, 13), some (.rollback, digestOf 'b'), [digestOf 'b']⟩
    (by decide +kernel)
  obtain ⟨hsets, hfailed, cell, hcell, htype, hdigest⟩ := setsPointer_of_eq rfl (by decide) hend
  refine ⟨σ, σ', cell, hrun, hexec, hsets, hcell, htype, ?_⟩
  rw [hfailed, hdigest]
  exact List.mem_singleton_self _

end Pacto.Promoter
