import Pacto.Promoter.FailedDigest

/-!
# A promote that is pulled before it is judged

A rollback may take the pointer lock from a promote that is being verified.
When no person stands behind either of them, the promote is to conclude as
failed, so that an agent cannot pull its own failing promote and ship it again.
The reconcile that concludes the promote decides this from the Stage it read at
its start.
-/

namespace Pacto.Promoter

open Delivery Support

variable {r : Reconciler} {s s' : Store}

/-! ## Losing the lock -/

def Store.MovedBy (s : Store) (X : String) (n : Nat) : Prop :=
  ∃ st ∈ s.stage.versions, st.resourceVersion ≤ n ∧ st.status.lastOp = X

def Store.TookFrom (s : Store) (X R : String) (n : Nat) : Prop :=
  ∃ st ∈ s.stage.versions, st.resourceVersion ≤ n ∧ st.status.locks.get .pointer = R ∧
    s.MovedBy X st.resourceVersion

instance (s : Store) (X : String) (n : Nat) : Decidable (s.MovedBy X n) := by
  unfold Store.MovedBy
  infer_instance

instance (s : Store) (X R : String) (n : Nat) : Decidable (s.TookFrom X R n) := by
  unfold Store.TookFrom
  infer_instance

/-- An operation that moved the pointer and lost the lock does not get it
back. -/
def LosesLock (s : Store) : Prop :=
  ∀ X, X ≠ "" → ∀ a ∈ s.stage.versions, ∀ b ∈ s.stage.versions,
    a.resourceVersion ≤ b.resourceVersion → b.status.locks.get .pointer = X →
      s.MovedBy X a.resourceVersion → a.status.locks.get .pointer = X

theorem movedBy_congr (h : s'.stage.versions = s.stage.versions) (X : String) (n : Nat) :
    s'.MovedBy X n ↔ s.MovedBy X n := by
  simp only [Store.MovedBy, h]

theorem LosesLock.step (h : LosesLock s) (hstep : StageStep r s s') : LosesLock s' := by
  rcases hstep.versions with hversions | ⟨st, hs'⟩
  · intro X hX a ha b hb hab hlock hmoved
    rw [hversions] at ha hb
    exact h X hX a ha b hb hab hlock ((movedBy_congr hversions X _).mp hmoved)
  intro X hX a ha b hb hab hlock hmoved
  set new : Stage := Resource.withVersion s.stage.versions.length st
  have hmem : ∀ v ∈ s'.stage.versions, v ∈ s.stage.versions ∨ v = new := by
    intro v hv
    rw [hs'] at hv
    exact mem_versions_setStage_write hv
  have hlater : ∀ v ∈ s.stage.versions, v.resourceVersion < new.resourceVersion :=
    fun v hv => Register.version_lt hv
  rcases hmem a ha with ha | rfl
  · have hmoved' : s.MovedBy X a.resourceVersion := by
      obtain ⟨v, hv, hle, hlast⟩ := hmoved
      rcases hmem v hv with hv | rfl
      · exact ⟨v, hv, hle, hlast⟩
      · exact absurd (hlater a ha) (by omega)
    rcases hmem b hb with hb | rfl
    · exact h X hX a ha b hb hab hlock hmoved'
    · have hholder : s'.holder = X := by
        rw [hs', holder_write]
        exact hlock
      cases hstep.lockStep with
      | kept hsame =>
        exact h X hX a ha s.stage.latest s.stage.latest_mem (Register.version_le_latest ha)
          (hsame.symm.trans hholder) hmoved'
      | released hempty => exact absurd (hholder.symm.trans hempty) hX
      | taken Y op hev _ _ hY =>
        obtain rfl : Y = X := hY.symm.trans hholder
        obtain ⟨v, hv, -, hlast⟩ := hmoved'
        exact absurd ⟨v, hv, hlast⟩ hev.unmoved
  · rcases hmem b hb with hb | rfl
    · exact absurd (hlater b hb) (by omega)
    · exact hlock

theorem LosesLock.fresh (metadata : ObjectMeta) (spec : StageSpec) :
    LosesLock (Store.fresh metadata spec) := by
  intro X hX a ha b hb _ hlock
  rw [status_of_mem_fresh hb] at hlock
  exact absurd hlock.symm hX

/-- An operation that moved the pointer and is not in the lock was verified or
concluded first, unless the cache lost it. -/
def Overtaken (s : Store) : Prop :=
  ∀ X cell, s.ops X = some cell → s.Moved X → s.holder ≠ X →
    cell.forgotten = true ∨ (∃ v ∈ cell.register.versions, v.PastApply) ∨ ∃ e, s.Given X e

/-- Only its own conclusion or another operation takes the lock from an
operation. -/
theorem StageStep.loses (h : StageStep r s s') {X : String} (hX : X ≠ "") (hbefore : s.holder = X)
    (hafter : s'.holder ≠ X) : (∃ e, s'.Given X e) ∨ ∃ op, s.Yields op X := by
  have hlost : ∀ st, s' = s.setStage (s.stage.write st) → st.status.locks = s.status.locks →
      s'.holder = X := by
    intro st hs' hlocks
    rw [hs', holder_write, hlocks]
    exact hbefore
  cases h with
  | quiet hversions => exact absurd ((holder_congr hversions).trans hbefore) hafter
  | aside st hs' haside => exact absurd (hlost st hs' haside.locks) hafter
  | move Y op hev hheld hs' => exact absurd (hlost _ hs' rfl) hafter
  | lock Y op hev hlock hs' =>
    by_cases hfacet : op.spec.facet = .pointer
    · have hheld : s.status.locks.get op.spec.facet = X := hfacet ▸ hbefore
      have hholder : s'.holder = Y := by
        rw [hs', holder_write, ← hev.uid]
        exact hfacet ▸ Locks.get_set_self _ _ _
      have hfree := hev.free
      rw [hheld] at hfree
      rcases hfree with hempty | hY | hyields
      · exact absurd hempty hX
      · exact absurd (hholder.trans hY.symm) hafter
      · exact .inr ⟨op, hyields⟩
    · refine absurd ?_ hafter
      rw [hs', holder_write]
      exact (Locks.get_set_of_ne _ _ (Ne.symm hfacet)).trans hbefore
  | finish Y op c squat hev hs' =>
    obtain ⟨-, -, -, -, hlocks⟩ := finishOn_keeps op c squat s.stage.latest
    have huid : op.uid = X := by
      by_contra hne
      refine hafter ?_
      rw [hs', holder_write, hlocks]
      exact releaseLock_get_of_ne hbefore (Ne.symm hne)
    have hgiven : ∀ e, e.uid = X →
        e ∈ (finishOn squat (op, c) s.stage.latest).2.status.stream.concluded → s'.Given X e := by
      intro e he hmem
      rw [hs', given_write]
      exact .inr ⟨he, hmem⟩
    left
    cases hconcluded : concludedOn s.status X with
    | some done =>
      obtain ⟨hmem, hdone⟩ := concludedOn_eq_some hconcluded
      rw [← huid] at hconcluded
      exact ⟨done, hgiven done hdone
        (by rw [finishOn_stream_of_concluded c squat hconcluded]; exact hmem)⟩
    | none =>
      rw [← huid] at hconcluded
      exact ⟨_, hgiven _ huid (mem_finishOn_of_open c squat hconcluded)⟩

theorem Overtaken.step (hinv : Inv r s) (h : Overtaken s) (hstep : Step r s s') : Overtaken s' := by
  intro X cell' hcell' hmoved hholder
  have hX := (hinv.step hstep).ne_empty hcell'
  -- Nothing an operation got past is undone.
  have hstill : ∀ cell, s.ops X = some cell →
      (cell.forgotten = true ∨ (∃ v ∈ cell.register.versions, v.PastApply) ∨ ∃ e, s.Given X e) →
      cell'.forgotten = true ∨ (∃ v ∈ cell'.register.versions, v.PastApply) ∨
        ∃ e, s'.Given X e := by
    intro cell hcell hpast
    obtain ⟨new, hnew, hgrows, -, hforgot, -⟩ := hstep.evolves.cells X cell hcell
    cases hnew.symm.trans hcell'
    rcases hpast with hlost | ⟨v, hv, hphase⟩ | ⟨e, he⟩
    · exact .inl (hforgot hlost)
    · exact .inr (.inl ⟨v, hgrows.mem hv, hphase⟩)
    · exact .inr (.inr ⟨e, hstep.evolves.given he⟩)
  by_cases hbefore : s.Moved X
  · obtain ⟨cell, hcell, -⟩ := hinv.movedRead X hX hbefore
    by_cases hheld : s.holder = X
    · rcases hstep.stageStep.loses hX hheld hholder with hgiven | ⟨op, old, hold, hway⟩
      · exact .inr (.inr hgiven)
      refine hstill old hold ?_
      rcases hway with hlost | ⟨v, hv, -, hphase | ⟨-, hpast⟩⟩
      · exact .inl hlost
      · exact .inr (.inl ⟨v, hv, .inr (.inl hphase)⟩)
      · exact .inr (.inl ⟨v, hv, hpast⟩)
    · exact hstill cell hcell (h X cell hcell hbefore hheld)
  · -- Whoever moves the pointer is in the lock then.
    exfalso
    have hnew : ∀ st, s' = s.setStage (s.stage.write st) → st.status.lastOp = X := by
      intro st hs'
      rw [hs', moved_write] at hmoved
      exact hmoved.resolve_left hbefore
    have hlast : ∀ st, s' = s.setStage (s.stage.write st) → st.status.lastOp ≠ s.status.lastOp := by
      intro st hs' hsame
      exact hbefore (Store.moved_of_last (hsame.symm.trans (hnew st hs')))
    cases hstep.stageStep with
    | quiet hversions => exact hbefore ((moved_congr hversions X).mp hmoved)
    | aside st hs' haside => exact hlast st hs' haside.lastOp
    | lock Y op hev hlock hs' => exact hlast _ hs' rfl
    | finish Y op c squat hev hs' =>
      exact hlast _ hs' (finishOn_keeps op c squat s.stage.latest).2.2.2.1
    | move Y op hev hheld hs' =>
      have hY : Y = X := hnew _ hs'
      refine hholder ?_
      rw [hs', holder_write]
      exact hheld.trans hY

theorem Overtaken.fresh (metadata : ObjectMeta) (spec : StageSpec) :
    Overtaken (Store.fresh metadata spec) := by
  intro X cell hcell
  cases hcell

/-! ## What a pulled promote ends as -/

/-- The operation is a rollback of `X` that neither a person nor break-glass
raised. -/
def Pulls (r : Reconciler) (X : String) (cell : Cell) : Prop :=
  cell.latest.spec.type = .rollback ∧ cell.latest.spec.params.undoes = X ∧
    r.policy.classify cell.latest.spec.actor ≠ .human ∧
    r.policy.classify cell.latest.spec.actor ≠ .breakGlass

instance (r : Reconciler) (X : String) (cell : Cell) : Decidable (Pulls r X cell) :=
  inferInstanceAs (Decidable (_ ∧ _ ∧ _ ∧ _))

def IsStepDown (r : Reconciler) (X : String) (spec : OperationSpec) : Prop :=
  spec.type = .autonomy ∧ spec.actor.user = r.policy.controllerUser ∧ causeOp spec = X

instance (r : Reconciler) (X : String) (spec : OperationSpec) : Decidable (IsStepDown r X spec) :=
  inferInstanceAs (Decidable (_ ∧ _ ∧ _))

/-- Whoever concludes an operation started from a Stage that shows the lock of
every rollback that pulled it, while the cache still shows both, and nobody else
uses the name of its step-down. -/
structure SeenAt (r : Reconciler) (X : String) (cell : Cell) (s : Store) : Prop where
  shown : cell.forgotten = false
  took : ∀ R ∈ s.uids, ∀ rollback ∈ s.ops R, Pulls r X rollback →
    s.TookFrom X R s.stage.latest.resourceVersion →
      s.TookFrom X R (s.reads X) ∧ rollback.forgotten = false
  named : ∀ Y ∈ s.uids, ∀ other ∈ s.ops Y, other.latest.name = cell.latest.name ++ "-stepdown" →
    IsStepDown r X other.latest.spec

@[inherit_doc SeenAt]
def Seen (r : Reconciler) (s s' : Store) : Prop :=
  ∀ X ∈ s.uids, ∀ cell ∈ s.ops X, concludedOn s.status X = none →
    concludedOn s'.status X ≠ none → SeenAt r X cell s

instance (r : Reconciler) (X : String) (cell : Cell) (s : Store) : Decidable (SeenAt r X cell s) :=
  decidable_of_iff
    (cell.forgotten = false ∧
      (∀ R ∈ s.uids, ∀ rollback ∈ s.ops R, Pulls r X rollback →
        s.TookFrom X R s.stage.latest.resourceVersion →
          s.TookFrom X R (s.reads X) ∧ rollback.forgotten = false) ∧
      ∀ Y ∈ s.uids, ∀ other ∈ s.ops Y,
        other.latest.name = cell.latest.name ++ "-stepdown" → IsStepDown r X other.latest.spec)
    ⟨fun h => ⟨h.1, h.2.1, h.2.2⟩, fun h => ⟨h.shown, h.took, h.named⟩⟩

instance (r : Reconciler) (s s' : Store) : Decidable (Seen r s s') := by
  unfold Seen
  infer_instance

/-- The step concludes the applied promote `X`, which no person stands behind,
as `done`, and the rollback `R` took the lock from it before. -/
structure Pulled (r : Reconciler) (X R : String) (cell rollback : Cell) (done : Concluded)
    (s s' : Store) : Prop where
  stored : s.ops X = some cell
  promote : cell.latest.spec.type = .promote
  applied : cell.latest.status.applied = true
  isOpen : ∀ e, ¬s.Given X e
  concluded : concludedOn s'.status X = some done
  person : done.person = false
  puller : s.ops R = some rollback
  pulls : Pulls r X rollback
  took : s.TookFrom X R s.stage.latest.resourceVersion

/-- The promote failed, its version is marked, and its step-down is raised as
long as the Stage was on an automatic level throughout the reconcile. -/
structure Punished (r : Reconciler) (X : String) (cell : Cell) (done : Concluded) (s s' : Store) :
    Prop where
  failed : done.outcome = .failed
  marked : cell.latest.spec.params.to ∈ s'.status.failedDigests
  steppedDown :
    (∀ st ∈ s.stage.versions, s.reads X ≤ st.resourceVersion →
      (currentLevel st.spec st.status).automatic = true) →
    ∃ Y other, s'.ops Y = some other ∧ other.latest.name = cell.latest.name ++ "-stepdown" ∧
      IsStepDown r X other.latest.spec

namespace Pulled

variable {X R : String} {cell rollback : Cell} {done : Concluded}

theorem ne (h : Pulled r X R cell rollback done s s') : R ≠ X := by
  rintro rfl
  cases h.stored.symm.trans h.puller
  exact absurd (h.pulls.1.symm.trans h.promote) (by decide)

/-- Once the lock was the rollback's, it is not the promote's again. -/
theorem lost (h : Pulled r X R cell rollback done s s') (hinv : Inv r s) (hloses : LosesLock s)
    {n : Nat} (htook : s.TookFrom X R n) {st : Stage} (hst : st ∈ s.stage.versions)
    (hle : n ≤ st.resourceVersion) : st.status.locks.get .pointer ≠ X := by
  intro hholder
  obtain ⟨a, ha, han, hR, hmoved⟩ := htook
  exact h.ne (hR.symm.trans
    (hloses X (hinv.ne_empty h.stored) a ha st hst (han.trans hle) hholder hmoved))

/-- A reconcile that saw the rollback in the lock judges the promote as pulled. -/
theorem judged (h : Pulled r X R cell rollback done s s') (hinv : Inv r s) (hloses : LosesLock s)
    (hovertaken : Overtaken s) (hseen : SeenAt r X cell s) {op : Operation} {c : Conclusion}
    (hev : FinishEvidence r X op c s) (hperson : byPerson op.status = false) :
    c.outcome = .failed ∧ c.preempted = true ∧ c.cause.any (·.result = .fail) = true := by
  obtain ⟨cell', hcell', hprogress, -⟩ := hev.cell
  cases h.stored.symm.trans hcell'
  have hspec : op.spec = cell.latest.spec := congrArg Progress.spec hprogress
  have hphase : op.status.phase = cell.latest.status.phase := congrArg Progress.phase hprogress
  have happlied : op.status.applied = true :=
    (congrArg Progress.applied hprogress).trans h.applied
  have hcellok := hinv.cells X cell h.stored
  have hlatest := cell.register.latest_mem
  have hrollback := hinv.cells R rollback h.puller
  obtain ⟨htook, hshown⟩ := hseen.took R (hinv.listed R rollback h.puller) rollback h.puller h.pulls
    h.took
  cases hev.judged happlied (hspec ▸ h.promote) hperson with
  | preempted houtcome hpreempted hcause => exact ⟨houtcome, hpreempted, hcause⟩
  | again hgiven => exact absurd hgiven (h.isOpen _)
  | running hrunning =>
    -- The rollback got the lock from a promote that was being verified.
    exfalso
    obtain ⟨st, -, -, -, v, hv, -, hlast⟩ := h.took
    rcases hovertaken X cell h.stored ⟨v, hv, hlast⟩
      (h.lost hinv hloses h.took s.stage.latest_mem le_rfl) with hlost | ⟨w, hw, hpast⟩ | ⟨e, he⟩
    · exact absurd (hlost.symm.trans hseen.shown) (by decide)
    · have hlater := hcellok.applyOrder w hw _ hlatest (Register.version_le_latest hw) hpast
      rw [hrunning] at hphase
      simp [Operation.PastApply, show cell.register.latest.status.phase = .running from hphase.symm]
        at hlater
    · exact h.isOpen e he
  | held hheld =>
    exfalso
    have hlive : cell.latest.InFlight := by
      refine ⟨fun hnew => ?_, by rw [← hphase]; exact hev.live⟩
      have hearly := (hcellok.version _ hlatest).early (.inl hnew)
      exact absurd (h.applied.symm.trans hearly) (by decide)
    obtain ⟨t, htype, hfacet⟩ := (hcellok.version _ hlatest).ownFacet hlive
    have hpointer : op.spec.facet = .pointer := by
      rw [hspec, show cell.latest.spec.facet = t.facet from hfacet]
      rw [show cell.register.latest.spec.type = .promote from h.promote] at htype
      obtain rfl := Option.some.inj htype
      rfl
    obtain ⟨st, hst, hread, hlock⟩ := hheld
    rw [hpointer] at hlock
    exact h.lost hinv hloses htook hst hread.ge hlock
  | innocent hall =>
    exfalso
    obtain ⟨st, hst, hle, hR, -⟩ := htook
    obtain ⟨cell', hcell', hway⟩ := hall R (hinv.ne_empty h.puller) ⟨st, hst, hle, hR⟩
    cases h.puller.symm.trans hcell'
    rcases hway with hforgot | ⟨v, hv, hother⟩
    · exact absurd (hforgot.symm.trans hshown) (by decide)
    · obtain ⟨htype, hundoes, hhuman, hglass⟩ := h.pulls
      rw [(hrollback.same v hv).2] at hother
      rcases hother with hne | hne | heq | heq
      · exact hne htype
      · exact hne hundoes
      · exact hhuman heq
      · exact hglass heq

theorem punished (h : Pulled r X R cell rollback done s s') (hinv : Inv r s) (hloses : LosesLock s)
    (hovertaken : Overtaken s) (hseen : Seen r s s') (hstep : StageStep r s s') :
    Punished r X cell done s s' := by
  have hunread : ∀ st ∈ s.stage.versions, concludedOn st.status X = none := by
    intro st hst
    by_contra hsome
    obtain ⟨e, he⟩ := Option.ne_none_iff_exists'.mp hsome
    obtain ⟨hmem, huid⟩ := concludedOn_eq_some he
    exact h.isOpen e ⟨huid, st, hst, hmem⟩
  have hopen : concludedOn s.status X = none := hunread _ s.stage.latest_mem
  obtain ⟨hmem, huid⟩ := concludedOn_eq_some h.concluded
  rcases hstep.given ⟨huid, s'.stage.latest, s'.stage.latest_mem, hmem⟩ with
    hgiven | ⟨op, c, squat, hev, -, hdone, hs'⟩
  · exact absurd hgiven (h.isOpen done)
  have hat := hseen X (hinv.listed X cell h.stored) cell h.stored hopen (by simp [h.concluded])
  have hperson : byPerson op.status = false := by
    rw [← h.person, hdone]
    rfl
  obtain ⟨houtcome, hpreempted, hcause⟩ := h.judged hinv hloses hovertaken hat hev hperson
  obtain ⟨cell', hcell', hprogress, -⟩ := hev.cell
  cases h.stored.symm.trans hcell'
  have hspec : op.spec = cell.latest.spec := congrArg Progress.spec hprogress
  have hname : op.name = cell.latest.name := congrArg (fun p => p.metadata.name) hprogress
  have hpromote : op.spec.type = .promote := hspec ▸ h.promote
  -- What was judged to be pulled is not settled otherwise.
  have hsettled : (settled op c s.stage.latest).outcome = .failed := by
    rcases settled_cases op c s.stage.latest with hsame | ⟨-, -, hnot, -⟩ | ⟨htype, -⟩
    · rw [hsame]
      exact houtcome
    · exact absurd (hpreempted.symm.trans hnot) (by decide)
    · exact absurd (hpromote.symm.trans htype) (by decide)
  have hopen' : concludedOn s.stage.latest.status op.uid = none := by
    rw [hev.uid]
    exact hopen
  refine ⟨?_, ?_, fun hautomatic => ?_⟩
  · rw [hdone]
    exact hsettled
  · rw [hs', status_write, finishOn_failedDigests, if_pos ⟨hopen', hsettled⟩, hspec]
    exact mem_remember_self (by decide) _ _
  · have howes : Reconciler.owesStepDown op c.cause = true := by
      simp [Reconciler.owesStepDown, hpromote, hperson, hcause]
    obtain ⟨cur, hcur, hread, hraised⟩ := hev.raised hpreempted howes
    obtain ⟨Y, other, hother, v, hv, hv'⟩ := hraised (hunread cur hcur) (hautomatic cur hcur hread)
    have hlatest : other.latest.name = cell.latest.name ++ "-stepdown" := by
      rw [← hname, ← hv']
      exact congrArg ObjectMeta.name ((hinv.cells Y other hother).same v hv).1.symm
    refine ⟨Y, other, by rw [hs', ops_setStage]; exact hother, hlatest, ?_⟩
    exact hat.named Y (hinv.listed Y other hother) other hother hlatest

end Pulled

/-- In every run in which whoever concludes an operation started from a Stage
that shows who pulled it, a promote that no person stands behind and that a
rollback with no person behind it pulled fails, with its version marked and its
step-down raised. -/
theorem punished_of_seen {metadata : ObjectMeta} {spec : StageSpec} {σ : System.Config api String}
    (hrun : r.Runs (Seen r) metadata spec σ) :
    ∀ e σ' X R cell rollback done, r.system.exec σ e = some σ' → Seen r σ.shared σ'.shared →
      Pulled r X R cell rollback done σ.shared σ'.shared →
        Punished r X cell done σ.shared σ'.shared := by
  obtain ⟨hgood, hloses, hovertaken⟩ :=
    runs_good (P := fun s => LosesLock s ∧ Overtaken s) hrun
      ⟨.fresh metadata spec, .fresh metadata spec⟩
      fun s s' hinv ⟨hloses, hovertaken⟩ _ hstep =>
        ⟨hloses.step hstep.stageStep, hovertaken.step hinv hstep⟩
  intro e σ' X R cell rollback done hexec hseen hpulled
  have hstep := Step.of_protocol (hgood.step (reconcile_sound r) hexec).2
  exact hpulled.punished hgood.holds hloses hovertaken hseen hstep.stageStep

/-! ## A rollback that takes the lock after the promote was read -/

/-- The step concludes `X`, which `R` pulled, and meets `P`. -/
def concludesPulled (r : Reconciler) (X R : String) (P : Concluded → Store → Store → Bool)
    (s s' : Store) : Bool :=
  match s.ops X, s.ops R, concludedOn s'.status X with
  | some cell, some rollback, some done =>
    cell.latest.spec.type = .promote && cell.latest.status.applied && !done.person &&
      decide (∀ st ∈ s.stage.versions, ∀ e ∈ st.status.stream.concluded, e.uid ≠ X) &&
      decide (Pulls r X rollback) &&
      decide (s.TookFrom X R s.stage.latest.resourceVersion) && P done s s'
  | _, _, _ => false

theorem exists_pulled {X R : String} {P : Concluded → Store → Store → Bool}
    (h : concludesPulled r X R P s s' = true) :
    ∃ cell rollback done, Pulled r X R cell rollback done s s' ∧ P done s s' = true := by
  unfold concludesPulled at h
  split at h
  · rename_i cell rollback done hcell hrollback hdone
    simp only [Bool.and_eq_true, Bool.not_eq_true', decide_eq_true_eq] at h
    obtain ⟨⟨⟨⟨⟨⟨htype, happlied⟩, hperson⟩, hopen⟩, hpulls⟩, htook⟩, hP⟩ := h
    refine ⟨cell, rollback, done, ⟨hcell, htype, happlied, ?_, hdone, hperson, hrollback, hpulls,
      htook⟩, hP⟩
    rintro e ⟨huid, st, hst, hmem⟩
    exact hopen st hst e hmem huid
  · cases h

/-- The agent pulls its second promote. -/
def agentPulls : List (System.Event quietReconciler.system) :=
  quietReconciler.starts "r1"
    (moveOf .rollback agent { «from» := digestOf 'b', «to» := digestOf 'a', undoes := "p2" }) 7 9
    (shipping (shopRevision 'b') 'a')

theorem punished_agentPulls :
    ∃ σ σ' cell rollback done, quietReconciler.Runs (Seen quietReconciler) quietStage
        autonomousStage σ ∧
      quietReconciler.system.exec σ (.call "p2" {}) = some σ' ∧
      Seen quietReconciler σ.shared σ'.shared ∧
      Pulled quietReconciler "p2" "r1" cell rollback done σ.shared σ'.shared ∧
      Punished quietReconciler "p2" cell done σ.shared σ'.shared := by
  obtain ⟨σ, σ', hrun, hexec, hend⟩ := quietReconciler.exists_step (Seen quietReconciler) quietStage
    autonomousStage
    (agentVerifies ++ agentPulls ++
      quietReconciler.reconciles "p2" (List.replicate 7 { uid := "s1" }))
    (.call "p2" {})
    (concludesPulled quietReconciler "p2" "r1" fun _ s s' => decide (Seen quietReconciler s s')) true
    (by decide +kernel)
  obtain ⟨cell, rollback, done, hpulled, hseen⟩ := exists_pulled hend
  have hseen := of_decide_eq_true hseen
  exact ⟨σ, σ', cell, rollback, done, hrun, hexec, hseen, hpulled,
    punished_of_seen hrun _ σ' "p2" "r1" cell rollback done hexec hseen hpulled⟩

/-- The rollback takes the lock between the reads of the promote's reconcile and
its conclusion, which then succeeds. -/
theorem succeeded_pulledLate :
    ∃ σ σ' cell rollback done, quietReconciler.Runs (fun _ _ => True) quietStage autonomousStage σ ∧
      quietReconciler.system.exec σ (.call "p2" {}) = some σ' ∧
      Pulled quietReconciler "p2" "r1" cell rollback done σ.shared σ'.shared ∧
      done.outcome = .succeeded ∧ digestOf 'b' ∉ σ'.shared.status.failedDigests := by
  obtain ⟨σ, σ', hrun, hexec, hend⟩ := quietReconciler.exists_step (fun _ _ => True) quietStage
    autonomousStage
    (agentVerifies ++ quietReconciler.reconciles "p2" (List.replicate 3 (shipping {} 'b')) ++
      agentPulls ++ [.call "p2" {}, .call "p2" {}])
    (.call "p2" {})
    (concludesPulled quietReconciler "p2" "r1" fun done _ s' =>
      done.outcome = .succeeded && decide (digestOf 'b' ∉ s'.status.failedDigests)) true
    (by decide +kernel)
  obtain ⟨cell, rollback, done, hpulled, hP⟩ := exists_pulled hend
  simp only [Bool.and_eq_true, decide_eq_true_eq] at hP
  exact ⟨σ, σ', cell, rollback, done, hrun, hexec, hpulled, hP.1, hP.2⟩

end Pacto.Promoter
