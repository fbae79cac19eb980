import Pacto.Delivery.Effects
import Pacto.Promoter.Outside

/-!
# What a reconcile may write

`Move` lists every write a reconcile of one operation makes, with what that
reconcile knows when it makes it.  A reconcile works on copies: of the
operation as the cache showed it, and of Stages it read on the way.  What it
knows is stated about the store itself, so that the invariants of the
promoter can be derived from the moves alone.
-/

namespace Pacto.Promoter

open Delivery Support

/-! ## Copies of an operation -/

/-- The part of an operation that decides what it may do next. -/
structure Progress where
  metadata : ObjectMeta
  spec : OperationSpec
  phase : Phase
  applied : Bool
  pointer : PointerChange

def Operation.progress (op : Operation) : Progress where
  metadata := op.metadata
  spec := op.spec
  phase := op.status.phase
  applied := op.status.applied
  pointer := op.status.pointer

/-- The operation took the lock, so it may have moved the pointer. -/
def Operation.PastLock (op : Operation) : Prop :=
  op.status.applied = true ∨ op.status.phase = .running ∨ op.status.phase = .verifying ∨
    op.status.phase = .concluded

/-- The operation moved the pointer and Flux confirmed it, or it concluded. -/
def Operation.PastApply (op : Operation) : Prop :=
  op.status.phase = .verifying ∨ op.status.phase = .concluded ∨
    (op.status.phase = .held ∧ op.status.applied = true)

def Operation.InFlight (op : Operation) : Prop :=
  op.status.phase ≠ .new ∧ op.status.phase ≠ .concluded

def OwnFacet (spec : OperationSpec) : Prop :=
  ∃ t, typeByID spec.type = some t ∧ spec.facet = t.facet

/-- The operation ships a version, and not by override. -/
def Ships (spec : OperationSpec) : Prop := spec.type = .promote ∨ spec.type = .rollback

namespace Store

variable (s : Store)

def status : StageStatus := s.stage.latest.status

/-- `X` has moved the pointer. -/
def Moved (X : String) : Prop := ∃ st ∈ s.stage.versions, st.status.lastOp = X

/-- The Stage has concluded `X`, now or earlier. -/
def Given (X : String) (e : Concluded) : Prop :=
  e.uid = X ∧ ∃ st ∈ s.stage.versions, e ∈ st.status.stream.concluded

/-- The Stage concluded an operation by `e` and no longer remembers it. -/
def Dropped (e : Concluded) : Prop :=
  ∃ a ∈ s.stage.versions, ∃ b ∈ s.stage.versions, a.resourceVersion ≤ b.resourceVersion ∧
    e ∈ a.status.stream.concluded ∧ e ∉ b.status.stream.concluded

/-- Some Stage version a reconcile of `X` can have read does not list `digest`
as failed. -/
def Checked (X digest : String) : Prop :=
  ∃ cell, s.ops X = some cell ∧
    ∃ st ∈ s.stage.versions, cell.born ≤ st.resourceVersion ∧ digest ∉ st.status.failedDigests

/-- The cache showed `holder` in a phase in which it gives way to `op`, or lost
it. -/
def Yields (op : Operation) (holder : String) : Prop :=
  ∃ cell, s.ops holder = some cell ∧
    (cell.forgotten = true ∨
      ∃ v ∈ cell.register.versions, v.resourceVersion < cell.register.delivered ∧
        (v.status.phase = .concluded ∨
          ((op.spec.type = .rollback ∨ op.spec.type = .override) ∧ v.PastApply)))

/-- The Stage version the running reconcile of `X` started from names `X` in
the facet's lock. -/
def StartedHolding (X : String) (facet : Facet) : Prop :=
  ∃ st ∈ s.stage.versions, st.resourceVersion = s.reads X ∧ st.status.locks.get facet = X

/-- `R` held the pointer lock in a Stage version the running reconcile of `X`
can know of. -/
def HeldBefore (X R : String) : Prop :=
  ∃ st ∈ s.stage.versions, st.resourceVersion ≤ s.reads X ∧ st.status.locks.get .pointer = R

/-- An operation of that name was created. -/
def Known (name : String) : Prop :=
  ∃ Y cell, s.ops Y = some cell ∧ ∃ v ∈ cell.register.versions, v.name = name

end Store

variable (r : Reconciler)

/-- `R` is no rollback of `X` that pulls it with no person behind it. -/
def Innocent (X R : String) (s : Store) : Prop :=
  ∃ cell, s.ops R = some cell ∧
    (cell.forgotten = true ∨
      ∃ v ∈ cell.register.versions,
        v.spec.type ≠ .rollback ∨ v.spec.params.undoes ≠ X ∨
          r.policy.classify v.spec.actor = .human ∨ r.policy.classify v.spec.actor = .breakGlass)

/-- How the reconcile of an applied promote that no person stands behind came
to its conclusion. -/
inductive Judged (X : String) (op : Operation) (c : Conclusion) (s : Store) : Prop where
  | preempted (houtcome : c.outcome = .failed) (hpreempted : c.preempted = true)
      (hcause : c.cause.any (·.result = .fail) = true)
  | running (hphase : op.status.phase = .running)
  | again {e : Concluded} (hgiven : s.Given X e)
  | held (hheld : s.StartedHolding X op.spec.facet)
  | innocent (hall : ∀ R, R ≠ "" → s.HeldBefore X R → Innocent r X R s)

/-! ## The moves -/

/-- What a reconcile knows when it takes a lock. -/
structure LockEvidence (X : String) (op : Operation) (s : Store) : Prop where
  uid : op.uid = X
  cell : ∃ cell, s.ops X = some cell ∧ op.metadata = cell.latest.metadata ∧
    op.spec = cell.latest.spec ∧ 0 < cell.register.delivered
  unmoved : ¬s.Moved X
  ownFacet : OwnFacet op.spec
  isOpen : concludedOn s.status X = none
  free : s.status.locks.get op.spec.facet = "" ∨ s.status.locks.get op.spec.facet = X ∨
    s.Yields op (s.status.locks.get op.spec.facet)
  checked : Ships op.spec → s.Checked X op.spec.params.to

/-- What a reconcile knows when it moves the pointer. -/
structure MoveEvidence (X : String) (op : Operation) (s : Store) : Prop where
  uid : op.uid = X
  cell : ∃ cell, s.ops X = some cell ∧ op.metadata = cell.latest.metadata ∧
    op.spec = cell.latest.spec ∧
    ∃ v ∈ cell.register.versions, v.resourceVersion < cell.register.delivered ∧ v.PastLock
  checked : Ships op.spec → s.Checked X op.spec.params.to

/-- The level change the intent asks for is one. -/
def ChangesLevel (spec : OperationSpec) : Prop :=
  Level.ofName spec.params.to ≠ Level.ofName spec.params.from ∧
    0 ≤ (Level.ofName spec.params.to).rank

/-- The step-down a preempted promote owes was raised, as far as the Stage its
reconcile read calls for one. -/
def Raised (X : String) (op : Operation) (c : Conclusion) (s : Store) : Prop :=
  c.preempted = true → Reconciler.owesStepDown op c.cause = true →
    ∃ cur ∈ s.stage.versions, s.reads X ≤ cur.resourceVersion ∧
      (concludedOn cur.status X = none → (currentLevel cur.spec cur.status).automatic = true →
        s.Known (op.name ++ "-stepdown"))

/-- What a reconcile knows when it concludes.  Its copy of the operation is the
stored one, but for the pointer change an attempt to change the level noted. -/
structure FinishEvidence (X : String) (op : Operation) (c : Conclusion) (s : Store) :
    Prop where
  uid : op.uid = X
  cell : ∃ cell, s.ops X = some cell ∧
    { op.progress with pointer := cell.latest.status.pointer } = cell.latest.progress ∧
    (op.status.pointer = cell.latest.status.pointer ∨
      (op.spec.type = .autonomy ∧ ∀ e, s.Given X e → s.Dropped e))
  live : op.status.phase ≠ .concluded
  started : op.status.applied = true → op.spec.type ≠ .autonomy
  level : op.spec.type = .autonomy → c.outcome = .succeeded → ChangesLevel op.spec
  failed : c.outcome = .failed → s.Moved X
  judged : op.status.applied = true → op.spec.type = .promote → byPerson op.status = false →
    Judged r X op c s
  raised : Raised X op c s

/-- The writes of an operation's status, from one stored version to the next. -/
inductive StatusStep (X : String) (s : Store) (old new : Operation) : Prop where
  | keep (hlive : old.status.phase ≠ .concluded) (h : new.progress = old.progress)
  | admitted (hold : old.status.phase = .new)
      (h : new.progress = { old.progress with phase := .pending }) (hfacet : OwnFacet new.spec)
      (hchecked : new.spec.type = .rollback → s.Checked X new.spec.params.to)
  | hold (hlive : old.InFlight) (hpast : ¬old.PastLock)
      (h : new.progress = { old.progress with phase := .held })
  | run (hlive : old.InFlight) (hpast : ¬old.PastLock)
      (h : new.progress = { old.progress with phase := .running })
      (htype : old.spec.type ≠ .autonomy)
      (hchecked : old.spec.type = .promote → s.Checked X old.spec.params.to)
  | apply (hold : old.status.phase = .running) (hunapplied : old.status.applied = false)
      (h : new.progress =
        { old.progress with
          applied := true
          pointer := { before := old.spec.params.from, after := old.spec.params.to } })
      (hmoved : s.Moved X)
  | verify (hold : old.status.phase = .running) (happlied : old.status.applied = true)
      (h : new.progress = { old.progress with phase := .verifying })
  | ask (hold : old.status.phase = .verifying) (happlied : old.status.applied = true)
      (h : new.progress = { old.progress with phase := .held })
  | conclude (hlive : old.status.phase ≠ .concluded) {e : Concluded} (hgiven : s.Given X e)
      (hphase : new.status.phase = .concluded) (hmetadata : new.metadata = old.metadata)
      (hspec : new.spec = old.spec) (happlied : new.status.applied = old.status.applied)
      (hseq : new.status.seq = e.seq) (houtcome : new.status.outcome = some e.outcome)
      (hpointer : new.status.pointer = old.status.pointer ∨
        (old.spec.type = .autonomy ∧
          (new.status.pointer.after = "" ∨ s.Dropped e ∨
            ∃ i a b, s.stage.versions[i]? = some a ∧ s.stage.versions[i + 1]? = some b ∧
              a.status.pointer ≠ b.status.pointer ∧ b.status.stream.seq = e.seq ∧
              a.status.stream.seq + 1 = e.seq ∧
              new.status.pointer = { before := a.status.pointer, after := b.status.pointer })))

def ClassSet (op : Operation) : Prop :=
  op.status.actorClass = none ∨ op.status.actorClass = some (r.policy.classify op.spec.actor)

/-- One call of a reconcile of `X`. -/
inductive Move (X : String) (s : Store) : Store → Prop where
  | idle : Move X s s
  | read : Move X s { s with reads := Function.update s.reads X s.startingStage.resourceVersion }
  | lock (op : Operation) (st : Stage) (hlock : Reconciler.lockOn op s.stage.latest = .ok st)
      (h : LockEvidence X op s) : Move X s (s.setStage (s.stage.write st))
  | move (op : Operation) (st : Stage) (hmove : Reconciler.moveOn op s.stage.latest = .ok st)
      (h : MoveEvidence X op s) : Move X s (s.setStage (s.stage.write st))
  | finish (op : Operation) (c : Conclusion) (squat : String) (h : FinishEvidence r X op c s) :
      Move X s (s.setStage (s.stage.write (finishOn squat (op, c) s.stage.latest).2))
  | save (cell : Cell) (op : Operation) (hcell : s.ops X = some cell) (hgone : cell.gone = false)
      (hstep : StatusStep X s cell.latest op) (hclass : ClassSet r op) :
      Move X s (s.setCell X { cell with register := cell.register.write op })
  | raise (uid : String) (created : Nat) (op : Operation) (hne : uid ≠ "")
      (hfresh : s.ops uid = none) (hstage : op.spec.stage = s.stage.latest.metadata.name)
      (hfree : s.named op.name = none) : Move X s (s.addOp uid created op)

/-! ## What every step keeps -/

/-- Histories only grow. -/
structure Evolves (s s' : Store) : Prop where
  stage : Register.Grows s.stage s'.stage
  cells : ∀ Y cell, s.ops Y = some cell → ∃ cell', s'.ops Y = some cell' ∧
    Register.Grows cell.register cell'.register ∧ cell'.born = cell.born ∧
    (cell.forgotten = true → cell'.forgotten = true) ∧ (cell.gone = true → cell'.gone = true)
  issued : s.issued ⊆ s'.issued

namespace Evolves

@[refl] theorem refl (s : Store) : Evolves s s :=
  ⟨.refl _, fun _ cell h => ⟨cell, h, .refl _, rfl, id, id⟩, List.Subset.refl _⟩

theorem trans {s s' s'' : Store} (h : Evolves s s') (h' : Evolves s' s'') : Evolves s s'' := by
  refine ⟨h.stage.trans h'.stage, fun Y cell hcell => ?_, List.Subset.trans h.issued h'.issued⟩
  obtain ⟨cell', hcell', hgrows, hborn, hforgot, hgone⟩ := h.cells Y cell hcell
  obtain ⟨cell'', hcell'', hgrows', hborn', hforgot', hgone'⟩ := h'.cells Y cell' hcell'
  exact ⟨cell'', hcell'', hgrows.trans hgrows', hborn'.trans hborn, fun hf => hforgot' (hforgot hf),
    fun hg => hgone' (hgone hg)⟩

variable {s s' : Store}

theorem setStage {stage : Register Stage} (h : Register.Grows s.stage stage) :
    Evolves s (s.setStage stage) :=
  ⟨h, fun _ cell hcell => ⟨cell, hcell, .refl _, rfl, id, id⟩, List.Subset.refl _⟩

theorem setCell {X : String} {cell cell' : Cell} (hcell : s.ops X = some cell)
    (hgrows : Register.Grows cell.register cell'.register) (hborn : cell'.born = cell.born)
    (hforgot : cell.forgotten = true → cell'.forgotten = true)
    (hgone : cell.gone = true → cell'.gone = true) : Evolves s (s.setCell X cell') := by
  refine ⟨.refl _, fun Y old hold => ?_, List.Subset.refl _⟩
  by_cases hY : Y = X
  · subst hY
    cases hcell.symm.trans hold
    exact ⟨cell', by simp [Store.setCell], hgrows, hborn, hforgot, hgone⟩
  · exact ⟨old, by simp [Store.setCell, Function.update_of_ne hY, hold], .refl _, rfl, id, id⟩

theorem addOp {uid : String} (created : Nat) (op : Operation) (hfresh : s.ops uid = none) :
    Evolves s (s.addOp uid created op) := by
  refine ⟨.refl _, fun Y cell hcell => ?_, List.Subset.refl _⟩
  have hY : Y ≠ uid := by
    rintro rfl
    rw [hfresh] at hcell
    cases hcell
  exact ⟨cell, by simp [Store.addOp, Store.setCell, Function.update_of_ne hY, hcell], .refl _, rfl,
    id, id⟩

theorem moved (h : Evolves s s') {X : String} (hmoved : s.Moved X) : s'.Moved X := by
  obtain ⟨st, hst, hlast⟩ := hmoved
  exact ⟨st, h.stage.mem hst, hlast⟩

theorem checked (h : Evolves s s') {X digest : String} (hchecked : s.Checked X digest) :
    s'.Checked X digest := by
  obtain ⟨cell, hcell, st, hst, hborn, hfailed⟩ := hchecked
  obtain ⟨cell', hcell', -, hborn', -⟩ := h.cells X cell hcell
  exact ⟨cell', hcell', st, h.stage.mem hst, hborn'.trans_le hborn, hfailed⟩

theorem known (h : Evolves s s') {name : String} (hknown : s.Known name) : s'.Known name := by
  obtain ⟨Y, cell, hcell, v, hv, hname⟩ := hknown
  obtain ⟨cell', hcell', hgrows, -⟩ := h.cells Y cell hcell
  exact ⟨Y, cell', hcell', v, hgrows.mem hv, hname⟩

theorem yields (h : Evolves s s') {op : Operation} {holder : String} (hyields : s.Yields op holder) :
    s'.Yields op holder := by
  obtain ⟨cell, hcell, hway⟩ := hyields
  obtain ⟨cell', hcell', hgrows, -, hforgot, -⟩ := h.cells holder cell hcell
  refine ⟨cell', hcell', hway.imp hforgot ?_⟩
  rintro ⟨v, hv, hread, hphase⟩
  exact ⟨v, hgrows.mem hv, hread.trans_le hgrows.delivered, hphase⟩

theorem innocent (h : Evolves s s') {r : Reconciler} {X R : String} (hinnocent : Innocent r X R s) :
    Innocent r X R s' := by
  obtain ⟨cell, hcell, hway⟩ := hinnocent
  obtain ⟨cell', hcell', hgrows, -, hforgot, -⟩ := h.cells R cell hcell
  refine ⟨cell', hcell', hway.imp hforgot ?_⟩
  rintro ⟨v, hv, hspec⟩
  exact ⟨v, hgrows.mem hv, hspec⟩

theorem dropped (h : Evolves s s') {e : Concluded} (hdropped : s.Dropped e) : s'.Dropped e := by
  obtain ⟨a, ha, b, hb, hle, hmem, hnot⟩ := hdropped
  exact ⟨a, h.stage.mem ha, b, h.stage.mem hb, hle, hmem, hnot⟩

theorem given (h : Evolves s s') {X : String} {e : Concluded} (hgiven : s.Given X e) :
    s'.Given X e := by
  obtain ⟨huid, st, hst, he⟩ := hgiven
  exact ⟨huid, st, h.stage.mem hst, he⟩

end Evolves

end Pacto.Promoter
