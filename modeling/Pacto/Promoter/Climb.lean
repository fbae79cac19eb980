import Pacto.Promoter.Asks
import Pacto.Promoter.Pointer

/-!
# Climbing the ladder

The level of a Stage changes when a level change concludes.  The plan judged
the request long before, against another Stage, and the concluding swap tests
again only where the change starts from.  What the plan found still describes
the change that is made, because both are about the same intent.
-/

namespace Pacto.Promoter

open Delivery Support

variable {r : Reconciler} {X : String} {s s' : Store}
variable {e : System.Event r.system} {cell : Cell}

/-! ## The class of an operation -/

/-- A step from a version before the lock to another keeps the actor class or
sets it. -/
theorem HoldStep.actorClass {old new : Operation} (h : HoldStep r s old new)
    (hlive : new.status.phase ≠ .concluded) (hbefore : ¬old.PastLock) :
    new.status.actorClass = some (r.policy.classify old.spec.actor) ∨
      (new.status.actorClass = old.status.actorClass ∧
        (new.status.phase ≠ .new → old.status.phase ≠ .new)) := by
  cases h with
  | past h => exact absurd h hbefore
  | concluded h => exact absurd h hlive
  | keep hphase h => exact .inr ⟨congrArg Asking.actorClass h, fun hnew => hphase ▸ hnew⟩
  | admitted hnew h => exact .inl (congrArg Asking.actorClass h)
  | plan p hold hnew hplan h =>
    exact .inr ⟨congrArg Asking.actorClass h, fun _ => by simp [hold]⟩
  | hold p now hold hnew hplan hheld h =>
    exact .inr ⟨congrArg Asking.actorClass h, fun _ => by simp [hold]⟩
  | start p hold hnew hplan hproceeds h =>
    exact .inr ⟨congrArg Asking.actorClass h, fun _ => by simp [hold]⟩
  | refresh mid hold hnew hrefresh h =>
    exact .inr ⟨(congrArg Asking.actorClass h).trans hrefresh.alike.actorClass,
      fun _ => by simp [hold.phase]⟩
  | count a op hnew hanswers h =>
    exact .inr ⟨(congrArg Asking.actorClass h).trans hanswers.alike.actorClass,
      fun _ => by simp [hanswers.held.phase]⟩
  | again a op p now hnew hanswers hplan hpredicted h =>
    exact .inr ⟨(congrArg Asking.actorClass h).trans hanswers.alike.actorClass,
      fun _ => by simp [hanswers.held.phase]⟩
  | wait a op cur hnew hlock hmet h =>
    exact .inr ⟨(congrArg Asking.actorClass h).trans hlock.alike.actorClass,
      fun _ => by simp [hlock.held.phase]⟩
  | run a op cur hnew hlock h =>
    exact .inr ⟨(congrArg Asking.actorClass h).trans hlock.alike.actorClass,
      fun _ => by simp [hlock.held.phase]⟩

/-- An operation that was admitted and has not taken its lock has the class of
its actor. -/
def Classed (r : Reconciler) (v : Operation) : Prop :=
  v.InFlight → ¬v.PastLock → v.status.actorClass = some (r.policy.classify v.spec.actor)

theorem Classed.of_status {v w : Operation} (h : Classed r v) (hspec : w.spec = v.spec)
    (hstatus : w.status = v.status) : Classed r w := by
  rw [Classed, Operation.InFlight, Operation.PastLock, hspec, hstatus]
  exact h

theorem Classed.saved {old new : Operation} (h : Classed r old) (hstep : HoldStep r s old new)
    (hstatus : StatusStep X s old new) : Classed r new := by
  intro hlive hbefore
  have hbefore' : ¬old.PastLock := fun hpast => hbefore (hstatus.pastLock hpast)
  rw [hstatus.spec]
  rcases hstep.actorClass hlive.2 hbefore' with hset | ⟨hkept, hnew⟩
  · exact hset
  · exact hkept.trans (h ⟨hnew hlive.1, hstatus.live⟩ hbefore')

/-! ## The invariant -/

/-- What every run keeps about levels: operations have the class of their actor,
the level is one of the ladder's once it is set, and a level change that
succeeded was permitted. -/
structure Climbing (r : Reconciler) (s : Store) : Prop where
  classed : ∀ X cell, s.ops X = some cell → ∀ v ∈ cell.register.versions, Classed r v
  level : s.status.level = .unset ∨ 0 ≤ s.status.level.rank
  permitted : ∀ X cell, s.ops X = some cell → cell.latest.spec.type = .autonomy →
    s.Succeeded X → ∃ person, Permitted r X person s

theorem currentLevel_rank {spec : StageSpec} {st : StageStatus}
    (h : st.level = .unset ∨ 0 ≤ st.level.rank) : 0 ≤ (currentLevel spec st).rank := by
  rw [currentLevel]
  split
  · rename_i hset
    exact h.resolve_left hset
  · split
    · assumption
    · simp [Level.rank]

/-- A level change that succeeds changes the level from the one the Stage has to
the one it names. -/
theorem finishOn_level {op : Operation} {c : Conclusion} {squat : String} {st : Stage}
    (hne : (finishOn squat (op, c) st).2.status.level ≠ st.status.level) :
    concludedOn st.status op.uid = none ∧ op.spec.type = .autonomy ∧
      (settled op c st).outcome = .succeeded ∧
      Level.ofName op.spec.params.from = currentLevel st.spec st.status ∧
      (finishOn squat (op, c) st).2.status.level = Level.ofName op.spec.params.to := by
  rcases finishOn_pointer op c squat st with hsame | ⟨hopen, htype, hsucceeded, t, -, -, -, hlevel⟩
  · exact absurd hsame.2 hne
  · refine ⟨hopen, htype, hsucceeded, ?_, ?_⟩
    · have hrefusal := levelRefusal_of_settled htype hsucceeded
      have hcurrent : currentLevel st.spec (releaseLock op st).status =
          currentLevel st.spec st.status := by
        rw [currentLevel, releaseLock_status, currentLevel]
      rw [levelRefusal, hcurrent] at hrefusal
      by_contra hmoved
      simp [hmoved] at hrefusal
    · rw [hlevel, changeLevel_level]

namespace Climbing

theorem fresh (metadata : ObjectMeta) (spec : StageSpec) :
    Climbing r (Store.fresh metadata spec) where
  classed := by
    intro X cell hcell
    cases hcell
  level := .inl rfl
  permitted := by
    intro X cell hcell
    cases hcell

theorem classed_step (h : Climbing r s) (hhappens : r.Happens e s s')
    (hcell : s'.ops X = some cell) : ∀ v ∈ cell.register.versions, Classed r v := by
  cases (Step.of_happens hhappens).opStep X with
  | absent _ h' => simp [h'] at hcell
  | created new _ h' hstatus honly =>
    obtain rfl := Option.some.inj (h'.symm.trans hcell)
    intro v hv hlive
    rw [honly v hv] at hlive
    simp [Operation.InFlight, hstatus] at hlive
  | kept old new hold h' hversions =>
    obtain rfl := Option.some.inj (h'.symm.trans hcell)
    rw [hversions]
    exact h.classed X old hold
  | touched old new hold h' hmem _ _ hprogress hstatus =>
    obtain rfl := Option.some.inj (h'.symm.trans hcell)
    intro v hv
    rcases hmem v hv with hv | rfl
    · exact h.classed X old hold v hv
    · exact (h.classed X old hold _ old.register.latest_mem).of_status
        (congrArg Progress.spec hprogress) hstatus
  | saved old new hold h' hmem _ _ _ hstep =>
    obtain rfl := Option.some.inj (h'.symm.trans hcell)
    intro v hv
    have hlatest := h.classed X old hold _ old.register.latest_mem
    rcases hmem v hv with hv | rfl
    · exact h.classed X old hold v hv
    · rcases hhappens.holdStep hold h' with hstatus | hhold
      · exact hlatest.of_status hstep.spec hstatus
      · exact hlatest.saved hhold hstep

theorem level_step (h : Climbing r s) (hstep : Step r s s') :
    s'.status.level = .unset ∨ 0 ≤ s'.status.level.rank := by
  cases hstep.stageStep with
  | quiet hversions =>
    rw [status_congr hversions]
    exact h.level
  | aside st hs' haside =>
    rw [hs', status_write]
    rcases haside.level with hsame | ⟨-, hseeded⟩
    · rw [hsame]
      exact h.level
    · rw [hseeded]
      exact .inr (currentLevel_rank h.level)
  | lock X op hev hlock hs' =>
    rw [hs', status_write]
    exact h.level
  | move X op hev hheld hs' =>
    rw [hs', status_write]
    exact h.level
  | finish X op c squat hev hs' =>
    rw [hs', status_write]
    by_cases hsame : (finishOn squat (op, c) s.stage.latest).2.status.level = s.status.level
    · rw [hsame]
      exact h.level
    · obtain ⟨-, htype, hsucceeded, -, hlevel⟩ := finishOn_level hsame
      rw [hlevel]
      exact .inr (hev.level htype (settled_succeeded hev.started htype hsucceeded)).2

/-- A conclusion that is new is the operation's own doing, and permitted. -/
theorem permitted_step (hinv : Inv r s) (h : Climbing r s)
    (hhappens : r.Happens e s s') (hcell : s'.ops X = some cell)
    (htype : cell.latest.spec.type = .autonomy) (hsucceeded : s'.Succeeded X) :
    ∃ person, Permitted r X person s' := by
  have hstep := Step.of_happens hhappens
  obtain ⟨entry, hgiven, houtcome⟩ := hsucceeded
  have hold : ∃ old, s.ops X = some old := by
    rcases hstep.stageStep.given hgiven with ⟨huid, st, hst, hmem⟩ | ⟨op, c, squat, hev, -⟩
    · obtain ⟨old, hold, -⟩ := hinv.concluded st hst entry hmem
      exact ⟨old, huid ▸ hold⟩
    · obtain ⟨old, hold, -⟩ := hev.cell
      exact ⟨old, hold⟩
  obtain ⟨old, hold⟩ := hold
  obtain ⟨cell', hcell', hspec, -⟩ := hstep.cell hold
  cases hcell'.symm.trans hcell
  rw [hspec] at htype
  have hcame : s.Succeeded X ∨ Permitted r X entry.person s := by
    cases hhappens with
    | start Y => exact .inl ⟨entry, hgiven, houtcome⟩
    | crash Y => exact .inl ⟨entry, hgiven, houtcome⟩
    | act a hact =>
      exact .inl ⟨entry, (Disturbs.of_act a hact).frame.given entry hgiven, houtcome⟩
    | call Y o hcall =>
      by_cases hY : Y = X
      · subst hY
        exact hcall.2.climbs old entry hold htype hgiven houtcome
      · exact .inl ⟨entry, (hcall.1.frame hY).given entry hgiven, houtcome⟩
  rcases hcame with hbefore | hpermitted
  · obtain ⟨person, hpermitted⟩ := h.permitted X old hold htype hbefore
    exact ⟨person, hpermitted.mono hstep.evolves⟩
  · exact ⟨entry.person, hpermitted.mono hstep.evolves⟩

theorem step (hinv : Inv r s) (h : Climbing r s) {e : System.Event r.system}
    (hhappens : r.Happens e s s') : Climbing r s' where
  classed := fun _ _ hcell => h.classed_step hhappens hcell
  level := h.level_step (Step.of_happens hhappens)
  permitted := fun _ _ hcell htype hsucceeded =>
    h.permitted_step hinv hhappens hcell htype hsucceeded

end Climbing

/-! ## What a level change was permitted -/

/-- A person's approval of the operation in `cell` that its reconcile took to the
lock. -/
structure ApprovedBy (r : Reconciler) (s : Store) (cell : Cell) (a : Approval) : Prop where
  issued : ∃ i ∈ s.issued, i.approval = a
  consumed : ∃ v ∈ cell.register.versions, ∃ op cur, AtLock r s v a op cur
  bound : a.spec.operationUID = cell.latest.uid ∧
    a.spec.intentDigest = cell.latest.spec.intentDigest
  human : r.policy.isHuman { user := a.spec.by', groups := a.spec.groups } = true
  notOwn : a.spec.by' ≠ cell.latest.spec.actor.user ∧
    cell.latest.spec.onBehalfOf ≠ some a.spec.by'
  decision : a.spec.decision ≠ .reject

/-- What the operation in `cell` may do to the Stage's level: a person raises it
one step, the promoter steps it down one from an automatic level, and an agent
does not lower it to observe. -/
structure MayClimb (r : Reconciler) (s : Store) (cell : Cell) (old new : Level) : Prop where
  raise : old.rank < new.rank → new.rank = old.rank + 1 ∧
    r.policy.classify cell.latest.spec.actor ≠ .controller ∧ ∃ a, ApprovedBy r s cell a
  stepDown : new.rank < old.rank → r.policy.classify cell.latest.spec.actor = .controller →
    old.automatic = true ∧ new.rank + 1 = old.rank
  agent : new.rank < old.rank → r.policy.classify cell.latest.spec.actor = .agent →
    new ≠ .observe

/-- What a plan that is not rejected says about the change of level, once the
raise it allows is approved. -/
theorem mayClimb_of_planFor {input : PlanInput}
    (hspec : input.spec = cell.latest.spec) (htype : input.spec.type = .autonomy)
    (hcls : input.cls = r.policy.classify cell.latest.spec.actor)
    (hplan : (planFor r.pkg input).predicted ≠ .rejected)
    (hraise : (Level.ofName input.spec.params.from).rank < (Level.ofName input.spec.params.to).rank →
      ∃ a, ApprovedBy r s cell a) :
    MayClimb r s cell (Level.ofName cell.latest.spec.params.from)
      (Level.ofName cell.latest.spec.params.to) := by
  rw [← hspec]
  constructor
  · intro hup
    obtain ⟨hcontroller, hstep⟩ := raiseRefusal_eq_empty (raiseRefusal_of_planFor htype hplan hup)
    rw [hcls] at hcontroller
    exact ⟨by omega, hspec ▸ hcontroller, hraise hup⟩
  · intro hdown hcontroller
    obtain ⟨-, hstep⟩ := lowerRefusal_eq_empty (lowerRefusal_of_planFor htype hplan hdown)
    obtain ⟨hautomatic, hone⟩ := hstep (hcls.trans (hspec ▸ hcontroller))
    exact ⟨hautomatic, by omega⟩
  · intro hdown hagent
    exact (lowerRefusal_eq_empty (lowerRefusal_of_planFor htype hplan hdown)).1
      (hcls.trans (hspec ▸ hagent))

/-- A level change that was permitted may be made, and a raise notes the
person. -/
theorem Permitted.mayClimb {person : Bool} (h : Permitted r X person s)
    (hinv : Inv r s) (hclimbing : Climbing r s) (hcell : s.ops X = some cell)
    (htype : cell.latest.spec.type = .autonomy) :
    MayClimb r s cell (Level.ofName cell.latest.spec.params.from)
        (Level.ofName cell.latest.spec.params.to) ∧
      ((Level.ofName cell.latest.spec.params.from).rank <
        (Level.ofName cell.latest.spec.params.to).rank → person = true) := by
  obtain ⟨cell', hcell', v, hv, hway⟩ := h
  cases hcell'.symm.trans hcell
  have hok := hinv.cells X cell hcell
  obtain ⟨hmeta, hspec⟩ := hok.same v hv
  have hclass : v.InFlight → ¬v.PastLock →
      v.status.actorClass.getD .agent = r.policy.classify cell.latest.spec.actor := by
    intro hlive hbefore
    rw [hclimbing.classed X cell hcell v hv hlive hbefore, Option.getD_some, hspec]
  rcases hway with ⟨hphase, p, ⟨input, rfl, hinput, hcls⟩, hproceeds⟩ | ⟨hperson, a, op, cur, hlock⟩
  · have hunapplied := (hok.version v hv).early (.inr hphase)
    have hcls' := hcls.trans (hclass (by simp [Operation.InFlight, hphase])
      (by simp [Operation.PastLock, hphase, hunapplied]))
    have hinput' := hinput.trans hspec
    have htype' : input.spec.type = .autonomy := by rw [hinput', htype]
    -- A raise holds for a person, so only a lowering gets here.
    refine ⟨mayClimb_of_planFor hinput' htype' hcls' (by simp [hproceeds]) fun hup => ?_, ?_⟩
    · exact absurd hproceeds (predicted_ne_proceeds_of_raise htype' hup)
    · rw [← hinput']
      exact fun hup => absurd hproceeds (predicted_ne_proceeds_of_raise htype' hup)
  · have halike := hlock.alike
    have htype' : op.spec.type = .autonomy := by rw [halike.spec, hspec, htype]
    obtain ⟨p, -, ⟨input, rfl, hinput, hcls⟩, hplan, -⟩ := hlock.rechecked (.inr htype')
    rw [halike.actorClass, hclass (by simp [Operation.InFlight, hlock.held.phase])
      (by simp [Operation.PastLock, hlock.held.phase, hlock.held.unapplied])] at hcls
    have hinput' := hinput.trans (halike.spec.trans hspec)
    refine ⟨mayClimb_of_planFor hinput' (by rw [hinput', htype]) hcls hplan fun _ => ⟨a, ?_⟩,
      fun _ => hperson⟩
    have hcounts := hlock.counts
    rw [hspec, show v.uid = cell.latest.uid from congrArg ObjectMeta.uid hmeta] at hcounts
    exact
      { issued := hlock.issued
        consumed := ⟨v, hv, op, cur, hlock⟩
        bound := hcounts.bound
        human := hcounts.human
        notOwn := hcounts.notOwn
        decision := hlock.decided }

/-! ## Every change of level -/

/-- The step changes the level from the one the Stage has to another of the
ladder, as the operation `X` asks and may.  The first time a raise concludes,
the Stage notes that a person stands behind it. -/
structure Climbs (r : Reconciler) (X : String) (s s' : Store) (cell : Cell) : Prop where
  stored : s.ops X = some cell
  type : cell.latest.spec.type = .autonomy
  start : Level.ofName cell.latest.spec.params.from = s.level
  goal : s'.level = Level.ofName cell.latest.spec.params.to
  ladder : s.level ∈ levelOrder ∧ s'.level ∈ levelOrder
  may : MayClimb r s cell s.level s'.level
  noted : s.level.rank < s'.level.rank → ¬s.Succeeded X →
    ∃ e ∈ s'.status.stream.concluded, e.uid = X ∧ e.person = true

theorem mem_levelOrder {l : Level} (h : 0 ≤ l.rank) : l ∈ levelOrder := by
  cases l with
  | other name => simp [Level.rank] at h
  | observe => decide
  | advise => decide
  | autoNonBreaking => decide
  | autonomous => decide

/-- The concluding swap of a level change. -/
theorem climbs_of_finish {op : Operation} {c : Conclusion} {squat : String} (hinv : Inv r s)
    (hclimbing : Climbing r s) (hev : FinishEvidence r X op c s)
    (hasks : Asks r X s (s.setStage (s.stage.write (finishOn squat (op, c) s.stage.latest).2)))
    (hne : (finishOn squat (op, c) s.stage.latest).2.status.level ≠ s.status.level) :
    ∃ cell, Climbs r X s
      (s.setStage (s.stage.write (finishOn squat (op, c) s.stage.latest).2)) cell := by
  obtain ⟨hopen, htype, hsucceeded, hfrom, hlevel⟩ := finishOn_level hne
  obtain ⟨cell, hcell, hprogress, -⟩ := hev.cell
  have hspec : op.spec = cell.latest.spec := congrArg Progress.spec hprogress
  obtain ⟨-, hrank⟩ := hev.level htype (settled_succeeded hev.started htype hsucceeded)
  rw [hspec] at htype hfrom hlevel hrank
  have hmem := mem_finishOn_of_open c squat hopen
  have hgiven := (given_write s (finishOn squat (op, c) s.stage.latest).2 X _).mpr
    (.inr ⟨hev.uid, hmem⟩)
  have hgoal : (s.setStage (s.stage.write (finishOn squat (op, c) s.stage.latest).2)).level =
      Level.ofName cell.latest.spec.params.to := by
    rw [Store.level, currentLevel, status_write, hlevel, if_pos]
    intro hunset
    rw [hunset] at hrank
    simp [Level.unset, Level.rank] at hrank
  have hway := hasks.climbs cell _ hcell htype hgiven hsucceeded
  have hpermitted : ∃ person, Permitted r X person s := by
    rcases hway with hbefore | hnow
    · exact hclimbing.permitted X cell hcell htype hbefore
    · exact ⟨_, hnow⟩
  obtain ⟨person, hpermitted⟩ := hpermitted
  obtain ⟨hmay, -⟩ := hpermitted.mayClimb hinv hclimbing hcell htype
  refine ⟨cell, hcell, htype, hfrom, hgoal, ?_, ?_, fun hup hfirst => ?_⟩
  · exact ⟨mem_levelOrder (currentLevel_rank hclimbing.level), mem_levelOrder (hgoal ▸ hrank)⟩
  · rw [hgoal, ← show Level.ofName cell.latest.spec.params.from = s.level from hfrom]
    exact hmay
  · rw [hgoal, ← show Level.ofName cell.latest.spec.params.from = s.level from hfrom] at hup
    have hperson := ((hway.resolve_left hfirst).mayClimb hinv hclimbing hcell htype).2 hup
    rw [status_write]
    exact ⟨_, hmem, hev.uid, hperson⟩

theorem level_congr (hspec : s'.stage.latest.spec = s.stage.latest.spec)
    (hlevel : s'.status.level = s.status.level) : s'.level = s.level := by
  rw [Store.level, currentLevel, hspec, hlevel]
  rfl

theorem Disturbs.level (h : Disturbs s s')
    (hspec : s'.stage.latest.spec = s.stage.latest.spec) : s'.level = s.level := by
  cases h with
  | showStage => rfl
  | writeStage st hmetadata haside =>
    rcases haside.level with hsame | ⟨hunset, hseeded⟩
    · exact level_congr hspec (by rw [status_write, hsame])
    · have hlevel : (s.setStage (s.stage.write st)).status.level = s.level := by
        rw [status_write, hseeded]
        rfl
      rw [Store.level, currentLevel, hlevel]
      split
      · rfl
      · rename_i hstill
        rw [not_not] at hstill
        rw [hspec, Store.level, currentLevel, if_neg (not_not.mpr hunset)]
  | cell => rfl
  | touch => rfl
  | propose => rfl
  | approve => rfl

/-- One event of a run. -/
theorem climbs_of_happens (hinv : Inv r s) (hclimbing : Climbing r s)
    (hhappens : r.Happens e s s')
    (hspec : s'.stage.latest.spec = s.stage.latest.spec) (hlevel : s'.level ≠ s.level) :
    ∃ X o cell, e = .call X o ∧ Climbs r X s s' cell := by
  cases hhappens with
  | start X => exact absurd rfl hlevel
  | crash X => exact absurd rfl hlevel
  | act a h => exact absurd ((Disturbs.of_act a h).level hspec) hlevel
  | call X o h =>
    obtain ⟨hmove, hasks⟩ := h
    cases hmove with
    | idle => exact absurd rfl hlevel
    | read => exact absurd rfl hlevel
    | lock op st hlock hev =>
      obtain ⟨-, -, rfl⟩ := lockOn_eq_ok_iff.mp hlock
      exact absurd (level_congr hspec (by rw [status_write]; rfl)) hlevel
    | move op st hmove hev =>
      obtain ⟨-, rfl⟩ := moveOn_eq_ok_iff.mp hmove
      exact absurd (level_congr hspec (by rw [status_write]; rfl)) hlevel
    | finish op c squat hev =>
      by_cases hsame : (finishOn squat (op, c) s.stage.latest).2.status.level = s.status.level
      · exact absurd (level_congr hspec (by rw [status_write, hsame])) hlevel
      · obtain ⟨cell, hclimbs⟩ := climbs_of_finish hinv hclimbing hev hasks hsame
        exact ⟨X, o, cell, rfl, hclimbs⟩
    | save => exact absurd rfl hlevel
    | raise => exact absurd rfl hlevel

/-- The ladder is climbed one step at a time and only with a person: whatever
changes the level of a Stage whose spec stands is the conclusion of a level
change, from the level the Stage has in that swap to another of the ladder, as
the operation asks and may. -/
theorem climbs_of_run {metadata : ObjectMeta} {spec : StageSpec} {σ σ' : System.Config api String}
    (hrun : r.Runs (fun _ _ => True) metadata spec σ) {e : System.Event r.system}
    (hexec : r.system.exec σ e = some σ')
    (hspec : σ'.shared.stage.latest.spec = σ.shared.stage.latest.spec)
    (hlevel : σ'.shared.level ≠ σ.shared.level) :
    ∃ X o cell, e = .call X o ∧ Climbs r X σ.shared σ'.shared cell := by
  obtain ⟨hgood, hclimbing⟩ := runs_asks hrun (Climbing.fresh metadata spec)
    fun _ _ _ hinv h _ hhappens => h.step hinv hhappens
  obtain ⟨-, hhappens⟩ := hgood.step (reconcile_asks r) hexec
  exact climbs_of_happens hgood.holds hclimbing hhappens hspec hlevel

/-- An agent asks to raise a Stage from advise to auto-nonbreaking, and a person
says yes. -/
def agentRaise : OperationSpec where
  type := .autonomy
  stage := "prod"
  facet := .level
  params := { «from» := "advise", «to» := "auto-nonbreaking" }
  intentDigest := "sha256:intent"
  actor := agent

@[inherit_doc agentRaise]
def raiseApproval : Approval where
  name := "yes"
  created := 1
  spec :=
    { operationUID := "u1", intentDigest := "sha256:intent", decision := .approve, by' := "ada" }

@[inherit_doc agentRaise]
def raising : Oracle := { shipping {} 'a' with approvals := some [raiseApproval] }

/-- The raise is admitted, held and approved, up to the concluding swap. -/
def raises : List (System.Event quietReconciler.system) :=
  quietReconciler.acts
      [.writeStage (.conditions [{ type := conditionRecordStoreReady, status := "True" }]),
        .propose "u1" "raise" 0 agentRaise, .showOp "u1"] ++
    quietReconciler.reconciles "u1" (List.replicate 6 {}) ++
    quietReconciler.acts [.showOp "u1", .showStage, .showStage] ++
    quietReconciler.reconciles "u1" (List.replicate 6 raising) ++
    quietReconciler.acts [.approve raiseApproval, .showOp "u1"] ++
    quietReconciler.reconciles "u1" (List.replicate 8 raising)

theorem climbs_raises :
    ∃ σ σ' X o cell, quietReconciler.Runs (fun _ _ => True) quietStage
        { service := "shop", startLevel := .advise } σ ∧
      quietReconciler.system.exec σ (.call "u1" raising) = some σ' ∧
      σ.shared.level = .advise ∧ σ'.shared.level = .autoNonBreaking ∧
      (.call "u1" raising : System.Event quietReconciler.system) = .call X o ∧
      Climbs quietReconciler X σ.shared σ'.shared cell := by
  obtain ⟨σ, σ', hrun, hexec, hlevels⟩ := quietReconciler.exists_step (fun _ _ => True) quietStage
    { service := "shop", startLevel := .advise } raises (.call "u1" raising)
    (fun s s' => (s.level, s'.level, decide (s'.stage.latest.spec = s.stage.latest.spec)))
    (.advise, .autoNonBreaking, true) (by decide +kernel)
  simp only [Prod.mk.injEq, decide_eq_true_eq] at hlevels
  obtain ⟨hbefore, hafter, hspec⟩ := hlevels
  obtain ⟨X, o, cell, hcall, hclimbs⟩ :=
    climbs_of_run hrun hexec hspec (by rw [hbefore, hafter]; decide)
  exact ⟨σ, σ', X, o, cell, hrun, hexec, hbefore, hafter, hcall, hclimbs⟩

end Pacto.Promoter
