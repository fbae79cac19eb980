import Mathlib.Logic.Function.Basic
import Mathlib.Tactic.Basic

/-!
# The published snapshot

A manager builds snapshots and publishes the last good one.  `Refresh` takes an
in-flight slot under one mutex, builds, gives the slot back under that mutex,
publishes under another and then closes its channel; a call that finds the slot
taken waits on the channel instead.  Each of these is one step here, and the
calls take their steps in any order.

The slot is given back before the snapshot is published.  A call that takes it
in between can build, publish and return first, and is then overwritten.
-/

namespace Pacto.Fleet
namespace Manager

/-! ## Calls and their steps -/

/-- What a `Refresh` call returns. -/
inductive Answer where
  | nil
  | buildError
  | contextError
  deriving DecidableEq, Repr

/-- How far a `Refresh` call has come.  A build is named by the call that runs
it, and `ok` says whether it succeeded. -/
inductive Phase where
  | waiting (call : Nat)
  | claimed
  | building
  | built (ok : Bool)
  | cleared (ok : Bool)
  | published
  | returned (answer : Answer)
  deriving DecidableEq, Repr

/-- The manager, its calls and when their builds started and returned. -/
structure State where
  current : Option Nat := none
  inflight : Option Nat := none
  phase : Nat → Option Phase := fun _ => none
  /-- The calls whose channel is closed, and whether their error is nil. -/
  done : Nat → Option Bool := fun _ => none
  clock : Nat := 0
  started : Nat → Option Nat := fun _ => none
  finished : Nat → Option Nat := fun _ => none

inductive Action where
  /-- The call takes the slot, or finds it taken. -/
  | refresh (c : Nat)
  | start (c : Nat)
  | finish (c : Nat) (ok : Bool)
  | clear (c : Nat)
  | publish (c : Nat)
  /-- The call closes its channel and returns. -/
  | close (c : Nat)
  /-- A waiting call finds the channel closed. -/
  | wake (c : Nat)
  /-- A waiting call finds its context done. -/
  | cancel (c : Nat)
  deriving DecidableEq, Repr

def State.move (s : State) (c : Nat) (p : Phase) : State :=
  { s with phase := Function.update s.phase c (some p) }

section Move

variable (s : State) (c : Nat) (p : Phase)

theorem move_phase (d : Nat) : (s.move c p).phase d = if d = c then some p else s.phase d :=
  Function.update_apply ..

@[simp] theorem move_phase_self : (s.move c p).phase c = some p := Function.update_self ..

@[simp] theorem move_current : (s.move c p).current = s.current := rfl

@[simp] theorem move_inflight : (s.move c p).inflight = s.inflight := rfl

@[simp] theorem move_done : (s.move c p).done = s.done := rfl

@[simp] theorem move_clock : (s.move c p).clock = s.clock := rfl

@[simp] theorem move_started : (s.move c p).started = s.started := rfl

@[simp] theorem move_finished : (s.move c p).finished = s.finished := rfl

end Move

def step (s : State) : Action → Option State
  | .refresh c =>
    match s.phase c, s.inflight with
    | none, none => some ({ s with inflight := some c }.move c .claimed)
    | none, some call => some (s.move c (.waiting call))
    | some _, _ => none
  | .start c =>
    if s.phase c = some .claimed then
      some ({ s with
        started := Function.update s.started c (some s.clock), clock := s.clock + 1 }.move c .building)
    else none
  | .finish c ok =>
    if s.phase c = some .building then
      some ({ s with
        finished := Function.update s.finished c (some s.clock), clock := s.clock + 1 }.move c (.built ok))
    else none
  | .clear c =>
    match s.phase c with
    | some (.built ok) => some ({ s with inflight := none }.move c (.cleared ok))
    | _ => none
  | .publish c =>
    if s.phase c = some (.cleared true) then some ({ s with current := some c }.move c .published)
    else none
  | .close c =>
    match s.phase c with
    | some (.cleared false) =>
      some ({ s with done := Function.update s.done c (some false) }.move c (.returned .buildError))
    | some .published =>
      some ({ s with done := Function.update s.done c (some true) }.move c (.returned .nil))
    | _ => none
  | .wake c =>
    match s.phase c with
    | some (.waiting call) =>
      match s.done call with
      | some true => some (s.move c (.returned .nil))
      | some false => some (s.move c (.returned .buildError))
      | none => none
    | _ => none
  | .cancel c =>
    match s.phase c with
    | some (.waiting _) => some (s.move c (.returned .contextError))
    | _ => none

inductive Step (s : State) : Action → State → Prop
  | claim {c : Nat} (hphase : s.phase c = none) (hslot : s.inflight = none) :
      Step s (.refresh c) ({ s with inflight := some c }.move c .claimed)
  | join {c call : Nat} (hphase : s.phase c = none) (hslot : s.inflight = some call) :
      Step s (.refresh c) (s.move c (.waiting call))
  | start {c : Nat} (hphase : s.phase c = some .claimed) :
      Step s (.start c) ({ s with
        started := Function.update s.started c (some s.clock), clock := s.clock + 1 }.move c .building)
  | finish {c : Nat} {ok : Bool} (hphase : s.phase c = some .building) :
      Step s (.finish c ok) ({ s with
        finished := Function.update s.finished c (some s.clock), clock := s.clock + 1 }.move c (.built ok))
  | clear {c : Nat} {ok : Bool} (hphase : s.phase c = some (.built ok)) :
      Step s (.clear c) ({ s with inflight := none }.move c (.cleared ok))
  | publish {c : Nat} (hphase : s.phase c = some (.cleared true)) :
      Step s (.publish c) ({ s with current := some c }.move c .published)
  | fail {c : Nat} (hphase : s.phase c = some (.cleared false)) :
      Step s (.close c)
        ({ s with done := Function.update s.done c (some false) }.move c (.returned .buildError))
  | close {c : Nat} (hphase : s.phase c = some .published) :
      Step s (.close c) ({ s with done := Function.update s.done c (some true) }.move c (.returned .nil))
  | wake {c call : Nat} {ok : Bool} (hphase : s.phase c = some (.waiting call))
      (hdone : s.done call = some ok) :
      Step s (.wake c) (s.move c (.returned (if ok then .nil else .buildError)))
  | cancel {c call : Nat} (hphase : s.phase c = some (.waiting call)) :
      Step s (.cancel c) (s.move c (.returned .contextError))

variable {s s' : State} {a : Action} {c d : Nat}

theorem Step.of_step (h : step s a = some s') : Step s a s' := by
  cases a with
  | refresh c =>
    cases hphase : s.phase c with
    | some p => simp [step, hphase] at h
    | none =>
      cases hslot : s.inflight with
      | none =>
        simp only [step, hphase, hslot, Option.some.injEq] at h
        exact h ▸ .claim hphase hslot
      | some call =>
        simp only [step, hphase, hslot, Option.some.injEq] at h
        exact h ▸ .join hphase hslot
  | start c =>
    by_cases hphase : s.phase c = some .claimed
    · simp only [step, hphase, if_true, Option.some.injEq] at h
      exact h ▸ .start hphase
    · simp [step, hphase] at h
  | finish c ok =>
    by_cases hphase : s.phase c = some .building
    · simp only [step, hphase, if_true, Option.some.injEq] at h
      exact h ▸ .finish hphase
    · simp [step, hphase] at h
  | clear c =>
    simp only [step] at h
    split at h
    · next ok hphase => exact Option.some.inj h ▸ .clear hphase
    · cases h
  | publish c =>
    by_cases hphase : s.phase c = some (.cleared true)
    · simp only [step, hphase, if_true, Option.some.injEq] at h
      exact h ▸ .publish hphase
    · simp [step, hphase] at h
  | close c =>
    simp only [step] at h
    split at h
    · next hphase => exact Option.some.inj h ▸ .fail hphase
    · next hphase => exact Option.some.inj h ▸ .close hphase
    · cases h
  | wake c =>
    simp only [step] at h
    split at h
    · next call hphase =>
      split at h
      · next hdone => exact Option.some.inj h ▸ .wake hphase hdone
      · next hdone => exact Option.some.inj h ▸ .wake hphase hdone
      · cases h
    · cases h
  | cancel c =>
    simp only [step] at h
    split at h
    · next call hphase => exact Option.some.inj h ▸ .cancel hphase
    · cases h

/-- A schedule: any calls, any steps, in any order, each of them allowed where
it is taken. -/
inductive Run (allowed : State → Action → Prop) : State → State → Prop
  | refl (s : State) : Run allowed s s
  | tail {s s' s'' : State} {a : Action} (hrun : Run allowed s s') (hallowed : allowed s' a)
      (hstep : step s' a = some s'') : Run allowed s s''

/-! ## What a schedule may show -/

def State.build (s : State) (c : Nat) : Nat :=
  match s.phase c with
  | some (.waiting call) => call
  | _ => c

/-- Build `d` started after build `c` returned. -/
def State.StartedAfter (s : State) (d c : Nat) : Prop :=
  ∃ t u, s.finished c = some t ∧ s.started d = some u ∧ t < u

/-- The published snapshot comes from build `c`, or from one that started
later. -/
def State.Shows (s : State) (c : Nat) : Prop :=
  ∃ x, s.current = some x ∧
    (x = c ∨ ∃ t u, s.started c = some t ∧ s.started x = some u ∧ t < u)

/-- A call takes the slot only when no call that gave it back after a successful
build still has to publish. -/
def Orderly (s : State) : Action → Prop
  | .refresh _ => s.inflight = none → ∀ d, s.phase d ≠ some (.cleared true)
  | _ => True

/-! ## The invariant of orderly schedules -/

/-- The call holds the in-flight slot. -/
def Phase.Holds : Phase → Prop
  | .claimed | .building | .built _ => True
  | _ => False

/-- The call's build is running, or succeeded and is still to be published. -/
def Phase.Active : Phase → Prop
  | .building | .built _ | .cleared true => True
  | _ => False

/-- The call has not started a build. -/
def Phase.Early : Phase → Prop
  | .claimed | .waiting _ => True
  | _ => False

/-- No build started after that of `c`. -/
def State.Newest (s : State) (c : Nat) : Prop :=
  ∃ t, s.started c = some t ∧ ∀ d u, s.started d = some u → d ≠ c → u < t

/-- What holds of a call in a phase. -/
structure Fits (s : State) (c : Nat) (p : Phase) : Prop where
  slot : s.inflight = some c ↔ p.Holds
  free : p = .cleared true → s.inflight = none
  early : p.Early → s.started c = none
  newest : p.Active → s.Newest c
  shown : p = .published → s.Shows c

structure Inv (s : State) : Prop where
  fits : ∀ c p, s.phase c = some p → Fits s c p
  idle : ∀ c, s.phase c = none → s.inflight ≠ some c ∧ s.started c = none
  alone : ∀ c d, s.phase c = some (.cleared true) → s.phase d = some (.cleared true) → d = c
  past : ∀ c t, s.started c = some t → t < s.clock
  order : ∀ c u, s.finished c = some u → u < s.clock ∧ ∃ t, s.started c = some t ∧ t < u
  shown : ∀ c, s.done c = some true → s.Shows c
  ran : ∀ c, s.current = some c → ∃ t, s.started c = some t

theorem inv_init : Inv {} where
  fits _ _ h := by cases h
  idle _ _ := ⟨nofun, rfl⟩
  alone _ _ h := by cases h
  past _ _ h := by cases h
  order _ _ h := by cases h
  shown _ h := by cases h
  ran _ h := by cases h

/-- What a record updated at one call says of another. -/
theorem of_update {α : Type} {f : Nat → Option α} {x y : α}
    (h : Function.update f c (some x) d = some y) : (d = c ∧ y = x) ∨ (d ≠ c ∧ f d = some y) := by
  rw [Function.update_apply] at h
  split at h
  · next hd => exact .inl ⟨hd, (Option.some.inj h).symm⟩
  · next hd => exact .inr ⟨hd, h⟩

/-- Two calls never hold the slot together. -/
theorem Inv.not_holds (hi : Inv s) {p : Phase} (hc : s.inflight = some c) (hne : d ≠ c)
    (hp : s.phase d = some p) : ¬p.Holds := by
  intro hholds
  have hd := (hi.fits d p hp).slot.mpr hholds
  rw [hc, Option.some.injEq] at hd
  exact hne hd.symm

/-- While a call holds the slot, no other build is active. -/
theorem Inv.not_active (hi : Inv s) {p : Phase} (hc : s.inflight = some c) (hne : d ≠ c)
    (hp : s.phase d = some p) : ¬p.Active := by
  intro hactive
  have hholds := hi.not_holds hc hne hp
  cases p with
  | building => exact hholds trivial
  | built ok => exact hholds trivial
  | cleared ok =>
    cases ok with
    | false => exact hactive
    | true =>
      have hnone := (hi.fits d _ hp).free rfl
      rw [hc] at hnone
      cases hnone
  | waiting call => exact hactive
  | claimed => exact hactive
  | published => exact hactive
  | returned answer => exact hactive

/-- What the published snapshot shows stays shown. -/
theorem Step.shows (h : Step s a s') (hi : Inv s) (hd : s.Shows d) : s'.Shows d := by
  cases h with
  | claim | join | finish | clear | fail | close | wake | cancel => exact hd
  | @start c hphase =>
    have hstart : s.started c = none := (hi.fits c _ hphase).early trivial
    have hkeep : ∀ x t, s.started x = some t →
        Function.update s.started c (some s.clock) x = some t := by
      intro x t hx
      have hne : x ≠ c := fun he => by rw [he, hstart] at hx; cases hx
      rw [Function.update_of_ne hne, hx]
    obtain ⟨x, hx, hsame | ⟨t, u, ht, hu, hlt⟩⟩ := hd
    · exact ⟨x, hx, .inl hsame⟩
    · exact ⟨x, hx, .inr ⟨t, u, hkeep d t ht, hkeep x u hu, hlt⟩⟩
  | @publish c hphase =>
    obtain ⟨t, ht, hnew⟩ := (hi.fits c _ hphase).newest trivial
    refine ⟨c, rfl, ?_⟩
    by_cases hcd : d = c
    · exact .inl hcd.symm
    · -- whatever was shown started before the build that is published now
      obtain ⟨x, hx, rfl | ⟨v, u, hv, -, -⟩⟩ := hd
      · obtain ⟨v, hv⟩ := hi.ran x hx
        exact .inr ⟨v, t, hv, ht, hnew x v hv hcd⟩
      · exact .inr ⟨v, t, hv, ht, hnew d v hv hcd⟩

/-- Moving a call on keeps the invariant when its new phase fits. -/
theorem Inv.move (hi : Inv s) {p : Phase} (hp : Fits s c p) (hne : p ≠ .cleared true) :
    Inv (s.move c p) where
  fits d q hq := by
    rcases of_update hq with ⟨rfl, rfl⟩ | ⟨-, hq⟩
    · exact ⟨hp.slot, hp.free, hp.early, hp.newest, hp.shown⟩
    · have hfit := hi.fits d q hq
      exact ⟨hfit.slot, hfit.free, hfit.early, hfit.newest, hfit.shown⟩
  idle d hd := by
    rw [move_phase] at hd
    split at hd
    · cases hd
    · exact hi.idle d hd
  alone x y hx hy := by
    rcases of_update hx with ⟨-, rfl⟩ | ⟨-, hx⟩
    · exact absurd rfl hne
    rcases of_update hy with ⟨-, rfl⟩ | ⟨-, hy⟩
    · exact absurd rfl hne
    · exact hi.alone x y hx hy
  past := hi.past
  order := hi.order
  shown := hi.shown
  ran := hi.ran

theorem Inv.claim (hi : Inv s) (hphase : s.phase c = none) (hslot : s.inflight = none)
    (hsettled : ∀ d, s.phase d ≠ some (.cleared true)) :
    Inv ({ s with inflight := some c }.move c .claimed) where
  fits d q hq := by
    rcases of_update hq with ⟨rfl, rfl⟩ | ⟨hdc, hq⟩
    · exact ⟨by simp [Phase.Holds], nofun, fun _ => (hi.idle d hphase).2, nofun, nofun⟩
    · have hfit := hi.fits d q hq
      refine ⟨?_, ?_, hfit.early, hfit.newest, hfit.shown⟩
      · have hnot : ¬q.Holds := fun hholds => by
          have := hfit.slot.mpr hholds
          rw [hslot] at this
          cases this
        simp [hnot, Ne.symm hdc]
      · intro hcleared
        exact absurd (hcleared ▸ hq) (hsettled d)
  idle d hd := by
    rw [move_phase] at hd
    split at hd
    · cases hd
    · next hdc => exact ⟨fun he => hdc (Option.some.inj he).symm, (hi.idle d hd).2⟩
  alone x y hx := by
    rcases of_update hx with ⟨-, h⟩ | ⟨-, hx⟩
    · cases h
    · exact absurd hx (hsettled x)
  past := hi.past
  order := hi.order
  shown := hi.shown
  ran := hi.ran

theorem Inv.start (hi : Inv s) (hphase : s.phase c = some .claimed) :
    Inv ({ s with
      started := Function.update s.started c (some s.clock), clock := s.clock + 1 }.move c .building) := by
  have hfit := hi.fits c _ hphase
  have hslot : s.inflight = some c := hfit.slot.mpr trivial
  have hshows := fun d => Step.shows (d := d) (.start hphase) hi
  have hother : ∀ {d t}, d ≠ c →
      (Function.update s.started c (some s.clock) d = some t ↔ s.started d = some t) := by
    intro d t hdc
    rw [Function.update_of_ne hdc]
  refine ⟨?_, ?_, ?_, ?_, ?_, ?_, ?_⟩
  · intro d q hq
    rcases of_update hq with ⟨rfl, rfl⟩ | ⟨hdc, hq⟩
    · refine ⟨by simpa [Phase.Holds] using hslot, nofun, nofun, fun _ => ?_, nofun⟩
      refine ⟨s.clock, Function.update_self .., fun x u hx hxd => ?_⟩
      exact hi.past x u ((hother hxd).mp hx)
    · have hd := hi.fits d q hq
      refine ⟨hd.slot, hd.free, ?_, ?_, fun h => hshows d (hd.shown h)⟩
      · intro hearly
        exact (Function.update_of_ne hdc ..).trans (hd.early hearly)
      · intro hactive
        exact absurd hactive (hi.not_active hslot hdc hq)
  · intro d hd
    rw [move_phase] at hd
    split at hd
    · cases hd
    · next hdc =>
      exact ⟨(hi.idle d hd).1, (Function.update_of_ne hdc ..).trans (hi.idle d hd).2⟩
  · intro x y hx
    rcases of_update hx with ⟨-, h⟩ | ⟨hxc, hx⟩
    · cases h
    · exact absurd trivial (hi.not_active hslot hxc hx)
  · intro d t ht
    rcases of_update ht with ⟨-, rfl⟩ | ⟨-, ht⟩
    · exact Nat.lt_succ_self _
    · exact Nat.lt_succ_of_lt (hi.past d t ht)
  · intro d u hu
    obtain ⟨hlt, t, ht, htu⟩ := hi.order d u hu
    refine ⟨Nat.lt_succ_of_lt hlt, t, (hother ?_).mpr ht, htu⟩
    rintro rfl
    rw [hfit.early trivial] at ht
    cases ht
  · intro d hd
    exact hshows d (hi.shown d hd)
  · intro d hd
    obtain ⟨t, ht⟩ := hi.ran d hd
    refine ⟨t, (hother ?_).mpr ht⟩
    rintro rfl
    rw [hfit.early trivial] at ht
    cases ht

theorem Inv.finish (hi : Inv s) {ok : Bool} (hphase : s.phase c = some .building) :
    Inv ({ s with
      finished := Function.update s.finished c (some s.clock), clock := s.clock + 1 }.move c (.built ok)) := by
  have hfit := hi.fits c _ hphase
  obtain ⟨t, ht, hnew⟩ := hfit.newest trivial
  have hmid : Inv { s with
      finished := Function.update s.finished c (some s.clock), clock := s.clock + 1 } := by
    refine ⟨?_, hi.idle, hi.alone, ?_, ?_, hi.shown, hi.ran⟩
    · intro d q hq
      have hd := hi.fits d q hq
      exact ⟨hd.slot, hd.free, hd.early, hd.newest, hd.shown⟩
    · intro d u hu
      exact Nat.lt_succ_of_lt (hi.past d u hu)
    · intro d u hu
      rcases of_update hu with ⟨rfl, rfl⟩ | ⟨-, hu⟩
      · exact ⟨Nat.lt_succ_self _, t, ht, hi.past d t ht⟩
      · obtain ⟨hlt, hstart⟩ := hi.order d u hu
        exact ⟨Nat.lt_succ_of_lt hlt, hstart⟩
  exact hmid.move ⟨hfit.slot, nofun, nofun, fun _ => ⟨t, ht, hnew⟩, nofun⟩ nofun

theorem Inv.clear (hi : Inv s) {ok : Bool} (hphase : s.phase c = some (.built ok)) :
    Inv ({ s with inflight := none }.move c (.cleared ok)) := by
  have hfit := hi.fits c _ hphase
  have hslot : s.inflight = some c := hfit.slot.mpr trivial
  have hother : ∀ d, d ≠ c → s.phase d ≠ some (.cleared true) := fun d hdc hd =>
    hi.not_active hslot hdc hd trivial
  refine ⟨?_, ?_, ?_, hi.past, hi.order, hi.shown, hi.ran⟩
  · intro d q hq
    rcases of_update hq with ⟨rfl, rfl⟩ | ⟨hdc, hq⟩
    · exact ⟨by simp [Phase.Holds], fun _ => rfl, nofun, fun _ => hfit.newest trivial, nofun⟩
    · have hd := hi.fits d q hq
      exact ⟨by simpa using hi.not_holds hslot hdc hq, fun _ => rfl, hd.early, hd.newest, hd.shown⟩
  · intro d hd
    rw [move_phase] at hd
    split at hd
    · cases hd
    · exact ⟨nofun, (hi.idle d hd).2⟩
  · intro x y hx hy
    rcases of_update hx with ⟨rfl, -⟩ | ⟨hxc, hx⟩
    · rcases of_update hy with ⟨rfl, -⟩ | ⟨hyc, hy⟩
      · rfl
      · exact absurd hy (hother y hyc)
    · exact absurd hx (hother x hxc)

theorem Inv.publish (hi : Inv s) (hphase : s.phase c = some (.cleared true)) :
    Inv ({ s with current := some c }.move c .published) := by
  have hfit := hi.fits c _ hphase
  obtain ⟨t, ht, -⟩ := hfit.newest trivial
  have hshows := fun d => Step.shows (d := d) (.publish hphase) hi
  have hmid : Inv { s with current := some c } := by
    refine ⟨?_, hi.idle, hi.alone, hi.past, hi.order, fun d hd => hshows d (hi.shown d hd), ?_⟩
    · intro d q hq
      have hd := hi.fits d q hq
      exact ⟨hd.slot, hd.free, hd.early, hd.newest, fun h => hshows d (hd.shown h)⟩
    · intro d hd
      obtain rfl := Option.some.inj hd
      exact ⟨t, ht⟩
  exact hmid.move ⟨hfit.slot, nofun, nofun, nofun, fun _ => ⟨c, rfl, .inl rfl⟩⟩ nofun

/-- Closing a channel keeps the invariant when a nil error means the build is
shown. -/
theorem Inv.close (hi : Inv s) {ok : Bool} {p : Phase} {answer : Answer}
    (hphase : s.phase c = some p) (hp : ¬p.Holds) (hok : ok = true → s.Shows c) :
    Inv ({ s with done := Function.update s.done c (some ok) }.move c (.returned answer)) := by
  have hfit := hi.fits c _ hphase
  have hmid : Inv { s with done := Function.update s.done c (some ok) } := by
    refine ⟨?_, hi.idle, hi.alone, hi.past, hi.order, ?_, hi.ran⟩
    · intro d q hq
      have hd := hi.fits d q hq
      exact ⟨hd.slot, hd.free, hd.early, hd.newest, hd.shown⟩
    · intro d hd
      rcases of_update hd with ⟨rfl, hyes⟩ | ⟨-, hd⟩
      · exact hok hyes.symm
      · exact hi.shown d hd
  have hslot : s.inflight ≠ some c := fun h => hp (hfit.slot.mp h)
  exact hmid.move ⟨by simpa [Phase.Holds] using hslot, nofun, nofun, nofun, nofun⟩ nofun

/-- A call that waits or returns leaves everything else alone. -/
theorem Inv.aside (hi : Inv s) {p : Phase} (hslot : s.inflight ≠ some c)
    (hstart : p.Early → s.started c = none) (hp : ¬p.Holds) (ha : ¬p.Active)
    (hpub : p ≠ .published) : Inv (s.move c p) :=
  hi.move ⟨iff_of_false hslot hp, fun h => absurd (h ▸ trivial) ha, hstart, fun h => absurd h ha,
    fun h => absurd h hpub⟩ fun h => ha (h ▸ trivial)

theorem Step.inv (h : Step s a s') (ha : Orderly s a) (hi : Inv s) : Inv s' := by
  cases h with
  | claim hphase hslot => exact hi.claim hphase hslot (ha hslot)
  | @join c call hphase hslot =>
    obtain ⟨hne, hstart⟩ := hi.idle c hphase
    exact hi.aside hne (fun _ => hstart) nofun nofun nofun
  | start hphase => exact hi.start hphase
  | finish hphase => exact hi.finish hphase
  | clear hphase => exact hi.clear hphase
  | publish hphase => exact hi.publish hphase
  | fail hphase => exact hi.close hphase nofun nofun
  | close hphase => exact hi.close hphase nofun fun _ => (hi.fits _ _ hphase).shown rfl
  | wake hphase hdone =>
    exact hi.aside (fun h => (hi.fits _ _ hphase).slot.mp h) nofun nofun nofun nofun
  | cancel hphase =>
    exact hi.aside (fun h => (hi.fits _ _ hphase).slot.mp h) nofun nofun nofun nofun

/-! ## Whole schedules -/

theorem Run.inv (h : Run Orderly s s') (hi : Inv s) : Inv s' := by
  induction h with
  | refl => exact hi
  | tail _ hallowed hstep ih => exact (Step.of_step hstep).inv hallowed ih

theorem Run.shows (h : Run Orderly s s') (hi : Inv s) (hd : s.Shows d) : s'.Shows d := by
  induction h with
  | refl => exact hd
  | tail hrun _ hstep ih => exact (Step.of_step hstep).shows (hrun.inv hi) ih

/-- A schedule goes on with actions that are always allowed. -/
theorem Run.steps {allowed : State → Action → Prop} {r : State} (acts : List Action)
    (hfree : ∀ a ∈ acts, ∀ t, allowed t a) (hrun : Run allowed r s)
    (h : acts.foldlM step s = some s') : Run allowed r s' := by
  induction acts generalizing s with
  | nil => exact Option.some.inj h ▸ hrun
  | cons a acts ih =>
    obtain ⟨u, hu, hrest⟩ := Option.bind_eq_some_iff.mp h
    exact ih (fun b hb => hfree b (List.mem_cons_of_mem a hb))
      (hrun.tail (hfree a List.mem_cons_self s) hu) hrest

/-- The step by which a call returns nil leaves the build it ran or waited for
shown. -/
theorem Step.shows_build (h : Step s a s') (hi : Inv s)
    (hbefore : s.phase c ≠ some (.returned .nil)) (hnil : s'.phase c = some (.returned .nil)) :
    s'.Shows (s.build c) := by
  have hkeep : ∀ {b}, s.Shows b → s'.Shows b := h.shows hi
  cases h with
  | claim | join | start | finish | clear | publish | fail | cancel =>
    rcases of_update hnil with ⟨-, hp⟩ | ⟨-, hp⟩
    · cases hp
    · exact absurd hp hbefore
  | @close x hphase =>
    rcases of_update hnil with ⟨rfl, -⟩ | ⟨-, hp⟩
    · simp only [State.build, hphase]
      exact hkeep ((hi.fits c _ hphase).shown rfl)
    · exact absurd hp hbefore
  | @wake x call ok hphase hdone =>
    rcases of_update hnil with ⟨rfl, hp⟩ | ⟨-, hp⟩
    · simp only [State.build, hphase]
      cases ok with
      | true => exact hkeep (hi.shown call hdone)
      | false => cases hp
    · exact absurd hp hbefore

/-- On an orderly schedule the published snapshot never goes back to a build
that had returned before the published one started, and a call that returns nil
leaves the build it ran or waited for, or a later one, published. -/
theorem refresh_never_goes_back {s s' : State} (hs : Run Orderly {} s) (hs' : Run Orderly s s') :
    (∀ b₁ b₂, s.current = some b₂ → s'.current = some b₁ → ¬s'.StartedAfter b₂ b₁) ∧
    ∀ a s'' c, Orderly s' a → step s' a = some s'' →
      s'.phase c ≠ some (.returned .nil) → s''.phase c = some (.returned .nil) →
      s''.Shows (s'.build c) := by
  have hinv : Inv s := hs.inv inv_init
  have hinv' : Inv s' := hs'.inv hinv
  constructor
  · rintro b₁ b₂ hcur hcur' ⟨t, u, ht, hu, htu⟩
    obtain ⟨-, v, hv, hvt⟩ := hinv'.order b₁ t ht
    obtain ⟨x, hx, hsame | ⟨u', v', hu', hv', hlt⟩⟩ :=
      hs'.shows hinv (⟨b₂, hcur, .inl rfl⟩ : s.Shows b₂)
    · rw [hcur', Option.some.injEq] at hx
      rw [← hsame, ← hx, hv, Option.some.injEq] at hu
      omega
    · rw [hcur', Option.some.injEq] at hx
      rw [hu, Option.some.injEq] at hu'
      rw [← hx, hv, Option.some.injEq] at hv'
      omega
  · intro a s'' c _ hstep hbefore hnil
    exact (Step.of_step hstep).shows_build hinv' hbefore hnil

/-- A call that has the slot builds and publishes. -/
private def publishes (c : Nat) : List Action :=
  [.start c, .finish c true, .clear c, .publish c]

private def returned : State :=
  ((Action.refresh 0 :: publishes 0 ++ [Action.close 0]).foldlM step {}).getD {}

/-- Two calls that build and publish one after the other. -/
theorem refresh_never_goes_back_twice :
    ∃ s s' s'' : State, Run Orderly {} s ∧ Run Orderly s s' ∧ s.current = some 0 ∧
      s'.current = some 1 ∧ ¬ s'.StartedAfter 0 1 ∧ step s' (.close 1) = some s'' ∧
      s''.phase 1 = some (.returned .nil) ∧ s''.Shows (s'.build 1) := by
  have hfree : ∀ c, ∀ a ∈ publishes c ++ [.close c], ∀ t, Orderly t a := by
    simp [publishes, Orderly]
  have hfirst : Run Orderly {} returned :=
    ((Run.refl {}).tail (a := .refresh 0) nofun rfl).steps (publishes 0 ++ [.close 0]) (hfree 0) rfl
  have hreturned : Orderly returned (.refresh 1) := by
    rintro - (_ | d) hd <;> cases hd
  have hsecond : Run Orderly returned _ :=
    ((Run.refl _).tail hreturned rfl).steps (publishes 1)
      (fun a ha => hfree 1 a (List.mem_append_left _ ha)) rfl
  obtain ⟨horder, hnil⟩ := refresh_never_goes_back hfirst hsecond
  exact ⟨_, _, _, hfirst, hsecond, rfl, rfl, horder 1 0 rfl rfl, rfl, rfl,
    hnil (.close 1) _ 1 trivial rfl (by decide) (by decide)⟩

section GoingBack

/-- The first call gives the slot back, and the second builds and publishes
before the first does. -/
private def overtaken : List Action :=
  [.refresh 0, .start 0, .finish 0 true, .clear 0, .refresh 1] ++ publishes 1

theorem refresh_goes_back :
    ∃ s s' s'' : State, Run (fun _ _ => True) {} s ∧ Run (fun _ _ => True) s s' ∧
      s.current = some 1 ∧ s'.current = some 0 ∧ s'.StartedAfter 1 0 ∧
      step s' (.close 1) = some s'' ∧ s'.phase 1 = some .published ∧
      s''.phase 1 = some (.returned .nil) ∧ ¬s''.Shows 1 := by
  have hfirst : overtaken.foldlM step {} = some _ := rfl
  refine ⟨_, _, _, (Run.refl _).steps overtaken (fun _ _ _ => trivial) hfirst,
    (Run.refl _).tail (a := .publish 0) trivial rfl, rfl, rfl, ⟨1, 2, rfl, rfl, by decide⟩, rfl, rfl,
    rfl, ?_⟩
  rintro ⟨x, hx, hsame | ⟨t, u, ht, hu, hlt⟩⟩
  · cases hx
    cases hsame
  · cases hx
    cases ht
    cases hu
    exact absurd hlt (by decide)

end GoingBack

end Manager
end Pacto.Fleet
