import Pacto.Promoter.Lock

/-!
# Who moved the pointer

An operation moves the pointer in two writes: a compare-and-swap of the Stage,
which names it as the last mover, and a write of its own status, which says it
applied.  As long as no move is left without the second, every operation that
moved the pointer is in the Stage's history once and says so, whatever happens
to the Stage's level meanwhile.
-/

namespace Pacto.Promoter

open Delivery Support

variable {r : Reconciler} {s s' : Store}

/-! ## The moves of a run -/

namespace Store

def moves (s : Store) : List (Stage × Stage) :=
  s.stage.writes.filter fun w => w.2.status.lastOp ≠ w.1.status.lastOp

/-- The operations that moved the pointer, in the order they did. -/
def movers (s : Store) : List String := s.moves.map fun w => w.2.status.lastOp

/-- Where each move found the pointer and where it left it. -/
def trajectory (s : Store) : List (String × String) :=
  s.moves.map fun w => (w.1.status.pointer, w.2.status.pointer)

end Store

theorem writes_setStage (s : Store) (st : Stage) :
    (s.setStage (s.stage.write st)).stage.writes =
      s.stage.writes ++ [(s.stage.latest, Resource.withVersion s.stage.versions.length st)] :=
  Register.writes_write s.stage st

theorem mem_writes_write {w : Stage × Stage} (s : Store) (st : Stage)
    (h : w ∈ (s.setStage (s.stage.write st)).stage.writes) :
    w ∈ s.stage.writes ∨
      w = (s.stage.latest, Resource.withVersion s.stage.versions.length st) := by
  rw [writes_setStage] at h
  simpa using h

theorem moves_write_of_eq (s : Store) (st : Stage) (h : st.status.lastOp = s.status.lastOp) :
    (s.setStage (s.stage.write st)).moves = s.moves := by
  have hlast : (Resource.withVersion s.stage.versions.length st : Stage).status.lastOp =
      s.stage.latest.status.lastOp := h
  simp [Store.moves, writes_setStage, hlast]

theorem moves_write_of_ne (s : Store) (st : Stage) (h : st.status.lastOp ≠ s.status.lastOp) :
    (s.setStage (s.stage.write st)).moves =
      s.moves ++ [(s.stage.latest, Resource.withVersion s.stage.versions.length st)] := by
  have hlast : (Resource.withVersion s.stage.versions.length st : Stage).status.lastOp ≠
      s.stage.latest.status.lastOp := h
  simp [Store.moves, writes_setStage, hlast]

theorem movers_write_of_eq (s : Store) (st : Stage) (h : st.status.lastOp = s.status.lastOp) :
    (s.setStage (s.stage.write st)).movers = s.movers := by
  simp only [Store.movers, moves_write_of_eq s st h]

theorem movers_write_of_ne (s : Store) (st : Stage) (h : st.status.lastOp ≠ s.status.lastOp) :
    (s.setStage (s.stage.write st)).movers = s.movers ++ [st.status.lastOp] := by
  simp only [Store.movers, moves_write_of_ne s st h, List.map_append, List.map_singleton]
  rfl

theorem writes_congr (h : s'.stage.versions = s.stage.versions) :
    s'.stage.writes = s.stage.writes := by
  simp only [Register.writes, h]

theorem moves_congr (h : s'.stage.versions = s.stage.versions) : s'.moves = s.moves := by
  simp only [Store.moves, writes_congr h]

theorem movers_congr (h : s'.stage.versions = s.stage.versions) : s'.movers = s.movers := by
  simp only [Store.movers, moves_congr h]

/-! ## Moves that are noted -/

/-- No move is left without its status write: an operation that is gone moves
nothing, and the last mover neither concludes nor goes before its status says it
applied. -/
structure Noted (s s' : Store) : Prop where
  live : s'.status.lastOp ≠ s.status.lastOp → ∀ cell ∈ s.ops s'.status.lastOp, cell.gone = false
  attended : ∀ cell ∈ s.ops s.status.lastOp, cell.latest.status.applied = false →
    concludedOn s'.status s.status.lastOp = none ∧
      ∀ cell' ∈ s'.ops s.status.lastOp, cell'.gone = false

instance (s s' : Store) : Decidable (Noted s s') :=
  decidable_of_iff
    ((s'.status.lastOp ≠ s.status.lastOp →
        ∀ cell ∈ s.ops s'.status.lastOp, cell.gone = false) ∧
      ∀ cell ∈ s.ops s.status.lastOp, cell.latest.status.applied = false →
        concludedOn s'.status s.status.lastOp = none ∧
          ∀ cell' ∈ s'.ops s.status.lastOp, cell'.gone = false)
    ⟨fun h => ⟨h.1, h.2⟩, fun h => ⟨h.live, h.attended⟩⟩

/-- The operation whose move is not noted yet. -/
structure Unnoted (s : Store) (X : String) (cell : Cell) : Prop where
  stored : s.ops X = some cell
  unapplied : cell.latest.status.applied = false
  last : s.status.lastOp = X
  held : s.holder = X
  there : cell.gone = false

namespace Unnoted

variable {X : String} {cell : Cell} (h : Unnoted s X cell) (hinv : Inv r s) (hopen : HolderOpen s)

include h hinv hopen

theorem isOpen (e : Concluded) : ¬s.Given X e :=
  (hopen.holding hinv h.stored h.held).isOpen e

/-- Nobody takes the lock of an operation whose move is not noted. -/
theorem not_taken (hwritten : Written s) {Y : String} {op : Operation} (hev : LockEvidence Y op s)
    (hfacet : op.spec.facet = .pointer) : False := by
  have hok := hinv.cells X cell h.stored
  have hversion := hok.version _ cell.register.latest_mem
  have hfree := hev.free
  rw [hfacet, show s.status.locks.get .pointer = X from h.held] at hfree
  rcases hfree with hempty | rfl | ⟨cell', hcell', hway⟩
  · exact hinv.ne_empty h.stored hempty
  · exact hev.unmoved (Store.moved_of_last h.last)
  cases h.stored.symm.trans hcell'
  rcases hway with hforgot | ⟨v, hv, -, hphase⟩
  · exact absurd (hok.forgotten hforgot) (Bool.eq_false_iff.mp h.there)
  have hpast : v.PastApply := by
    rcases hphase with hconcluded | ⟨-, hpast⟩
    · exact .inr (.inl hconcluded)
    · exact hpast
  have hlatest := hok.applyOrder v hv _ cell.register.latest_mem (Register.version_le_latest hv) hpast
  rcases hlatest with hverifying | hconcluded | ⟨-, happlied⟩
  · exact absurd (hversion.applied hverifying) (by
      rw [show cell.register.latest = cell.latest from rfl, h.unapplied]
      simp)
  · obtain ⟨e, hgiven, -⟩ := hwritten X cell h.stored _ cell.register.latest_mem hconcluded
    exact h.isOpen hinv hopen e hgiven
  · rw [show cell.register.latest = cell.latest from rfl, h.unapplied] at happlied
    cases happlied

theorem not_concluded {op : Operation} {c : Conclusion} {squat : String}
    (hev : FinishEvidence r X op c s)
    (hnoted : Noted s (s.setStage (s.stage.write (finishOn squat (op, c) s.stage.latest).2))) :
    False := by
  have hnone : concludedOn s.stage.latest.status op.uid = none := by
    cases hconcluded : concludedOn s.stage.latest.status op.uid with
    | none => rfl
    | some done =>
      obtain ⟨hmem, huid⟩ := concludedOn_eq_some hconcluded
      exact absurd (Store.given_of_mem (huid.trans hev.uid) hmem) (h.isOpen hinv hopen done)
  obtain ⟨hstill, -⟩ := hnoted.attended cell (by rw [h.last]; exact h.stored) h.unapplied
  rw [status_write, h.last] at hstill
  exact concludedOn_eq_none hstill (mem_finishOn_of_open c squat hnone) hev.uid

end Unnoted

/-- The operations that moved the pointer: each did once, the one in the lock
last, and each but the last says so. -/
structure Movers (s : Store) : Prop where
  once : s.movers.Nodup
  listed : ∀ X, X ≠ "" → (s.Moved X ↔ X ∈ s.movers)
  last : s.holder ≠ "" → s.Moved s.holder → s.status.lastOp = s.holder
  noted : ∀ X ∈ s.movers, ∃ cell, s.ops X = some cell ∧
    (cell.latest.status.applied = true ∨
      (s.status.lastOp = X ∧ s.holder = X ∧ cell.gone = false))

namespace Movers

/-- A step that leaves the Stage alone. -/
theorem congr (h : Movers s) (hnoted : Noted s s') (hstep : Step r s s')
    (hversions : s'.stage.versions = s.stage.versions) : Movers s' := by
  have hmovers := movers_congr hversions
  refine ⟨?_, ?_, ?_, ?_⟩
  · rw [hmovers]
    exact h.once
  · intro X hX
    rw [hmovers, moved_congr hversions]
    exact h.listed X hX
  · rw [holder_congr hversions, moved_congr hversions, status_congr hversions]
    exact h.last
  · intro X hX
    rw [hmovers] at hX
    obtain ⟨cell, hcell, hway⟩ := h.noted X hX
    obtain ⟨cell', hcell', -, happlied'⟩ := hstep.cell hcell
    refine ⟨cell', hcell', ?_⟩
    cases happlied : cell.latest.status.applied with
    | true => exact .inl (happlied' happlied)
    | false =>
      obtain ⟨hlast, hheld, -⟩ := hway.resolve_left (by simp [happlied])
      refine .inr ⟨?_, ?_, ?_⟩
      · rw [status_congr hversions]
        exact hlast
      · rw [holder_congr hversions]
        exact hheld
      · exact (hnoted.attended cell (by rw [hlast]; exact hcell) happlied).2 cell'
          (by rw [hlast]; exact hcell')

theorem write (h : Movers s) {st : Stage} (hlast : st.status.lastOp = s.status.lastOp)
    (hlock : st.status.locks.get .pointer = s.holder ∨ st.status.locks.get .pointer = "" ∨
      ¬s.Moved (st.status.locks.get .pointer))
    (hheld : ∀ X cell, Unnoted s X cell → st.status.locks.get .pointer = X) :
    Movers (s.setStage (s.stage.write st)) := by
  have hmovers := movers_write_of_eq s st hlast
  have hmoved := moved_write_of_eq hlast
  refine ⟨?_, ?_, ?_, ?_⟩
  · rw [hmovers]
    exact h.once
  · intro X hX
    rw [hmovers, hmoved]
    exact h.listed X hX
  · rw [holder_write, hmoved, status_write, hlast]
    intro hne hmovedX
    rcases hlock with hsame | hempty | hunmoved
    · rw [hsame] at hne hmovedX ⊢
      exact h.last hne hmovedX
    · exact absurd hempty hne
    · exact absurd hmovedX hunmoved
  · intro X hX
    rw [hmovers] at hX
    obtain ⟨cell, hcell, hway⟩ := h.noted X hX
    refine ⟨cell, hcell, ?_⟩
    cases happlied : cell.latest.status.applied with
    | true => exact .inl rfl
    | false =>
      obtain ⟨hlastX, hholder, hthere⟩ := hway.resolve_left (by simp [happlied])
      refine .inr ⟨by rw [status_write, hlast]; exact hlastX, ?_, hthere⟩
      rw [holder_write]
      exact hheld X cell ⟨hcell, happlied, hlastX, hholder, hthere⟩

/-- A new move. -/
theorem move (h : Movers s) {st : Stage} {X : String} {cell : Cell} (hX : X ≠ "")
    (hcell : s.ops X = some cell) (hthere : cell.gone = false) (hunmoved : ¬s.Moved X)
    (hlast : st.status.lastOp = X) (hheld : s.holder = X)
    (hlock : st.status.locks.get .pointer = X) :
    Movers (s.setStage (s.stage.write st)) := by
  have hne : st.status.lastOp ≠ s.status.lastOp := by
    rw [hlast]
    exact Store.ne_last hunmoved
  have hmovers := movers_write_of_ne s st hne
  rw [hlast] at hmovers
  have hfresh : X ∉ s.movers := fun hmem => hunmoved ((h.listed X hX).mpr hmem)
  refine ⟨?_, ?_, ?_, ?_⟩
  · rw [hmovers]
    exact List.nodup_append.mpr ⟨h.once, List.nodup_singleton X, fun a ha b hb hab =>
      hfresh (by rw [← List.mem_singleton.mp hb, ← hab]; exact ha)⟩
  · intro Y hY
    rw [hmovers, moved_write, List.mem_append, List.mem_singleton, h.listed Y hY, hlast]
    exact or_congr_right eq_comm
  · rw [holder_write, status_write, hlock, hlast]
    exact fun _ _ => rfl
  · intro Y hY
    rw [hmovers, List.mem_append, List.mem_singleton] at hY
    rcases hY with hold | rfl
    · obtain ⟨cellY, hcellY, hway⟩ := h.noted Y hold
      refine ⟨cellY, hcellY, .inl (hway.resolve_right ?_)⟩
      rintro ⟨-, hheldY, -⟩
      exact hfresh (hheld.symm.trans hheldY ▸ hold)
    · refine ⟨cell, hcell, .inr ⟨by rw [status_write]; exact hlast, ?_, hthere⟩⟩
      rw [holder_write]
      exact hlock

theorem last_of_held (h : Movers s) {X : String} (hX : X ≠ "") (hheld : s.holder = X)
    (hmoved : s.Moved X) : s.status.lastOp = X := by
  subst hheld
  exact h.last hX hmoved

theorem step (hinv : Inv r s) (h : Movers s) (hopen : HolderOpen s) (hwritten : Written s)
    (hnoted : Noted s s') (hstep : Step r s s') : Movers s' := by
  cases hstep.stageStep with
  | quiet hversions => exact h.congr hnoted hstep hversions
  | aside st hs' haside =>
    subst hs'
    refine h.write haside.lastOp (.inl ?_) fun X cell hunnoted => ?_
    · rw [haside.locks]
      rfl
    · rw [haside.locks]
      exact hunnoted.held
  | lock X op hev hlock hs' =>
    subst hs'
    by_cases hfacet : op.spec.facet = .pointer
    · refine h.write rfl (.inr (.inr ?_)) fun Y cell hunnoted =>
        (hunnoted.not_taken hinv hopen hwritten hev hfacet).elim
      rw [hfacet, Locks.get_set_self, hev.uid]
      exact hev.unmoved
    · have hkept := Locks.get_set_of_ne s.status.locks op.uid (Ne.symm hfacet)
      exact h.write rfl (.inl hkept) fun Y cell hunnoted => hkept.trans hunnoted.held
  | move X op hev hheld hs' =>
    obtain ⟨cell, hcell, -⟩ := hev.cell
    have hX := hinv.ne_empty hcell
    by_cases hmoved : s.Moved X
    · -- The move was made before and its status write lost.
      have hlast := h.last_of_held hX hheld hmoved
      subst hs'
      exact h.write hlast.symm (.inl rfl) fun Y cell hunnoted => hunnoted.held
    · have hthere : cell.gone = false := by
        have hnew : s'.status.lastOp = X := by rw [hs', status_write]
        refine hnoted.live ?_ cell (by rw [hnew]; exact hcell)
        rw [hnew]
        exact Store.ne_last hmoved
      subst hs'
      exact h.move hX hcell hthere hmoved rfl hheld hheld
  | finish X op c squat hev hs' =>
    subst hs'
    obtain ⟨-, -, -, hlast, hlocks⟩ := finishOn_keeps op c squat s.stage.latest
    refine h.write hlast ?_ fun Y cell hunnoted => ?_
    · rw [hlocks]
      exact (releaseLock_get op s.stage.latest .pointer).imp id .inl
    · rw [hlocks]
      refine releaseLock_get_of_ne hunnoted.held ?_
      rw [hev.uid]
      rintro rfl
      exact hunnoted.not_concluded hinv hopen hev hnoted

theorem fresh (metadata : ObjectMeta) (spec : StageSpec) : Movers (Store.fresh metadata spec) := by
  have hmovers : (Store.fresh metadata spec).movers = [] := rfl
  refine ⟨List.nodup_nil, ?_, fun hne => absurd rfl hne, ?_⟩
  · intro X hX
    rw [hmovers]
    refine ⟨?_, fun hmem => by cases hmem⟩
    rintro ⟨st, hst, hlast⟩
    rw [status_of_mem_fresh hst] at hlast
    exact absurd hlast.symm hX
  · intro X hX
    cases hX

end Movers

end Pacto.Promoter
