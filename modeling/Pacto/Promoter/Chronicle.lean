import Pacto.Delivery.History
import Pacto.Promoter.Movers

/-!
# Records of a run read as they happened

Every conclusion is recorded with the pointer change its operation made, in the
order of the seqs.  `foldStream` takes a change that does not start where the
change before it ended for a move with no record.  It finds none as long as the
operations that moved the pointer conclude in the order they moved it, and the
Stage gets a pointer from nothing only once.
-/

namespace Pacto.Promoter

open Delivery Support

variable {r : Reconciler} {s s' : Store}
variable {st : Stage} {X : String} {old new : Operation}

namespace Store

/-- The writes that gave the Stage a version or named its mover. -/
def path (s : Store) : List (Stage × Stage) :=
  s.stage.writes.filter fun w => w.2.status.pointer ≠ "" &&
    (w.2.status.pointer ≠ w.1.status.pointer || w.2.status.lastOp ≠ w.1.status.lastOp)

/-- The moves to a version. -/
def ships (s : Store) : List (Stage × Stage) := s.moves.filter fun w => w.2.status.pointer ≠ ""

end Store

/-! ## What the runs are asked to avoid -/

/-- A Stage gets a pointer out of nothing, or from a level change, only if it
never had one. -/
def SeedsOnce (s s' : Store) : Prop :=
  s'.status.pointer ≠ "" → s'.status.pointer ≠ s.status.pointer →
    (s.status.pointer = "" ∨ s'.status.stream.seq ≠ s.status.stream.seq) →
      ∀ st ∈ s.stage.versions, st.status.pointer = ""

/-- An operation that shipped concludes only once those that shipped before it
did. -/
def Queued (s s' : Store) : Prop :=
  s.ships.Pairwise fun v w =>
    concludedOn s.status w.2.status.lastOp = none →
      concludedOn s'.status w.2.status.lastOp ≠ none →
        ∃ st ∈ s.stage.versions, ∃ e ∈ st.status.stream.concluded, e.uid = v.2.status.lastOp

instance (s s' : Store) : Decidable (SeedsOnce s s') := by
  unfold SeedsOnce
  infer_instance

instance (s s' : Store) : Decidable (Queued s s') := by
  unfold Queued
  infer_instance

/-! ## The pointer under the lock -/

/-- The pointer was at `d`, and it still is or was cleared. -/
def Store.Stands (s : Store) (d : String) : Prop :=
  (s.status.pointer = d ∨ s.status.pointer = "") ∧ ∃ st ∈ s.stage.versions, st.status.pointer = d

/-- While an operation holds the lock the pointer stands where the operation
found it, or where it put it. -/
def Waiting (s : Store) : Prop :=
  s.holder ≠ "" → ∃ cell, s.ops s.holder = some cell ∧
    (s.Moved s.holder → s.Stands cell.latest.spec.params.to) ∧
    (¬s.Moved s.holder → s.Stands cell.latest.spec.params.from)

theorem mem_write_of_mem {v : Stage} (h : v ∈ s.stage.versions) :
    v ∈ (s.setStage (s.stage.write st)).stage.versions := by
  have hgrows : Register.Grows s.stage (s.stage.write st) := .write _ _
  exact hgrows.mem h

theorem Store.Stands.write {d : String} (h : s.Stands d)
    (hpointer : st.status.pointer = s.status.pointer ∨ st.status.pointer = "") :
    (s.setStage (s.stage.write st)).Stands d := by
  obtain ⟨hnow, v, hv, hwas⟩ := h
  refine ⟨?_, v, mem_write_of_mem hv, hwas⟩
  rw [status_write]
  rcases hpointer with hsame | hempty
  · rw [hsame]
    exact hnow
  · exact .inr hempty

/-- A conclusion leaves the pointer alone or clears it while somebody is in the
lock. -/
theorem finishOn_pointer_of_held {op : Operation} {c : Conclusion} {squat : String}
    (hheld : (finishOn squat (op, c) st).2.status.locks.get .pointer ≠ "") :
    (finishOn squat (op, c) st).2.status.pointer = st.status.pointer ∨
      (finishOn squat (op, c) st).2.status.pointer = "" := by
  rcases finishOn_pointer op c squat st with ⟨hsame, -⟩ | ⟨-, htype, hsucceeded, t, htp, -, hp, -⟩
  · exact .inl hsame
  by_cases hobserve : Level.ofName op.spec.params.to = .observe
  · exact .inr (hp.trans (changeLevel_pointer_of_enter t op.spec hobserve))
  rcases changeLevel_pointer_of_not_enter t op.spec hobserve with hkept | ⟨o, -, hfrom, -⟩
  · exact .inl (hp.trans (hkept.trans htp))
  · have hrefusal := levelRefusal_of_settled htype hsucceeded
    have hlocks := (finishOn_keeps op c squat st).2.2.2.2
    rw [hlocks] at hheld
    exact absurd (holder_of_levelRefusal hrefusal ((from_of_levelRefusal hrefusal).symm.trans hfrom))
      hheld

namespace Waiting

/-- A write that moves nothing and at most releases the lock. -/
theorem write (h : Waiting s) (hlast : st.status.lastOp = s.status.lastOp)
    (hlock : st.status.locks.get .pointer = s.holder ∨ st.status.locks.get .pointer = "")
    (hpointer : st.status.locks.get .pointer ≠ "" →
      st.status.pointer = s.status.pointer ∨ st.status.pointer = "") :
    Waiting (s.setStage (s.stage.write st)) := by
  intro hne
  rw [holder_write] at hne ⊢
  have hpointer := hpointer hne
  have hsame := hlock.resolve_right hne
  rw [hsame] at hne ⊢
  obtain ⟨cell, hcell, hmoved, hunmoved⟩ := h hne
  rw [moved_write_of_eq hlast]
  exact ⟨cell, hcell, fun hm => (hmoved hm).write hpointer, fun hm => (hunmoved hm).write hpointer⟩

theorem step (h : Waiting s) (hstep : Step r s s') : Waiting s' := by
  cases hstep.stageStep with
  | quiet hversions =>
    intro hne
    rw [holder_congr hversions] at hne ⊢
    obtain ⟨cell, hcell, hstands⟩ := h hne
    obtain ⟨cell', hcell', hspec, -⟩ := hstep.cell hcell
    refine ⟨cell', hcell', ?_⟩
    rw [hspec, moved_congr hversions]
    simpa only [Store.Stands, status_congr hversions, hversions] using hstands
  | aside st hs' haside =>
    subst hs'
    exact h.write haside.lastOp (.inl (by rw [haside.locks]; rfl)) fun _ => .inl haside.pointer
  | lock X op hev hlock hs' =>
    subst hs'
    by_cases hfacet : op.spec.facet = .pointer
    · -- The operation that takes the lock has moved nothing yet.
      intro _
      obtain ⟨cell, hcell, -, hspec, -⟩ := hev.cell
      have hholder : (s.setStage (s.stage.write { s.stage.latest with
          status := { s.status with
            locks := s.status.locks.set op.spec.facet op.uid } })).holder = X := by
        rw [holder_write, ← hev.uid]
        exact hfacet ▸ Locks.get_set_self _ _ _
      rw [hholder]
      refine ⟨cell, hcell, fun hmoved => ?_, fun _ => ?_⟩
      · refine absurd ((moved_write_of_eq ?_ X).mp hmoved) hev.unmoved
        rfl
      · rw [← hspec, ← hlock.2]
        exact ⟨.inl (by rw [status_write]), _, mem_write_of_mem s.stage.latest_mem, rfl⟩
    · exact h.write rfl (.inl (Locks.get_set_of_ne _ _ (Ne.symm hfacet))) fun _ => .inl rfl
  | move X op hev hheld hs' =>
    intro _
    obtain ⟨cell, hcell, -, hspec, -⟩ := hev.cell
    have hholder : s'.holder = X := by
      rw [hs', holder_write]
      exact hheld
    rw [hholder, hs']
    refine ⟨cell, hcell, fun _ => ⟨.inl ?_, ?_⟩, fun hunmoved => absurd ?_ hunmoved⟩
    · rw [status_write, hspec]
    · refine ⟨(s.setStage (s.stage.write _)).stage.latest, Register.latest_mem _, ?_⟩
      exact (congrArg StageStatus.pointer (status_write s _)).trans (by rw [hspec])
    · rw [moved_write]
      exact .inr rfl
  | finish X op c squat hev hs' =>
    subst hs'
    obtain ⟨-, -, -, hlast, hlocks⟩ := finishOn_keeps op c squat s.stage.latest
    refine h.write hlast ?_ finishOn_pointer_of_held
    rw [hlocks]
    exact releaseLock_get op s.stage.latest .pointer

theorem fresh (metadata : ObjectMeta) (spec : StageSpec) : Waiting (Store.fresh metadata spec) :=
  fun hne => absurd rfl hne

end Waiting

/-! ## The path of the pointer -/

/-- The path of the pointer so far: it is connected, it consists of at most one
write out of nothing and the moves to a version, each from where its operation
starts to where it goes, and those whose operations concluded did in order. -/
structure Chronicle (s : Store) (seed : Option (Stage × Stage)) : Prop where
  connected : s.path.IsChain fun v w => v.2.status.pointer = w.1.status.pointer
  here : ∀ w ∈ s.path.getLast?, s.status.pointer = w.2.status.pointer ∨ s.status.pointer = ""
  begun : (∃ st ∈ s.stage.versions, st.status.pointer ≠ "") → s.path ≠ []
  parts : s.path = seed.toList ++ s.ships
  apart : ∀ w ∈ s.moves, w.2.status.stream.seq = w.1.status.stream.seq
  target : ∀ w ∈ s.moves, ∃ cell, s.ops w.2.status.lastOp = some cell ∧
    w.2.status.pointer = cell.latest.spec.params.to
  intended : ∀ w ∈ s.ships, ∃ cell, s.ops w.2.status.lastOp = some cell ∧
    w.1.status.pointer = cell.latest.spec.params.from ∧
    w.2.status.pointer = cell.latest.spec.params.to
  early : ∀ v ∈ seed, ∀ w ∈ s.ships, ∀ e, s.Given w.2.status.lastOp e →
    v.2.status.stream.seq < e.seq
  ordered : s.ships.Pairwise fun v w => ∀ e, s.Given w.2.status.lastOp e →
    ∃ e', s.Given v.2.status.lastOp e' ∧ e'.seq < e.seq

theorem path_write (s : Store) (st : Stage) :
    (s.setStage (s.stage.write st)).path =
      s.path ++ if st.status.pointer ≠ "" ∧
          (st.status.pointer ≠ s.status.pointer ∨ st.status.lastOp ≠ s.status.lastOp) then
        [(s.stage.latest, Resource.withVersion s.stage.versions.length st)] else [] := by
  have hstatus : (Resource.withVersion s.stage.versions.length st : Stage).status = st.status := rfl
  simp only [Store.path, writes_setStage, List.filter_append, List.filter_singleton, hstatus,
    Bool.cond_eq_ite, Bool.and_eq_true, Bool.or_eq_true, decide_eq_true_eq]
  rfl

theorem ships_write (s : Store) (st : Stage) :
    (s.setStage (s.stage.write st)).ships =
      s.ships ++ if st.status.pointer ≠ "" ∧ st.status.lastOp ≠ s.status.lastOp then
        [(s.stage.latest, Resource.withVersion s.stage.versions.length st)] else [] := by
  have hstatus : (Resource.withVersion s.stage.versions.length st : Stage).status = st.status := rfl
  by_cases hlast : st.status.lastOp = s.status.lastOp
  · simp [Store.ships, moves_write_of_eq s st hlast, hlast]
  · rw [Store.ships, moves_write_of_ne s st hlast, List.filter_append, List.filter_singleton, hstatus]
    simp [Store.ships, hlast]

theorem mem_versions_of_mem_writes {w : Stage × Stage} (h : w ∈ s.stage.writes) :
    w.1 ∈ s.stage.versions ∧ w.2 ∈ s.stage.versions := by
  obtain ⟨hfst, hsnd⟩ := List.of_mem_zip h
  exact ⟨hfst, List.mem_of_mem_tail hsnd⟩

theorem mem_writes_of_mem_path {w : Stage × Stage} (h : w ∈ s.path) :
    w ∈ s.stage.writes ∧ w.2.status.pointer ≠ "" := by
  have hmem := List.mem_filter.mp h
  simp only [Bool.and_eq_true, decide_eq_true_eq] at hmem
  exact ⟨hmem.1, hmem.2.1⟩

theorem path_eq_nil (h : ∀ st ∈ s.stage.versions, st.status.pointer = "") : s.path = [] := by
  refine List.eq_nil_iff_forall_not_mem.mpr fun w hw => ?_
  obtain ⟨hwrite, hne⟩ := mem_writes_of_mem_path hw
  exact hne (h w.2 (mem_versions_of_mem_writes hwrite).2)

theorem path_congr (h : s'.stage.versions = s.stage.versions) :
    s'.path = s.path ∧ s'.ships = s.ships := by
  simp only [Store.path, Store.ships, writes_congr h, moves_congr h, and_self]

namespace Chronicle

variable {seed : Option (Stage × Stage)}

/-- A step that leaves the Stage alone. -/
theorem congr (h : Chronicle s seed) (hstep : Step r s s')
    (hversions : s'.stage.versions = s.stage.versions) : Chronicle s' seed := by
  obtain ⟨hpath, hships⟩ := path_congr hversions
  refine ⟨?_, ?_, ?_, ?_, ?_, ?_, ?_, ?_, ?_⟩
  · rw [hpath]
    exact h.connected
  · rw [hpath, status_congr hversions]
    exact h.here
  · rw [hpath, hversions]
    exact h.begun
  · rw [hpath, hships]
    exact h.parts
  · rw [moves_congr hversions]
    exact h.apart
  · rw [moves_congr hversions]
    exact fun w hw => hstep.intent (P := fun spec => w.2.status.pointer = spec.params.to)
      (h.target w hw)
  · rw [hships]
    exact fun w hw => hstep.intent (P := fun spec => w.1.status.pointer = spec.params.from ∧
      w.2.status.pointer = spec.params.to) (h.intended w hw)
  · rw [hships]
    intro v hv w hw e he
    exact h.early v hv w hw e ((given_congr hversions _ _).mp he)
  · rw [hships]
    refine h.ordered.imp fun {v w} hvw e he => ?_
    obtain ⟨e', he', hlt⟩ := hvw e ((given_congr hversions _ _).mp he)
    exact ⟨e', (given_congr hversions _ _).mpr he', hlt⟩

/-- A write that neither moves the pointer to a version nor concludes an
operation out of order. -/
theorem write (h : Chronicle s seed) (hlast : st.status.lastOp = s.status.lastOp)
    (hpointer : st.status.pointer = s.status.pointer ∨ st.status.pointer = "")
    (hnew : ∀ X e, (s.setStage (s.stage.write st)).Given X e → s.Given X e ∨
      ((∀ v ∈ s.stage.versions, v.status.stream.seq < e.seq) ∧
        s.ships.Pairwise fun v w => w.2.status.lastOp = X →
          ∃ e', s.Given v.2.status.lastOp e' ∧ e'.seq < e.seq)) :
    Chronicle (s.setStage (s.stage.write st)) seed := by
  have hgrow : ∀ X e, s.Given X e → (s.setStage (s.stage.write st)).Given X e := by
    intro X e he
    rw [given_write]
    exact .inl he
  have hpath : (s.setStage (s.stage.write st)).path = s.path := by
    rw [path_write, if_neg, List.append_nil]
    rintro ⟨hne, hchange | hchange⟩
    · exact hchange (hpointer.resolve_right hne)
    · exact hchange hlast
  have hships : (s.setStage (s.stage.write st)).ships = s.ships := by
    rw [ships_write, if_neg (fun hship => hship.2 hlast), List.append_nil]
  refine ⟨?_, ?_, ?_, ?_, ?_, ?_, ?_, ?_, ?_⟩
  · rw [hpath]
    exact h.connected
  · rw [hpath, status_write]
    intro w hw
    rcases hpointer with hsame | hempty
    · rw [hsame]
      exact h.here w hw
    · exact .inr hempty
  · rw [hpath]
    rintro ⟨v, hv, hne⟩
    rcases mem_versions_setStage_write hv with hold | rfl
    · exact h.begun ⟨v, hold, hne⟩
    · have hsame : st.status.pointer = s.stage.latest.status.pointer := hpointer.resolve_right hne
      exact h.begun ⟨s.stage.latest, s.stage.latest_mem, by rw [← hsame]; exact hne⟩
  · rw [hpath, hships]
    exact h.parts
  · rw [moves_write_of_eq s st hlast]
    exact h.apart
  · rw [moves_write_of_eq s st hlast]
    exact h.target
  · rw [hships]
    exact h.intended
  · rw [hships]
    intro v hv w hw e he
    rcases hnew _ e he with hold | ⟨hlater, -⟩
    · exact h.early v hv w hw e hold
    · refine hlater v.2 ?_
      have hmem : v ∈ s.path := by
        rw [h.parts]
        exact List.mem_append_left _ (by simpa using hv)
      exact (mem_versions_of_mem_writes (mem_writes_of_mem_path hmem).1).2
  · rw [hships]
    rw [List.pairwise_iff_getElem]
    intro i j hi hj hij e he
    have hboth : ∃ e', s.Given (s.ships[i]).2.status.lastOp e' ∧ e'.seq < e.seq := by
      rcases hnew _ e he with hold | ⟨-, hqueue⟩
      · exact List.pairwise_iff_getElem.mp h.ordered i j hi hj hij e hold
      · exact List.pairwise_iff_getElem.mp hqueue i j hi hj hij rfl
    obtain ⟨e', he', hlt⟩ := hboth
    exact ⟨e', hgrow _ e' he', hlt⟩

theorem seeded (h : Chronicle s seed)
    (hbefore : ∀ v ∈ s.stage.versions, v.status.pointer = "")
    (hlast : st.status.lastOp = s.status.lastOp) (hpointer : st.status.pointer ≠ "") :
    ∃ seed, Chronicle (s.setStage (s.stage.write st)) seed := by
  have hnone : s.path = [] := path_eq_nil hbefore
  have hempty : s.ships = [] := by
    have hparts := h.parts
    rw [hnone] at hparts
    exact (List.append_eq_nil_iff.mp hparts.symm).2
  have hne : st.status.pointer ≠ s.status.pointer := by
    rw [show s.status.pointer = "" from hbefore _ s.stage.latest_mem]
    exact hpointer
  have hpath : (s.setStage (s.stage.write st)).path =
      [(s.stage.latest, Resource.withVersion s.stage.versions.length st)] := by
    rw [path_write, if_pos ⟨hpointer, .inl hne⟩, hnone, List.nil_append]
  have hships : (s.setStage (s.stage.write st)).ships = [] := by
    rw [ships_write, if_neg (fun hship => hship.2 hlast), hempty, List.append_nil]
  refine ⟨some (s.stage.latest, Resource.withVersion s.stage.versions.length st),
    ?_, ?_, ?_, ?_, ?_, ?_, ?_, ?_, ?_⟩
  · rw [hpath]
    exact List.isChain_singleton _
  · rw [hpath, status_write]
    intro w hw
    obtain rfl : (s.stage.latest, Resource.withVersion s.stage.versions.length st) = w := by
      simpa using hw
    exact .inl rfl
  · rw [hpath]
    exact fun _ => List.cons_ne_nil _ _
  · rw [hpath, hships]
    rfl
  · rw [moves_write_of_eq s st hlast]
    exact h.apart
  · rw [moves_write_of_eq s st hlast]
    exact h.target
  · rw [hships]
    exact fun w hw => absurd hw List.not_mem_nil
  · rw [hships]
    exact fun v _ w hw => absurd hw List.not_mem_nil
  · rw [hships]
    exact List.Pairwise.nil

/-- A new move, by an operation that is not concluded. -/
theorem move (h : Chronicle s seed) {cell : Cell}
    (hlast : st.status.lastOp = X) (hne : X ≠ s.status.lastOp) (hcell : s.ops X = some cell)
    (hstream : st.status.stream = s.status.stream) (hopen : ∀ e, ¬s.Given X e)
    (hto : st.status.pointer = cell.latest.spec.params.to)
    (hfrom : st.status.pointer ≠ "" → s.status.pointer = cell.latest.spec.params.from)
    (hconnects : st.status.pointer ≠ "" → s.status.pointer = "" →
      ∀ v ∈ s.stage.versions, v.status.pointer = "") :
    Chronicle (s.setStage (s.stage.write st)) seed := by
  set new : Stage × Stage := (s.stage.latest, Resource.withVersion s.stage.versions.length st)
  have hchange : st.status.lastOp ≠ s.status.lastOp := by
    rw [hlast]
    exact hne
  have hgiven := given_write_of_eq (congrArg Stream.concluded hstream)
  have hmoves := moves_write_of_ne s st hchange
  have hpath : (s.setStage (s.stage.write st)).path =
      s.path ++ if st.status.pointer ≠ "" then [new] else [] := by
    rw [path_write]
    simp only [hchange, ne_eq, not_false_eq_true, or_true, and_true]
    rfl
  have hships : (s.setStage (s.stage.write st)).ships =
      s.ships ++ if st.status.pointer ≠ "" then [new] else [] := by
    rw [ships_write]
    simp only [hchange, ne_eq, not_false_eq_true, and_true]
    rfl
  have hlatest : ∀ w ∈ s.path.getLast?, st.status.pointer ≠ "" →
      w.2.status.pointer = s.status.pointer := by
    intro w hw hpointer
    rcases h.here w hw with hhere | hcleared
    · exact hhere.symm
    · have hmem := List.mem_of_getLast? hw
      rw [path_eq_nil (hconnects hpointer hcleared)] at hmem
      exact absurd hmem List.not_mem_nil
  have hmem : ∀ w ∈ (s.setStage (s.stage.write st)).ships,
      w ∈ s.ships ∨ (w = new ∧ st.status.pointer ≠ "") := by
    intro w hw
    rw [hships, List.mem_append] at hw
    refine hw.imp id fun hnew => ?_
    split at hnew
    · exact ⟨List.mem_singleton.mp hnew, ‹_›⟩
    · exact absurd hnew List.not_mem_nil
  refine ⟨?_, ?_, ?_, ?_, ?_, ?_, ?_, ?_, ?_⟩
  · rw [hpath]
    refine h.connected.append (by split <;> simp) fun v hv w hw => ?_
    split at hw
    · obtain rfl : new = w := by simpa using hw
      exact hlatest v hv ‹_›
    · simp at hw
  · rw [hpath, status_write]
    intro w hw
    split at hw
    · obtain rfl : new = w := by simpa using hw
      exact .inl rfl
    · exact .inr (not_not.mp ‹_›)
  · rw [hpath]
    rintro ⟨v, hv, hpointer⟩
    rcases mem_versions_setStage_write hv with hold | rfl
    · simp [h.begun ⟨v, hold, hpointer⟩]
    · simp [show st.status.pointer ≠ "" from hpointer]
  · rw [hpath, hships, h.parts, List.append_assoc]
  · rw [hmoves]
    intro w hw
    rw [List.mem_append, List.mem_singleton] at hw
    rcases hw with hold | rfl
    · exact h.apart w hold
    · exact congrArg Stream.seq hstream
  · rw [hmoves]
    intro w hw
    rw [List.mem_append, List.mem_singleton] at hw
    rcases hw with hold | rfl
    · exact h.target w hold
    · exact ⟨cell, by rw [← hcell, ← hlast]; rfl, hto⟩
  · intro w hw
    rcases hmem w hw with hold | ⟨rfl, hpointer⟩
    · exact h.intended w hold
    · exact ⟨cell, by rw [← hcell, ← hlast]; rfl, hfrom hpointer, hto⟩
  · intro v hv w hw e he
    rw [hgiven] at he
    rcases hmem w hw with hold | ⟨rfl, -⟩
    · exact h.early v hv w hold e he
    · exact absurd (hlast ▸ he) (hopen e)
  · rw [hships]
    refine List.pairwise_append.mpr ⟨?_, by split <;> simp, fun v hv w hw e he => ?_⟩
    · refine h.ordered.imp fun {v w} hvw e he => ?_
      obtain ⟨e', he', hlt⟩ := hvw e ((hgiven _ _).mp he)
      exact ⟨e', (hgiven _ _).mpr he', hlt⟩
    · split at hw
      · obtain rfl := List.mem_singleton.mp hw
        exact absurd (hlast ▸ (hgiven _ _).mp he) (hopen e)
      · exact absurd hw List.not_mem_nil

/-- The pointer under an operation that moves it to a version is where the
operation starts, or where it went before. -/
theorem stands_of_seedsOnce {d to' : String} (hstands : s.Stands d) (hseeds : SeedsOnce s s')
    (hto : s'.status.pointer = to') (hne : to' ≠ "") : s.status.pointer = d := by
  obtain ⟨hnow | hcleared, v, hv, hd⟩ := hstands
  · exact hnow
  · have hall := hseeds (by rw [hto]; exact hne) (by rw [hto, hcleared]; exact hne) (.inl hcleared)
    rw [hcleared, ← hd, hall v hv]

theorem step {log : List Concluded} (hinv : Inv r s) (h : Chronicle s seed) (hledger : Ledger s log)
    (hopen : HolderOpen s) (hmovers : Movers s) (hwaiting : Waiting s) (hseeds : SeedsOnce s s')
    (hqueued : Queued s s') (hstep : Step r s s') : ∃ seed, Chronicle s' seed := by
  cases hstep.stageStep with
  | quiet hversions => exact ⟨seed, h.congr hstep hversions⟩
  | aside st hs' haside =>
    subst hs'
    exact ⟨seed, h.write haside.lastOp (.inl haside.pointer) fun X e he =>
      .inl ((given_write_of_eq haside.concluded X e).mp he)⟩
  | lock X op hev hlock hs' =>
    subst hs'
    exact ⟨seed, h.write rfl (.inl rfl) fun X e he => .inl ((given_write_of_eq (by rfl) X e).mp he)⟩
  | move X op hev hheld hs' =>
    obtain ⟨cell, hcell, -, hspec, -⟩ := hev.cell
    have hX := hinv.ne_empty hcell
    have hholder : s.holder = X := hheld
    obtain ⟨cell', hcell', hmovedTo, hunmovedFrom⟩ := hwaiting (by rw [hholder]; exact hX)
    rw [hholder] at hcell' hmovedTo hunmovedFrom
    cases hcell.symm.trans hcell'
    have hto : s'.status.pointer = cell.latest.spec.params.to := by rw [hs', status_write, hspec]
    refine ⟨seed, ?_⟩
    by_cases hmoved : s.Moved X
    · -- The move was made before and its status write lost.
      have hlast := hmovers.last_of_held hX hholder hmoved
      have hpointer : op.spec.params.to = s.status.pointer ∨ op.spec.params.to = "" := by
        by_cases hempty : op.spec.params.to = ""
        · exact .inr hempty
        · rw [hspec] at hempty ⊢
          exact .inl (stands_of_seedsOnce (hmovedTo hmoved) hseeds hto hempty).symm
      subst hs'
      exact h.write hlast.symm hpointer fun X e he => .inl ((given_write_of_eq (by rfl) X e).mp he)
    · have hfrom : s'.status.pointer ≠ "" → s.status.pointer = cell.latest.spec.params.from :=
        fun hpointer => stands_of_seedsOnce (hunmovedFrom hmoved) hseeds rfl hpointer
      have hconnects : s'.status.pointer ≠ "" → s.status.pointer = "" →
          ∀ v ∈ s.stage.versions, v.status.pointer = "" :=
        fun hpointer hempty => hseeds hpointer (by rw [hempty]; exact hpointer) (.inl hempty)
      subst hs'
      rw [status_write] at hto hfrom hconnects
      exact h.move rfl (Store.ne_last hmoved) hcell rfl (hopen.holding hinv hcell hholder).isOpen hto
        hfrom hconnects
  | finish X op c squat hev hs' =>
    have hlast := (finishOn_keeps op c squat s.stage.latest).2.2.2.1
    have hpointer' : s'.status.pointer = (finishOn squat (op, c) s.stage.latest).2.status.pointer := by
      rw [hs', status_write]
    by_cases hplain : s'.status.pointer = s.status.pointer ∨ s'.status.pointer = ""
    · refine ⟨seed, ?_⟩
      rw [hs']
      rw [hpointer'] at hplain
      refine h.write hlast hplain fun Y e he => ?_
      rw [← hs'] at he
      rcases hstep.stageStep.given he with hold | ⟨op', c', -, hev', hnone, rfl, -⟩
      · exact .inl hold
      have hlatest : concludedOn s'.status Y ≠ none := by
        intro hnone'
        rw [hs', given_write] at he
        rcases he with hold | ⟨huid, hmem⟩
        · have hle := (hledger.seq_le_of_given hold).2
          simp only [concludedEntry] at hle
          omega
        · rw [hs', status_write] at hnone'
          exact concludedOn_eq_none hnone' hmem huid
      refine .inr ⟨fun v hv => ?_, hqueued.imp fun {v w} hvw hw => ?_⟩
      · have hle := hledger.seq_le hv
        simp only [concludedEntry]
        omega
      · rw [hw] at hvw
        obtain ⟨st, hst, e', hmem, huid⟩ := hvw hnone hlatest
        have hgiven : s.Given v.2.status.lastOp e' := ⟨huid, st, hst, hmem⟩
        have hle := (hledger.seq_le_of_given hgiven).2
        refine ⟨e', hgiven, ?_⟩
        simp only [concludedEntry]
        omega
    · -- A level change gave the Stage a version: it never had one.
      rw [not_or] at hplain
      have hseq : s'.status.stream.seq ≠ s.status.stream.seq := by
        rcases finishOn_pointer op c squat s.stage.latest with ⟨hkept, -⟩ | ⟨hnone, -⟩
        · exact absurd (hpointer'.trans hkept) hplain.1
        · rw [hs', status_write, finishOn_stream_of_open c squat hnone]
          change s.status.stream.seq + 1 ≠ s.status.stream.seq
          omega
      have hbefore := hseeds hplain.2 hplain.1 (.inr hseq)
      rw [hpointer'] at hplain
      rw [hs']
      exact h.seeded hbefore hlast hplain.2

theorem fresh (metadata : ObjectMeta) (spec : StageSpec) :
    Chronicle (Store.fresh metadata spec) none := by
  have hpath : (Store.fresh metadata spec).path = [] := rfl
  have hships : (Store.fresh metadata spec).ships = [] := rfl
  refine ⟨?_, ?_, ?_, ?_, ?_, ?_, ?_, ?_, ?_⟩
  · rw [hpath]
    exact List.isChain_nil
  · rw [hpath]
    simp
  · rintro ⟨st, hst, hne⟩
    rw [status_of_mem_fresh hst] at hne
    exact absurd rfl hne
  · rw [hpath, hships]
    rfl
  · exact fun w hw => absurd hw List.not_mem_nil
  · exact fun w hw => absurd hw List.not_mem_nil
  · exact fun w hw => absurd hw List.not_mem_nil
  · exact fun v hv => by cases hv
  · exact List.Pairwise.nil

end Chronicle

/-! ## What an operation says it moved -/

/-- The pointer change in an operation's status: its own move, or the write in
which a level change concluded. -/
structure PointedAt (s : Store) (op : Operation) : Prop where
  plain : op.spec.type ≠ .autonomy → op.status.pointer =
    if op.status.applied then { before := op.spec.params.from, after := op.spec.params.to } else {}
  level : op.spec.type = .autonomy → op.status.pointer.after = "" ∨
    (op.status.phase = .concluded ∧ ∃ w ∈ s.stage.writes,
      w.1.status.pointer ≠ w.2.status.pointer ∧ w.2.status.stream.seq = op.status.seq ∧
      w.1.status.stream.seq + 1 = op.status.seq ∧
      op.status.pointer = { before := w.1.status.pointer, after := w.2.status.pointer })

theorem PointedAt.mono {op : Operation} (h : PointedAt s op) (hevolves : Evolves s s') :
    PointedAt s' op := by
  refine ⟨h.plain, fun htype => (h.level htype).imp id ?_⟩
  rintro ⟨hphase, w, hw, hrest⟩
  exact ⟨hphase, w, hevolves.stage.mem_writes hw, hrest⟩

/-- What an operation says is decided by its status and its progress. -/
theorem PointedAt.of_status (h : PointedAt s old)
    (hspec : new.spec = old.spec) (hstatus : new.status = old.status) : PointedAt s new := by
  refine ⟨?_, ?_⟩
  · rw [hspec, hstatus]
    exact h.plain
  · rw [hspec, hstatus]
    exact h.level

/-- A step that neither applies the operation nor concludes it. -/
theorem PointedAt.of_progress (h : PointedAt s old)
    (hlive : old.status.phase ≠ .concluded) (hspec : new.spec = old.spec)
    (happlied : new.status.applied = old.status.applied)
    (hpointer : new.status.pointer = old.status.pointer) : PointedAt s new := by
  refine ⟨?_, fun htype => .inl ?_⟩
  · rw [hspec, happlied, hpointer]
    exact h.plain
  · rw [hpointer]
    exact (h.level (hspec ▸ htype)).resolve_right fun hconcluded => hlive hconcluded.1

theorem StatusStep.pointedAt (h : StatusStep X s old new)
    (hold : PointedAt s old) (hstarted : old.status.phase = .running → old.spec.type ≠ .autonomy)
    (hkept : ∀ e, s.Given X e → ¬s.Dropped e) : PointedAt s new := by
  have hsame : ∀ phase, new.progress = { old.progress with phase := phase } →
      PointedAt s new := fun phase hprogress =>
    hold.of_progress h.live (congrArg Progress.spec hprogress)
      (congrArg Progress.applied hprogress) (congrArg Progress.pointer hprogress)
  cases h with
  | keep hlive hprogress => exact hsame old.status.phase hprogress
  | admitted _ hprogress => exact hsame _ hprogress
  | hold _ _ hprogress => exact hsame _ hprogress
  | run _ _ hprogress => exact hsame _ hprogress
  | verify _ _ hprogress => exact hsame _ hprogress
  | ask _ _ hprogress => exact hsame _ hprogress
  | apply hrunning hunapplied hprogress hmoved =>
    have hspec : new.spec = old.spec := congrArg Progress.spec hprogress
    have happlied : new.status.applied = true := congrArg Progress.applied hprogress
    have hpointer : new.status.pointer = _ := congrArg Progress.pointer hprogress
    refine ⟨fun _ => ?_, fun htype => absurd (hspec ▸ htype) (hstarted hrunning)⟩
    rw [hpointer, happlied, hspec]
    rfl
  | conclude hlive hgiven hphase hmetadata hspec happlied hseq houtcome hpointer =>
    rcases hpointer with hpointer | ⟨htype, hempty | hdropped | ⟨i, a, b, ha, hb, hne, hb', ha', hp⟩⟩
    · exact hold.of_progress hlive hspec happlied hpointer
    · exact ⟨fun hne => absurd (hspec ▸ htype) hne, fun _ => .inl hempty⟩
    · exact absurd hdropped (hkept _ hgiven)
    · refine ⟨fun hne => absurd (hspec ▸ htype) hne, fun _ => .inr ⟨hphase, (a, b), ?_, hne, ?_⟩⟩
      · exact Register.mem_writes_iff.mpr ⟨i, ha, hb⟩
      · exact ⟨by rw [hseq]; exact hb', by rw [hseq]; exact ha', hp⟩

/-- What every operation says it moved is so. -/
def Pointed (s : Store) : Prop := ∀ X cell, s.ops X = some cell → PointedAt s cell.latest

/-- While the Stage has not given `maxConcluded` seqs since a conclusion, it
remembers it. -/
theorem Ledger.not_dropped {log : List Concluded} (h : Ledger s log) {e : Concluded}
    (he : s.Given X e) (hlt : s.status.stream.seq < e.seq + maxConcluded) : ¬s.Dropped e := by
  rintro ⟨a, ha, b, hb, hle, hmem, hnot⟩
  have hlog := (h.mem_of_given he).1
  have ha' : e.seq ≤ a.status.stream.seq := by
    obtain ⟨i, hi⟩ := List.mem_iff_getElem?.mp hmem
    have hlength := (List.getElem?_eq_some_iff.mp hi).1
    rw [h.window_seq ha hi]
    omega
  have hab := h.ordered a ha b hb hle
  have hbs := h.seq_le hb
  exact hnot (h.mem_window hb hlog (by omega) (by omega))

theorem Pointed.step {log : List Concluded} (hinv : Inv r s) (h : Pointed s)
    (hledger : Ledger s log) (htimely : Timely s s') (hstep : Step r s s') : Pointed s' := by
  intro X cell' hcell'
  refine PointedAt.mono ?_ hstep.evolves
  cases hstep.opStep X with
  | absent _ hnone =>
    rw [hnone] at hcell'
    cases hcell'
  | created cell _ hnew hstatus =>
    cases hnew.symm.trans hcell'
    exact ⟨fun _ => by rw [hstatus]; rfl, fun _ => .inl (by rw [hstatus])⟩
  | kept cell new hcell hnew hversions =>
    cases hnew.symm.trans hcell'
    rw [Cell.latest_congr hversions]
    exact h X cell hcell
  | touched cell new hcell hnew _ _ _ hprogress hstatus =>
    cases hnew.symm.trans hcell'
    exact (h X cell hcell).of_status (congrArg Progress.spec hprogress) hstatus
  | saved cell new hcell hnew _ _ _ _ hsaved hstage =>
    cases hnew.symm.trans hcell'
    have hversion := (hinv.cells X cell hcell).version _ cell.register.latest_mem
    refine hsaved.pointedAt (h X cell hcell) (fun hrunning => hversion.started (.inl hrunning))
      fun e he => hledger.not_dropped he ?_
    obtain ⟨rfl, st, hst, hmem⟩ := he
    have hlt := htimely st hst e hmem cell hcell hsaved.live
    rw [Store.status, hstage] at hlt
    exact hlt

theorem Pointed.fresh (metadata : ObjectMeta) (spec : StageSpec) :
    Pointed (Store.fresh metadata spec) := by
  intro X cell hcell
  cases hcell

end Pacto.Promoter
