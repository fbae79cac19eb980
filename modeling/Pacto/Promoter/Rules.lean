import Pacto.Promoter.Invariant

/-!
# Rules for the requests of a reconcile

Between two of its requests a reconcile of `X` finds the store as others left
it, so each rule hands the rest of the reconcile a store framed by the one
before.  A write has to be one of the moves.
-/

namespace Pacto.Promoter

open Delivery Support

/-- What a reconcile of `X` relies on and guarantees. -/
abbrev Reconciler.contract (r : Reconciler) (X : String) : Prog.Contract api :=
  r.system.contract (Move r) (Inv r) X

/-- A contract for reconciles of `X`: the others keep its frame and all of them
the invariant, and its reads need no account. -/
class Framed (C : Prog.Contract api) (r : outParam Reconciler) (X : outParam String) : Prop where
  frame : ∀ {s s' : Store}, C.rely s s' → Frame X s s'
  invariant : ∀ {s : Store}, C.invariant s ↔ Inv r s
  idle : ∀ s : Store, C.guarantee s s
  read : ∀ s : Store,
    C.guarantee s { s with reads := Function.update s.reads X s.startingStage.resourceVersion }

instance (r : Reconciler) (X : String) : Framed (r.contract X) r X where
  frame := frame_of_rely
  invariant := Iff.rfl
  idle := fun _ => Move.idle
  read := fun _ => Move.read

variable {r : Reconciler} {X : String} {s : Store} {α β : Type} {post : β → Store → Prop}
  {C : Prog.Contract api} [hC : Framed C r X]

theorem safe_pure {b : β} (h : ∀ s', Frame X s s' → Inv r s' → post b s') :
    (pure b : Reconcile β).Safe C post s :=
  Prog.safe_ret fun s' hs' hinv' => h s' (Framed.frame hs') (Framed.invariant.mp hinv')

include hC in
theorem safe_seq {m : Reconcile α} {f : α → Reconcile β} {mid : α → Store → Prop} (hinv : Inv r s)
    (hm : m.Safe C mid s) (hf : ∀ a s', Inv r s' → mid a s' → (f a).Safe C post s') :
    (m >>= f).Safe C post s :=
  Prog.Safe.seq (Framed.invariant.mpr hinv) hm fun a s' hinv' =>
    hf a s' (Framed.invariant.mp hinv')

/-! ## Reads -/

include hC in
theorem safe_reads {m : Reconcile α} {f : α → Reconcile β} {P : α → Prop} (hm : m.Reads P)
    (h : ∀ a, P a → (f a).Safe C post s) : (m >>= f).Safe C post s :=
  hm.safe Framed.idle h

theorem reads_ask {q : Query} {P : q.Answer → Prop} (h : ∀ o : Oracle, P (o.answer q)) :
    (ask q).Reads P :=
  ⟨fun _ _ => rfl, fun o s => h (s.visible o)⟩

include hC in
theorem safe_ask {q : Query} {f : q.Answer → Reconcile β} (h : ∀ a, (f a).Safe C post s) :
    (ask q >>= f).Safe C post s :=
  safe_reads (P := fun _ => True) (reads_ask fun _ => trivial) fun a _ => h a

theorem reads_orStop {a : Option α} {P : α → Prop} (h : ∀ x, a = some x → P x) :
    (orStop a).Reads P := by
  cases a with
  | none => exact Prog.reads_stop
  | some x => exact h x rfl

theorem reads_now : now.Reads fun _ => True := reads_ask fun _ => trivial

theorem reads_listOps : listOps.Reads fun _ => True :=
  Prog.reads_call (fun _ _ => rfl) fun _ _ => reads_orStop fun _ _ => trivial

theorem safe_orStop {a : Option α} {f : α → Reconcile β}
    (h : ∀ x, a = some x → (f x).Safe C post s) : (orStop a >>= f).Safe C post s := by
  cases a with
  | none => exact Prog.safe_stop
  | some x => exact h x rfl

/-- A read that may fail. -/
theorem safe_reading {o : Oracle} {a : Option α} {f : Option α → Reconcile β}
    (hnone : (f none).Safe C post s) (h : (f a).Safe C post s) :
    (f (Store.reading o a)).Safe C post s := by
  rw [Store.reading]
  split
  · exact hnone
  · exact h

include hC in
theorem safe_readOp {uid : String} {f : Option Operation → Reconcile β}
    (hnone : ∀ s₁, (f none).Safe C post s₁)
    (h : ∀ s₁ cell op, Inv r s₁ → s₁.ops uid = some cell → cell.cached = some op →
      (f (some op)).Safe C post s₁) :
    (Prog.perform (I := api) (.readOp uid) >>= f).Safe C post s := by
  refine Prog.safe_read (I := api) (c := Call.readOp uid) (f := f) (fun _ _ => rfl)
    Framed.idle fun s₁ _ hinv₁ o => ?_
  refine safe_reading (hnone s₁) ?_
  cases hfound : (s₁.ops uid).bind Cell.cached with
  | none => exact hnone s₁
  | some op =>
    obtain ⟨cell, hcell, hcached⟩ := Option.bind_eq_some_iff.mp hfound
    exact h s₁ cell op (Framed.invariant.mp hinv₁) hcell hcached

abbrev Store.started (s : Store) (X : String) : Store :=
  { s with reads := Function.update s.reads X s.startingStage.resourceVersion }

theorem safe_readStage {f : Option Stage → Reconcile β}
    (hnone : ∀ s₁, (f none).Safe C post s₁)
    (h : ∀ s₁, Frame X s s₁ → Inv r s₁ → Inv r (s₁.started X) →
      (f (some s₁.startingStage)).Safe C post (s₁.started X)) :
    (Prog.perform (I := api) (.readStage X) >>= f).Safe C post s := by
  refine Prog.safe_call (I := api) (c := Call.readStage X) (f := f) fun s₁ hs₁ hinv₁ o =>
    ⟨Framed.read s₁, fun hinv₂ => ?_⟩
  exact safe_reading (hnone _)
    (h s₁ (Framed.frame hs₁) (Framed.invariant.mp hinv₁) (Framed.invariant.mp hinv₂))

theorem safe_listOps {f : List Operation → Reconcile β}
    (h : ∀ s₁, Frame X s s₁ → Inv r s₁ → (f s₁.listed).Safe C post s₁) :
    (listOps >>= f).Safe C post s := by
  refine Prog.safe_read (I := api) (c := Call.listOps) (f := fun reply => orStop reply >>= f)
    (fun _ _ => rfl) Framed.idle fun s₁ hs₁ hinv₁ o => ?_
  exact safe_reading (f := fun reply => orStop reply >>= f) Prog.safe_stop
    (h s₁ (Framed.frame hs₁) (Framed.invariant.mp hinv₁))

theorem safe_getStage {f : Option Stage → Reconcile β}
    (hnone : ∀ s₁, Frame X s s₁ → Inv r s₁ → (f none).Safe C post s₁)
    (h : ∀ s₁, Frame X s s₁ → Inv r s₁ → (f (some s₁.stage.latest)).Safe C post s₁) :
    (Prog.perform (I := api) .getStage >>= f).Safe C post s := by
  refine Prog.safe_read (I := api) (c := Call.getStage) (f := f) (fun _ _ => rfl) Framed.idle
    fun s₁ hs₁ hinv₁ o => ?_
  have hframe := Framed.frame hs₁
  have hinv := Framed.invariant.mp hinv₁
  exact safe_reading (hnone s₁ hframe hinv) (h s₁ hframe hinv)

theorem safe_getStage_orStop {f : Stage → Reconcile β}
    (h : ∀ s₁, Frame X s s₁ → Inv r s₁ → (f s₁.stage.latest).Safe C post s₁) :
    (getStage >>= f).Safe C post s :=
  safe_getStage (f := fun reply => orStop reply >>= f) (fun _ _ _ => Prog.safe_stop) h

theorem safe_getOp {uid : String} {f : Operation → Reconcile β}
    (h : ∀ s₁ cell, Frame X s s₁ → Inv r s₁ → s₁.ops uid = some cell →
      (f cell.latest).Safe C post s₁) :
    (getOp uid >>= f).Safe C post s := by
  refine Prog.safe_read (I := api) (c := Call.getOp uid) (f := fun reply => orStop reply >>= f)
    (fun _ _ => rfl) Framed.idle fun s₁ hs₁ hinv₁ o => ?_
  refine safe_reading (f := fun reply => orStop reply >>= f) Prog.safe_stop ?_
  cases hcell : s₁.ops uid with
  | none => exact Prog.safe_stop
  | some cell =>
    by_cases hgone : cell.gone = true
    · simp only [Option.bind_some, if_pos hgone]
      exact Prog.safe_stop
    · simp only [Option.bind_some, if_neg hgone]
      exact h s₁ cell (Framed.frame hs₁) (Framed.invariant.mp hinv₁) hcell

/-! ## Writes of the operation -/

theorem updateOp_cases (s : Store) (o : Oracle) (op : Operation) :
    s.updateOp o op = (s, .error .other) ∨ s.updateOp o op = (s, .error .conflict) ∨
      ∃ cell, s.ops op.uid = some cell ∧ cell.gone = false ∧
        op.resourceVersion = cell.latest.resourceVersion ∧
        (s.updateOp o op).1 = s.setCell op.uid { cell with register := cell.register.write op } ∧
        ((s.updateOp o op).2 = .error .other ∨
          (s.updateOp o op).2 = .ok (cell.register.write op).latest) := by
  rw [Store.updateOp]
  cases hcell : s.ops op.uid with
  | none => exact .inl rfl
  | some cell =>
    by_cases hfail : (cell.gone || decide (o.fault = .failed)) = true
    · exact .inl (by simp only [if_pos hfail])
    · simp only [if_neg hfail]
      simp only [Bool.or_eq_true, not_or, Bool.not_eq_true] at hfail
      by_cases hversion : op.resourceVersion = cell.latest.resourceVersion
      · have hswap : cell.register.swap op = some (cell.register.write op) := if_pos hversion
        refine .inr (.inr ⟨cell, rfl, hfail.1, hversion, ?_⟩)
        simp only [hswap]
        refine ⟨trivial, ?_⟩
        split
        · exact .inl rfl
        · exact .inr rfl
      · have hswap : cell.register.swap op = none := if_neg hversion
        exact .inr (.inl (by simp only [hswap]))

/-- `op` may be written over the stored operation: over the version it was
copied from, or over any version stored from now on. -/
structure Ready (r : Reconciler) (X : String) (op : Operation) (s : Store) : Prop where
  uid : op.uid = X
  classSet : ClassSet r op
  step : ∃ cell, s.ops X = some cell ∧
    ((∃ v ∈ cell.register.versions, v.resourceVersion = op.resourceVersion ∧ StatusStep X s v op) ∨
      StatusStep X s cell.latest op)

/-- A step of the status is one from every version with the same progress, and
stays one. -/
theorem StatusStep.mono {s' : Store} {old old' new : Operation} (h : StatusStep X s old new)
    (hevolves : Evolves s s') (hprogress : old'.progress = old.progress) :
    StatusStep X s' old' new := by
  have hmeta : old'.metadata = old.metadata := congrArg Progress.metadata hprogress
  have hspec : old'.spec = old.spec := congrArg Progress.spec hprogress
  have hphase : old'.status.phase = old.status.phase := congrArg Progress.phase hprogress
  have happlied : old'.status.applied = old.status.applied := congrArg Progress.applied hprogress
  have hpointer : old'.status.pointer = old.status.pointer := congrArg Progress.pointer hprogress
  have hpast : ¬old.PastLock → ¬old'.PastLock := by
    rw [Operation.PastLock, Operation.PastLock, hphase, happlied]
    exact id
  have hlive : old.InFlight → old'.InFlight := by
    rw [Operation.InFlight, Operation.InFlight, hphase]
    exact id
  cases h with
  | keep hl hnew => exact .keep (hphase ▸ hl) (hnew.trans hprogress.symm)
  | admitted hold hnew hfacet hchecked =>
    exact .admitted (hphase.trans hold) (by rw [hnew, hprogress]) hfacet
      fun htype => hevolves.checked (hchecked htype)
  | hold hl hp hnew => exact .hold (hlive hl) (hpast hp) (by rw [hnew, hprogress])
  | run hl hp hnew htype hchecked =>
    refine .run (hlive hl) (hpast hp) (by rw [hnew, hprogress]) (hspec ▸ htype) ?_
    rw [hspec]
    exact fun hpromote => hevolves.checked (hchecked hpromote)
  | apply hold hunapplied hnew hmoved =>
    refine .apply (hphase.trans hold) (happlied.trans hunapplied) ?_ (hevolves.moved hmoved)
    rw [hnew, hprogress, hspec]
  | verify hold happ hnew =>
    exact .verify (hphase.trans hold) (happlied.trans happ) (by rw [hnew, hprogress])
  | ask hold happ hnew =>
    exact .ask (hphase.trans hold) (happlied.trans happ) (by rw [hnew, hprogress])
  | conclude hl hgiven hconcluded hm hsp happ hseq houtcome hpt =>
    refine .conclude (hphase ▸ hl) (hevolves.given hgiven) hconcluded (hm.trans hmeta.symm)
      (hsp.trans hspec.symm) (happ.trans happlied.symm) hseq houtcome ?_
    rw [hpointer, hspec]
    refine hpt.imp_right fun hlevel => ⟨hlevel.1, ?_⟩
    refine hlevel.2.imp_right fun hway => hway.imp hevolves.dropped ?_
    rintro ⟨i, a, b, ha, hb, hrest⟩
    exact ⟨i, a, b, hevolves.stage.getElem? ha, hevolves.stage.getElem? hb, hrest⟩

theorem Ready.mono {s' : Store} {op : Operation} (h : Ready r X op s) (hframe : Frame X s s') :
    Ready r X op s' := by
  obtain ⟨huid, hclass, cell, hcell, hstep⟩ := h
  obtain ⟨cell', hcell', hgrows, -⟩ := hframe.cells X cell hcell
  refine ⟨huid, hclass, cell', hcell', hstep.imp ?_ ?_⟩
  · rintro ⟨v, hv, hversion, hstep⟩
    exact ⟨v, hgrows.mem hv, hversion, hstep.mono hframe.toEvolves rfl⟩
  · intro hstep
    obtain ⟨cell'', hcell'', hprogress⟩ := hframe.latest cell hcell
    cases hcell''.symm.trans hcell'
    exact hstep.mono hframe.toEvolves hprogress

/-- What is written over the stored version is a step from it. -/
theorem Ready.statusStep {op : Operation} (h : Ready r X op s) {cell : Cell}
    (hcell : s.ops X = some cell) (hversion : op.resourceVersion = cell.latest.resourceVersion) :
    StatusStep X s cell.latest op := by
  obtain ⟨-, -, cell', hcell', hstep⟩ := h
  cases hcell'.symm.trans hcell
  rcases hstep with ⟨v, hv, hcopied, hstep⟩ | hstep
  · have hlatest : v = cell.latest := Register.eq_latest_of_version hv (hcopied.trans hversion)
    rw [← hlatest]
    exact hstep
  · exact hstep

/-- A write of the operation, with what has to hold when it goes through. -/
theorem safe_updateOp_of {op : Operation} {f : Except ApiError Operation → Reconcile β}
    (huid : op.uid = X)
    (hwrite : ∀ s₁ cell, Frame X s s₁ → Inv r s₁ → s₁.ops X = some cell → cell.gone = false →
      op.resourceVersion = cell.latest.resourceVersion →
      C.guarantee s₁ (s₁.setCell X { cell with register := cell.register.write op }))
    (hdone : ∀ s₁ cell, Frame X s s₁ → Inv r s₁ → s₁.ops X = some cell →
      Inv r (s₁.setCell X { cell with register := cell.register.write op }) →
      (f (.ok (cell.register.write op).latest)).Safe C post
        (s₁.setCell X { cell with register := cell.register.write op }))
    (hconflict : ∀ s₁, Frame X s s₁ → Inv r s₁ → (f (.error .conflict)).Safe C post s₁)
    (hother : ∀ s₁, (f (.error .other)).Safe C post s₁) :
    (updateOp op >>= f).Safe C post s := by
  refine Prog.safe_call (I := api) (c := Call.updateOp op) fun s₁ hs₁ hinv₁ o => ?_
  have hframe := Framed.frame hs₁
  have hinv := Framed.invariant.mp hinv₁
  change C.guarantee s₁ (s₁.updateOp o op).1 ∧ (C.invariant (s₁.updateOp o op).1 →
    (f (s₁.updateOp o op).2).Safe C post (s₁.updateOp o op).1)
  rcases updateOp_cases s₁ o op with hfail | hfail | ⟨cell, hcell, hgone, hversion, hstate, hreply⟩
  · rw [hfail]
    exact ⟨Framed.idle s₁, fun _ => hother s₁⟩
  · rw [hfail]
    exact ⟨Framed.idle s₁, fun _ => hconflict s₁ hframe hinv⟩
  · rw [huid] at hcell hstate
    rw [hstate]
    refine ⟨hwrite s₁ cell hframe hinv hcell hgone hversion, fun hinv₂ => ?_⟩
    rcases hreply with hlost | hok
    · rw [hlost]
      exact hother _
    · rw [hok]
      exact hdone s₁ cell hframe hinv hcell (Framed.invariant.mp hinv₂)

theorem safe_updateOp {op : Operation} {f : Except ApiError Operation → Reconcile β}
    (hready : Ready r X op s)
    (hdone : ∀ s₁ cell, Frame X s s₁ → Inv r s₁ → s₁.ops X = some cell →
      Inv r (s₁.setCell X { cell with register := cell.register.write op }) →
      (f (.ok (cell.register.write op).latest)).Safe (r.contract X) post
        (s₁.setCell X { cell with register := cell.register.write op }))
    (hconflict : ∀ s₁, Frame X s s₁ → Inv r s₁ →
      (f (.error .conflict)).Safe (r.contract X) post s₁)
    (hother : ∀ s₁, (f (.error .other)).Safe (r.contract X) post s₁) :
    (updateOp op >>= f).Safe (r.contract X) post s := by
  refine safe_updateOp_of hready.uid (fun s₁ cell hframe _ hcell hgone hversion => ?_) hdone
    hconflict hother
  exact Move.save cell op hcell hgone ((hready.mono hframe).statusStep hcell hversion)
    hready.classSet

/-- What `saveOp` makes of the reply to its write. -/
def stored : Except ApiError Operation → Reconcile Operation
  | .ok op => pure op
  | .error _ => .stop

theorem safe_save {op : Operation} (hready : Ready r X op s) :
    (save op).Keeps (r.contract X) s := by
  refine safe_updateOp (f := fun reply => stored reply >>= fun _ => pure ()) hready ?_ ?_ ?_
  · exact fun _ _ _ _ _ _ => Prog.safe_done
  · exact fun _ _ _ => Prog.safe_stop
  · exact fun _ => Prog.safe_stop

theorem safe_saveOp {op : Operation} {f : Operation → Reconcile β} (hready : Ready r X op s)
    (h : ∀ s₁ cell, Frame X s s₁ → Inv r s₁ → s₁.ops X = some cell →
      Inv r (s₁.setCell X { cell with register := cell.register.write op }) →
      (f (cell.register.write op).latest).Safe (r.contract X) post
        (s₁.setCell X { cell with register := cell.register.write op })) :
    (saveOp op >>= f).Safe (r.contract X) post s := by
  refine safe_updateOp (f := fun reply => stored reply >>= f) hready h ?_ ?_
  · exact fun _ _ _ => Prog.safe_stop
  · exact fun _ => Prog.safe_stop

/-! ## Compare-and-swap of the Stage -/

theorem updateStage_cases (s : Store) (o : Oracle) (st : Stage) :
    s.updateStage o st = (s, .error .other) ∨ s.updateStage o st = (s, .error .conflict) ∨
      (st.resourceVersion = s.stage.latest.resourceVersion ∧
        (s.updateStage o st).1 = s.setStage (s.stage.write st) ∧
        ((s.updateStage o st).2 = .error .other ∨
          (s.updateStage o st).2 = .ok (s.stage.write st).latest)) := by
  rw [Store.updateStage]
  by_cases hfail : o.fault = .failed
  · exact .inl (by simp only [if_pos hfail])
  · simp only [if_neg hfail]
    by_cases hversion : st.resourceVersion = s.stage.latest.resourceVersion
    · have hswap : s.stage.swap st = some (s.stage.write st) := if_pos hversion
      refine .inr (.inr ⟨hversion, ?_⟩)
      simp only [hswap]
      refine ⟨trivial, ?_⟩
      split
      · exact .inl rfl
      · exact .inr rfl
    · have hswap : s.stage.swap st = none := if_neg hversion
      exact .inr (.inl (by simp only [hswap]))

include hC in
theorem safe_updateStage {st : Stage} {f : Except ApiError Stage → Reconcile β}
    (hdone : ∀ s₁, C.rely s s₁ → C.invariant s₁ →
      st.resourceVersion = s₁.stage.latest.resourceVersion →
      C.guarantee s₁ (s₁.setStage (s₁.stage.write st)) ∧
        (C.invariant (s₁.setStage (s₁.stage.write st)) →
          (f (.ok (s₁.stage.write st).latest)).Safe C post (s₁.setStage (s₁.stage.write st))))
    (hconflict : ∀ s₁, C.rely s s₁ → C.invariant s₁ → (f (.error .conflict)).Safe C post s₁)
    (hother : ∀ s₁, (f (.error .other)).Safe C post s₁) :
    (updateStage st >>= f).Safe C post s := by
  refine Prog.safe_call (I := api) (c := Call.updateStage st) fun s₁ hs₁ hinv₁ o => ?_
  change C.guarantee s₁ (s₁.updateStage o st).1 ∧ (C.invariant (s₁.updateStage o st).1 →
    (f (s₁.updateStage o st).2).Safe C post (s₁.updateStage o st).1)
  rcases updateStage_cases s₁ o st with hfail | hfail | ⟨hswap, hstate, hreply⟩
  · rw [hfail]
    exact ⟨Framed.idle s₁, fun _ => hother s₁⟩
  · rw [hfail]
    exact ⟨Framed.idle s₁, fun _ => hconflict s₁ hs₁ hinv₁⟩
  · obtain ⟨hguar, hnext⟩ := hdone s₁ hs₁ hinv₁ hswap
    rw [hstate]
    refine ⟨hguar, fun hinv₂ => ?_⟩
    rcases hreply with hlost | hok
    · rw [hlost]
      exact hother _
    · rw [hok]
      exact hnext hinv₂

section Cas

variable {γ ε : Type}

/-- What one attempt of a compare-and-swap that read the Stage of `start` has to
establish: the Stage it wants to write may be written over the one it read,
and what it captured can be tried again. -/
def Attempt (C : Prog.Contract api) (X : String) (J : γ → Store → Prop)
    (post : γ × Except ε Stage → Store → Prop) (start : Store) : γ × Except ε Stage → Store → Prop
  | (g, .error e), s => post (g, .error e) s
  | (g, .ok st), s =>
    Evolves start s ∧ J g s ∧ st.resourceVersion = start.stage.latest.resourceVersion ∧
      (s.stage.latest = start.stage.latest →
        C.guarantee s (s.setStage (s.stage.write st)) ∧
          (C.invariant (s.setStage (s.stage.write st)) →
            ∀ s', Frame X (s.setStage (s.stage.write st)) s' → C.invariant s' →
              post (g, .ok (s.stage.write st).latest) s'))

/-- A compare-and-swap with retries: `J` is what each attempt starts from. -/
theorem safe_casStage {fn : γ → Stage → Reconcile (γ × Except ε Stage)} {J : γ → Store → Prop}
    {post : γ × Except ε Stage → Store → Prop}
    (hJ : ∀ g s s', Frame X s s' → Inv r s → J g s → J g s')
    (hfn : ∀ g s, Inv r s → J g s →
      (fn g s.stage.latest).Safe C (Attempt C X J post s) s) :
    ∀ n g s, Inv r s → J g s → (casStage fn n g).Safe C post s := by
  intro n
  induction n with
  | zero => exact fun g s _ _ => Prog.safe_stop
  | succ n ih =>
    intro g s hinv hg
    refine safe_getStage_orStop fun s₁ hframe₁ hinv₁ => ?_
    have hattempt := (hfn g s₁ hinv₁ (hJ g s s₁ hframe₁ hinv hg)).stable
    refine Prog.Safe.bind (Framed.invariant.mpr hinv₁)
      (hattempt.weaken fun result s₂ _ hstable hinv₂ => ?_)
    obtain ⟨g', result⟩ := result
    cases result with
    | error e => exact Prog.safe_ret hstable
    | ok st =>
      refine safe_updateStage (fun s₃ hs₃ hinv₃ hswap => ?_) (fun s₃ hs₃ hinv₃ => ?_)
        fun _ => Prog.safe_stop
      · obtain ⟨hevolves, -, hversion, hwrite⟩ := hstable s₃ hs₃ hinv₃
        have hsame : s₃.stage.latest = s₁.stage.latest :=
          (Register.eq_latest_of_version (hevolves.stage.mem s₁.stage.latest_mem)
            (hversion.symm.trans hswap)).symm
        obtain ⟨hguar, hpost⟩ := hwrite hsame
        refine ⟨hguar, fun hinv₄ => ?_⟩
        exact Prog.safe_ret fun s₅ hs₅ hinv₅ => hpost hinv₄ s₅ (Framed.frame hs₅) hinv₅
      · obtain ⟨-, hg', -, -⟩ := hstable s₃ hs₃ hinv₃
        exact ih g' s₃ (Framed.invariant.mp hinv₃) hg'

end Cas

/-! ## Raising operations -/

theorem createOp_cases (s : Store) (o : Oracle) (op : Operation) :
    s.createOp o op = (s, .error .other) ∨
      (s.createOp o op = (s, .error .alreadyExists) ∧ (s.named op.name).isSome = true) ∨
      (o.uid ≠ "" ∧ s.ops o.uid = none ∧ s.named op.name = none ∧
        (s.createOp o op).1 = s.addOp o.uid o.now op ∧
        ((s.createOp o op).2 = .error .other ∨ (s.createOp o op).2 = .ok ())) := by
  rw [Store.createOp]
  by_cases hfail : (decide (o.fault = .failed) || decide (o.uid = "") || (s.ops o.uid).isSome) = true
  · exact .inl (if_pos hfail)
  · simp only [if_neg hfail]
    simp only [Bool.or_eq_true, decide_eq_true_eq, not_or, Option.isSome_iff_ne_none, not_not]
      at hfail
    by_cases hnamed : (s.named op.name).isSome = true
    · exact .inr (.inl ⟨if_pos hnamed, hnamed⟩)
    · refine .inr (.inr ⟨hfail.1.2, hfail.2, by simpa using hnamed, ?_⟩)
      simp only [if_neg hnamed]
      refine ⟨trivial, ?_⟩
      split
      · exact .inl rfl
      · exact .inr rfl

theorem Store.known_of_named {name : String} (h : (s.named name).isSome = true) : s.Known name := by
  obtain ⟨cell, hfind⟩ := Option.isSome_iff_exists.mp h
  obtain ⟨Y, -, hcell⟩ := List.mem_filterMap.mp (List.mem_of_find?_eq_some hfind)
  have hname := List.find?_some hfind
  simp only [Bool.and_eq_true, decide_eq_true_eq] at hname
  exact ⟨Y, cell, hcell, cell.latest, cell.register.latest_mem, hname.2⟩

theorem Store.known_addOp {uid : String} (created : Nat) (op : Operation) :
    (s.addOp uid created op).Known op.name := by
  refine ⟨uid, s.newCell uid created op, by simp [Store.addOp, Store.setCell], ?_⟩
  exact ⟨_, (s.newCell uid created op).register.latest_mem, rfl⟩

theorem Evolves.metadata {s' : Store} (h : Evolves s s') (hinv : Inv r s') :
    s'.stage.latest.metadata = s.stage.latest.metadata :=
  (hinv.metadata _ (h.stage.mem s.stage.latest_mem)).symm

def Raisable (C : Prog.Contract api) (r : Reconciler) (X : String) (op : Operation) (s : Store) :
    Prop :=
  ∀ s₁ uid created, Frame X s s₁ → Inv r s₁ → uid ≠ "" → s₁.ops uid = none →
    s₁.named op.name = none → C.guarantee s₁ (s₁.addOp uid created op)

theorem raisable {op : Operation} (hstage : op.spec.stage = s.stage.latest.metadata.name) :
    Raisable (r.contract X) r X op s := by
  intro s₁ uid created hframe hinv hne hfresh hfree
  exact Move.raise uid created op hne hfresh (by rw [hstage, hframe.metadata hinv]) hfree

theorem safe_createOp {op : Operation} {f : Except ApiError Unit → Reconcile β}
    (hraise : Raisable C r X op s)
    (hdone : ∀ s₁, Frame X s s₁ → s₁.Known op.name → (f (.ok ())).Safe C post s₁)
    (hexists : ∀ s₁, Frame X s s₁ → s₁.Known op.name →
      (f (.error .alreadyExists)).Safe C post s₁)
    (hother : ∀ s₁, (f (.error .other)).Safe C post s₁) :
    (Prog.perform (I := api) (.createOp op) >>= f).Safe C post s := by
  refine Prog.safe_call (I := api) (c := Call.createOp op) fun s₁ hs₁ hinv₁ o => ?_
  have hframe := Framed.frame hs₁
  have hinv := Framed.invariant.mp hinv₁
  change C.guarantee s₁ (s₁.createOp o op).1 ∧ (C.invariant (s₁.createOp o op).1 →
    (f (s₁.createOp o op).2).Safe C post (s₁.createOp o op).1)
  rcases createOp_cases s₁ o op with hfail | ⟨hfail, hnamed⟩ | ⟨hne, hfresh, hfree, hstate, hreply⟩
  · rw [hfail]
    exact ⟨Framed.idle s₁, fun _ => hother s₁⟩
  · rw [hfail]
    exact ⟨Framed.idle s₁, fun _ => hexists s₁ hframe (Store.known_of_named hnamed)⟩
  · rw [hstate]
    refine ⟨hraise s₁ o.uid o.now hframe hinv hne hfresh hfree, fun _ => ?_⟩
    rcases hreply with hlost | hok
    · rw [hlost]
      exact hother _
    · rw [hok]
      exact hdone _ (hframe.trans (.addOp o.now op hfresh)) (Store.known_addOp o.now op)

theorem safe_createRaised {op : Operation} (hraise : Raisable C r X op s) :
    (createRaised op).Safe C (fun _ s' => Frame X s s' ∧ s'.Known op.name) s := by
  unfold createRaised
  refine safe_createOp hraise (fun s₁ hframe hknown => ?_) (fun s₁ hframe hknown => ?_)
    fun _ => Prog.safe_stop
  · exact safe_pure fun s₂ hframe₂ _ => ⟨hframe.trans hframe₂, hframe₂.known hknown⟩
  · refine Prog.safe_read (I := api) (c := Call.readNamed op.name) (fun _ _ => rfl)
      Framed.idle fun s₂ hs₂ _ _ => safe_orStop fun got _ => ?_
    split
    all_goals
      refine safe_pure fun s₃ hframe₃ _ => ?_
      have hlater := (Framed.frame hs₂).trans hframe₃
      exact ⟨hframe.trans hlater, hlater.known hknown⟩

end Pacto.Promoter
