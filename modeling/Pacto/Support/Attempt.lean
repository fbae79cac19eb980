import Mathlib.Order.Defs.Unbundled

/-!
# Attempts

An attempt works on a state, asks the outside world and may stop with an error
at any step; what it did to the state until then stays.  The world's answers are
a list, read in order, and are the same default forever once it ends.

`Attempt.Triple` says what holds when an attempt succeeds and what when it
stops, whatever the world answers.  `Attempt.Keeps` says what no step undoes.
-/

namespace Pacto.Support

/-- A computation that asks for answers, changes a state and may fail. -/
def Attempt (ω σ ε α : Type) : Type := σ → List ω → Except ε α × σ × List ω

namespace Attempt

variable {ω σ ε ε' α β : Type}

protected def pure (a : α) : Attempt ω σ ε α := fun s o => (.ok a, s, o)

protected def bind (m : Attempt ω σ ε α) (f : α → Attempt ω σ ε β) : Attempt ω σ ε β :=
  fun s o =>
    match m s o with
    | (.ok a, s', o') => f a s' o'
    | (.error e, s', o') => (.error e, s', o')

instance : Monad (Attempt ω σ ε) where
  pure := Attempt.pure
  bind := Attempt.bind

/-- The world's next answer. -/
def ask [Inhabited ω] : Attempt ω σ ε ω := fun s o => (.ok (o.headD default), s, o.tail)

/-- Stop with an error. -/
def fail (e : ε) : Attempt ω σ ε α := fun s o => (.error e, s, o)

/-- Stop with an error unless the condition holds. -/
def demand (c : Bool) (e : ε) : Attempt ω σ ε Unit := if c then pure () else fail e

/-- Look at the state. -/
def read (f : σ → α) : Attempt ω σ ε α := fun s o => (.ok (f s), s, o)

/-- Change the state. -/
def modify (f : σ → σ) : Attempt ω σ ε Unit := fun s o => (.ok (), f s, o)

/-- Go on with the outcome, an error included. -/
def outcome (m : Attempt ω σ ε α) : Attempt ω σ ε' (Except ε α) := fun s o =>
  match m s o with
  | (r, s', o') => (.ok r, s', o')

/-- Say more about an error. -/
def inContext (f : ε → ε') (m : Attempt ω σ ε α) : Attempt ω σ ε' α := fun s o =>
  match m s o with
  | (.ok a, s', o') => (.ok a, s', o')
  | (.error e, s', o') => (.error (f e), s', o')

/-- A loop over a list that carries a value along. -/
def loop (f : β → α → Attempt ω σ ε β) : β → List α → Attempt ω σ ε β
  | b, [] => pure b
  | b, a :: l => do
    let b ← f b a
    loop f b l

/-! ## Success and failure -/

/-- From `P`, a success leads to `Q` and an error to `E`. -/
def Triple (P : σ → Prop) (m : Attempt ω σ ε α) (Q : α → σ → Prop) (E : σ → Prop) : Prop :=
  ∀ s o, P s →
    match m s o with
    | (.ok a, s', _) => Q a s'
    | (.error _, s', _) => E s'

variable {P P' : σ → Prop} {Q Q' : α → σ → Prop} {E E' : σ → Prop} {m : Attempt ω σ ε α}

theorem Triple.weaken (h : Triple P m Q E) (hP : ∀ s, P' s → P s) (hQ : ∀ a s, Q a s → Q' a s)
    (hE : ∀ s, E s → E' s) : Triple P' m Q' E' := by
  intro s o hs
  have hrun := h s o (hP s hs)
  split <;> rename_i heq <;> rw [heq] at hrun
  · exact hQ _ _ hrun
  · exact hE _ hrun

/-- A triple may be shown one state at a time. -/
theorem Triple.intro (h : ∀ s, P s → Triple (· = s) m Q E) : Triple P m Q E :=
  fun s o hs => h s hs s o rfl

/-- Two triples of one attempt hold together. -/
theorem Triple.and (h : Triple P m Q E) (h' : Triple P' m Q' E') :
    Triple (fun s => P s ∧ P' s) m (fun a s => Q a s ∧ Q' a s) (fun s => E s ∧ E' s) := by
  intro s o hs
  have hrun := h s o hs.1
  have hrun' := h' s o hs.2
  split <;> rename_i heq <;> rw [heq] at hrun hrun' <;> exact ⟨hrun, hrun'⟩

/-- What does not speak of the state stays. -/
theorem Triple.frame (h : Triple P m Q E) (F : Prop) :
    Triple (fun s => P s ∧ F) m (fun a s => Q a s ∧ F) E := by
  intro s o hs
  have hrun := h s o hs.1
  split <;> rename_i heq <;> rw [heq] at hrun
  · exact ⟨hrun, hs.2⟩
  · exact hrun

theorem Triple.pure {a : α} (h : ∀ s, P s → Q a s) :
    Triple P (pure a : Attempt ω σ ε α) Q E :=
  fun s _ hs => h s hs

theorem Triple.fail {e : ε} (h : ∀ s, P s → E s) :
    Triple P (fail e : Attempt ω σ ε α) Q E :=
  fun s _ hs => h s hs

theorem Triple.demand {c : Bool} {e : ε} (h : c = false → ∀ s, P s → E s) :
    Triple P (demand c e : Attempt ω σ ε Unit) (fun _ s => P s ∧ c = true) E := by
  cases c with
  | true => exact Triple.pure fun _ hs => ⟨hs, rfl⟩
  | false => exact Triple.fail (h rfl)

theorem Triple.read {f : σ → α} (h : ∀ s, P s → Q (f s) s) :
    Triple P (read f : Attempt ω σ ε α) Q E :=
  fun s _ hs => h s hs

theorem Triple.modify {f : σ → σ} {Q : Unit → σ → Prop} (h : ∀ s, P s → Q () (f s)) :
    Triple P (modify f : Attempt ω σ ε Unit) Q E :=
  fun s _ hs => h s hs

theorem Triple.modify_eq {s : σ} {f : σ → σ} :
    Triple (· = s) (Attempt.modify f : Attempt ω σ ε Unit) (fun _ => (· = f s)) E :=
  Triple.modify fun _ hs => congrArg f hs

theorem Triple.ask [Inhabited ω] : Triple P (ask : Attempt ω σ ε ω) (fun _ => P) E :=
  fun _ _ hs => hs

theorem Triple.bind {R : α → σ → Prop} {Q : β → σ → Prop} {f : α → Attempt ω σ ε β}
    (hm : Triple P m R E) (hf : ∀ a, Triple (R a) (f a) Q E) : Triple P (m >>= f) Q E := by
  intro s o hs
  have hrun := hm s o hs
  change match Attempt.bind m f s o with
    | (.ok a, s', _) => Q a s'
    | (.error _, s', _) => E s'
  unfold Attempt.bind
  cases hm : m s o with
  | mk r rest =>
    rw [hm] at hrun
    cases r with
    | ok a => exact hf a rest.1 rest.2 hrun
    | error e => exact hrun

theorem Triple.outcome {R : Except ε α → σ → Prop} (h : Triple P m (fun a => R (.ok a)) E)
    (hE : ∀ e s, E s → R (.error e) s) :
    Triple P (outcome m : Attempt ω σ ε' (Except ε α)) R E' := by
  intro s o hs
  have hrun := h s o hs
  unfold Attempt.outcome
  cases hm : m s o with
  | mk r rest =>
    rw [hm] at hrun
    cases r with
    | ok a => exact hrun
    | error e => exact hE e rest.1 hrun

theorem Triple.inContext {f : ε → ε'} (h : Triple P m Q E) : Triple P (inContext f m) Q E := by
  intro s o hs
  have hrun := h s o hs
  unfold Attempt.inContext
  cases hm : m s o with
  | mk r rest =>
    rw [hm] at hrun
    cases r with
    | ok a => exact hrun
    | error e => exact hrun

theorem Triple.ite {c : Prop} [Decidable c] {m' : Attempt ω σ ε α}
    (ht : c → Triple P m Q E) (hf : ¬ c → Triple P m' Q E) :
    Triple P (if c then m else m') Q E := by
  split
  · next h => exact ht h
  · next h => exact hf h

theorem Triple.loop {f : β → α → Attempt ω σ ε β} (I : List α → β → σ → Prop) {l : List α}
    {b : β}
    (h : ∀ done a rest b, l = done ++ a :: rest →
      Triple (I done b) (f b a) (I (done ++ [a])) E) :
    Triple (I [] b) (loop f b l) (I l) E := by
  suffices hgo : ∀ rest done b, l = done ++ rest →
      Triple (I done b) (Attempt.loop f b rest) (I l) E from hgo l [] b rfl
  intro rest
  induction rest with
  | nil =>
    intro done b hdone
    rw [List.append_nil] at hdone
    subst hdone
    exact Triple.pure fun _ hs => hs
  | cons a rest ih =>
    intro done b hdone
    refine Triple.bind (h done a rest b hdone) fun b' => ih (done ++ [a]) b' ?_
    rw [hdone, List.append_assoc, List.singleton_append]

/-! ## What stays -/

/-- Whatever the world answers and the outcome, the state moves along `R`. -/
def Keeps (R : σ → σ → Prop) (m : Attempt ω σ ε α) : Prop := ∀ s o, R s (m s o).2.1

variable {R : σ → σ → Prop}

theorem keeps_iff : Keeps R m ↔ ∀ s, Triple (· = s) m (fun _ => R s) (R s) := by
  constructor
  · intro h s t o ht
    subst ht
    have hs := h t o
    split <;> rename_i heq <;> rw [heq] at hs <;> exact hs
  · intro h s o
    have hs := h s s o rfl
    cases hm : m s o with
    | mk r rest =>
      rw [hm] at hs
      cases r with
      | ok a => exact hs
      | error e => exact hs

theorem Keeps.pure [Std.Refl R] (a : α) : Keeps R (pure a : Attempt ω σ ε α) :=
  fun s _ => refl_of R s

theorem Keeps.fail [Std.Refl R] (e : ε) : Keeps R (fail e : Attempt ω σ ε α) :=
  fun s _ => refl_of R s

theorem Keeps.demand [Std.Refl R] (c : Bool) (e : ε) :
    Keeps R (demand c e : Attempt ω σ ε Unit) := by
  cases c with
  | true => exact Keeps.pure ()
  | false => exact Keeps.fail e

theorem Keeps.read [Std.Refl R] (f : σ → α) : Keeps R (read f : Attempt ω σ ε α) :=
  fun s _ => refl_of R s

theorem Keeps.modify {f : σ → σ} (h : ∀ s, R s (f s)) :
    Keeps R (modify f : Attempt ω σ ε Unit) :=
  fun s _ => h s

theorem Keeps.bind [IsTrans σ R] {f : α → Attempt ω σ ε β} (hm : Keeps R m)
    (hf : ∀ a, Keeps R (f a)) : Keeps R (m >>= f) := by
  intro s o
  have hs := hm s o
  change R s (Attempt.bind m f s o).2.1
  unfold Attempt.bind
  cases hm : m s o with
  | mk r rest =>
    rw [hm] at hs
    cases r with
    | ok a => exact trans_of R hs (hf a rest.1 rest.2)
    | error e => exact hs

theorem Keeps.inContext {f : ε → ε'} (h : Keeps R m) : Keeps R (inContext f m) := by
  intro s o
  have hs := h s o
  unfold Attempt.inContext
  cases hm : m s o with
  | mk r rest =>
    rw [hm] at hs
    cases r with
    | ok a => exact hs
    | error e => exact hs

theorem Keeps.ite {c : Prop} [Decidable c] {m' : Attempt ω σ ε α} (ht : Keeps R m)
    (hf : Keeps R m') : Keeps R (if c then m else m') := by
  split
  · exact ht
  · exact hf

theorem Keeps.loop [Std.Refl R] [IsTrans σ R] {f : β → α → Attempt ω σ ε β} {l : List α}
    (h : ∀ a ∈ l, ∀ b, Keeps R (f b a)) (b : β) : Keeps R (loop f b l) := by
  induction l generalizing b with
  | nil => exact Keeps.pure b
  | cons a l ih =>
    exact Keeps.bind (h a List.mem_cons_self b) fun b' =>
      ih (fun c hc => h c (List.mem_cons_of_mem _ hc)) b'

end Attempt
end Pacto.Support
