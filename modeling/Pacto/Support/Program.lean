import Mathlib.Logic.Relation
import Mathlib.Logic.Function.Basic

/-!
# Programs over a shared state

A program runs as one of several threads that share a state.  Between two of
its calls any other thread may run, so what a program may rely on is what no
other thread takes away, and what it must guarantee is what the others rely
on.  `Prog.Safe` is that contract for one program, and
`System.Run.keeps` turns the contracts of all threads into a rule for what holds
in every interleaving.
-/

namespace Pacto.Support

/-- The calls a program can make on the shared state.  `Input` is what the
outside decides when a call is performed. -/
structure Interface where
  State : Type
  Call : Type
  Reply : Call → Type
  Input : Type
  perform : (c : Call) → Input → State → State × Reply c

/-- A program: it returns, stops early, or makes a call and goes on with the
reply. -/
inductive Prog (I : Interface) (α : Type) where
  | ret (a : α)
  | stop
  | call (c : I.Call) (next : I.Reply c → Prog I α)

namespace Prog

variable {I : Interface} {α β : Type}

/-- Run `f` on what `m` returns. -/
protected def bind (m : Prog I α) (f : α → Prog I β) : Prog I β :=
  match m with
  | ret a => f a
  | stop => stop
  | call c next => call c fun r => (next r).bind f

instance : Monad (Prog I) where
  pure := ret
  bind := Prog.bind

@[simp] theorem pure_bind (a : α) (f : α → Prog I β) : (pure a >>= f) = f a := rfl

@[simp] theorem ret_bind (a : α) (f : α → Prog I β) : (ret a >>= f) = f a := rfl

@[simp] theorem stop_bind (f : α → Prog I β) : ((stop : Prog I α) >>= f) = stop := rfl

@[simp] theorem call_bind (c : I.Call) (next : I.Reply c → Prog I α) (f : α → Prog I β) :
    (call c next >>= f) = call c fun r => next r >>= f :=
  rfl

def perform (c : I.Call) : Prog I (I.Reply c) := call c ret

/-! ## Safety -/

section Safe

/-- `rely` bounds what other threads do between two calls, `guarantee` what a
call of this program may do, `invariant` what all of them keep. -/
structure Contract (I : Interface) where
  rely : I.State → I.State → Prop
  guarantee : I.State → I.State → Prop
  invariant : I.State → Prop
  rely_refl : ∀ s, rely s s
  rely_trans : ∀ {s t u}, rely s t → rely t u → rely s u

/-- Started in `s`, the program keeps to its contract whatever the others do,
and what it returns satisfies `post` for as long as the others run. -/
def Safe (C : Contract I) : Prog I α → (α → I.State → Prop) → I.State → Prop
  | ret a, post, s => ∀ s₁, C.rely s s₁ → C.invariant s₁ → post a s₁
  | stop, _, _ => True
  | call c next, post, s =>
    ∀ s₁, C.rely s s₁ → C.invariant s₁ → ∀ i : I.Input,
      C.guarantee s₁ (I.perform c i s₁).1 ∧
        (C.invariant (I.perform c i s₁).1 →
          (next (I.perform c i s₁).2).Safe C post (I.perform c i s₁).1)

variable {C : Contract I} {post : α → I.State → Prop} {s : I.State}

/-- A safe program stays safe while only others run. -/
theorem Safe.mono {p : Prog I α} (h : p.Safe C post s) {s' : I.State} (hrely : C.rely s s') :
    p.Safe C post s' := by
  cases p with
  | ret a =>
    intro s₁ hs₁ hinv
    exact h s₁ (C.rely_trans hrely hs₁) hinv
  | stop => trivial
  | call c next =>
    intro s₁ hs₁ hinv
    exact h s₁ (C.rely_trans hrely hs₁) hinv

theorem safe_ret {a : α} (h : ∀ s₁, C.rely s s₁ → C.invariant s₁ → post a s₁) :
    (pure a : Prog I α).Safe C post s :=
  h

/-- A program that is safe whatever it returns. -/
abbrev Keeps (C : Contract I) (p : Prog I α) (s : I.State) : Prop :=
  p.Safe C (fun _ _ => True) s

theorem safe_done {a : α} : (pure a : Prog I α).Keeps C s :=
  fun _ _ _ => trivial

theorem safe_stop : (stop : Prog I α).Safe C post s := trivial

/-- Sequencing: what the first program returns is what the second starts
from. -/
theorem Safe.bind {m : Prog I α} {f : α → Prog I β} {post : β → I.State → Prop}
    (hinv : C.invariant s)
    (h : m.Safe C (fun a s' => C.invariant s' → (f a).Safe C post s') s) :
    (m >>= f).Safe C post s := by
  induction m generalizing s with
  | ret a => exact h s (C.rely_refl s) hinv hinv
  | stop => trivial
  | call c next ih =>
    intro s₁ hs₁ hinv₁ i
    obtain ⟨hguar, hnext⟩ := h s₁ hs₁ hinv₁ i
    exact ⟨hguar, fun hinv₂ => ih _ hinv₂ (hnext hinv₂)⟩

/-- A weaker postcondition. -/
theorem Safe.weaken {p : Prog I α} {post' : α → I.State → Prop} (h : p.Safe C post s)
    (himp : ∀ a s', C.invariant s' → post a s' → post' a s') : p.Safe C post' s := by
  induction p generalizing s with
  | ret a => exact fun s₁ hs₁ hinv => himp a s₁ hinv (h s₁ hs₁ hinv)
  | stop => trivial
  | call c next ih =>
    intro s₁ hs₁ hinv₁ i
    obtain ⟨hguar, hnext⟩ := h s₁ hs₁ hinv₁ i
    exact ⟨hguar, fun hinv₂ => ih _ (hnext hinv₂)⟩

/-- Sequencing, with what the first program is known to return. -/
theorem Safe.seq {m : Prog I α} {f : α → Prog I β} {mid : α → I.State → Prop}
    {post : β → I.State → Prop} (hinv : C.invariant s) (hm : m.Safe C mid s)
    (hf : ∀ a s', C.invariant s' → mid a s' → (f a).Safe C post s') : (m >>= f).Safe C post s :=
  Safe.bind hinv (hm.weaken fun a s' hinv' hmid _ => hf a s' hinv' hmid)

/-- What a safe program returns outlasts what the others do next. -/
theorem Safe.stable {p : Prog I α} (h : p.Safe C post s) :
    p.Safe C (fun a s' => ∀ s'', C.rely s' s'' → C.invariant s'' → post a s'') s := by
  induction p generalizing s with
  | ret a => exact fun s₁ hs₁ _ s₂ hs₂ hinv₂ => h s₂ (C.rely_trans hs₁ hs₂) hinv₂
  | stop => trivial
  | call c next ih =>
    intro s₁ hs₁ hinv₁ i
    obtain ⟨hguar, hnext⟩ := h s₁ hs₁ hinv₁ i
    exact ⟨hguar, fun hinv₂ => ih _ (hnext hinv₂)⟩

/-- A program that keeps to two contracts keeps to one that asks for both
guarantees and allows the others no more than either. -/
theorem Safe.and {D E : Contract I} {p : Prog I α} {post' : α → I.State → Prop}
    (hrely : ∀ {s s'}, E.rely s s' → C.rely s s' ∧ D.rely s s')
    (hinv : ∀ {s}, E.invariant s → C.invariant s ∧ D.invariant s)
    (hguar : ∀ {s s'}, C.guarantee s s' → D.guarantee s s' → E.guarantee s s')
    (hC : p.Safe C post s) (hD : p.Safe D post' s) :
    p.Safe E (fun a s' => post a s' ∧ post' a s') s := by
  induction p generalizing s with
  | ret a =>
    intro s₁ hs₁ hinv₁
    exact ⟨hC s₁ (hrely hs₁).1 (hinv hinv₁).1, hD s₁ (hrely hs₁).2 (hinv hinv₁).2⟩
  | stop => trivial
  | call c next ih =>
    intro s₁ hs₁ hinv₁ i
    obtain ⟨hguarC, hnextC⟩ := hC s₁ (hrely hs₁).1 (hinv hinv₁).1 i
    obtain ⟨hguarD, hnextD⟩ := hD s₁ (hrely hs₁).2 (hinv hinv₁).2 i
    exact ⟨hguar hguarC hguarD, fun hinv₂ => ih _ (hnextC (hinv hinv₂).1) (hnextD (hinv hinv₂).2)⟩

/-- A program keeps to a second contract without further ado while `Q` holds, if
nobody ends `Q` and the first guarantee implies the second under it. -/
theorem Safe.upgrade {D : Contract I} {p : Prog I α} {Q : I.State → Prop}
    (hrely : ∀ {s s'}, D.rely s s' → C.rely s s')
    (hinv : ∀ {s}, D.invariant s → C.invariant s)
    (hstable : ∀ {s s'}, D.rely s s' → D.invariant s' → Q s → Q s')
    (hkept : ∀ {s s'}, C.invariant s → Q s → C.guarantee s s' → Q s' ∧ D.guarantee s s')
    (h : p.Safe C post s) (hQ : Q s) : p.Safe D post s := by
  induction p generalizing s with
  | ret a => exact fun s₁ hs₁ hinv₁ => h s₁ (hrely hs₁) (hinv hinv₁)
  | stop => trivial
  | call c next ih =>
    intro s₁ hs₁ hinv₁ i
    obtain ⟨hguar, hnext⟩ := h s₁ (hrely hs₁) (hinv hinv₁) i
    obtain ⟨hQ₂, hguar₂⟩ := hkept (hinv hinv₁) (hstable hs₁ hinv₁ hQ) hguar
    exact ⟨hguar₂, fun hinv₂ => ih _ (hnext (hinv hinv₂)) hQ₂⟩

theorem safe_call {c : I.Call} {f : I.Reply c → Prog I α}
    (h : ∀ s₁, C.rely s s₁ → C.invariant s₁ → ∀ i : I.Input,
      C.guarantee s₁ (I.perform c i s₁).1 ∧
        (C.invariant (I.perform c i s₁).1 →
          (f (I.perform c i s₁).2).Safe C post (I.perform c i s₁).1)) :
    (perform c >>= f).Safe C post s :=
  h

/-- A call that only reads: the program goes on in the state the others left. -/
theorem safe_read {c : I.Call} {f : I.Reply c → Prog I α}
    (hread : ∀ i t, (I.perform c i t).1 = t) (hidle : ∀ t, C.guarantee t t)
    (h : ∀ s₁, C.rely s s₁ → C.invariant s₁ → ∀ i : I.Input,
      (f (I.perform c i s₁).2).Safe C post s₁) :
    (perform c >>= f).Safe C post s := by
  refine safe_call fun s₁ hs₁ hinv₁ i => ?_
  have hstate := hread i s₁
  refine ⟨?_, fun _ => ?_⟩
  · rw [hstate]
    exact hidle s₁
  · rw [hstate]
    exact h s₁ hs₁ hinv₁ i

end Safe

/-! ## Programs that only read -/

/-- The program makes no call that changes the state, and what it returns
satisfies `P` whatever it reads. -/
def Reads : Prog I α → (α → Prop) → Prop
  | ret a, P => P a
  | stop, _ => True
  | call c next, P =>
    (∀ i t, (I.perform c i t).1 = t) ∧ ∀ i t, (next (I.perform c i t).2).Reads P

theorem reads_ret {P : α → Prop} {a : α} (h : P a) : (pure a : Prog I α).Reads P := h

theorem reads_stop {P : α → Prop} : (stop : Prog I α).Reads P := trivial

theorem reads_call {P : α → Prop} {c : I.Call} {f : I.Reply c → Prog I α}
    (hread : ∀ i t, (I.perform c i t).1 = t) (h : ∀ i t, (f (I.perform c i t).2).Reads P) :
    (perform c >>= f).Reads P :=
  ⟨hread, h⟩

theorem Reads.bind {m : Prog I α} {f : α → Prog I β} {P : α → Prop} {Q : β → Prop}
    (hm : m.Reads P) (hf : ∀ a, P a → (f a).Reads Q) : (m >>= f).Reads Q := by
  induction m with
  | ret a => exact hf a hm
  | stop => trivial
  | call c next ih => exact ⟨hm.1, fun i t => ih _ (hm.2 i t)⟩

/-- A program that only reads goes on in the state the others left. -/
theorem Reads.safe {C : Contract I} {m : Prog I α} {f : α → Prog I β} {P : α → Prop}
    {post : β → I.State → Prop} {s : I.State} (hidle : ∀ t, C.guarantee t t) (hm : m.Reads P)
    (h : ∀ a, P a → (f a).Safe C post s) : (m >>= f).Safe C post s := by
  induction m generalizing s with
  | ret a => exact h a hm
  | stop => trivial
  | call c next ih =>
    obtain ⟨hread, hnext⟩ := hm
    refine safe_read (f := fun r => next r >>= f) hread hidle fun s₁ hs₁ _ i => ?_
    exact ih _ (hnext i s₁) fun a ha => (h a ha).mono hs₁

end Prog

/-! ## Systems of threads -/

/-- A system: the program each thread runs whenever it is started, and the
acts by which the outside changes the shared state. -/
structure System (I : Interface) (T : Type) where
  main : T → Prog I Unit
  Act : Type
  act : Act → I.State → Option I.State

namespace System

variable {I : Interface} {T : Type} [DecidableEq T] (S : System I T)

/-- The shared state and the program each running thread has left. -/
structure Config (I : Interface) (T : Type) where
  shared : I.State
  threads : T → Option (Prog I Unit)

/-- A thread that returned or stopped no longer runs. -/
def settle : Prog I Unit → Option (Prog I Unit)
  | .ret _ => none
  | .stop => none
  | p => some p

/-- What can happen next: a thread starts, makes its next call or is killed,
or the outside acts. -/
inductive Event (S : System I T) where
  | start (t : T)
  | call (t : T) (i : I.Input)
  | crash (t : T)
  | act (a : S.Act)

/-- The configuration after an event, `none` when it cannot happen. -/
def exec (σ : Config I T) : Event S → Option (Config I T)
  | .start t =>
    match σ.threads t with
    | some _ => none
    | none => some { σ with threads := Function.update σ.threads t (settle (S.main t)) }
  | .call t i =>
    match σ.threads t with
    | some (.call c next) =>
      some
        { shared := (I.perform c i σ.shared).1
          threads :=
            Function.update σ.threads t (settle (next (I.perform c i σ.shared).2)) }
    | _ => none
  | .crash t => some { σ with threads := Function.update σ.threads t none }
  | .act a => (S.act a σ.shared).map fun s => { σ with shared := s }

/-- The configuration after a schedule of events, `none` when one of them cannot
happen or its step is not `ok`. -/
def execAll (ok : I.State → I.State → Bool) (σ : Config I T) : List (Event S) → Option (Config I T)
  | [] => some σ
  | e :: rest =>
    (S.exec σ e).bind fun σ' => if ok σ.shared σ'.shared then execAll ok σ' rest else none

/-- The configurations a run from `σ₀` reaches when every step of it meets
`allowed`. -/
inductive Run (allowed : I.State → I.State → Prop) (σ₀ : Config I T) : Config I T → Prop where
  | start : Run allowed σ₀ σ₀
  | step {σ σ' : Config I T} (hrun : Run allowed σ₀ σ) (e : Event S) (hstep : S.exec σ e = some σ')
      (hallowed : allowed σ.shared σ'.shared) : Run allowed σ₀ σ'

theorem Run.of_execAll {σ₀ σ : Config I T} {events : List (Event S)}
    {allowed : I.State → I.State → Prop} {ok : I.State → I.State → Bool}
    (hok : ∀ s s', ok s s' = true → allowed s s') (h : S.execAll ok σ₀ events = some σ) :
    S.Run allowed σ₀ σ := by
  suffices hfrom : ∀ σ₁, S.Run allowed σ₀ σ₁ → S.execAll ok σ₁ events = some σ →
      S.Run allowed σ₀ σ by
    exact hfrom σ₀ .start h
  clear h
  induction events with
  | nil =>
    intro σ₁ hrun h
    cases h
    exact hrun
  | cons e rest ih =>
    intro σ₁ hrun h
    simp only [execAll, Option.bind_eq_some_iff, Option.ite_none_right_eq_some] at h
    obtain ⟨σ₂, hexec, hstep, hrest⟩ := h
    exact ih σ₂ (.step hrun e hexec (hok _ _ hstep)) hrest

/-! ## Contracts of threads -/

def Outside (s s' : I.State) : Prop := ∃ a, S.act a s = some s'

variable (guarantee : T → I.State → I.State → Prop) (invariant : I.State → Prop)

/-- What the threads other than `t`, and the outside, do in one step. -/
def Others (t : T) (s s' : I.State) : Prop :=
  (∃ u, u ≠ t ∧ guarantee u s s') ∨ S.Outside s s'

/-- The contract of thread `t`. -/
def contract (t : T) : Prog.Contract I where
  rely := Relation.ReflTransGen (S.Others guarantee t)
  guarantee := guarantee t
  invariant := invariant
  rely_refl := fun _ => .refl
  rely_trans := fun h h' => h.trans h'

/-- The threads keep their contracts. -/
structure Sound : Prop where
  safe : ∀ t s, invariant s →
    (S.main t).Safe (S.contract guarantee invariant t) (fun _ _ => True) s
  keeps : ∀ t s s', invariant s → guarantee t s s' → invariant s'
  keeps_outside : ∀ s s', invariant s → S.Outside s s' → invariant s'

/-- The contract of thread `t` for a second guarantee, in a system in which all
threads keep to both. -/
def also (guarantee' : T → I.State → I.State → Prop) (t : T) : Prog.Contract I :=
  { S.contract (fun t s s' => guarantee t s s' ∧ guarantee' t s s') invariant t with
    guarantee := guarantee' t }

omit [DecidableEq T] in
/-- Others that keep to both guarantees keep to the first. -/
theorem rely_of_also {guarantee guarantee' : T → I.State → I.State → Prop}
    {invariant : I.State → Prop} {t : T} {s s' : I.State}
    (h : (S.also guarantee invariant guarantee' t).rely s s') :
    (S.contract guarantee invariant t).rely s s' := by
  refine Relation.ReflTransGen.mono (fun a b hab => ?_) _ _ h
  exact hab.imp (fun ⟨u, hu, hguar, _⟩ => ⟨u, hu, hguar⟩) id

omit [DecidableEq T] in
/-- A sound system whose threads also keep to a second guarantee is sound for
both. -/
theorem Sound.also {S : System I T} {guarantee guarantee' : T → I.State → I.State → Prop}
    {invariant : I.State → Prop} (h : S.Sound guarantee invariant)
    (hsafe : ∀ t s, invariant s →
      (S.main t).Safe (S.also guarantee invariant guarantee' t) (fun _ _ => True) s) :
    S.Sound (fun t s s' => guarantee t s s' ∧ guarantee' t s s') invariant where
  safe := by
    intro t s hinv
    have hboth := Prog.Safe.and (C := S.contract guarantee invariant t)
      (D := S.also guarantee invariant guarantee' t)
      (E := S.contract (fun t s s' => guarantee t s s' ∧ guarantee' t s s') invariant t)
      (fun hrely => ⟨S.rely_of_also hrely, hrely⟩)
      (fun hinv => ⟨hinv, hinv⟩) And.intro (h.safe t s hinv) (hsafe t s hinv)
    exact hboth.weaken fun _ _ _ _ => trivial
  keeps := fun t s s' hinv hguar => h.keeps t s s' hinv hguar.1
  keeps_outside := h.keeps_outside

/-- What an event does to the shared state: a call keeps to the guarantee of its
thread, and only calls and the outside change anything. -/
inductive Protocol : Event S → I.State → I.State → Prop where
  | start (t : T) (s : I.State) : Protocol (.start t) s s
  | call (t : T) (i : I.Input) {s s' : I.State} (h : guarantee t s s') : Protocol (.call t i) s s'
  | crash (t : T) (s : I.State) : Protocol (.crash t) s s
  | act (a : S.Act) {s s' : I.State} (h : S.act a s = some s') : Protocol (.act a) s s'

/-- Every running thread is safe from where it stands. -/
structure Good (σ : Config I T) : Prop where
  holds : invariant σ.shared
  safe : ∀ t p, σ.threads t = some p →
    p.Safe (S.contract guarantee invariant t) (fun _ _ => True) σ.shared

omit [DecidableEq T] in
theorem safe_of_settle {C : Prog.Contract I} {p q : Prog I Unit} {s : I.State}
    (h : p.Keeps C s) (hq : settle p = some q) : q.Keeps C s := by
  cases p with
  | ret a => cases hq
  | stop => cases hq
  | call c next =>
    cases hq
    exact h

variable {S guarantee invariant}

omit [DecidableEq T] in
/-- With no thread running nothing but the invariant is needed. -/
theorem Good.of_idle {σ : Config I T} (hinv : invariant σ.shared)
    (hidle : ∀ t, σ.threads t = none) : S.Good guarantee invariant σ := by
  refine ⟨hinv, fun t p hp => ?_⟩
  rw [hidle t] at hp
  cases hp

theorem Good.update {s : I.State} {threads : T → Option (Prog I Unit)} {t : T}
    {p : Option (Prog I Unit)} (hinv : invariant s)
    (ht : ∀ q, p = some q → q.Keeps (S.contract guarantee invariant t) s)
    (hothers : ∀ u q, u ≠ t → threads u = some q →
      q.Keeps (S.contract guarantee invariant u) s) :
    S.Good guarantee invariant { shared := s, threads := Function.update threads t p } := by
  refine ⟨hinv, fun u q hu => ?_⟩
  change Function.update threads t p u = some q at hu
  by_cases hut : u = t
  · subst hut
    rw [Function.update_self] at hu
    exact ht q hu
  · rw [Function.update_of_ne hut] at hu
    exact hothers u q hut hu

/-- A step of a sound system follows the protocol and leaves every thread
safe. -/
theorem Good.step (hsound : S.Sound guarantee invariant) {σ σ' : Config I T}
    (h : S.Good guarantee invariant σ) {e : Event S} (hstep : S.exec σ e = some σ') :
    S.Good guarantee invariant σ' ∧ S.Protocol guarantee e σ.shared σ'.shared := by
  cases e with
  | start t =>
    cases hidle : σ.threads t with
    | some p => simp [exec, hidle] at hstep
    | none =>
      simp only [exec, hidle, Option.some.injEq] at hstep
      subst hstep
      refine ⟨Good.update h.holds (fun q hq => ?_) fun u q _ hu => h.safe u q hu, .start t _⟩
      exact safe_of_settle (hsound.safe t _ h.holds) hq
  | call t i =>
    cases hrun : σ.threads t with
    | none => simp [exec, hrun] at hstep
    | some p =>
      cases p with
      | ret a => simp [exec, hrun] at hstep
      | stop => simp [exec, hrun] at hstep
      | call c next =>
        simp only [exec, hrun, Option.some.injEq] at hstep
        subst hstep
        obtain ⟨hguar, hnext⟩ := h.safe t _ hrun _ .refl h.holds i
        have hinv := hsound.keeps t _ _ h.holds hguar
        refine ⟨Good.update hinv (fun q hq => safe_of_settle (hnext hinv) hq)
          fun u q hut hu => ?_, .call t i hguar⟩
        exact (h.safe u q hu).mono (.single (.inl ⟨t, Ne.symm hut, hguar⟩))
  | crash t =>
    simp only [exec, Option.some.injEq] at hstep
    subst hstep
    refine ⟨Good.update h.holds (fun q hq => ?_) fun u q _ hu => h.safe u q hu, .crash t _⟩
    cases hq
  | act a =>
    simp only [exec, Option.map_eq_some_iff] at hstep
    obtain ⟨s, hact, rfl⟩ := hstep
    have hout : S.Outside σ.shared s := ⟨a, hact⟩
    refine ⟨⟨hsound.keeps_outside _ _ h.holds hout, fun u q hu => ?_⟩, .act a hact⟩
    exact (h.safe u q hu).mono (.single (.inr hout))

/-- The run lemma: what every allowed step of the protocol keeps holds in
every configuration a run reaches. -/
theorem Run.keeps {allowed : I.State → I.State → Prop} (hsound : S.Sound guarantee invariant)
    {P : I.State → Prop} {σ₀ σ : Config I T} (hrun : S.Run allowed σ₀ σ)
    (hgood : S.Good guarantee invariant σ₀) (hstart : P σ₀.shared)
    (hstep : ∀ e s s', invariant s → P s → allowed s s' → S.Protocol guarantee e s s' → P s') :
    S.Good guarantee invariant σ ∧ P σ.shared := by
  induction hrun with
  | start => exact ⟨hgood, hstart⟩
  | step _ e hnext hallowed ih =>
    obtain ⟨hprev, hP⟩ := ih
    obtain ⟨hgood', hprotocol⟩ := hprev.step hsound hnext
    exact ⟨hgood', hstep e _ _ hprev.holds hP hallowed hprotocol⟩

end System

end Pacto.Support
