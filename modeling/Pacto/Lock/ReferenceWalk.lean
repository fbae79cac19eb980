import Pacto.Lock.References
import Pacto.Support.Walk

/-!
# The reference closure is whole

The walk ends on every finite world, since it enters no bundle twice.  An entry
that is there already is passed over together with the bundle behind it.  That
loses nothing exactly if equal contents resolve their references alike, from
wherever they lie.
-/

namespace Pacto.Lock

open Pacto.Graph

variable {F : Type} {S : Sources F}
variable {w₁ w w' : Closure} {here : Place} {d : ReferenceRef} {next : Option Place}
  {ds : List ReferenceRef} {n : Nat}

/-! ## What the root reaches -/

section Reached

variable (S) (root : Contract) (baseDir : String)

/-- The places the references of the root lead to, each by any route. -/
inductive Reached : Place → Prop
  | root : Reached ⟨root, baseDir, ""⟩
  | step {here : Place} {d : ReferenceRef} {r : RefResolution} (h : Reached here)
      (hd : d ∈ here.contract.referenceRefs)
      (hr : resolveReference S d.ref here.dir = .ok r) : Reached r.place

/-- A reference resolved somewhere on the way. -/
def Met (r : RefResolution) : Prop :=
  ∃ here d, Reached S root baseDir here ∧ d ∈ here.contract.referenceRefs ∧
    resolveReference S d.ref here.dir = .ok r

/-- Equal contents resolve each reference they declare to one bundle, from wherever
they lie. -/
def ResolvesAlike : Prop :=
  ∀ here there, Reached S root baseDir here → Reached S root baseDir there →
    here.fromID = there.fromID → ∀ d ∈ here.contract.referenceRefs,
      (resolveReference S d.ref here.dir).toOption.map (·.entry) =
        (resolveReference S d.ref there.dir).toOption.map (·.entry)

/-- Every declaration reached by any route has an entry, with the bundle that this
declaration resolves to from where it is declared. -/
def Whole (out : List Reference) : Prop :=
  ∀ here, Reached S root baseDir here → ∀ d ∈ here.contract.referenceRefs,
    ∃ r, resolveReference S d.ref here.dir = .ok r ∧ r.entryOf here.fromID d ∈ out

/-- The walk has a bundle for each entry, and has entered it or is about to. -/
def Closure.Sound (w : Closure) : Prop :=
  ∀ e ∈ w.out, ∃ here d r, Reached S root baseDir here ∧ d ∈ here.contract.referenceRefs ∧
    resolveReference S d.ref here.dir = .ok r ∧ e = r.entryOf here.fromID d ∧
    r.identity ∈ w.walked

/-- Every declaration of a place is recorded. -/
def Closure.Done (w : Closure) (here : Place) : Prop :=
  ∀ d ∈ here.contract.referenceRefs, ∃ r, resolveReference S d.ref here.dir = .ok r ∧
    r.entryOf here.fromID d ∈ w.out

end Reached

/-- A walk only adds. -/
structure Closure.Le (w w' : Closure) : Prop where
  out : w.out ⊆ w'.out
  walked : w.walked ⊆ w'.walked

theorem Closure.Le.refl (w : Closure) : w.Le w := ⟨List.Subset.refl _, List.Subset.refl _⟩

theorem Closure.Le.trans {w₂ w₃ : Closure} (h : w₁.Le w₂) (h' : w₂.Le w₃) : w₁.Le w₃ :=
  ⟨List.Subset.trans h.out h'.out, List.Subset.trans h.walked h'.walked⟩

theorem Closure.Done.mono (h : w.Done S here) (hle : w.Le w') :
    w'.Done S here := by
  intro d hd
  obtain ⟨r, hr, hout⟩ := h d hd
  exact ⟨r, hr, hle.out hout⟩

variable {root : Contract} {baseDir : String}

theorem Closure.le_of_record
    (hw : w.Remembers S) (h : w.record S here d = .ok (next, w')) :
    w.Le w' := by
  obtain ⟨-, r, -, ⟨-, hwalked, hout, -⟩ | ⟨hout, -, ⟨-, hwalked, -⟩ | ⟨-, hwalked, -⟩⟩⟩ :=
    Closure.record_eq_ok hw h
  · exact ⟨hout ▸ List.Subset.refl _, hwalked ▸ List.Subset.refl _⟩
  · exact ⟨hout ▸ List.subset_append_left _ _, hwalked ▸ List.Subset.refl _⟩
  · exact ⟨hout ▸ List.subset_append_left _ _, hwalked ▸ List.subset_append_left _ _⟩

theorem Closure.Sound.record
    (hsound : w.Sound S root baseDir) (hw : w.Remembers S) (hhere : Reached S root baseDir here)
    (hd : d ∈ here.contract.referenceRefs) (h : w.record S here d = .ok (next, w')) :
    w'.Sound S root baseDir ∧ ∃ r, resolveReference S d.ref here.dir = .ok r ∧
      r.entryOf here.fromID d ∈ w'.out := by
  have hle := Closure.le_of_record hw h
  obtain ⟨-, r, hr, hcase⟩ := Closure.record_eq_ok hw h
  have hkept : ∀ e ∈ w.out, ∃ here d r, Reached S root baseDir here ∧
      d ∈ here.contract.referenceRefs ∧ resolveReference S d.ref here.dir = .ok r ∧
      e = r.entryOf here.fromID d ∧ r.identity ∈ w'.walked := by
    intro e he
    obtain ⟨there, d', r', hthere, hd', hr', heq, hmem⟩ := hsound e he
    exact ⟨there, d', r', hthere, hd', hr', heq, hle.walked hmem⟩
  rcases hcase with ⟨-, -, hout, hmem⟩ | ⟨hout, -, hnow⟩
  · exact ⟨by unfold Closure.Sound; rwa [hout], r, hr, hout ▸ hmem⟩
  · have hid : r.identity ∈ w'.walked := by
      rcases hnow with ⟨-, hwalked, hmem⟩ | ⟨-, hwalked, -⟩
      · exact hwalked ▸ hmem
      · simp [hwalked]
    refine ⟨?_, r, hr, by simp [hout]⟩
    intro e he
    rw [hout, List.mem_append, List.mem_singleton] at he
    rcases he with he | rfl
    · exact hkept e he
    · exact ⟨here, d, r, hhere, hd, hr, rfl, hid⟩

/-! ## What a walk does -/

/-- What a walk from one closure to another did: it stays sound, and every
bundle it entered is done. -/
structure Closure.Walked (S : Sources F) (root : Contract) (baseDir : String)
    (w w' : Closure) : Prop where
  le : w.Le w'
  remembers : w'.Remembers S
  sound : w'.Sound S root baseDir
  done : ∀ r, Met S root baseDir r → r.identity ∈ w'.walked → r.identity ∉ w.walked →
    w'.Done S r.place

theorem Closure.Walked.refl (hw : w.Remembers S) (hsound : w.Sound S root baseDir) :
    w.Walked S root baseDir w :=
  ⟨.refl w, hw, hsound, fun _ _ h hnot => absurd h hnot⟩

theorem Closure.Walked.trans {w₂ w₃ : Closure} (h : w₁.Walked S root baseDir w₂)
    (h' : w₂.Walked S root baseDir w₃) : w₁.Walked S root baseDir w₃ where
  le := h.le.trans h'.le
  remembers := h'.remembers
  sound := h'.sound
  done r hr hmem hnot := by
    by_cases hmid : r.identity ∈ w₂.walked
    · exact (h.done r hr hmid hnot).mono h'.le
    · exact h'.done r hr hmem hmid

def Enters (S : Sources F) (root : Contract) (baseDir : String)
    (enter : Place → Closure → Option (Except LockError Closure)) : Prop :=
  ∀ here w w', Reached S root baseDir here → w.Remembers S → w.Sound S root baseDir →
    enter here w = some (.ok w') → w.Walked S root baseDir w' ∧ w'.Done S here

theorem reached_of_record {child : Place}
    (hw : w.Remembers S) (hhere : Reached S root baseDir here)
    (hd : d ∈ here.contract.referenceRefs) (h : w.record S here d = .ok (some child, w')) :
    Reached S root baseDir child := by
  obtain ⟨-, r, hr, ⟨hstop, -⟩ | ⟨-, -, ⟨hstop, -⟩ | ⟨henter, -⟩⟩⟩ := Closure.record_eq_ok hw h
  · cases hstop
  · cases hstop
  · cases henter
    exact .step hhere hd hr

/-- A record that enters no bundle, or one followed by the walk of the bundle it
names. -/
theorem Closure.Sound.walked_of_record
    (hsound : w.Sound S root baseDir) (hw : w.Remembers S) (hhere : Reached S root baseDir here)
    (hd : d ∈ here.contract.referenceRefs) (h : w.record S here d = .ok (next, w₁))
    (hnext : ∀ child, next = some child → w₁.Walked S root baseDir w' ∧ w'.Done S child)
    (hnone : next = none → w' = w₁) : w.Walked S root baseDir w' := by
  obtain ⟨hsound₁, -⟩ := hsound.record hw hhere hd h
  have hle := Closure.le_of_record hw h
  obtain ⟨hw₁, r, hr, hcase⟩ := Closure.record_eq_ok hw h
  have hquiet : next = none → w₁.walked = w.walked → w.Walked S root baseDir w' := by
    intro hstop hwalked
    rw [hnone hstop]
    exact ⟨hle, hw₁, hsound₁, fun r' _ hmem hnot => absurd (hwalked ▸ hmem) hnot⟩
  rcases hcase with ⟨hstop, hwalked, -, -⟩ | ⟨-, -, ⟨hstop, hwalked, -⟩ | ⟨henter, hwalked, -⟩⟩
  · exact hquiet hstop hwalked
  · exact hquiet hstop hwalked
  · obtain ⟨hwalk, hdone⟩ := hnext _ henter
    refine ⟨hle.trans hwalk.le, hwalk.remembers, hwalk.sound, ?_⟩
    intro r' hr' hmem hnot
    by_cases hmid : r'.identity ∈ w₁.walked
    · -- the identity just marked: whatever resolves to it is the bundle entered
      rw [hwalked, List.mem_append, List.mem_singleton] at hmid
      obtain ⟨there, d', -, -, hres⟩ := hr'
      rw [place_eq_of_identity_eq hres hr (hmid.resolve_left hnot)]
      exact hdone
    · exact hwalk.done r' hr' hmem hmid

theorem visitAll_walked {enter : Place → Closure → Option (Except LockError Closure)}
    (henter : Enters S root baseDir enter) (hhere : Reached S root baseDir here)
    (hds : ds ⊆ here.contract.referenceRefs) (hw : w.Remembers S)
    (hsound : w.Sound S root baseDir) (h : visitAll S enter here ds w = some (.ok w')) :
    w.Walked S root baseDir w' ∧
      ∀ d ∈ ds, ∃ r, resolveReference S d.ref here.dir = .ok r ∧
        r.entryOf here.fromID d ∈ w'.out := by
  induction ds generalizing w with
  | nil =>
    cases h
    exact ⟨.refl hw hsound, fun d hd => absurd hd List.not_mem_nil⟩
  | cons d ds ih =>
    have hd := hds List.mem_cons_self
    have hds' := List.Subset.trans (List.subset_cons_self d ds) hds
    -- the walk up to the next declaration, and the rest from there
    obtain ⟨w₁, hfirst, hrecorded, hrest⟩ : ∃ w₁, w.Walked S root baseDir w₁ ∧
        (∃ r, resolveReference S d.ref here.dir = .ok r ∧ r.entryOf here.fromID d ∈ w₁.out) ∧
        visitAll S enter here ds w₁ = some (.ok w') := by
      unfold visitAll at h
      split at h
      · cases h
      · rename_i w₁ hrec
        refine ⟨w₁, ?_, (hsound.record hw hhere hd hrec).2, h⟩
        exact hsound.walked_of_record hw hhere hd hrec (by simp) (fun _ => rfl)
      · rename_i child w₁ hrec
        split at h
        · cases h
        · cases h
        · rename_i w₂ hchild
          obtain ⟨hsound₁, r, hr, hout⟩ := hsound.record hw hhere hd hrec
          have hinside := henter child w₁ w₂ (reached_of_record hw hhere hd hrec)
            (Closure.record_eq_ok hw hrec).1 hsound₁ hchild
          refine ⟨w₂, ?_, ⟨r, hr, hinside.1.le.out hout⟩, h⟩
          apply hsound.walked_of_record hw hhere hd hrec
          · intro child' hchild'
            cases hchild'
            exact hinside
          · nofun
    obtain ⟨hlast, hall⟩ := ih hds' hfirst.remembers hfirst.sound hrest
    refine ⟨hfirst.trans hlast, ?_⟩
    rintro d' (_ | ⟨_, hd'⟩)
    · obtain ⟨r, hr, hout⟩ := hrecorded
      exact ⟨r, hr, hlast.le.out hout⟩
    · exact hall d' hd'

/-- A place that was walked is done, and so is every bundle entered on the way. -/
theorem visit_enters (n : Nat) :
    Enters S root baseDir (visit S n) := by
  induction n with
  | zero => nofun
  | succ n ih =>
    intro here w w' hhere hw hsound h
    unfold visit at h
    split at h
    · cases h
    · exact visitAll_walked ih hhere (List.Subset.refl _) hw hsound h

/-! ## The walk ends -/

theorem visitAll_keeps {P : Closure → Prop}
    (hrecord : ∀ w here d next w', P w → w.record S here d = .ok (next, w') → P w')
    {enter : Place → Closure → Option (Except LockError Closure)}
    (henter : ∀ here w w', P w → enter here w = some (.ok w') → P w')
    (hw : P w)
    (h : visitAll S enter here ds w = some (.ok w')) : P w' := by
  induction ds generalizing w with
  | nil =>
    cases h
    exact hw
  | cons d ds ih =>
    unfold visitAll at h
    split at h
    · cases h
    · rename_i w₁ hrec
      exact ih (hrecord _ _ _ _ _ hw hrec) h
    · rename_i child w₁ hrec
      split at h
      · cases h
      · cases h
      · rename_i w₂ hchild
        exact ih (henter _ _ _ (hrecord _ _ _ _ _ hw hrec) hchild) h

theorem visit_keeps {P : Closure → Prop}
    (hrecord : ∀ w here d next w', P w → w.record S here d = .ok (next, w') → P w') (n : Nat)
    (here : Place) (w w' : Closure) (hw : P w) (h : visit S n here w = some (.ok w')) : P w' := by
  induction n generalizing here w w' with
  | zero => cases h
  | succ n ih =>
    unfold visit at h
    split at h
    · cases h
    · exact visitAll_keeps hrecord ih hw h

theorem visit_le (n : Nat) (hw : w.Remembers S)
    (h : visit S n here w = some (.ok w')) : w.Le w' ∧ w'.Remembers S := by
  refine visit_keeps (P := fun w' => w.Le w' ∧ w'.Remembers S) ?_ n here w w' ⟨.refl w, hw⟩ h
  rintro w₁ there d next w₂ ⟨hle, hw₁⟩ hrec
  exact ⟨hle.trans (Closure.le_of_record hw₁ hrec), (Closure.record_eq_ok hw₁ hrec).1⟩

theorem nodup_occurrences {references : List Reference}
    (h : buildReferenceClosure S n root baseDir = some (.ok references)) :
    (references.map Reference.occurrence).Nodup := by
  obtain ⟨result, hvisit, hresult⟩ := Option.map_eq_some_iff.mp h
  obtain ⟨w, rfl⟩ : ∃ w, result = .ok w := by
    cases result with
    | error e => cases hresult
    | ok w => exact ⟨w, rfl⟩
  cases hresult
  refine (visit_keeps (P := fun w => w.Remembers S ∧ (w.out.map Reference.occurrence).Nodup) ?_ n
    _ {} w ⟨.empty, List.nodup_nil⟩ hvisit).2
  rintro w₁ there d next w₂ ⟨hw₁, hnodup⟩ hrec
  obtain ⟨hw₂, r, -, ⟨-, -, hout, -⟩ | ⟨hout, hnew, -⟩⟩ := Closure.record_eq_ok hw₁ hrec
  · exact ⟨hw₂, hout ▸ hnodup⟩
  · refine ⟨hw₂, ?_⟩
    rw [hout, List.map_append, List.nodup_append]
    refine ⟨hnodup, List.nodup_singleton _, ?_⟩
    simpa using hnew

theorem Closure.Le.unmarked_le (hle : w.Le w') (ids : List String) :
    (ids.filter (· ∉ w'.walked)).length ≤ (ids.filter (· ∉ w.walked)).length := by
  apply List.Sublist.length_le
  apply List.monotone_filter_right
  intro x hx
  simp only [decide_eq_true_eq] at hx ⊢
  exact fun hmem => hx (hle.walked hmem)

section Finite

variable {ids : List String} (hids : ∀ r, Met S root baseDir r → r.identity ∈ ids)

include hids

theorem visitAll_ne_none (hvisit : ∀ here w, Reached S root baseDir here →
      w.Remembers S → (ids.filter (· ∉ w.walked)).length < n → visit S n here w ≠ none)
    (hhere : Reached S root baseDir here)
    (hds : ds ⊆ here.contract.referenceRefs) (hw : w.Remembers S)
    (hn : (ids.filter (· ∉ w.walked)).length ≤ n) : visitAll S (visit S n) here ds w ≠ none := by
  induction ds generalizing w with
  | nil => nofun
  | cons d ds ih =>
    have hds' := List.Subset.trans (List.subset_cons_self d ds) hds
    unfold visitAll
    split
    · nofun
    · rename_i w₁ hrec
      have hle := (Closure.le_of_record hw hrec).unmarked_le ids
      exact ih hds' (Closure.record_eq_ok hw hrec).1 (by omega)
    · rename_i child w₁ hrec
      have hd := hds List.mem_cons_self
      have hchild := reached_of_record hw hhere hd hrec
      obtain ⟨hw₁, r, hr, ⟨hstop, -⟩ | ⟨-, -, ⟨hstop, -⟩ | ⟨-, hwalked, hnew⟩⟩⟩ :=
        Closure.record_eq_ok hw hrec
      · cases hstop
      · cases hstop
      -- a bundle not entered before is marked, which leaves one less
      have hlt := Support.length_unmarked_lt (hids r ⟨here, d, hhere, hd, hr⟩) hnew
      rw [← hwalked] at hlt
      split
      · rename_i hnone
        exact absurd hnone (hvisit child w₁ hchild hw₁ (by omega))
      · nofun
      · rename_i w₂ hinside
        obtain ⟨hle₂, hw₂⟩ := visit_le n hw₁ hinside
        have hle := hle₂.unmarked_le ids
        exact ih hds' hw₂ (by omega)

/-- A walk may go as deep as there are bundles it has not entered. -/
theorem visit_ne_none (n : Nat) (here : Place) (w : Closure) (hhere : Reached S root baseDir here)
    (hw : w.Remembers S) (hn : (ids.filter (· ∉ w.walked)).length < n) :
    visit S n here w ≠ none := by
  induction n generalizing here w with
  | zero => omega
  | succ n ih =>
    unfold visit
    split
    · nofun
    · exact visitAll_ne_none hids ih hhere (List.Subset.refl _) hw (by omega)

end Finite

/-! ## The closure is whole -/

/-- The identity of a bundle that was resolved names its contract. -/
theorem contract_eq_of_destinationID {ref ref' dir dir' : String} {r r' : RefResolution}
    (h : resolveReference S ref dir = .ok r) (h' : resolveReference S ref' dir' = .ok r')
    (heq : r.entry.destinationID = r'.entry.destinationID) :
    r.entry.destinationID ≠ "" ∧ r.child = r'.child := by
  rcases resolveReference_eq_ok h with
    ⟨-, path, b, hash, -, hb, hhash, rfl⟩ | ⟨-, p, hp, rfl⟩ <;>
  rcases resolveReference_eq_ok h' with
    ⟨-, path', b', hash', -, hb', hhash', rfl⟩ | ⟨-, p', hp', rfl⟩
  · have hne := S.hash_ne_empty hhash
    have hne' := S.hash_ne_empty hhash'
    obtain rfl : hash = hash' := by simpa [Reference.destinationID, hne, hne'] using heq
    exact ⟨by simp [Reference.destinationID, hne], S.hash_addressed hb hb' hhash hhash'⟩
  · have hne := S.hash_ne_empty hhash
    have hne' := (resolvePinned_eq_ok hp').2.2
    simp only [Reference.destinationID, hne, hne', if_true, if_false] at heq
    exact absurd heq (local_append_ne_oci _ _)
  · have hne := (resolvePinned_eq_ok hp).2.2
    have hne' := S.hash_ne_empty hhash'
    simp only [Reference.destinationID, hne, hne', if_true, if_false] at heq
    exact absurd heq.symm (local_append_ne_oci _ _)
  · have hne := (resolvePinned_eq_ok hp).2.2
    have hne' := (resolvePinned_eq_ok hp').2.2
    have hdigest : p.digest = p'.digest := by
      simpa [Reference.destinationID, hne, hne'] using heq
    exact ⟨by simp [Reference.destinationID, hne],
      congrArg Bundle.contract (bundle_eq_of_digest_eq hp hp' hdigest)⟩

/-- Equal content identities are those of one contract. -/
theorem Reached.contract_eq {there : Place} (h : Reached S root baseDir here)
    (h' : Reached S root baseDir there) (heq : here.fromID = there.fromID) :
    here.contract = there.contract := by
  cases h with
  | root =>
    cases h' with
    | root => rfl
    | step _ _ hr => exact absurd heq.symm (contract_eq_of_destinationID hr hr rfl).1
  | step _ _ hr =>
    cases h' with
    | root => exact absurd heq (contract_eq_of_destinationID hr hr rfl).1
    | step _ _ hr' => exact (contract_eq_of_destinationID hr hr' heq).2

/-- Every place reached has a twin of the same content that was walked: an entry
passed over was recorded for a bundle of the same content. -/
theorem exists_done_of_reached (halike : ResolvesAlike S root baseDir)
    (h : visit S n ⟨root, baseDir, ""⟩ {} = some (.ok w)) (hhere : Reached S root baseDir here) :
    ∃ there, Reached S root baseDir there ∧ there.fromID = here.fromID ∧ w.Done S there := by
  obtain ⟨hwalk, hroot⟩ := visit_enters n _ _ _ .root .empty nofun h
  induction hhere with
  | root => exact ⟨_, .root, rfl, hroot⟩
  | @step here d r hhere hd hr ih =>
    obtain ⟨there, hthere, hfrom, hdone⟩ := ih
    have hd' : d ∈ there.contract.referenceRefs := by
      rwa [hthere.contract_eq hhere hfrom]
    obtain ⟨r', hr', hout⟩ := hdone d hd'
    have hentry : r.entry = r'.entry := by
      simpa [hr, hr', Except.toOption] using halike here there hhere hthere hfrom.symm d hd
    obtain ⟨origin, d₀, r₀, horigin, hd₀, hr₀, heq, hwalked⟩ := hwalk.sound _ hout
    have hentry₀ : r'.entry = r₀.entry := by
      rw [← pin_entryOf hr' there.fromID d, ← pin_entryOf hr₀ origin.fromID d₀, heq]
    refine ⟨r₀.place, .step horigin hd₀ hr₀, ?_,
      hwalk.done r₀ ⟨origin, d₀, horigin, hd₀, hr₀⟩ hwalked List.not_mem_nil⟩
    change r₀.entry.destinationID = r.entry.destinationID
    rw [hentry, hentry₀]

theorem whole_of_alike (halike : ResolvesAlike S root baseDir)
    (h : visit S n ⟨root, baseDir, ""⟩ {} = some (.ok w)) : Whole S root baseDir w.out := by
  intro here hhere d hd
  obtain ⟨there, hthere, hfrom, hdone⟩ := exists_done_of_reached halike h hhere
  obtain ⟨r', hr', hout⟩ := hdone d (by rwa [hthere.contract_eq hhere hfrom])
  have hsame := halike here there hhere hthere hfrom.symm d hd
  rw [hr'] at hsame
  cases hr : resolveReference S d.ref here.dir with
  | error e => simp [hr, Except.toOption] at hsame
  | ok r =>
    have hentry : r.entry = r'.entry := by simpa [hr, Except.toOption] using hsame
    refine ⟨r, rfl, ?_⟩
    rw [RefResolution.entryOf, hentry, ← hfrom]
    exact hout

/-- A closure holds one entry for an occurrence, so a whole one resolves equal
contents alike. -/
theorem alike_of_whole {out : List Reference}
    (hnodup : (out.map Reference.occurrence).Nodup) (h : Whole S root baseDir out) :
    ResolvesAlike S root baseDir := by
  intro here there hhere hthere hfrom d hd
  obtain ⟨r, hr, hout⟩ := h here hhere d hd
  obtain ⟨r', hr', hout'⟩ := h there hthere d (by rwa [← hhere.contract_eq hthere hfrom])
  have hoccurrence : (r.entryOf here.fromID d).occurrence =
      (r'.entryOf there.fromID d).occurrence := by
    simp [RefResolution.entryOf, Reference.occurrence, hfrom]
  have heq := List.inj_on_of_nodup_map hnodup hout hout' hoccurrence
  simp only [hr, hr', Except.toOption, Option.map_some, Option.some.injEq]
  rw [← pin_entryOf hr here.fromID d, ← pin_entryOf hr' there.fromID d, heq]

/-- The walk ends, and a closure it returns is whole exactly if equal contents
resolve their references alike. -/
theorem reference_closure_whole (S : Sources F) (root : Contract) (baseDir : String)
    (ids : List String) (hids : ∀ r, Met S root baseDir r → r.identity ∈ ids)
    (n : Nat) (hn : ids.length < n) :
    ∃ result, buildReferenceClosure S n root baseDir = some result ∧
      ∀ out, result = .ok out → (Whole S root baseDir out ↔ ResolvesAlike S root baseDir) := by
  have hlength : (ids.filter (· ∉ ({} : Closure).walked)).length < n :=
    Nat.lt_of_le_of_lt (List.length_filter_le _ _) hn
  obtain ⟨result, hvisit⟩ := Option.ne_none_iff_exists'.mp
    (visit_ne_none hids n ⟨root, baseDir, ""⟩ {} .root .empty hlength)
  have hresult : buildReferenceClosure S n root baseDir = some (result.map Closure.out) := by
    simp [buildReferenceClosure, hvisit]
  refine ⟨result.map Closure.out, hresult, fun out hout => ?_⟩
  obtain ⟨w, rfl⟩ : ∃ w, result = .ok w := by
    cases result with
    | error e => cases hout
    | ok w => exact ⟨w, rfl⟩
  cases hout
  exact ⟨alike_of_whole (nodup_occurrences hresult),
    fun halike => whole_of_alike halike hvisit⟩

/-- Places that hold the root and whatever their references lead to hold every
place reached. -/
theorem Reached.mem_of_closed {places : List Place} (hroot : ⟨root, baseDir, ""⟩ ∈ places)
    (hclosed : ∀ here ∈ places, ∀ d ∈ here.contract.referenceRefs,
      ∀ r ∈ (resolveReference S d.ref here.dir).toOption, r.place ∈ places)
    (h : Reached S root baseDir here) : here ∈ places := by
  induction h with
  | root => exact hroot
  | step _ hd hr ih => exact hclosed _ ih _ hd _ (by simp [hr, Except.toOption])

def configured (name scope ref files : String) : Bundle String :=
  ⟨{ name := name, version := "1.0.0", configurations := [⟨scope, ref⟩] }, files⟩

def orgPolicy : Bundle String :=
  ⟨{ name := "org", version := "1.0.0", policies := [⟨"self", "oci://reg/org"⟩] }, "org files"⟩

/-- Two directories that refer to each other, and a copy of both. -/
def loopedSources : Sources String :=
  tableSources [("/w/base", configured "base" "common" "../common" "base files"),
    ("/w/common", configured "common" "back" "../base" "common files"),
    ("/w/copy/base", configured "base" "common" "../common" "base files"),
    ("/w/copy/common", configured "common" "back" "../base" "common files")]
    [("reg/org:1.0.0", orgPolicy, "sha256:1")] (by decide) (by decide)

def loopedRoot : Contract :=
  { name := "app", version := "1.0.0",
    configurations := [⟨"base", "./base"⟩, ⟨"copy", "./copy/base"⟩],
    policies := [⟨"org", "oci://reg/org"⟩] }

def loopedPlaces : List Place :=
  [⟨loopedRoot, "/w", ""⟩,
    ⟨(configured "base" "common" "../common" "").contract, "/w/base", "local:base files"⟩,
    ⟨(configured "common" "back" "../base" "").contract, "/w/common", "local:common files"⟩,
    ⟨(configured "base" "common" "../common" "").contract, "/w/copy/base", "local:base files"⟩,
    ⟨(configured "common" "back" "../base" "").contract, "/w/copy/common", "local:common files"⟩,
    ⟨orgPolicy.contract, ociBase, "oci:sha256:1"⟩]

def loopedIds : List String :=
  ["local:/w/base", "local:/w/common", "local:/w/copy/base", "local:/w/copy/common", "oci:sha256:1"]

theorem mem_loopedPlaces (h : Reached loopedSources loopedRoot "/w" here) :
    here ∈ loopedPlaces :=
  h.mem_of_closed (by decide) (by decide +kernel)

/-- Cyclic references on disk, in a copy of the directories and in the registry. -/
theorem reference_closure_whole_looped :
    ∃ result, buildReferenceClosure loopedSources 6 loopedRoot "/w" = some result ∧
      ∀ out, result = .ok out → Whole loopedSources loopedRoot "/w" out := by
  have hids : ∀ r, Met loopedSources loopedRoot "/w" r → r.identity ∈ loopedIds := by
    rintro r ⟨here, d, hhere, hd, hr⟩
    have hall : ∀ here ∈ loopedPlaces, ∀ d ∈ here.contract.referenceRefs,
        ∀ r ∈ (resolveReference loopedSources d.ref here.dir).toOption, r.identity ∈ loopedIds := by
      decide +kernel
    exact hall here (mem_loopedPlaces hhere) d hd r (by simp [hr, Except.toOption])
  obtain ⟨result, hresult, hwhole⟩ :=
    reference_closure_whole loopedSources loopedRoot "/w" loopedIds hids 6 (by decide)
  refine ⟨result, hresult, fun out hout => (hwhole out hout).mpr ?_⟩
  intro here there hhere hthere
  have hall : ∀ here ∈ loopedPlaces, ∀ there ∈ loopedPlaces, here.fromID = there.fromID →
      ∀ d ∈ here.contract.referenceRefs,
        (resolveReference loopedSources d.ref here.dir).toOption.map (·.entry) =
          (resolveReference loopedSources d.ref there.dir).toOption.map (·.entry) := by
    decide +kernel
  exact hall here (mem_loopedPlaces hhere) there (mem_loopedPlaces hthere)

/-- Two equal bundles refer to `../c`, where two equal bundles refer to `../x`,
where the bundles differ. -/
def twinSources : Sources String :=
  tableSources [("/w/p/a", configured "a" "shared" "../c" "a files"),
    ("/w/q/a", configured "a" "shared" "../c" "a files"),
    ("/w/p/c", configured "c" "leaf" "../x" "c files"),
    ("/w/q/c", configured "c" "leaf" "../x" "c files"),
    ("/w/p/x", ⟨{ name := "x", version := "1.0.0" }, "first files"⟩),
    ("/w/q/x", ⟨{ name := "x", version := "2.0.0" }, "second files"⟩)] [] (by decide) (by decide)

def twinRoot : Contract :=
  { name := "app", version := "1.0.0", configurations := [⟨"left", "./p/a"⟩, ⟨"right", "./q/a"⟩] }

/-- The bundle in `/w/q/c`. -/
def twinPlace : Place := ⟨(configured "c" "leaf" "../x" "").contract, "/w/q/c", "local:c files"⟩

theorem reached_twinPlace : Reached twinSources twinRoot "/w" twinPlace := by
  have hright : Reached twinSources twinRoot "/w"
      ⟨(configured "a" "shared" "../c" "").contract, "/w/q/a", "local:a files"⟩ :=
    .step (d := ⟨"config", "right", "./q/a"⟩)
      (r := ⟨{ source := "local", path := "./q/a", version := "1.0.0", contentHash := "a files" },
        (configured "a" "shared" "../c" "").contract, "/w/q/a", "local:/w/q/a"⟩)
      .root (by decide) (by decide +kernel)
  exact .step (d := ⟨"config", "shared", "../c"⟩)
    (r := ⟨{ source := "local", path := "../c", version := "1.0.0", contentHash := "c files" },
      twinPlace.contract, "/w/q/c", "local:/w/q/c"⟩) hright (by decide) (by decide +kernel)

def configEntry (fromID name path contentHash : String) : Reference :=
  { fromID := fromID, kind := "config", name := name, source := "local", path := path,
    version := "1.0.0", contentHash := contentHash }

/-- The second `../c` has the entry of the first, so the bundle behind it is
never entered: its `../x` resolves to files no entry records. -/
theorem reference_closure_loses_twin :
    ∃ out r, buildReferenceClosure twinSources 7 twinRoot "/w" = some (.ok out) ∧
      Reached twinSources twinRoot "/w" twinPlace ∧
      ⟨"config", "leaf", "../x"⟩ ∈ twinPlace.contract.referenceRefs ∧
      resolveReference twinSources "../x" twinPlace.dir = .ok r ∧
      r.entryOf twinPlace.fromID ⟨"config", "leaf", "../x"⟩ ∉ out :=
  ⟨[configEntry "" "left" "./p/a" "a files", configEntry "local:a files" "shared" "../c" "c files",
      configEntry "local:c files" "leaf" "../x" "first files",
      configEntry "" "right" "./q/a" "a files"],
    ⟨{ source := "local", path := "../x", version := "2.0.0", contentHash := "second files" },
      { name := "x", version := "2.0.0" }, "/w/q/x", "local:/w/q/x"⟩,
    by decide +kernel, reached_twinPlace, by decide, by decide +kernel, by decide⟩

end Pacto.Lock
