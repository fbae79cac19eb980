import Pacto.Support.Assoc
import Pacto.Publish.Model

/-!
# What publishing adds to a registry

No call of a run takes anything back.  Pushing and signing leave the tags alone,
and a tag is written only where the registry has none.
-/

namespace Pacto.Publish

open Support Attempt

variable {C : Type}
variable {repo digest tag d : String}

/-! ## Growing registries -/

/-- Nothing is lost and no tag moves. -/
structure Grows (r r' : Registry C) : Prop where
  tag : ∀ repo tag d, r.tag repo tag = some d → r'.tag repo tag = some d
  manifest : ∀ k m, r.manifests.lookup k = some m → r'.manifests.lookup k = some m
  referrer : ∀ e ∈ r.referrers, e ∈ r'.referrers
  signed : ∀ e ∈ r.signed, e ∈ r'.signed

/-- Nothing is lost and the tags are the same. -/
structure Adds (r r' : Registry C) : Prop extends Grows r r' where
  tags_eq : r'.tags = r.tags

theorem Grows.refl (r : Registry C) : Grows r r :=
  ⟨fun _ _ _ h => h, fun _ _ h => h, fun _ h => h, fun _ h => h⟩

theorem Grows.trans {r₁ r₂ r₃ : Registry C} (h : Grows r₁ r₂) (h' : Grows r₂ r₃) :
    Grows r₁ r₃ where
  tag repo tag d hd := h'.tag repo tag d (h.tag repo tag d hd)
  manifest k m hm := h'.manifest k m (h.manifest k m hm)
  referrer e he := h'.referrer e (h.referrer e he)
  signed e he := h'.signed e (h.signed e he)

theorem Adds.refl (r : Registry C) : Adds r r := ⟨Grows.refl r, rfl⟩

theorem Adds.trans {r₁ r₂ r₃ : Registry C} (h : Adds r₁ r₂) (h' : Adds r₂ r₃) : Adds r₁ r₃ :=
  ⟨h.toGrows.trans h'.toGrows, h'.tags_eq.trans h.tags_eq⟩

theorem Adds.tag_eq {r r' : Registry C} (h : Adds r r') (repo tag : String) :
    r'.tag repo tag = r.tag repo tag := by
  unfold Registry.tag
  rw [h.tags_eq]

theorem Grows.holds {r r' : Registry C} (h : Grows r r')
    (hr : r.holds repo digest = true) : r'.holds repo digest = true := by
  obtain ⟨m, hm⟩ := Option.isSome_iff_exists.mp hr
  exact Option.isSome_iff_exists.mpr ⟨m, h.manifest _ m hm⟩

namespace Registry

variable {r : Registry C}

theorem holds_of_tag (h : r.tag repo tag = some d) :
    r.holds repo d = true :=
  r.tag_exists _ (mem_of_lookup_eq_some h)

theorem holds_of_referrer {type : String}
    (h : ((repo, digest, type), d) ∈ r.referrers) : r.holds repo d = true :=
  r.referrer_exists _ h

theorem head_eq_none (h : r.head repo tag = none) : r.tag repo tag = none := by
  cases htag : r.tag repo tag with
  | none => rfl
  | some d =>
    obtain ⟨m, hm⟩ := Option.isSome_iff_exists.mp (holds_of_tag htag)
    simp [head, htag, hm] at h

theorem tag_of_head {m : Remote} (h : r.head repo tag = some m) :
    r.tag repo tag = some m.digest := by
  cases htag : r.tag repo tag with
  | none => simp [head, htag] at h
  | some d =>
    obtain ⟨manifest, hm⟩ := Option.isSome_iff_exists.mp (holds_of_tag htag)
    simp only [head, htag, hm, Option.bind_eq_bind, Option.bind_some, Option.pure_def,
      Option.some.injEq] at h
    rw [← h]

theorem verify_eq_none :
    r.verify repo digest = none ↔ (repo, digest) ∈ r.signed := by
  unfold verify
  split
  · next h => simp [h]
  · next h => simp [h]

theorem mem_referrersOf {type : String} :
    d ∈ r.referrersOf repo digest type ↔ ((repo, digest, type), d) ∈ r.referrers := by
  simp [referrersOf]

theorem write_eq_or (repo digest : String) (m : Manifest C) :
    r.write repo digest m = r ∨ r.holds repo digest = false ∧
      (r.write repo digest m).manifests = ((repo, digest), m) :: r.manifests := by
  unfold write
  split
  · exact .inl rfl
  · next h => exact .inr ⟨by simpa using h, rfl⟩

theorem write_tags (repo digest : String) (m : Manifest C) :
    (r.write repo digest m).tags = r.tags := by
  unfold write
  split <;> rfl

theorem write_referrers (repo digest : String) (m : Manifest C) :
    (r.write repo digest m).referrers = r.referrers := by
  unfold write
  split <;> rfl

theorem write_signed (repo digest : String) (m : Manifest C) :
    (r.write repo digest m).signed = r.signed := by
  unfold write
  split <;> rfl

theorem adds_write (repo digest : String) (m : Manifest C) : Adds r (r.write repo digest m) where
  tag repo' tag d hd := by
    unfold Registry.tag at hd ⊢
    rw [write_tags]
    exact hd
  manifest k m' hm := by
    rcases write_eq_or repo digest m with heq | ⟨hnew, heq⟩
    · rw [heq]
      exact hm
    · rw [heq, List.lookup_cons]
      have hne : (k == (repo, digest)) = false := by
        by_contra hk
        have hk' : k = (repo, digest) := by simpa using hk
        subst hk'
        simp [Registry.holds, hm] at hnew
      rw [hne]
      exact hm
  referrer e he := by
    rw [write_referrers]
    exact he
  signed e he := by
    rw [write_signed]
    exact he
  tags_eq := write_tags repo digest m

theorem adds_attach (repo digest type referrer : String) (m : Manifest C) :
    Adds r (r.attach repo digest type referrer m) :=
  (adds_write repo referrer m).trans
    ⟨⟨fun _ _ _ h => h, fun _ _ h => h, fun _ he => List.mem_append_left _ he, fun _ h => h⟩, rfl⟩

theorem mem_referrers_attach (repo digest type referrer : String) (m : Manifest C) :
    ((repo, digest, type), referrer) ∈ (r.attach repo digest type referrer m).referrers :=
  List.mem_append_right _ (List.mem_singleton.mpr rfl)

theorem adds_sign (repo digest : String) : Adds r (r.sign repo digest) :=
  ⟨⟨fun _ _ _ h => h, fun _ _ h => h, fun _ h => h, fun _ h => List.mem_cons_of_mem _ h⟩, rfl⟩

/-! ## Writing a tag -/

theorem tag_setTag_self (h : r.holds repo digest = true) :
    (r.setTag repo digest tag).tag repo tag = some digest := by
  simp [setTag, h, Registry.tag]

theorem tag_setTag_of_ne {repo' tag' : String}
    (hne : (repo', tag') ≠ (repo, tag)) :
    (r.setTag repo digest tag).tag repo' tag' = r.tag repo' tag' := by
  unfold setTag
  split
  · have hbeq : ((repo', tag') == (repo, tag)) = false := by simpa using hne
    unfold Registry.tag
    rw [List.lookup_cons, hbeq]
    have hkeep := lookup_filter_fst (l := r.tags) (a := (repo', tag'))
      (p := fun k => decide (k ≠ (repo, tag))) (decide_eq_true hne)
    exact hkeep
  · rfl

theorem manifests_setTag (repo digest tag : String) :
    (r.setTag repo digest tag).manifests = r.manifests := by
  unfold setTag
  split <;> rfl

theorem referrers_setTag (repo digest tag : String) :
    (r.setTag repo digest tag).referrers = r.referrers := by
  unfold setTag
  split <;> rfl

theorem signed_setTag (repo digest tag : String) :
    (r.setTag repo digest tag).signed = r.signed := by
  unfold setTag
  split <;> rfl

end Registry

/-! ## Calls -/

section Calls

variable {P : Run C → Prop} {E : Run C → Prop}

theorem triple_look {α : Type} {f : Registry C → α} {Q : α → Run C → Prop}
    (hok : ∀ s, P s → Q (f s.registry) s) (herr : ∀ s, P s → E s) :
    Triple P (look f) Q E := by
  refine Triple.bind Triple.ask fun a => ?_
  cases a.err with
  | none => exact Triple.read hok
  | some e => exact Triple.fail herr

theorem triple_put {f : Registry C → Registry C} {Q : Unit → Run C → Prop}
    (hok : ∀ s, P s → Q () { s with registry := f s.registry })
    (htook : ∀ s, P s → E { s with registry := f s.registry }) (herr : ∀ s, P s → E s) :
    Triple P (put f) Q E := by
  refine Triple.bind Triple.ask fun a => ?_
  cases a.err with
  | none => exact Triple.modify hok
  | some e =>
    refine Triple.ite (fun _ => ?_) fun _ => ?_
    · have hmod : Triple P
          (Attempt.modify (fun s => { s with registry := f s.registry }) : Step C Unit)
          (fun _ => E) E := Triple.modify htook
      exact Triple.bind hmod fun _ => Triple.fail fun _ h => h
    · exact Triple.fail herr

theorem triple_make {Q : String → Run C → Prop} (hok : ∀ s hash, P s → Q (digestOf hash) s)
    (herr : ∀ s, P s → E s) : Triple P make Q E := by
  refine Triple.bind Triple.ask fun a => ?_
  cases a.err with
  | none => exact Triple.pure fun s => hok s a.hash
  | some e => exact Triple.fail herr

theorem keeps_look {α : Type} {R : Run C → Run C → Prop} [Std.Refl R] (f : Registry C → α) :
    Keeps R (look f) :=
  keeps_iff.mpr fun s => triple_look (fun _ h => h ▸ refl_of R s) fun _ h => h ▸ refl_of R s

end Calls

end Pacto.Publish
