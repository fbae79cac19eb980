import Mathlib.Data.List.Dedup
import Mathlib.Data.List.Forall2
import Mathlib.Data.List.Sort

/-!
# Sorted lists and lists side by side

An insertion sort leaves a newest entry at the end, and what it makes of a set
does not depend on the list the set is given by.  Where keys are distinct, a key
finds its entry.  Of two lists that agree entry by entry, each entry of one has
its partner in the other.
-/

namespace Pacto.Support

variable {α : Type*}

/-! ## Insertion sort with a newest entry -/

section InsertionSort

variable (r : α → α → Prop) [DecidableRel r]

theorem orderedInsert_append_singleton {a b : α} (hab : r a b) (l : List α) :
    (l ++ [b]).orderedInsert r a = l.orderedInsert r a ++ [b] := by
  induction l with
  | nil => simp [hab]
  | cons c l ih =>
    by_cases hac : r a c
    · simp [hac]
    · simp only [List.cons_append, List.orderedInsert_cons, hac, if_false, ih]

/-- Sorting keeps an entry that comes after all others at the end. -/
theorem insertionSort_append_singleton {b : α} (l : List α) (h : ∀ a ∈ l, r a b) :
    (l ++ [b]).insertionSort r = l.insertionSort r ++ [b] := by
  induction l with
  | nil => simp
  | cons a l ih =>
    have htail := ih fun x hx => h x (List.mem_cons_of_mem _ hx)
    simp only [List.cons_append, List.insertionSort_cons, htail]
    exact orderedInsert_append_singleton r (h a (List.mem_cons_self ..)) _

end InsertionSort

/-! ## Sorting a set -/

section Sets

variable [LinearOrder α] {l l' : List α}

theorem insertionSort_eq_of_perm (h : l.Perm l') :
    l.insertionSort (· ≤ ·) = l'.insertionSort (· ≤ ·) := by
  apply List.Perm.eq_of_pairwise' (r := (· ≤ ·))
  · exact List.pairwise_insertionSort _ _
  · exact List.pairwise_insertionSort _ _
  · exact (List.perm_insertionSort _ l).trans (h.trans (List.perm_insertionSort _ l').symm)

theorem dedup_perm_of_mem_iff (h : ∀ x, x ∈ l ↔ x ∈ l') : l.dedup.Perm l'.dedup := by
  rw [List.perm_ext_iff_of_nodup (List.nodup_dedup _) (List.nodup_dedup _)]
  simpa using h

end Sets

/-! ## Entries with distinct keys -/

section Keys

variable {κ : Type*} {key : α → κ} {l : List α}

/-- Looking for the key of an entry finds that entry. -/
theorem find?_key_eq_some [DecidableEq κ] (h : (l.map key).Nodup) {a : α} (ha : a ∈ l) :
    l.find? (key · = key a) = some a := by
  cases hfound : l.find? (key · = key a) with
  | none => exact absurd (List.find?_eq_none.mp hfound a ha) (by simp)
  | some b =>
    have hkey : key b = key a := by simpa using List.find?_some hfound
    rw [List.inj_on_of_nodup_map h (List.mem_of_find?_eq_some hfound) ha hkey]

/-- Sorting by distinct keys forgets the order of the entries. -/
theorem insertionSort_key_eq_of_perm [LinearOrder κ] {l' : List α} (h : (l.map key).Nodup)
    (hperm : l.Perm l') :
    l.insertionSort (key · ≤ key ·) = l'.insertionSort (key · ≤ key ·) := by
  have htotal : Std.Total (key · ≤ key · : α → α → Prop) := ⟨fun _ _ => le_total _ _⟩
  have htrans : IsTrans α (key · ≤ key ·) := ⟨fun _ _ _ => le_trans⟩
  have hsort := List.perm_insertionSort (key · ≤ key ·) l
  have hsort' := List.perm_insertionSort (key · ≤ key ·) l'
  refine List.Perm.eq_of_pairwise ?_ (List.pairwise_insertionSort _ l)
    (List.pairwise_insertionSort _ l') (hsort.trans (hperm.trans hsort'.symm))
  intro a b ha hb hab hba
  rw [hsort.mem_iff] at ha
  rw [hsort'.mem_iff, ← hperm.mem_iff] at hb
  exact List.inj_on_of_nodup_map h ha hb (le_antisymm hab hba)

/-- A key that two entries have occurs twice. -/
theorem one_lt_count_map [DecidableEq κ] {a b : α} (ha : a ∈ l) (hb : b ∈ l) (hne : a ≠ b)
    (hkey : key a = key b) : 1 < (l.map key).count (key a) := by
  have hpos : ∀ {l' : List α} {c : α}, c ∈ l' → 0 < (l'.map key).count (key c) := fun hc =>
    List.count_pos_iff.mpr (List.mem_map_of_mem hc)
  induction l with
  | nil => cases ha
  | cons c l ih =>
    rw [List.map_cons, List.count_cons]
    rcases List.mem_cons.mp ha with rfl | ha'
    · rcases List.mem_cons.mp hb with rfl | hb'
      · exact absurd rfl hne
      · rw [if_pos (by simp), hkey]
        exact Nat.succ_lt_succ (hpos hb')
    · rcases List.mem_cons.mp hb with rfl | hb'
      · rw [if_pos (by simp [hkey])]
        exact Nat.succ_lt_succ (hpos ha')
      · exact Nat.lt_of_lt_of_le (ih ha' hb') (Nat.le_add_right _ _)

/-- Every key of one list is a key of the other, and one list gives each key one
value. -/
def Matches {β : Type*} (key : α → κ) (value : α → β) (l l' : List α) : Prop :=
  (∀ a ∈ l, ∃ b ∈ l', key b = key a) ∧ ∀ a ∈ l, ∀ a' ∈ l, key a = key a' → value a = value a'

instance {β : Type*} [DecidableEq κ] [DecidableEq β] (key : α → κ) (value : α → β)
    (l l' : List α) : Decidable (Matches key value l l') :=
  inferInstanceAs (Decidable (_ ∧ _))

/-- Where each entry of one list has the value that a look-up of its key finds in
the other, the lists give the same keys the same values exactly if they match. -/
theorem mem_pairs_iff_matches {β : Type*} {value : α → β} {l' : List α} {found : κ → Option α}
    (hfound : ∀ {k a}, found k = some a → a ∈ l ∧ key a = k)
    (h : ∀ b ∈ l', ∃ a, found (key b) = some a ∧ value a = value b) :
    (∀ x, x ∈ l.map (fun a => (key a, value a)) ↔ x ∈ l'.map fun b => (key b, value b)) ↔
      Matches key value l l' := by
  simp only [List.mem_map]
  constructor
  · intro hsame
    have hpartner : ∀ a ∈ l, ∃ b ∈ l', key b = key a ∧ value b = value a := by
      intro a ha
      obtain ⟨b, hb, heq⟩ := (hsame _).mp ⟨a, ha, rfl⟩
      exact ⟨b, hb, Prod.mk.inj heq⟩
    refine ⟨fun a ha => ?_, fun a ha a' ha' hkey => ?_⟩
    · obtain ⟨b, hb, hkey, -⟩ := hpartner a ha
      exact ⟨b, hb, hkey⟩
    · -- the partners of both are compared with one entry
      obtain ⟨b, hb, hkeyb, hvalue⟩ := hpartner a ha
      obtain ⟨b', hb', hkeyb', hvalue'⟩ := hpartner a' ha'
      obtain ⟨c, hc, hvaluec⟩ := h b hb
      obtain ⟨c', hc', hvaluec'⟩ := h b' hb'
      rw [hkeyb, hkey, ← hkeyb', hc', Option.some.injEq] at hc
      rw [← hvalue, ← hvaluec, ← hc, hvaluec', hvalue']
  · rintro ⟨hkeys, hone⟩ x
    constructor
    · rintro ⟨a, ha, rfl⟩
      obtain ⟨b, hb, hkey⟩ := hkeys a ha
      obtain ⟨c, hc, hvalue⟩ := h b hb
      obtain ⟨hmem, hkeyc⟩ := hfound hc
      exact ⟨b, hb, by rw [hkey, ← hvalue, hone c hmem a ha (hkeyc.trans hkey)]⟩
    · rintro ⟨b, hb, rfl⟩
      obtain ⟨c, hc, hvalue⟩ := h b hb
      obtain ⟨hmem, hkeyc⟩ := hfound hc
      exact ⟨c, hmem, by rw [hkeyc, hvalue]⟩

end Keys

/-! ## Lists side by side -/

section SideBySide

variable {β : Type*} {R : α → β → Prop} {l : List α} {l' : List β}

theorem forall₂_imp_of_mem {R' : α → β → Prop} (h : List.Forall₂ R l l')
    (himp : ∀ a ∈ l, ∀ b, R a b → R' a b) : List.Forall₂ R' l l' := by
  induction h with
  | nil => exact .nil
  | cons hab _ ih =>
    obtain ⟨ha, hl⟩ := List.forall_mem_cons.mp himp
    exact .cons (ha _ hab) (ih hl)

/-- Two lists beside a third one. -/
theorem forall₂_of_common {γ : Type*} {R' : α → γ → Prop} {l'' : List γ}
    (h : List.Forall₂ R l l') (h' : List.Forall₂ R' l l'') :
    List.Forall₂ (fun b c => ∃ a ∈ l, R a b ∧ R' a c) l' l'' := by
  induction h generalizing l'' with
  | nil =>
    cases h'
    exact .nil
  | cons hab _ ih =>
    cases h' with
    | cons hac hrest =>
      refine .cons ⟨_, List.mem_cons_self, hab, hac⟩ ((ih hrest).imp ?_)
      rintro b c ⟨a, ha, hR⟩
      exact ⟨a, List.mem_cons_of_mem _ ha, hR⟩

theorem exists_of_mem_left (h : List.Forall₂ R l l') {a : α} (ha : a ∈ l) : ∃ b ∈ l', R a b := by
  induction h with
  | nil => cases ha
  | cons hab _ ih =>
    rcases List.mem_cons.mp ha with rfl | ha
    · exact ⟨_, List.mem_cons_self, hab⟩
    · obtain ⟨b, hb, hR⟩ := ih ha
      exact ⟨b, List.mem_cons_of_mem _ hb, hR⟩

theorem exists_of_mem_right (h : List.Forall₂ R l l') {b : β} (hb : b ∈ l') : ∃ a ∈ l, R a b :=
  exists_of_mem_left h.flip hb

end SideBySide

/-! ## Lists made entry by entry -/

section MapM

variable {β ε : Type*} {f : α → Except ε β} {l : List α}

theorem forall₂_of_mapM {l' : List β} (h : l.mapM f = .ok l') :
    List.Forall₂ (fun a b => f a = .ok b) l l' := by
  induction l generalizing l' with
  | nil =>
    cases h
    exact .nil
  | cons a l ih =>
    rw [List.mapM_cons] at h
    cases hb : f a with
    | error e => simp [hb, bind, Except.bind] at h
    | ok b =>
      cases hl : l.mapM f with
      | error e => simp [hb, hl, bind, Except.bind] at h
      | ok l'' =>
        simp only [hb, hl, bind, Except.bind, pure, Except.pure] at h
        cases h
        exact .cons hb (ih hl)

/-- Entries that are made alike make the same list. -/
theorem mapM_congr_of_forall₂ {γ : Type*} {g : γ → Except ε β} {l' : List γ}
    (h : List.Forall₂ (fun a c => f a = g c) l l') : l.mapM f = l'.mapM g := by
  induction h with
  | nil => rfl
  | cons heq _ ih => rw [List.mapM_cons, List.mapM_cons, heq, ih]

theorem exists_of_mapM_error {e : ε} (h : l.mapM f = .error e) : ∃ a ∈ l, f a = .error e := by
  induction l with
  | nil => cases h
  | cons a l ih =>
    rw [List.mapM_cons] at h
    cases hb : f a with
    | error e' =>
      simp only [hb, bind, Except.bind] at h
      cases h
      exact ⟨a, List.mem_cons_self, hb⟩
    | ok b =>
      cases hl : l.mapM f with
      | error e' =>
        simp only [hb, hl, bind, Except.bind] at h
        cases h
        obtain ⟨a', ha', heq⟩ := ih hl
        exact ⟨a', List.mem_cons_of_mem _ ha', heq⟩
      | ok l' => simp [hb, hl, bind, Except.bind, pure, Except.pure] at h

end MapM

end Pacto.Support
