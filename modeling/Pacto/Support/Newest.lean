import Mathlib.Data.List.AList
import Mathlib.Data.List.Induction
import Mathlib.Order.Defs.Unbundled

/-!
# The newest entry of every key

A log is projected onto one entry per key: an entry takes the place of the one
that is kept under its key when it is newer.  If `newer` is a strict partial
order, what is kept is not beaten by any entry of its key, whatever the order of
the log.
-/

namespace Pacto.Support

variable {κ ρ : Type*} [DecidableEq κ] (key : ρ → κ) (newer : ρ → ρ → Prop) [DecidableRel newer]

/-- Keep `r` unless what is kept under its key is not older. -/
def keepNewer (latest : AList fun _ : κ => ρ) (r : ρ) : AList fun _ : κ => ρ :=
  match latest.lookup (key r) with
  | some cur => if newer r cur then latest.insert (key r) r else latest
  | none => latest.insert (key r) r

def newestPerKey (log : List ρ) : AList fun _ : κ => ρ := log.foldl (keepNewer key newer) ∅

/-- `r` is an entry of the log under `k` and no entry under `k` is newer. -/
structure Unbeaten (log : List ρ) (k : κ) (r : ρ) : Prop where
  mem : r ∈ log
  key_eq : key r = k
  not_newer : ∀ r' ∈ log, key r' = k → ¬ newer r' r

/-- What is kept after a log has been read. -/
structure Projects (log : List ρ) (latest : AList fun _ : κ => ρ) : Prop where
  unbeaten : ∀ {k r}, latest.lookup k = some r → Unbeaten key newer log k r
  kept : ∀ r ∈ log, latest.lookup (key r) ≠ none

variable {key newer}

theorem lookup_insert_iff {latest : AList fun _ : κ => ρ} {k k' : κ} {r r' : ρ} :
    (latest.insert k r).lookup k' = some r' ↔
      (k' = k ∧ r = r') ∨ (k' ≠ k ∧ latest.lookup k' = some r') := by
  by_cases h : k' = k
  · subst h
    simp [AList.lookup_insert]
  · simp [AList.lookup_insert_ne h, h]

variable [Std.Irrefl newer] [IsTrans ρ newer]

theorem Projects.keepNewer {log : List ρ} {latest : AList fun _ : κ => ρ}
    (h : Projects key newer log latest) (r : ρ) :
    Projects key newer (log ++ [r]) (keepNewer key newer latest r) := by
  -- entries under other keys are not touched, and `r` is no entry of theirs
  have hother : ∀ {k r'}, k ≠ key r → latest.lookup k = some r' →
      Unbeaten key newer (log ++ [r]) k r' := by
    intro k r' hk hl
    obtain ⟨hmem, hkey, hnot⟩ := h.unbeaten hl
    refine ⟨List.mem_append_left _ hmem, hkey, ?_⟩
    intro x hx hxk
    rcases List.mem_append.mp hx with hx | hx
    · exact hnot x hx hxk
    · rw [List.mem_singleton.mp hx] at hxk
      exact absurd hxk.symm hk
  have hinsert : Unbeaten key newer (log ++ [r]) (key r) r →
      Projects key newer (log ++ [r]) (latest.insert (key r) r) := by
    intro hr
    refine ⟨?_, ?_⟩
    · intro k r' hl
      rcases lookup_insert_iff.mp hl with ⟨rfl, rfl⟩ | ⟨hk, hl⟩
      · exact hr
      · exact hother hk hl
    · intro x hx
      by_cases hk : key x = key r
      · simp [hk]
      · rw [AList.lookup_insert_ne hk]
        rcases List.mem_append.mp hx with hx | hx
        · exact h.kept x hx
        · exact absurd (congrArg key (List.mem_singleton.mp hx)) hk
  unfold Support.keepNewer
  cases hcur : latest.lookup (key r) with
  | none =>
    refine hinsert ⟨by simp, rfl, ?_⟩
    intro x hx hk
    rcases List.mem_append.mp hx with hx | hx
    · exact absurd (hk ▸ hcur) (h.kept x hx)
    · rw [List.mem_singleton.mp hx]
      exact irrefl_of newer r
  | some cur =>
    obtain ⟨hmem, hkey, hnot⟩ := h.unbeaten hcur
    by_cases hnew : newer r cur
    · simp only [hnew, if_true]
      refine hinsert ⟨by simp, rfl, ?_⟩
      intro x hx hk hxr
      rcases List.mem_append.mp hx with hx | hx
      · exact hnot x hx hk (trans_of newer hxr hnew)
      · rw [List.mem_singleton.mp hx] at hxr
        exact irrefl_of newer r hxr
    · simp only [hnew, if_false]
      refine ⟨?_, ?_⟩
      · intro k r' hl
        by_cases hk : k = key r
        · subst hk
          cases hcur.symm.trans hl
          refine ⟨List.mem_append_left _ hmem, hkey, ?_⟩
          intro x hx hxk
          rcases List.mem_append.mp hx with hx | hx
          · exact hnot x hx hxk
          · rw [List.mem_singleton.mp hx]
            exact hnew
        · exact hother hk hl
      · intro x hx
        rcases List.mem_append.mp hx with hx | hx
        · exact h.kept x hx
        · rw [List.mem_singleton.mp hx, hcur]
          exact Option.some_ne_none cur

theorem projects_newestPerKey (key : ρ → κ) (newer : ρ → ρ → Prop) [DecidableRel newer]
    [Std.Irrefl newer] [IsTrans ρ newer] (log : List ρ) : Projects key newer log (newestPerKey key newer log) := by
  -- induction from the right: the fold reads the last entry last
  induction log using List.reverseRecOn with
  | nil => exact ⟨fun h => by simp [newestPerKey] at h, by simp⟩
  | append_singleton log r ih =>
    rw [newestPerKey, List.foldl_append, List.foldl_cons, List.foldl_nil]
    exact ih.keepNewer r

/-- An entry that is newer than every other one under its key is kept. -/
theorem lookup_newestPerKey_of_newer {log : List ρ} {r : ρ} (hmem : r ∈ log)
    (h : ∀ r' ∈ log, key r' = key r → r' ≠ r → newer r r') :
    (newestPerKey key newer log).lookup (key r) = some r := by
  have hproj := projects_newestPerKey key newer log
  obtain ⟨cur, hcur⟩ := Option.ne_none_iff_exists'.mp (hproj.kept r hmem)
  obtain ⟨hcmem, hckey, hnot⟩ := hproj.unbeaten hcur
  rw [hcur, Option.some.injEq]
  by_contra hne
  exact hnot r hmem rfl (h cur hcmem hckey hne)

/-- If any two entries under one key are ordered, the order of the log does not matter. -/
theorem lookup_newestPerKey_perm {log log' : List ρ} (hperm : log.Perm log')
    (htotal : ∀ r ∈ log, ∀ r' ∈ log, key r = key r' → r ≠ r' → newer r r' ∨ newer r' r) (k : κ) :
    (newestPerKey key newer log).lookup k = (newestPerKey key newer log').lookup k := by
  have hkept : ∀ {l l' : List ρ}, l.Perm log → l'.Perm log → ∀ {r},
      (newestPerKey key newer l).lookup k = some r →
      (newestPerKey key newer l').lookup k = some r := by
    intro l l' hl hl' r hr
    obtain ⟨hmem, rfl, hnot⟩ := (projects_newestPerKey key newer l).unbeaten hr
    have hmem' := hl.mem_iff.mp hmem
    refine lookup_newestPerKey_of_newer (hl'.mem_iff.mpr hmem') fun r' hr' hkey hne => ?_
    have hlog := hl'.mem_iff.mp hr'
    exact (htotal r' hlog r hmem' hkey hne).resolve_left (hnot r' (hl.mem_iff.mpr hlog) hkey)
  exact Option.ext fun r => ⟨hkept (.refl log) hperm.symm, hkept hperm.symm (.refl log)⟩

end Pacto.Support
