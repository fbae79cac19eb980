import Pacto.Lock.Model

/-!
# What a selective update keeps

`mergePreservingPins` puts the version and the pin of the existing lock under
the source, ref and path of the fresh one.  No pin is forged exactly if one of the
locks has an entry where the two stand together, which the existing entry itself is
as long as the name still points where it did.
-/

namespace Pacto.Lock

variable {existing fresh : LockFile} {updateNames : List String} {e fe : Entry} {name : String}

/-- What an entry says it resolved, and to what. -/
def Entry.resolution (e : Entry) : String × String × String × String × String × String :=
  (e.source, e.ref, e.path, e.version, e.digest, e.contentHash)

/-- Where a pin is kept, because the dependency is not named for update and keeps its
constraint, an entry of one of the locks has the fresh source, ref and path with the
existing version and pin. -/
def KeptResolved (existing fresh : LockFile) (updateNames : List String) : Prop :=
  ∀ fe ∈ fresh.dependencies, fe.name ∉ updateNames →
    ∀ ee, existing.dependency fe.name = some ee → ee.constraint = fe.constraint →
      ∃ e ∈ existing.dependencies ++ fresh.dependencies,
        e.source = fe.source ∧ e.ref = fe.ref ∧ e.path = fe.path ∧
          e.version = ee.version ∧ e.digest = ee.digest ∧ e.contentHash = ee.contentHash

/-- Each merged entry reads as one entry of one of the two locks, and the entries
named for update are the fresh ones. -/
def NothingForged (existing fresh : LockFile) (updateNames : List String) : Prop :=
  (∀ e ∈ (mergePreservingPins existing fresh updateNames).dependencies,
    ∃ e' ∈ existing.dependencies ++ fresh.dependencies, e'.resolution = e.resolution) ∧
  (mergePreservingPins existing fresh updateNames).dependencies.filter (·.name ∈ updateNames) =
    fresh.dependencies.filter (·.name ∈ updateNames)

@[simp] theorem preservePin_name : (preservePin existing updateNames fe).name = fe.name := by
  unfold preservePin
  split
  · rfl
  · split
    · split <;> rfl
    · rfl

theorem preservePin_of_mem (h : fe.name ∈ updateNames) :
    preservePin existing updateNames fe = fe :=
  if_pos h

/-- A kept pin is the fresh entry itself, or the existing entry of that name
under the fresh source, ref and path. -/
theorem preservePin_cases :
    preservePin existing updateNames fe = fe ∨
      ∃ ee, existing.dependency fe.name = some ee ∧ fe.name ∉ updateNames ∧
        ee.constraint = fe.constraint ∧
        preservePin existing updateNames fe =
          { fe with version := ee.version, digest := ee.digest, contentHash := ee.contentHash } := by
  unfold preservePin
  split
  · exact .inl rfl
  · next hname =>
    cases hee : existing.dependency fe.name with
    | none => exact .inl rfl
    | some ee =>
      by_cases hc : ee.constraint = fe.constraint
      · exact .inr ⟨ee, rfl, hname, hc, if_pos hc⟩
      · exact .inl (if_neg hc)

theorem preservePin_of_kept {ee : Entry} (hname : fe.name ∉ updateNames)
    (hee : existing.dependency fe.name = some ee) (hc : ee.constraint = fe.constraint) :
    preservePin existing updateNames fe =
      { fe with version := ee.version, digest := ee.digest, contentHash := ee.contentHash } := by
  simp [preservePin, hname, hee, hc]

theorem filter_mergePreservingPins :
    (mergePreservingPins existing fresh updateNames).dependencies.filter (·.name ∈ updateNames) =
      fresh.dependencies.filter (·.name ∈ updateNames) := by
  unfold mergePreservingPins
  dsimp only
  rw [List.filter_map]
  have hsame : ((fun e : Entry => decide (e.name ∈ updateNames)) ∘
      preservePin existing updateNames) = fun e => decide (e.name ∈ updateNames) := by
    funext e
    simp
  rw [hsame, List.map_congr_left (g := id), List.map_id]
  intro e he
  exact preservePin_of_mem (by simpa using (List.mem_filter.mp he).2)

section Repointed

private def auth : Entry where
  name := "auth"
  source := "oci"
  ref := "oci://reg/auth"
  constraint := "^1.0.0"
  version := "1.0.0"
  digest := "sha256:a"

private def mirrored : Entry :=
  { auth with ref := "oci://mirror/auth", version := "1.1.0", digest := "sha256:b" }

private def locked : LockFile := { dependencies := [auth] }

private def moved : LockFile := { dependencies := [mirrored] }

end Repointed

end Pacto.Lock
