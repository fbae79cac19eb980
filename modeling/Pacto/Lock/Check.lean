import Pacto.Lock.Build
import Pacto.Lock.ReferenceWalk

/-!
# A lock that checks clean

`pacto lock --check` compares the lock on disk with one built afresh.  It looks
a dependency up by its service name, so services of one name are compared with
the first of them, and a name that the fresh lock lacks can go unnoticed; a
reference is looked up by its occurrence, of which a closure has one each.
-/

namespace Pacto.Lock

open Pacto.Graph

variable {F : Type} {S : Sources F} {quote : String → String}

/-! ## What a clean comparison says -/

theorem forM_eq_ok {α ε : Type} {f : α → Except ε PUnit} {l : List α} :
    l.forM f = .ok () ↔ ∀ a ∈ l, f a = .ok () := by
  induction l with
  | nil => simp [pure, Except.pure]
  | cons a l ih =>
    change (f a >>= fun _ => l.forM f) = .ok () ↔ _
    rw [List.forall_mem_cons, ← ih]
    cases hfa : f a with
    | error e => simp [bind, Except.bind]
    | ok u => simp [bind, Except.bind]

theorem compareLocks_eq_ok {existing fresh : LockFile} :
    compareLocks quote existing fresh = .ok () ↔
      existing.lockVersion = currentLockVersion ∧
      existing.dependencies.length = fresh.dependencies.length ∧
      (∀ e ∈ fresh.dependencies, compareDependency existing e = .ok ()) ∧
      existing.references.length = fresh.references.length ∧
      ∀ r ∈ fresh.references, compareReference quote existing r = .ok () := by
  rw [← forM_eq_ok, ← forM_eq_ok]
  unfold compareLocks
  by_cases hversion : existing.lockVersion = currentLockVersion
  · by_cases hdeps : existing.dependencies.length = fresh.dependencies.length
    · cases fresh.dependencies.forM (compareDependency existing) with
      | error e => simp [hversion, hdeps, bind, Except.bind]
      | ok u =>
        by_cases hrefs : existing.references.length = fresh.references.length <;>
          simp [hversion, hdeps, hrefs, bind, Except.bind, throw, throwThe, MonadExceptOf.throw]
    · simp [hversion, hdeps, bind, Except.bind, throw, throwThe, MonadExceptOf.throw]
  · simp [hversion, bind, Except.bind, throw, throwThe, MonadExceptOf.throw]

/-- Every entry of a lock carries one pin. -/
structure LockFile.WellPinned (l : LockFile) : Prop where
  dependencies : ∀ e ∈ l.dependencies, OnePin e.source e.digest e.contentHash
  references : ∀ r ∈ l.references, OnePin r.source r.digest r.contentHash

theorem eq_of_compareEntry {name source source' digest digest' hash hash' : String}
    (h : compareEntry name source' digest hash digest' hash' = .ok ())
    (hpin : OnePin source digest hash) (hpin' : OnePin source' digest' hash') :
    digest = digest' ∧ hash = hash' := by
  unfold compareEntry at h
  unfold OnePin at hpin hpin'
  by_cases hlocal : source' = "local"
  · rw [if_pos hlocal] at h hpin'
    have hhash : hash = hash' := by
      by_contra hne
      simp [hne] at h
    -- the other entry has a content hash too, so it is local
    have hsource : source = "local" := by
      by_contra hne
      rw [if_neg hne] at hpin
      exact hpin'.2 (hhash ▸ hpin.2)
    rw [if_pos hsource] at hpin
    exact ⟨hpin.1.trans hpin'.1.symm, hhash⟩
  · rw [if_neg hlocal] at h hpin'
    have hdigest : digest = digest' := by
      by_contra hne
      simp [hne] at h
    have hsource : source ≠ "local" := by
      intro heq
      rw [if_pos heq] at hpin
      exact hpin'.1 (hdigest ▸ hpin.1)
    rw [if_neg hsource] at hpin
    exact ⟨hdigest, hpin.2.trans hpin'.2.symm⟩

/-- Two locks pin the same dependencies and reference occurrences, each to the
same digest and content hash. -/
structure SamePins (existing fresh : LockFile) : Prop where
  dependencies : ∀ x, x ∈ existing.dependencies.map (fun e => (e.name, e.pins)) ↔
    x ∈ fresh.dependencies.map fun e => (e.name, e.pins)
  references : ∀ x, x ∈ existing.references.map (fun r => (r.occurrence, r.pins)) ↔
    x ∈ fresh.references.map fun r => (r.occurrence, r.pins)

/-- A lock names nothing that the fresh one lacks, and pins each name and each
occurrence one way. -/
structure Matched (existing fresh : LockFile) : Prop where
  dependencies : Support.Matches Entry.name Entry.pins existing.dependencies fresh.dependencies
  references : Support.Matches Reference.occurrence Reference.pins existing.references
    fresh.references

theorem dependency_eq_some {l : LockFile} {name : String} {e : Entry}
    (h : l.dependency name = some e) : e ∈ l.dependencies ∧ e.name = name :=
  ⟨List.mem_of_find?_eq_some h, by simpa using List.find?_some h⟩

theorem byID_eq_some {l : LockFile} {id : Occurrence} {r : Reference}
    (h : l.byID id = some r) : r ∈ l.references ∧ r.occurrence = id :=
  ⟨List.mem_reverse.mp (List.mem_of_find?_eq_some h), by simpa using List.find?_some h⟩

theorem exists_of_compareDependency {existing : LockFile} {fe : Entry}
    (hexisting : existing.WellPinned) (hfresh : OnePin fe.source fe.digest fe.contentHash)
    (h : compareDependency existing fe = .ok ()) :
    ∃ ee, existing.dependency fe.name = some ee ∧ ee.pins = fe.pins := by
  unfold compareDependency at h
  split at h
  · cases h
  · rename_i ee hfound
    have hpin := hexisting.dependencies ee (dependency_eq_some hfound).1
    exact ⟨ee, hfound, Prod.ext_iff.mpr (eq_of_compareEntry h hpin hfresh)⟩

theorem exists_of_compareReference {existing : LockFile} {fr : Reference}
    (hexisting : existing.WellPinned) (hfresh : OnePin fr.source fr.digest fr.contentHash)
    (h : compareReference quote existing fr = .ok ()) :
    ∃ er, existing.byID fr.occurrence = some er ∧ er.pins = fr.pins := by
  unfold compareReference at h
  simp only at h
  split at h
  · cases h
  · rename_i er hfound
    split at h
    · cases h
    · have hpin := hexisting.references er (byID_eq_some hfound).1
      exact ⟨er, hfound, Prod.ext_iff.mpr (eq_of_compareEntry h hpin hfresh)⟩

theorem samePins_iff_matched {existing fresh : LockFile} (hexisting : existing.WellPinned)
    (hfresh : fresh.WellPinned) (h : compareLocks quote existing fresh = .ok ()) :
    SamePins existing fresh ↔ Matched existing fresh := by
  obtain ⟨-, -, hdeps, -, hrefs⟩ := compareLocks_eq_ok.mp h
  have hdeps' := Support.mem_pairs_iff_matches dependency_eq_some fun fe hfe =>
    exists_of_compareDependency hexisting (hfresh.dependencies fe hfe) (hdeps fe hfe)
  have hrefs' := Support.mem_pairs_iff_matches byID_eq_some fun fr hfr =>
    exists_of_compareReference hexisting (hfresh.references fr hfr) (hrefs fr hfr)
  exact ⟨fun hsame => ⟨hdeps'.mp hsame.dependencies, hrefs'.mp hsame.references⟩,
    fun hmatched => ⟨hdeps'.mpr hmatched.dependencies, hrefs'.mpr hmatched.references⟩⟩

/-! ## A lock that was just written -/

/-- An entry as it is written. -/
def Entry.sorted (e : Entry) : Entry := { e with dependsOn := e.dependsOn.insertionSort (· ≤ ·) }

theorem perm_sorted_dependencies (l : LockFile) :
    l.sorted.dependencies.Perm (l.dependencies.map Entry.sorted) :=
  (List.perm_insertionSort _ _).map _

theorem perm_sorted_references (l : LockFile) : l.sorted.references.Perm l.references :=
  List.perm_insertionSort _ _

theorem LockFile.WellPinned.sorted {l : LockFile} (h : l.WellPinned) : l.sorted.WellPinned where
  dependencies e he := by
    obtain ⟨e', he', rfl⟩ := List.mem_map.mp ((perm_sorted_dependencies l).mem_iff.mp he)
    exact h.dependencies e' he'
  references r hr := h.references r ((perm_sorted_references l).mem_iff.mp hr)

theorem parse_marshal {Bytes : Type} (Y : Yaml Bytes) (l : LockFile) :
    parse Y (marshal Y l) = .ok l.sorted := by
  unfold parse marshal
  rw [Y.decode_encode]
  have hversion :
      ¬ (currentLockVersion < minLockVersion ∨ currentLockVersion < currentLockVersion) :=
    by decide
  exact if_neg hversion

/-- Equal pins compare clean. -/
theorem compareEntry_of_pins_eq {name source digest digest' hash hash' : String}
    (h : (digest, hash) = (digest', hash')) :
    compareEntry name source digest hash digest' hash' = .ok () := by
  cases h
  simp [compareEntry]

/-- A written lock compares clean with itself exactly if it pins each name one
way. -/
theorem compareLocks_sorted (quote : String → String) {l : LockFile} (hl : l.WellPinned)
    (hoccurrences : (l.references.map Reference.occurrence).Nodup) :
    compareLocks quote l.sorted l = .ok () ↔
      ∀ e ∈ l.dependencies, ∀ e' ∈ l.dependencies, e.name = e'.name → e.pins = e'.pins := by
  have hdeps := perm_sorted_dependencies l
  have hrefs := perm_sorted_references l
  constructor
  · intro h e he e' he' hname
    obtain ⟨-, -, hcompare, -⟩ := compareLocks_eq_ok.mp h
    obtain ⟨ee, hee, hpins⟩ :=
      exists_of_compareDependency hl.sorted (hl.dependencies e he) (hcompare e he)
    obtain ⟨ee', hee', hpins'⟩ :=
      exists_of_compareDependency hl.sorted (hl.dependencies e' he') (hcompare e' he')
    rw [hname, hee', Option.some.injEq] at hee
    rw [← hpins, ← hpins', hee]
  · intro hone
    refine compareLocks_eq_ok.mpr ⟨rfl, by simp [hdeps.length_eq], ?_, hrefs.length_eq, ?_⟩
    · intro e he
      have hmem : e.sorted ∈ l.sorted.dependencies := hdeps.mem_iff.mpr (List.mem_map_of_mem he)
      unfold compareDependency
      split
      · rename_i hnone
        exact absurd (List.find?_eq_none.mp hnone _ hmem) (by simp [Entry.sorted])
      · -- the first entry of the name is one of those the lock was written from
        rename_i ee hfound
        obtain ⟨hee, hname⟩ := dependency_eq_some hfound
        obtain ⟨e', he', rfl⟩ := List.mem_map.mp (hdeps.mem_iff.mp hee)
        exact compareEntry_of_pins_eq (hone e' he' e he hname)
    · intro r hr
      have hoccurrences' : (l.sorted.references.reverse.map Reference.occurrence).Nodup := by
        rw [List.map_reverse, List.nodup_reverse, (hrefs.map _).nodup_iff]
        exact hoccurrences
      have hmem : r ∈ l.sorted.references.reverse := List.mem_reverse.mpr (hrefs.mem_iff.mpr hr)
      have hfound : l.sorted.byID r.occurrence = some r :=
        Support.find?_key_eq_some hoccurrences' hmem
      simp only [compareReference, hfound, ne_eq, not_true_eq_false, or_self, if_false]
      exact compareEntry_of_pins_eq rfl

/-! ## The lock of a resolved graph -/

/-- The nodes of one name that the walk of a graph lists are pinned alike. -/
def PinnedAlike (S : Sources F) (E : Edges F) : Prop :=
  ∀ t ∈ (walkClosure E []).1, ∀ t' ∈ (walkClosure E []).1, t.2.1.name = t'.2.1.name →
    nodePins S t = nodePins S t'

instance (S : Sources F) (E : Edges F) : Decidable (PinnedAlike S E) :=
  inferInstanceAs (Decidable (∀ t ∈ (walkClosure E []).1, ∀ t' ∈ (walkClosure E []).1,
    t.2.1.name = t'.2.1.name → nodePins S t = nodePins S t'))

theorem onePin_of_resolveReference {ref dir : String} {r : RefResolution}
    (h : resolveReference S ref dir = .ok r) :
    OnePin r.entry.source r.entry.digest r.entry.contentHash := by
  rcases resolveReference_eq_ok h with
    ⟨-, _, _, _, -, -, hhash, rfl⟩ | ⟨-, p, hp, rfl⟩
  · exact ⟨rfl, S.hash_ne_empty hhash⟩
  · exact ⟨(resolvePinned_eq_ok hp).2.2, rfl⟩

section Locks

variable {version : String} {n : Nat} {root : Contract} {base : String} {answer : Result F}
  {l : LockFile}

theorem onePin_of_buildReferenceClosure {references : List Reference}
    (h : buildReferenceClosure S n root base = some (.ok references)) :
    ∀ r ∈ references, OnePin r.source r.digest r.contentHash := by
  obtain ⟨result, hvisit, hresult⟩ := Option.map_eq_some_iff.mp h
  obtain ⟨w, rfl⟩ : ∃ w, result = .ok w := by
    cases result with
    | error e => cases hresult
    | ok w => exact ⟨w, rfl⟩
  cases hresult
  obtain ⟨hwalk, -⟩ := visit_enters n _ _ _ .root .empty nofun hvisit
  intro e he
  obtain ⟨_, _, r, -, -, hr, rfl, -⟩ := hwalk.sound e he
  exact onePin_of_resolveReference hr

theorem wellPinned_of_lockOf (h : lockOf S version n root base answer = some (.ok l)) :
    l.WellPinned := by
  obtain ⟨hentries, hrefs⟩ := lockOf_eq_ok h
  refine ⟨fun e he => ?_, onePin_of_buildReferenceClosure hrefs⟩
  obtain ⟨t, -, heq⟩ := Support.exists_of_mem_right hentries he
  exact (entryFromEdge_pins heq).2.2

theorem pins_eq_iff_pinnedAlike (h : lockOf S version n root base answer = some (.ok l)) :
    (∀ e ∈ l.dependencies, ∀ e' ∈ l.dependencies, e.name = e'.name → e.pins = e'.pins) ↔
      PinnedAlike S answer.edges := by
  obtain ⟨hentries, -⟩ := lockOf_eq_ok h
  constructor
  · intro hone t ht t' ht' hname
    obtain ⟨e, he, heq⟩ := Support.exists_of_mem_left hentries ht
    obtain ⟨e', he', heq'⟩ := Support.exists_of_mem_left hentries ht'
    obtain ⟨hname₁, hpins, -⟩ := entryFromEdge_pins heq
    obtain ⟨hname₂, hpins', -⟩ := entryFromEdge_pins heq'
    rw [hpins, hpins', hone e he e' he' (by rw [hname₁, hname₂, hname])]
  · intro halike e he e' he' hname
    obtain ⟨t, ht, heq⟩ := Support.exists_of_mem_right hentries he
    obtain ⟨t', ht', heq'⟩ := Support.exists_of_mem_right hentries he'
    obtain ⟨hname₁, hpins, -⟩ := entryFromEdge_pins heq
    obtain ⟨hname₂, hpins', -⟩ := entryFromEdge_pins heq'
    have hsame := halike t ht t' ht' (by rw [← hname₁, ← hname₂, hname])
    rw [hpins, hpins'] at hsame
    exact Except.ok.inj hsame

end Locks

/-- An entry from a registry. -/
def imageEntry (name ref digest : String) : Entry :=
  { name := name, source := "oci", ref := ref, version := "1.0.0", digest := digest }

/-- A root with a service from a registry and the one of the same name from
another. -/
def mirrorRoot : Contract := dependent "root" ["oci://reg/a", "oci://mirror/a"]

def mirrorLock (digest digest' : String) : LockFile :=
  { pactoVersion := "1", rootName := "root", rootVersion := "1.0.0",
    dependencies := [imageEntry "a" "oci://reg/a" digest, imageEntry "a" "oci://mirror/a" digest'] }

/-- Both registries hold the same image. -/
def copiedSources : Sources String :=
  registrySources [("reg/a:1.0.0", dependentBundle "a" [], "sha256:1"),
    ("mirror/a:1.0.0", dependentBundle "a" [], "sha256:1")] (by decide)

/-- The registries hold two images of one version. -/
def mirrorSources : Sources String :=
  registrySources [("reg/a:1.0.0", dependentBundle "a" [], "sha256:1"),
    ("mirror/a:1.0.0", ⟨dependent "a" [], "other files"⟩, "sha256:2")] (by decide)

end Pacto.Lock
