import Mathlib.Data.List.Infix
import Mathlib.Data.List.Range

/-!
# Versioned registers with a lagging cache

An object in a versioned store is written by optimistic concurrency: a writer
reads a version, changes its copy and writes it back, and the store refuses
the write when another version came in between.  Readers may also read a
cache, which shows an older version and catches up one version at a time.

A `Register` keeps every version an object had.  The version number of an
entry is its place in that history, so a copy identifies the entry it was
read from.
-/

namespace Pacto.Support

/-- Objects that carry their version number. -/
class Resource (α : Type*) where
  version : α → Nat
  withVersion : Nat → α → α
  version_withVersion : ∀ n a, version (withVersion n a) = n

/-- The versions of one object, oldest first, and how many of them the cache
has been shown. -/
structure Register (α : Type*) [Resource α] where
  versions : List α
  delivered : Nat := 0
  nonempty : versions ≠ []
  numbered : ∀ i a, versions[i]? = some a → Resource.version a = i
  delivered_le : delivered ≤ versions.length

namespace Register

variable {α : Type*} [Resource α]

omit [Resource α] in
theorem le_length_snoc {vs : List α} {n : ℕ} {a : α} (h : n ≤ vs.length) :
    n ≤ (vs ++ [a]).length := by
  rw [List.length_append]
  omega

theorem numbered_snoc {vs : List α} (h : ∀ i a, vs[i]? = some a → Resource.version a = i) (a : α) :
    ∀ i b, (vs ++ [Resource.withVersion vs.length a])[i]? = some b → Resource.version b = i := by
  intro i b hb
  rcases Nat.lt_trichotomy i vs.length with hlt | rfl | hgt
  · rw [List.getElem?_append_left hlt] at hb
    exact h i b hb
  · have hab : Resource.withVersion vs.length a = b := by simpa using hb
    rw [← hab, Resource.version_withVersion]
  · rw [List.getElem?_eq_none (by simp; omega)] at hb
    cases hb

/-- The register of an object nobody has written to yet. -/
def create (a : α) : Register α where
  versions := [Resource.withVersion 0 a]
  nonempty := by simp
  numbered := @numbered_snoc α _ [] (by simp) a
  delivered_le := by simp

/-- The stored version. -/
def latest (r : Register α) : α := r.versions.getLast r.nonempty

/-- The version the cache shows, if it has been shown one. -/
def cached (r : Register α) : Option α := (r.versions.take r.delivered).getLast?

/-- Store `a` as the newest version. -/
def write (r : Register α) (a : α) : Register α where
  versions := r.versions ++ [Resource.withVersion r.versions.length a]
  delivered := r.delivered
  nonempty := by simp
  numbered := numbered_snoc r.numbered a
  delivered_le := le_length_snoc r.delivered_le

/-- Show the cache the next version. -/
def deliver (r : Register α) : Register α :=
  { r with
    delivered := min (r.delivered + 1) r.versions.length
    delivered_le := by omega }

/-- Each write, as the version it was made over and the one it stored. -/
def writes (r : Register α) : List (α × α) := r.versions.zip r.versions.tail

/-- Write `a` back, unless it is a copy of an older version. -/
def swap (r : Register α) (a : α) : Option (Register α) :=
  if Resource.version a = Resource.version r.latest then some (r.write a) else none

section Lemmas

variable (r : Register α) (a : α)

@[simp] theorem versions_create : (create a).versions = [Resource.withVersion 0 a] := rfl

@[simp] theorem latest_create : (create a).latest = Resource.withVersion 0 a := rfl

@[simp] theorem delivered_create : (create a).delivered = 0 := rfl

@[simp] theorem versions_write :
    (r.write a).versions = r.versions ++ [Resource.withVersion r.versions.length a] :=
  rfl

@[simp] theorem delivered_write : (r.write a).delivered = r.delivered := rfl

@[simp] theorem latest_write :
    (r.write a).latest = Resource.withVersion r.versions.length a := by
  simp [latest]

theorem writes_write :
    (r.write a).writes = r.writes ++ [(r.latest, Resource.withVersion r.versions.length a)] := by
  have hlen : r.versions.dropLast.length = r.versions.tail.length := by simp
  have htail : (r.write a).versions.tail =
      r.versions.tail ++ [Resource.withVersion r.versions.length a] := by
    rw [versions_write, List.tail_append_of_ne_nil r.nonempty]
  have hsplit : r.versions = r.versions.dropLast ++ [r.latest] :=
    (List.dropLast_append_getLast r.nonempty).symm
  have hwrites : r.writes = r.versions.dropLast.zip r.versions.tail := by
    calc
      r.writes = (r.versions.dropLast ++ [r.latest]).zip (r.versions.tail ++ []) := by
        rw [← hsplit, List.append_nil]
        rfl
      _ = r.versions.dropLast.zip r.versions.tail ++ [r.latest].zip [] := List.zip_append hlen
      _ = r.versions.dropLast.zip r.versions.tail := by simp
  calc
    (r.write a).writes =
        (r.versions.dropLast ++ [r.latest, Resource.withVersion r.versions.length a]).zip
          (r.versions.tail ++ [Resource.withVersion r.versions.length a]) := by
      rw [writes, htail, versions_write]
      nth_rewrite 1 [hsplit]
      simp
    _ = r.versions.dropLast.zip r.versions.tail ++
          [(r.latest, Resource.withVersion r.versions.length a)] := by
      rw [List.zip_append hlen]
      rfl
    _ = r.writes ++ [(r.latest, Resource.withVersion r.versions.length a)] := by rw [hwrites]

@[simp] theorem versions_deliver : r.deliver.versions = r.versions := rfl

@[simp] theorem latest_deliver : r.deliver.latest = r.latest := rfl

theorem delivered_le_deliver : r.delivered ≤ r.deliver.delivered := by
  have hle := r.delivered_le
  simp only [deliver]
  omega

theorem latest_mem : r.latest ∈ r.versions := List.getLast_mem r.nonempty

theorem getElem?_latest : r.versions[r.versions.length - 1]? = some r.latest := by
  rw [← List.getLast?_eq_getElem?, List.getLast?_eq_some_getLast r.nonempty]
  rfl

theorem version_latest : Resource.version r.latest = r.versions.length - 1 :=
  r.numbered _ _ r.getElem?_latest

end Lemmas

variable {r r' : Register α} {a : α}

theorem exists_getElem?_of_mem (h : a ∈ r.versions) :
    r.versions[Resource.version a]? = some a := by
  obtain ⟨i, hi⟩ := List.mem_iff_getElem?.mp h
  rw [r.numbered i a hi]
  exact hi

theorem version_lt (h : a ∈ r.versions) : Resource.version a < r.versions.length :=
  (List.getElem?_eq_some_iff.mp (exists_getElem?_of_mem h)).1

theorem version_le_latest (h : a ∈ r.versions) :
    Resource.version a ≤ Resource.version r.latest := by
  have hlt := version_lt h
  rw [version_latest]
  omega

/-- A copy with the stored version number is a copy of the stored version. -/
theorem eq_latest_of_version (h : a ∈ r.versions)
    (hversion : Resource.version a = Resource.version r.latest) : a = r.latest := by
  have ha := exists_getElem?_of_mem h
  rw [hversion, version_latest, getElem?_latest] at ha
  exact (Option.some.inj ha).symm

theorem mem_of_cached (h : r.cached = some a) : a ∈ r.versions :=
  List.mem_of_mem_take (List.mem_of_getLast? h)

theorem version_lt_of_cached (h : r.cached = some a) : Resource.version a < r.delivered := by
  have hlen : (r.versions.take r.delivered)[(r.versions.take r.delivered).length - 1]? = some a := by
    rw [← List.getLast?_eq_getElem?]
    exact h
  have hne : r.versions.take r.delivered ≠ [] := by
    intro hnil
    simp [cached, hnil] at h
  have hpos : 0 < (r.versions.take r.delivered).length := List.length_pos_iff.mpr hne
  have hle : (r.versions.take r.delivered).length ≤ r.delivered := by
    rw [List.length_take]
    omega
  rw [List.getElem?_take_of_lt (by omega)] at hlen
  rw [r.numbered _ _ hlen]
  omega

theorem version_le_cached {b : α} (h : r.cached = some a) (hb : b ∈ r.versions)
    (hdelivered : Resource.version b < r.delivered) :
    Resource.version b ≤ Resource.version a := by
  have hmem := exists_getElem?_of_mem hb
  have hlt : Resource.version b < r.versions.length := by
    by_contra hge
    rw [List.getElem?_eq_none (by omega)] at hmem
    cases hmem
  have hlen : (r.versions.take r.delivered).length = min r.delivered r.versions.length :=
    List.length_take
  have hlast : (r.versions.take r.delivered)[(r.versions.take r.delivered).length - 1]? = some a := by
    rw [← List.getLast?_eq_getElem?]
    exact h
  rw [List.getElem?_take_of_lt (by omega)] at hlast
  rw [r.numbered _ _ hlast, hlen]
  omega

theorem isSome_cached (h : 0 < r.delivered) : r.cached.isSome := by
  have hpos : 0 < r.versions.length := List.length_pos_iff.mpr r.nonempty
  rw [cached, List.getLast?_isSome]
  intro hnil
  have hzero : (r.versions.take r.delivered).length = 0 := by rw [hnil]; rfl
  rw [List.length_take] at hzero
  omega

theorem mem_writes_iff {b : α} :
    (a, b) ∈ r.writes ↔ ∃ i : Nat, r.versions[i]? = some a ∧ r.versions[i + 1]? = some b := by
  simp only [writes, List.mem_iff_getElem?, List.getElem?_zip_eq_some, List.getElem?_tail]

/-! ## Growth -/

/-- `r'` is `r` after some writes and deliveries. -/
structure Grows (r r' : Register α) : Prop where
  versions : r.versions <+: r'.versions
  delivered : r.delivered ≤ r'.delivered

namespace Grows

@[refl] theorem refl (r : Register α) : Grows r r := ⟨List.prefix_rfl, le_rfl⟩

theorem trans {r'' : Register α} (h : Grows r r') (h' : Grows r' r'') : Grows r r'' :=
  ⟨h.versions.trans h'.versions, h.delivered.trans h'.delivered⟩

theorem write (r : Register α) (a : α) : Grows r (r.write a) :=
  ⟨List.prefix_append _ _, le_rfl⟩

theorem deliver (r : Register α) : Grows r r.deliver :=
  ⟨List.prefix_rfl, r.delivered_le_deliver⟩

theorem mem (h : Grows r r') (ha : a ∈ r.versions) : a ∈ r'.versions :=
  h.versions.subset ha

theorem getElem? (h : Grows r r') {i : Nat} (ha : r.versions[i]? = some a) :
    r'.versions[i]? = some a := by
  obtain ⟨rest, hrest⟩ := h.versions
  have hlt : i < r.versions.length := (List.getElem?_eq_some_iff.mp ha).1
  rw [← hrest, List.getElem?_append_left hlt]
  exact ha

theorem mem_writes (h : Grows r r') {w : α × α} (hw : w ∈ r.writes) : w ∈ r'.writes := by
  obtain ⟨i, hfst, hsnd⟩ := mem_writes_iff.mp hw
  exact mem_writes_iff.mpr ⟨i, h.getElem? hfst, h.getElem? hsnd⟩

end Grows

end Register

end Pacto.Support
