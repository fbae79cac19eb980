import Mathlib.Data.List.Nodup

/-!
# Bounded memories

A bounded memory keeps the newest entries of a list, oldest first.  `keepLast`
forgets the oldest entries beyond a bound, and `remember` adds an entry once,
as the newest one, under a bound.
-/

namespace Pacto.Support

variable {α : Type*}
variable {max : Nat} {l : List α} {a : α}

def keepLast (max : Nat) (l : List α) : List α := l.drop (l.length - max)

theorem length_keepLast_le (max : Nat) (l : List α) :
    (keepLast max l).length ≤ max := by
  simp only [keepLast, List.length_drop]
  omega

theorem keepLast_suffix (max : Nat) (l : List α) : keepLast max l <:+ l :=
  List.drop_suffix _ _

theorem keepLast_of_length_le (h : l.length ≤ max) :
    keepLast max l = l := by
  have hzero : l.length - max = 0 := by omega
  simp [keepLast, hzero]

theorem length_keepLast (max : Nat) (l : List α) : (keepLast max l).length = min max l.length := by
  simp only [keepLast, List.length_drop]
  omega

theorem getElem?_keepLast (max : Nat) (l : List α) (i : Nat) :
    (keepLast max l)[i]? = l[l.length - max + i]? := by
  rw [keepLast, List.getElem?_drop]

/-- One of the newest `max` entries is kept. -/
theorem mem_keepLast {i : Nat} (h : l[i]? = some a)
    (hi : l.length ≤ i + max) : a ∈ keepLast max l := by
  have hlt : i < l.length := (List.getElem?_eq_some_iff.mp h).1
  refine List.mem_of_getElem? (i := i - (l.length - max)) ?_
  rw [getElem?_keepLast, show l.length - max + (i - (l.length - max)) = i by omega]
  exact h

theorem keepLast_append_singleton (h : 0 < max) (l : List α) (a : α) :
    keepLast max (l ++ [a]) = keepLast (max - 1) l ++ [a] := by
  have hlen : (l ++ [a]).length - max = l.length - (max - 1) := by
    simp only [List.length_append, List.length_singleton]
    omega
  rw [keepLast, hlen, List.drop_append_of_le_length (by omega), keepLast]

/-- Keeping the newest entries twice is keeping them once. -/
theorem keepLast_keepLast_append (max : Nat) (l : List α) (a : α) :
    keepLast max (keepLast max l ++ [a]) = keepLast max (l ++ [a]) := by
  rcases Nat.eq_zero_or_pos max with rfl | hmax
  · simp [keepLast]
  · rw [keepLast_append_singleton hmax, keepLast_append_singleton hmax]
    congr 1
    simp only [keepLast, List.drop_drop, List.length_drop]
    congr 1
    omega

variable [DecidableEq α]

/-- Add `a` to `l` once, as its newest entry, keeping the newest `max`. -/
def remember (max : Nat) (l : List α) (a : α) : List α :=
  keepLast max (l.filter (· ≠ a) ++ [a])

theorem length_remember_le (max : Nat) (l : List α) (a : α) :
    (remember max l a).length ≤ max :=
  length_keepLast_le _ _

theorem mem_remember_self (h : 0 < max) (l : List α) (a : α) :
    a ∈ remember max l a := by
  rw [remember, keepLast_append_singleton h]
  simp

theorem mem_of_mem_remember {b : α}
    (h : b ∈ remember max l a) : b = a ∨ b ∈ l := by
  have hmem := (keepLast_suffix _ _).subset h
  simp only [List.mem_append, List.mem_filter, List.mem_singleton] at hmem
  tauto

theorem nodup_remember (max : Nat) (a : α) (h : l.Nodup) :
    (remember max l a).Nodup := by
  refine (keepLast_suffix _ _).sublist.nodup ?_
  refine List.Nodup.append (h.filter _) (List.nodup_singleton a) ?_
  simp [List.Disjoint]

theorem getLast?_remember (h : 0 < max) (l : List α) (a : α) :
    (remember max l a).getLast? = some a := by
  rw [remember, keepLast_append_singleton h]
  simp

/-- Remembering an entry changes nothing exactly when it is the newest one
already. -/
theorem remember_eq_self_iff (hmax : 0 < max)
    (hnodup : l.Nodup) (hlen : l.length ≤ max) :
    remember max l a = l ↔ l.getLast? = some a := by
  constructor
  · intro h
    rw [← h]
    exact getLast?_remember hmax l a
  · intro h
    obtain ⟨front, rfl⟩ := List.getLast?_eq_some_iff.mp h
    have hnotin : a ∉ front := by
      intro hmem
      exact (List.nodup_append.mp hnodup).2.2 a hmem a (by simp) rfl
    have hfilter : (front ++ [a]).filter (· ≠ a) = front := by
      have hfront : ∀ b ∈ front, ¬b = a := fun b hb hba => hnotin (hba ▸ hb)
      simpa [List.filter_append] using hfront
    rw [remember, hfilter, keepLast_of_length_le hlen]

end Pacto.Support
