import Mathlib.Data.List.Basic
import Mathlib.Order.Defs.Unbundled

/-!
# Semantic versions

What a program uses of a package for semantic versions: it reads texts, orders
versions, gives the next version of each kind and checks caret ranges.  The
package is a parameter.  `Documented` states what its documentation says of the
order, the next versions and the ranges.
-/

namespace Pacto.Support

/-- A version, read: what its accessors return.  A final version has no
prerelease. -/
structure Version where
  major : ℕ
  minor : ℕ
  patch : ℕ
  prerelease : String := ""
  metadata : String := ""
  deriving DecidableEq, Repr

namespace Version

/-- Two versions that differ in their prerelease and metadata at most. -/
def SameNumbers (v w : Version) : Prop :=
  v.major = w.major ∧ v.minor = w.minor ∧ v.patch = w.patch

/-- `v` has the lower numbers. -/
def NumbersBelow (v w : Version) : Prop :=
  v.major < w.major ∨ v.major = w.major ∧
    (v.minor < w.minor ∨ v.minor = w.minor ∧ v.patch < w.patch)

theorem numbers_cases (v w : Version) : NumbersBelow v w ∨ SameNumbers v w ∨ NumbersBelow w v := by
  unfold NumbersBelow SameNumbers
  omega

end Version

/-- A caret range: its base, and whether it names a minor version.  A number that
is not named is zero in the base. -/
structure Caret where
  base : Version
  minorGiven : Bool := true
  deriving DecidableEq, Repr

/-- The functions of a package for semantic versions. -/
structure Semver where
  newVersion : String → Option Version
  compare : Version → Version → Ordering
  incMajor : Version → Version
  incMinor : Version → Version
  incPatch : Version → Version
  text : Version → String
  check : Caret → Version → Bool

namespace Semver

open Version

/-- What the documentation says.  Precedence goes by the numbers and leaves the
metadata out, and a candidate is below the version it is for.  The next version
of each kind is final; for a candidate the next patch version is the one it is a
candidate for.  A caret range stays in the major version of its base, and below
1.0 in the minor version when it names one. -/
structure Documented (s : Semver) : Prop where
  order : Std.TransCmp s.compare
  numbers : ∀ v w, NumbersBelow v w → s.compare v w = .lt
  candidate : ∀ v w, SameNumbers v w → v.prerelease ≠ "" → w.prerelease = "" → s.compare v w = .lt
  final : ∀ v w, SameNumbers v w → v.prerelease = "" → w.prerelease = "" → s.compare v w = .eq
  incMajor : ∀ v, SameNumbers (s.incMajor v) ⟨v.major + 1, 0, 0, "", ""⟩
  incMinor : ∀ v, SameNumbers (s.incMinor v) ⟨v.major, v.minor + 1, 0, "", ""⟩
  incPatch : ∀ v, v.prerelease = "" →
    SameNumbers (s.incPatch v) ⟨v.major, v.minor, v.patch + 1, "", ""⟩
  incPatch_candidate : ∀ v, v.prerelease ≠ "" → SameNumbers (s.incPatch v) v
  inc_final : ∀ v, (s.incMajor v).prerelease = "" ∧ (s.incMinor v).prerelease = "" ∧
    (s.incPatch v).prerelease = ""
  check_major : ∀ c v, s.check c v = true → v.major = c.base.major
  check_minor : ∀ c v, s.check c v = true → c.base.major = 0 → c.minorGiven = true →
    v.minor = c.base.minor

/-- `v` comes before `w`. -/
def before (s : Semver) (v w : Version) : Bool := s.compare v w = .lt

/-- `v` is at least as high as `w`. -/
def atLeast (s : Semver) (v w : Version) : Prop := s.before v w = false

instance (s : Semver) (v w : Version) : Decidable (s.atLeast v w) :=
  inferInstanceAs (Decidable (_ = false))

namespace Documented

variable {s : Semver} {u v w : Version}

theorem atLeast_iff (h : s.Documented) : s.atLeast v w ↔ (s.compare w v).isLE = true := by
  have := h.order
  rw [← Std.OrientedCmp.isGE_iff_isLE, atLeast, before]
  cases s.compare v w <;> simp

/-- Of two versions, the second is higher, or they have one precedence, when the
first is not. -/
theorem before_or_eq (h : s.Documented) (hle : s.atLeast v w) :
    s.before w v = true ∨ s.compare v w = .eq := by
  have := h.order
  have hswap : s.compare v w = (s.compare w v).swap := Std.OrientedCmp.eq_swap
  have hle' := h.atLeast_iff.mp hle
  rw [hswap, before]
  cases hvw : s.compare w v with
  | lt => simp
  | eq => simp
  | gt =>
    rw [hvw] at hle'
    cases hle'

theorem total (h : s.Documented) : Std.Total s.atLeast where
  total v w := by
    have := h.order
    rw [h.atLeast_iff, h.atLeast_iff, ← Std.OrientedCmp.isGE_iff_isLE (a := v) (b := w)]
    cases s.compare v w <;> simp

theorem trans (h : s.Documented) : IsTrans Version s.atLeast where
  trans _ _ _ huv hvw := by
    have := h.order
    exact h.atLeast_iff.mpr
      (Std.TransCmp.isLE_trans (h.atLeast_iff.mp hvw) (h.atLeast_iff.mp huv))

theorem before_trans (h : s.Documented) (huv : s.before u v = true) (hvw : s.before v w = true) :
    s.before u w = true := by
  have := h.order
  simp only [before, decide_eq_true_eq] at *
  exact Std.TransCmp.lt_trans huv hvw

theorem before_of_before_of_atLeast (h : s.Documented) (huv : s.before u v = true)
    (hwv : s.atLeast w v) : s.before u w = true := by
  have := h.order
  simp only [before, decide_eq_true_eq] at *
  exact Std.TransCmp.lt_of_lt_of_isLE huv (h.atLeast_iff.mp hwv)

theorem before_of_numbers (h : s.Documented) (hlt : NumbersBelow v w) : s.before v w = true :=
  decide_eq_true (h.numbers v w hlt)

/-- What comes before a final version has lower numbers or is a candidate for
it. -/
theorem before_final_iff (h : s.Documented) (hfinal : w.prerelease = "") :
    s.before v w = true ↔ NumbersBelow v w ∨ SameNumbers v w ∧ v.prerelease ≠ "" := by
  have := h.order
  constructor
  · intro hlt
    have hcompare : s.compare v w = .lt := of_decide_eq_true hlt
    rcases numbers_cases v w with hbelow | hsame | habove
    · exact .inl hbelow
    · refine .inr ⟨hsame, fun hv => ?_⟩
      rw [h.final v w hsame hv hfinal] at hcompare
      cases hcompare
    · have hswap : s.compare v w = (s.compare w v).swap := Std.OrientedCmp.eq_swap
      rw [h.numbers w v habove, hcompare] at hswap
      cases hswap
  · rintro (hbelow | ⟨hsame, hv⟩)
    · exact h.before_of_numbers hbelow
    · exact decide_eq_true (h.candidate v w hsame hv hfinal)

end Documented

/-! ## A plain package -/

/-- Candidates below the final version, one another by their texts. -/
def plainCompare : Version → Version → Ordering :=
  compareLex (compareOn Version.major) <| compareLex (compareOn Version.minor) <|
    compareLex (compareOn Version.patch) <|
      compareLex (compareOn fun v => if v.prerelease = "" then 1 else 0)
        (compareOn Version.prerelease)

/-- A package that does what is documented, over any reader. -/
def plain (newVersion : String → Option Version) : Semver where
  newVersion
  compare := plainCompare
  incMajor v := ⟨v.major + 1, 0, 0, "", ""⟩
  incMinor v := ⟨v.major, v.minor + 1, 0, "", ""⟩
  incPatch v := ⟨v.major, v.minor, if v.prerelease = "" then v.patch + 1 else v.patch, "", ""⟩
  text v := toString v.major ++ "." ++ toString v.minor ++ "." ++ toString v.patch
  check c v := plainCompare c.base v ≠ .gt && v.major = c.base.major &&
    (c.base.major ≠ 0 || !c.minorGiven || v.minor = c.base.minor)

theorem plain_documented (newVersion : String → Option Version) :
    (plain newVersion).Documented where
  order := inferInstanceAs (Std.TransCmp (compareLex _ _))
  numbers v w h := by
    simp only [NumbersBelow] at h
    simp [plain, plainCompare, compareLex, compareOn, Ordering.then_eq_lt, Std.compare_eq_lt]
    omega
  candidate v w h hv hw := by
    simp [plain, plainCompare, compareLex, compareOn, h.1, h.2.1, h.2.2, hv, hw]
    rfl
  final v w h hv hw := by
    simp [plain, plainCompare, compareLex, compareOn, h.1, h.2.1, h.2.2, hv, hw]
  incMajor _ := ⟨rfl, rfl, rfl⟩
  incMinor _ := ⟨rfl, rfl, rfl⟩
  incPatch v h := ⟨rfl, rfl, by simp [plain, h]⟩
  incPatch_candidate v h := ⟨rfl, rfl, by simp [plain, h]⟩
  inc_final _ := ⟨rfl, rfl, rfl⟩
  check_major c v h := by
    simp only [plain, Bool.and_eq_true, decide_eq_true_eq] at h
    exact h.1.2
  check_minor c v h hzero hgiven := by
    simp only [plain, Bool.and_eq_true, decide_eq_true_eq] at h
    simpa [hzero, hgiven] using h.2

end Semver
end Pacto.Support
