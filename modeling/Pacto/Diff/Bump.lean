import Pacto.Support.Semver
import Pacto.Delivery.Plan

/-!
# Version bumps and the ranges of consumers

A change needs a version at least so far above the one it replaces: a breaking
one a new major version, or a new minor before 1.0.  The promoter refuses a
version below that, since the ranges consumers declare could not judge it.  A
breaking version it lets through is then outside every caret range that accepts
the version it replaces.

Two kinds of consumers asked for more.  A range on a candidate accepts the
version the candidate is for, and a candidate's fixes ship as that version
whatever they are.  A range on all of 0 names no minor version, the one number a
breaking change below 1.0 moves.
-/

namespace Pacto.Diff

open Delivery Support Version

/-! ## The rule -/

/-- The smallest version change a classification needs. -/
inductive Bump where
  | patch
  | minor
  | major
  deriving DecidableEq, Repr

/-- The bump as messages write it. -/
def Bump.text : Bump → String
  | .patch => "patch"
  | .minor => "minor"
  | .major => "major"

variable (semver : Semver)

/-- `RequiredBump`: a base that cannot be read counts as 1.0 or later. -/
def requiredBump (c : Classification) (base : String) : Bump :=
  match c with
  | .breaking => if (semver.newVersion base).any (·.major = 0) then .minor else .major
  | .potentialBreaking => .minor
  | .nonBreaking => .patch

def floorOf (b : Version) : Bump → Version
  | .major => semver.incMajor b
  | .minor => semver.incMinor b
  | .patch => semver.incPatch b

/-- `n` is the version `b` is a candidate for, or a later candidate for it. -/
def continuesLine (b n : Version) : Bool :=
  b.prerelease ≠ "" && n.major = b.major && n.minor = b.minor && n.patch = b.patch &&
    semver.before b n

/-- `n` is at or above the floor, a candidate for it included, and above `b`. -/
def reachesFloor (b n floor : Version) : Bool :=
  n.major > floor.major ||
    n.major = floor.major &&
      (n.minor > floor.minor || n.minor = floor.minor && n.patch ≥ floor.patch && semver.before b n)

/-- `CheckBump`: why `next` is less than the bump above `base`, if it is. -/
def checkBump (base next : String) (need : Bump) : Option String :=
  match semver.newVersion base, semver.newVersion next with
  | none, _ => some ("the published version " ++ quote base ++ " is not semver")
  | some _, none => some ("version " ++ quote next ++ " is not semver")
  | some b, some n =>
    if continuesLine semver b n then none
    else if reachesFloor semver b n (floorOf semver b need) then none
    else
      some (next ++ " needs a " ++ need.text ++ " bump over " ++ base ++ ": publish " ++
        semver.text (floorOf semver b need) ++ " or higher")

def bumpError (c : Classification) (old new : String) : Option (String × String) :=
  let need := requiredBump semver c old
  (checkBump semver old new need).map fun err => (need.text, err)

def withVersions (pkg : Packages) : Packages := { pkg with bumpError := bumpError semver }

/-! ## What a bump moves -/

variable {semver} {b n floor : Version} {need : Bump}

theorem reachesFloor_iff :
    reachesFloor semver b n floor = true ↔ floor.major < n.major ∨ n.major = floor.major ∧
      (floor.minor < n.minor ∨ n.minor = floor.minor ∧ floor.patch ≤ n.patch ∧
        semver.before b n = true) := by
  simp [reachesFloor, and_assoc]

/-- What reaches a floor does not have a lower major version, nor in its major version
a lower minor one. -/
theorem le_of_reachesFloor (h : reachesFloor semver b n floor = true) :
    floor.major ≤ n.major ∧ (n.major = floor.major → floor.minor ≤ n.minor) := by
  rcases reachesFloor_iff.mp h with hmajor | ⟨hmajor, hminor | ⟨hminor, -⟩⟩
  · exact ⟨hmajor.le, fun heq => absurd heq hmajor.ne'⟩
  · exact ⟨hmajor.ge, fun _ => hminor.le⟩
  · exact ⟨hmajor.ge, fun _ => hminor.ge⟩

def breakingFloor (semver : Semver) (b : Version) : Version :=
  if b.major = 0 then semver.incMinor b else semver.incMajor b

theorem floorOf_requiredBump {base : String} (hbase : semver.newVersion base = some b) :
    floorOf semver b (requiredBump semver .breaking base) = breakingFloor semver b := by
  by_cases hzero : b.major = 0
  · simp [requiredBump, breakingFloor, hbase, hzero, floorOf]
  · simp [requiredBump, breakingFloor, hbase, hzero, floorOf]

/-- A version the promoter takes for a breaking change continues a candidate's
line or reaches the floor the change needs. -/
theorem reachesFloor_of_bumpRefusal {pkg : Packages} {res : ImpactResult} {old new : Version}
    (hbreaking : res.classification = .breaking)
    (hold : semver.newVersion res.oldVersion = some old)
    (hnew : semver.newVersion res.newVersion = some new)
    (hrefusal : bumpRefusal (withVersions semver pkg) res = [])
    (hline : continuesLine semver old new = false) :
    reachesFloor semver old new (breakingFloor semver old) = true := by
  by_contra hfloor
  have hcheck : (checkBump semver res.oldVersion res.newVersion
      (requiredBump semver .breaking res.oldVersion)).isSome := by
    simp only [checkBump, hold, hnew, floorOf_requiredBump hold]
    rw [if_neg (by simp [hline]), if_neg hfloor]
    rfl
  obtain ⟨err, herr⟩ := Option.isSome_iff_exists.mp hcheck
  simp [bumpRefusal, withVersions, bumpError, hbreaking, herr] at hrefusal

/-! ## The rule is a threshold -/

/-- The bumps, smallest first. -/
def Bump.size : Bump → ℕ
  | .patch => 0
  | .minor => 1
  | .major => 2

theorem Bump.size_injective : Function.Injective Bump.size := by
  intro a b h
  cases a <;> cases b <;> simp_all [Bump.size]

section Threshold
variable {base next : String}

theorem checkBump_eq_none_iff (hb : semver.newVersion base = some b)
    (hn : semver.newVersion next = some n) :
    checkBump semver base next need = none ↔
      continuesLine semver b n = true ∨ reachesFloor semver b n (floorOf semver b need) = true := by
  simp only [checkBump, hb, hn]
  split_ifs with hline hfloor <;> simp_all

theorem continuesLine_iff :
    continuesLine semver b n = true ↔
      b.prerelease ≠ "" ∧ n.SameNumbers b ∧ semver.before b n = true := by
  simp [continuesLine, SameNumbers, and_assoc]

/-- What reaches a floor reaches every lower one. -/
theorem reachesFloor_of_numbersBelow {floor' : Version} (hlower : NumbersBelow floor' floor)
    (hbefore : semver.before b n = true) (h : reachesFloor semver b n floor = true) :
    reachesFloor semver b n floor' = true := by
  rw [reachesFloor_iff] at h ⊢
  unfold NumbersBelow at hlower
  grind

variable (hsemver : semver.Documented)
include hsemver

theorem floorOf_final (b : Version) (need : Bump) : (floorOf semver b need).prerelease = "" := by
  obtain ⟨hmajor, hminor, hpatch⟩ := hsemver.inc_final b
  cases need with
  | major => exact hmajor
  | minor => exact hminor
  | patch => exact hpatch

/-- The floor of a bump is above the version it bumps. -/
theorem before_floorOf (need : Bump) : semver.before b (floorOf semver b need) = true := by
  rw [hsemver.before_final_iff (floorOf_final hsemver b need)]
  cases need with
  | major =>
    obtain ⟨hmajor, -, -⟩ := hsemver.incMajor b
    exact .inl (.inl (by simp [floorOf, hmajor]))
  | minor =>
    obtain ⟨hmajor, hminor, -⟩ := hsemver.incMinor b
    exact .inl (.inr ⟨by simp [floorOf, hmajor], .inl (by simp [floorOf, hminor])⟩)
  | patch =>
    by_cases hfinal : b.prerelease = ""
    · obtain ⟨hmajor, hminor, hpatch⟩ := hsemver.incPatch b hfinal
      exact .inl (.inr ⟨by simp [floorOf, hmajor],
        .inr ⟨by simp [floorOf, hminor], by simp [floorOf, hpatch]⟩⟩)
    · obtain ⟨hmajor, hminor, hpatch⟩ := hsemver.incPatch_candidate b hfinal
      exact .inr ⟨⟨hmajor.symm, hminor.symm, hpatch.symm⟩, hfinal⟩

/-- What reaches the floor is above the version that is bumped. -/
theorem before_of_reachesFloor (hfloor : semver.before b floor = true)
    (h : reachesFloor semver b n floor = true) : semver.before b n = true := by
  rcases reachesFloor_iff.mp h with hmajor | ⟨hmajor, hminor | ⟨-, -, hbefore⟩⟩
  · exact hsemver.before_trans hfloor (hsemver.before_of_numbers (.inl hmajor))
  · exact hsemver.before_trans hfloor
      (hsemver.before_of_numbers (.inr ⟨hmajor.symm, .inl hminor⟩))
  · exact hbefore

/-- A version at or above the floor reaches it. -/
theorem reachesFloor_of_atLeast (hfinal : floor.prerelease = "")
    (hfloor : semver.before b floor = true) (h : semver.atLeast n floor) :
    reachesFloor semver b n floor = true := by
  have hbefore := hsemver.before_of_before_of_atLeast hfloor h
  have hnot : ¬semver.before n floor = true := by simpa [Semver.atLeast] using h
  rw [hsemver.before_final_iff hfinal] at hnot
  rw [reachesFloor_iff]
  have hcases := numbers_cases n floor
  unfold NumbersBelow SameNumbers at *
  grind

/-- What reaches a floor and is below it is a candidate for it. -/
theorem candidate_of_reachesFloor (hfinal : floor.prerelease = "")
    (h : reachesFloor semver b n floor = true) (hbelow : semver.before n floor = true) :
    n.prerelease ≠ "" ∧ n.SameNumbers floor := by
  rw [reachesFloor_iff] at h
  rw [hsemver.before_final_iff hfinal] at hbelow
  unfold NumbersBelow SameNumbers at *
  grind

theorem floorOf_numbersBelow {less : Bump} (hless : less.size < need.size) :
    NumbersBelow (floorOf semver b less) (floorOf semver b need) := by
  have hpatch : (semver.incPatch b).major = b.major ∧ (semver.incPatch b).minor = b.minor := by
    by_cases hfinal : b.prerelease = ""
    · exact ⟨(hsemver.incPatch b hfinal).1, (hsemver.incPatch b hfinal).2.1⟩
    · exact ⟨(hsemver.incPatch_candidate b hfinal).1, (hsemver.incPatch_candidate b hfinal).2.1⟩
  have hmajor : (semver.incMajor b).major = b.major + 1 := (hsemver.incMajor b).1
  obtain ⟨hminor, hminor', -⟩ := hsemver.incMinor b
  unfold NumbersBelow
  cases need <;> cases less <;> simp_all [Bump.size, floorOf]

/-- The rule is a threshold.  What it accepts is above the base; it accepts every
version at or above the floor, and for a smaller bump whatever it accepts for a larger
one; below the floor it accepts candidates for the floor and the line of a base that is
a candidate. -/
theorem checkBump_threshold (hbase : semver.newVersion base = some b)
    (hnext : semver.newVersion next = some n) (need : Bump) :
    (checkBump semver base next need = none → semver.before b n = true) ∧
      (semver.atLeast n (floorOf semver b need) → checkBump semver base next need = none) ∧
      (∀ less : Bump, less.size ≤ need.size → checkBump semver base next need = none →
        checkBump semver base next less = none) ∧
      (checkBump semver base next need = none →
        semver.before n (floorOf semver b need) = true →
        (n.prerelease ≠ "" ∧ n.SameNumbers (floorOf semver b need)) ∨
          (b.prerelease ≠ "" ∧ n.SameNumbers b ∧ semver.before b n = true)) := by
  have hfloor := before_floorOf (b := b) hsemver
  have hfinal := floorOf_final hsemver b
  have habove : ∀ need, continuesLine semver b n = true ∨
      reachesFloor semver b n (floorOf semver b need) = true → semver.before b n = true := by
    rintro need (hline | hreaches)
    · exact (continuesLine_iff.mp hline).2.2
    · exact before_of_reachesFloor hsemver (hfloor need) hreaches
  simp only [checkBump_eq_none_iff hbase hnext]
  refine ⟨habove need, fun hat =>
    .inr (reachesFloor_of_atLeast hsemver (hfinal need) (hfloor need) hat), ?_, ?_⟩
  · rintro less hle haccepted
    rcases hle.lt_or_eq with hlt | heq
    · refine haccepted.imp_right fun hreaches => ?_
      exact reachesFloor_of_numbersBelow (floorOf_numbersBelow hsemver hlt)
        (habove need haccepted) hreaches
    · rwa [Bump.size_injective heq]
  · rintro (hline | hreaches) hbelow
    · exact .inr (continuesLine_iff.mp hline)
    · exact .inl (candidate_of_reachesFloor hsemver (hfinal need) hreaches hbelow)

end Threshold

/-- A reader that knows seven versions, one of them a candidate. -/
def readVersion : String → Option Version
  | "0.4.2" => some { major := 0, minor := 4, patch := 2 }
  | "0.5.0" => some { major := 0, minor := 5, patch := 0 }
  | "1.0.0" => some { major := 1, minor := 0, patch := 0 }
  | "1.1.0" => some { major := 1, minor := 1, patch := 0 }
  | "2.0.0-rc.1" => some { major := 2, minor := 0, patch := 0, prerelease := "rc.1" }
  | "2.0.0" => some { major := 2, minor := 0, patch := 0 }
  | _ => none

def plainVersions : Semver := .plain readVersion

theorem checkBump_threshold_minor :
    checkBump plainVersions "1.0.0" "1.1.0" .minor = none ∧
      checkBump plainVersions "1.0.0" "1.1.0" .patch = none := by
  have haccepted : checkBump plainVersions "1.0.0" "1.1.0" .minor = none := by decide +kernel
  exact ⟨haccepted, (checkBump_threshold (Semver.plain_documented _) rfl rfl .minor).2.2.1 .patch
    (by decide) haccepted⟩

/-! ## Caret ranges -/

/-- A range on all of 0 asks for every version before 1.0. -/
def asksForZero (c : Caret) : Bool := c.base.major = 0 && !c.minorGiven

/-- A breaking version that the promoter takes is outside every caret range
that accepts the version it replaces. -/
theorem not_accepts_breaking (semver : Semver) (hsemver : semver.Documented) (pkg : Packages)
    (res : ImpactResult) {old new : Version} (hbreaking : res.classification = .breaking)
    (hold : semver.newVersion res.oldVersion = some old)
    (hnew : semver.newVersion res.newVersion = some new)
    (hrefusal : bumpRefusal (withVersions semver pkg) res = [])
    (hline : continuesLine semver old new = false)
    (c : Caret) (hc : asksForZero c = false) (haccepts : semver.check c old = true) :
    semver.check c new = false := by
  have hfloor := le_of_reachesFloor
    (reachesFloor_of_bumpRefusal hbreaking hold hnew hrefusal hline)
  by_contra hboth
  have hnewaccepted : semver.check c new = true := by simpa using hboth
  have hbase := hsemver.check_major c old haccepts
  have hmajor : new.major = old.major := (hsemver.check_major c new hnewaccepted).trans hbase.symm
  by_cases hzero : old.major = 0
  · have hcbase : c.base.major = 0 := hbase.symm.trans hzero
    have hgiven : c.minorGiven = true := by simpa [asksForZero, hcbase] using hc
    have hminor : new.minor = old.minor :=
      (hsemver.check_minor c new hnewaccepted hcbase hgiven).trans
        (hsemver.check_minor c old haccepts hcbase hgiven).symm
    obtain ⟨hincmajor, hincminor, -⟩ := hsemver.incMinor old
    rw [breakingFloor, if_pos hzero] at hfloor
    have hle := hfloor.2 (hmajor.trans hincmajor.symm)
    rw [hminor, hincminor] at hle
    exact absurd hle (Nat.not_succ_le_self _)
  · rw [breakingFloor, if_neg hzero, (hsemver.incMajor old).1, hmajor] at hfloor
    exact absurd hfloor.1 (Nat.not_succ_le_self _)

def breakingChange (old new : String) : ImpactResult :=
  { classification := .breaking, complete := true, oldVersion := old, newVersion := new }

/-- A breaking 0.5.0 after 0.4.2 is outside `^0.4.1`. -/
theorem not_accepts_breaking_minor :
    plainVersions.check { base := { major := 0, minor := 4, patch := 1 } }
        { major := 0, minor := 4, patch := 2 } = true ∧
      plainVersions.check { base := { major := 0, minor := 4, patch := 1 } }
        { major := 0, minor := 5, patch := 0 } = false :=
  ⟨by decide, not_accepts_breaking plainVersions (Semver.plain_documented _) quietPackages
    (breakingChange "0.4.2" "0.5.0") rfl rfl rfl (by decide) (by decide) _ (by decide) (by decide)⟩

/-- A breaking change after a candidate ships as the version the candidate is
for, which a range on the candidate accepts; and a breaking 0.5.0 after 0.4.2 is in the
range on all of 0. -/
theorem accepts_breaking_candidate :
    ((breakingChange "2.0.0-rc.1" "2.0.0").classification = .breaking ∧
      bumpRefusal (withVersions plainVersions quietPackages)
        (breakingChange "2.0.0-rc.1" "2.0.0") = [] ∧
      ∃ old new, plainVersions.newVersion "2.0.0-rc.1" = some old ∧
        plainVersions.newVersion "2.0.0" = some new ∧ ∃ c : Caret, c.base = old ∧
          plainVersions.check c old = true ∧ plainVersions.check c new = true) ∧
    (breakingChange "0.4.2" "0.5.0").classification = .breaking ∧
      bumpRefusal (withVersions plainVersions quietPackages) (breakingChange "0.4.2" "0.5.0") = [] ∧
      ∃ old new, plainVersions.newVersion "0.4.2" = some old ∧
        plainVersions.newVersion "0.5.0" = some new ∧
        ∃ c : Caret, plainVersions.before old c.base = false ∧ asksForZero c = true ∧
          plainVersions.check c old = true ∧ plainVersions.check c new = true :=
  ⟨⟨rfl, by decide, _, _, rfl, rfl,
      { base := { major := 2, minor := 0, patch := 0, prerelease := "rc.1" } },
      rfl, by decide, by decide⟩,
    rfl, by decide, _, _, rfl, rfl,
    { base := { major := 0, minor := 0, patch := 0 }, minorGiven := false },
    by decide, by decide, by decide, by decide⟩

end Pacto.Diff
