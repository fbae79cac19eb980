import Pacto.Diff.Substitution

/-!
# Where the walk is not sound

Two groups of keywords are graded like the others and mean something else.  The
values of `const` and `enum` are data, and the walk reads them as schemas: a null
stands for a keyword that is not there, a member called `description` is
documentation, and a list is a set.  `oneOf` and `contains` count, and the walk grades
them as if they only asked for one.
-/

namespace Pacto.Diff

open Delivery Support DottedPath Schema

/-- Every instance that one schema accepts another accepts. -/
def AcceptsAll (check : String → Json → Json → Bool) (old new : Json) : Prop :=
  ∀ x, accepts check old x = true → accepts check new x = true

/-- Two schemas of one keyword. -/
def Lone (k : String) (A B : List (String × Json)) : Prop :=
  ∀ k' ≠ k, A.lookup k' = none ∧ B.lookup k' = none

section Lone

variable {check : String → Json → Json → Bool} {k : String} {A B : List (String × Json)}

theorem Lone.symm (h : Lone k A B) : Lone k B A := fun k' hk' => (h k' hk').symm

/-- A schema of one keyword accepts what the keyword holds of. -/
theorem accepts_lone (h : Lone k A B) {x : Json} :
    accepts check (.obj A) x = true ↔ HoldsAt check A k (A.lookup k) x := by
  rw [accepts_obj_iff]
  refine ⟨fun hall => hall k, fun hk k' => ?_⟩
  by_cases heq : k' = k
  · rw [heq]
    exact hk
  · rw [(h k' heq).1]
    exact holdsAt_none

theorem holdsAt_of_acceptsAll (h : Lone k A B) (hall : AcceptsAll check (.obj A) (.obj B))
    (x : Json) (hx : HoldsAt check A k (A.lookup k) x) : HoldsAt check B k (B.lookup k) x :=
  (accepts_lone h.symm).mp (hall x ((accepts_lone h).mpr hx))

end Lone

/-! ## Values -/

/-- The keywords that hold instances. -/
def valueLeaf (k : String) (_ : Json) : Bool := ["const", "enum"].contains k

section Values

variable {check : String → Json → Json → Bool} {A B : List (String × Json)} {a b : Option Json}

theorem holdsAt_const {v x : Json} : HoldsAt check A "const" (some v) x ↔ v = x := by
  simp [holdsAt_some, holds, upper, lower]

/-- A value of `const` that is kept is no question of what the walk sees. -/
theorem constSeen_of_kept
    (h : ∀ x, HoldsAt check A "const" a x → HoldsAt check B "const" b x) : ConstSeen a b := by
  intro w hw
  obtain rfl : b = some w := hw
  cases a with
  | none =>
    have htrue := holdsAt_const.mp (h (.bool true) holdsAt_none)
    exact .inr ⟨by simp [htrue], nofun⟩
  | some v => exact .inl (by rw [holdsAt_const.mp (h v (holdsAt_const.mpr rfl))])

theorem enumSeen_of_kept
    (h : ∀ x, HoldsAt check A "enum" a x → HoldsAt check B "enum" b x) : EnumSeen a b := by
  have hlisted : ∀ x ∈ listed a, HoldsAt check A "enum" a x := by
    intro x hx
    cases a with
    | none => exact holdsAt_none
    | some v => exact holdsAt_enum.mpr hx
  constructor
  · rintro rfl
    have hnone : ∀ x, ¬ HoldsAt check A "enum" a x := fun x hx =>
      List.not_mem_nil (holdsAt_enum.mp (h x hx))
    refine ⟨?_, List.eq_nil_iff_forall_not_mem.mpr fun x hx => hnone x (hlisted x hx)⟩
    rintro rfl
    exact hnone .null holdsAt_none
  · refine .inr fun e he => .inl ?_
    obtain ⟨hold, hnew⟩ := List.of_mem_zip he
    cases b with
    | none => exact absurd hnew List.not_mem_nil
    | some w => exact holdsAt_enum.mp (h e.1 (hlisted e.1 hold))

theorem valuesSeen_of_acceptsAll {k : String} (hk : k ∈ ["const", "enum"]) (hlone : Lone k A B)
    (hall : AcceptsAll check (.obj A) (.obj B)) : ValuesSeen A B := by
  have hkept := holdsAt_of_acceptsAll hlone hall
  simp only [List.mem_cons, List.not_mem_nil, or_false] at hk
  rcases hk with rfl | rfl
  · obtain ⟨hA, hB⟩ := hlone "enum" (by decide)
    refine ⟨constSeen_of_kept hkept, ?_⟩
    rw [hA, hB]
    exact .refl
  · obtain ⟨hA, hB⟩ := hlone "const" (by decide)
    refine ⟨?_, enumSeen_of_kept hkept⟩
    rw [hA, hB]
    exact .refl

/-- Between schemas that differ in their values alone an uneventful walk refines where
it sees the values go. -/
theorem values_refine {dir : Direction} {path : String} {old new : Json} (h : SchemaAt path)
    (hcomp : comparable valueLeaf false old new = true) (hclean : Clean (diffJSON dir old path new))
    (hseen : ∀ A B, Beside (.obj A) (.obj B) old new → dir.Asks ValuesSeen A B) (x : Json) :
    dir.Refines (accepts check old x = true) (accepts check new x = true) := by
  have hleaf : ∀ k v, valueLeaf k v = true → k ∈ ["const", "enum"] ∨ leafShape k v = true :=
    fun k v hk => .inl (List.contains_iff_mem.mp hk)
  have hcounting : ∀ k ∈ ["oneOf", "contains", "minContains"], ∀ v, valueLeaf k v = false := by
    simp [valueLeaf]
  exact sound hleaf old new hcomp
    (fun A B hbeside hAB => ⟨hseen A B hbeside, countsKept_of_comparable hcounting hAB⟩)
    path h hclean x

end Values

/-- Between two schemas that differ in `const` and `enum` alone, an uneventful walk
narrows no request and widens no response if it sees every value that goes.  Of a
`const` or an `enum` that stands alone nothing less will do. -/
theorem values_sound (check : String → Json → Json → Bool) {path : String} {old new : Json}
    (h : SchemaAt path) (hcomp : comparable valueLeaf false old new = true) :
    (Clean (diffJSON .request old path new) →
      ((∀ A B, Beside (.obj A) (.obj B) old new → ValuesSeen A B) → AcceptsAll check old new) ∧
      ∀ k ∈ ["const", "enum"], ∀ A B, Lone k A B → old = .obj A → new = .obj B →
        (AcceptsAll check old new ↔ ValuesSeen A B)) ∧
    (Clean (diffJSON .response old path new) →
      ((∀ A B, Beside (.obj A) (.obj B) old new → ValuesSeen B A) → AcceptsAll check new old) ∧
      ∀ k ∈ ["const", "enum"], ∀ A B, Lone k A B → old = .obj A → new = .obj B →
        (AcceptsAll check new old ↔ ValuesSeen B A)) := by
  have hflat : ∀ {k A B}, k ∈ ["const", "enum"] → Lone k A B → ∀ A' B',
      Beside (.obj A') (.obj B') (.obj A) (.obj B) → A' = A ∧ B' = B := by
    intro k A B hk hlone A' B' hbeside
    refine hbeside.eq_of_flat fun k' hk' => (hlone k' ?_).1
    simp only [List.mem_cons, List.not_mem_nil, or_false] at hk
    rcases hk with rfl | rfl <;> rintro rfl <;> exact absurd hk' (by decide)
  constructor
  · intro hclean
    have hkept : (∀ A B, Beside (.obj A) (.obj B) old new → ValuesSeen A B) →
        AcceptsAll check old new := fun hseen x =>
      values_refine h hcomp hclean (fun A B hbeside =>
        ⟨fun _ => hseen A B hbeside, fun hdir => absurd rfl hdir⟩) x
    refine ⟨hkept, ?_⟩
    rintro k hk A B hlone rfl rfl
    refine ⟨valuesSeen_of_acceptsAll hk hlone, fun hseen => hkept fun A' B' hbeside => ?_⟩
    obtain ⟨rfl, rfl⟩ := hflat hk hlone A' B' hbeside
    exact hseen
  · intro hclean
    have hkept : (∀ A B, Beside (.obj A) (.obj B) old new → ValuesSeen B A) →
        AcceptsAll check new old := fun hseen x =>
      values_refine h hcomp hclean (fun A B hbeside =>
        ⟨fun hdir => absurd rfl hdir, fun _ => hseen A B hbeside⟩) x
    refine ⟨hkept, ?_⟩
    rintro k hk A B hlone rfl rfl
    refine ⟨valuesSeen_of_acceptsAll hk hlone.symm, fun hseen => hkept fun A' B' hbeside => ?_⟩
    obtain ⟨rfl, rfl⟩ := hflat hk hlone A' B' hbeside
    exact hseen

/-- A request that drops a value of an object and lists one more. -/
theorem values_sound_enum :
    let card := Json.obj [("kind", .str "card")]
    let old := Json.obj [("const", card), ("enum", .arr [card, .null])]
    let new := Json.obj [("enum", .arr [card, .null, .str "cash"])]
    comparable valueLeaf false old new = true ∧ diffJSON .request old bodyPath new ≠ [] ∧
      Clean (diffJSON .request old bodyPath new) ∧ ∀ check, AcceptsAll check old new := by
  intro card old new
  have hcomp : comparable valueLeaf false old new = true := by decide +kernel
  have hclean : Clean (diffJSON .request old bodyPath new) := by decide +kernel
  refine ⟨hcomp, by decide +kernel, hclean, fun check => ?_⟩
  refine ((values_sound check schemaAt_body hcomp).1 hclean).1 fun A B hbeside => ?_
  obtain ⟨rfl, rfl⟩ := hbeside.eq_of_flat (by decide)
  decide +kernel

/-- A schema of one value. -/
private def only (v : Json) : Json := .obj [("const", v)]

/-- A request comes to accept null alone, another description and the other order of
a list, all without a change above `NON_BREAKING`. -/
theorem values_narrowed :
    (Clean (diffJSON .request (.obj []) bodyPath (only .null)) ∧
      ∀ check, accepts check (.obj []) (.num 1) = true ∧
        accepts check (only .null) (.num 1) = false) ∧
    (let a := Json.obj [("description", .str "a")]
      let b := Json.obj [("description", .str "b")]
      Clean (diffJSON .request (only a) bodyPath (only b)) ∧
        ∀ check, accepts check (only a) a = true ∧ accepts check (only b) a = false) ∧
    (let a := Json.arr [.num 1, .num 2]
      let b := Json.arr [.num 2, .num 1]
      diffJSON .request (only a) bodyPath (only b) = [] ∧
        ∀ check, accepts check (only a) a = true ∧ accepts check (only b) a = false) := by
  refine ⟨⟨?_, fun check => ⟨rfl, rfl⟩⟩, ⟨?_, fun check => ⟨rfl, rfl⟩⟩,
    ⟨?_, fun check => ⟨rfl, rfl⟩⟩⟩ <;> decide +kernel

/-! ## Counts -/

/-- The keywords whose values may change beside those that count. -/
def countingLeaf (k : String) (v : Json) : Bool := leafShape k v && k ≠ "const"

section Counts

variable {check : String → Json → Json → Bool}

theorem counts_refine {dir : Direction} {path : String} {old new : Json} (h : SchemaAt path)
    (hcomp : comparable countingLeaf true old new = true)
    (hclean : Clean (diffJSON dir old path new))
    (hkept : ∀ A B, Beside (.obj A) (.obj B) old new → dir.Asks (CountsKept check) A B) (x : Json) :
    dir.Refines (accepts check old x = true) (accepts check new x = true) := by
  have hleaf : ∀ k v, countingLeaf k v = true → leafShape k v = true :=
    fun k v hk => (Bool.and_eq_true_iff.mp hk).1
  have hconst : ∀ v, countingLeaf "const" v = false := by simp [countingLeaf]
  exact sound (fun k v hk => .inr (hleaf k v hk)) old new hcomp
    (fun A B hbeside hAB => ⟨valuesSeen_of_comparable hconst (hleaf "enum") hAB, hkept A B hbeside⟩)
    path h hclean x

theorem countsKept_of_acceptsAll {A B : List (String × Json)} (hlone : Lone "oneOf" A B)
    (hall : AcceptsAll check (.obj A) (.obj B)) : CountsKept check A B := by
  have hkept := holdsAt_of_acceptsAll hlone hall
  have hcontains := (hlone "contains" (by decide)).1
  constructor
  · intro v w hv hw x hx
    rw [hv, hw] at hkept
    exact (holdsAt_oneOf.mp (hkept x (holdsAt_oneOf.mpr hx))).le
  · exact fun v _ hv => absurd (hcontains.symm.trans hv) nofun
  · exact fun v _ hv => absurd (hcontains.symm.trans hv) nofun

end Counts

/-- Where nothing is lost to a count, an uneventful walk is sound for the keywords that
count as well.  Of a `oneOf` that stands alone nothing less will do. -/
theorem counting_sound {check : String → Json → Json → Bool} {path : String} {old new : Json}
    (h : SchemaAt path) (hcomp : comparable countingLeaf true old new = true) :
    (Clean (diffJSON .request old path new) →
      (∀ A B, Beside (.obj A) (.obj B) old new → CountsKept check A B) → AcceptsAll check old new) ∧
    (Clean (diffJSON .response old path new) →
      (∀ A B, Beside (.obj A) (.obj B) old new → CountsKept check B A) → AcceptsAll check new old) ∧
    ∀ A B, Lone "oneOf" A B → old = .obj A → new = .obj B →
      (AcceptsAll check old new → CountsKept check A B) ∧
        (AcceptsAll check new old → CountsKept check B A) := by
  refine ⟨fun hclean hkept x => ?_, fun hclean hkept x => ?_, ?_⟩
  · exact counts_refine h hcomp hclean (fun A B hbeside =>
      ⟨fun _ => hkept A B hbeside, fun hdir => absurd rfl hdir⟩) x
  · exact counts_refine h hcomp hclean (fun A B hbeside =>
      ⟨fun hdir => absurd rfl hdir, fun _ => hkept A B hbeside⟩) x
  · rintro A B hlone rfl rfl
    exact ⟨countsKept_of_acceptsAll hlone, countsKept_of_acceptsAll hlone.symm⟩

section Examples

variable {check : String → Json → Json → Bool}

/-- A schema of one type. -/
private def ofType (t : String) : Json := .obj [("type", .str t)]

/-- A schema of one of some types. -/
private def oneOfTypes (ts : List String) : Json := .obj [("oneOf", .arr (ts.map ofType))]

private theorem accepts_ofType (t : String) (x : Json) :
    accepts check (ofType t) x = hasType x t := by
  rw [Bool.eq_iff_iff, ofType, accepts_obj]
  constructor
  · intro h
    simpa [holds, upper, lower, typeNames] using h "type" _ rfl
  · intro h k v hk
    have hkey : k = "type" ∧ v = .str t := by
      by_cases heq : k = "type"
      · simp_all
      · simp [List.lookup_cons, beq_eq_false_iff_ne.mpr heq] at hk
    obtain ⟨rfl, rfl⟩ := hkey
    simpa [holds, upper, lower, typeNames] using h

private theorem branches_ofType {ts : List String} {x : Json} :
    branches check (.arr (ts.map ofType)) x = ts.countP (hasType x) := by
  simp [branches, Json.elements, List.countP_map, Function.comp_def, accepts_ofType]

/-- Whatever stands beside something inside one schema is the same. -/
private theorem beside_eq {s t v w : Json} (h : Beside s t v w) (heq : v = w) : s = t := by
  induction h with
  | refl => exact heq
  | schema hk hv hw h ih =>
    cases heq
    exact ih (Option.some_inj.mp (hv.symm.trans hw))
  | member hv hw hp hq h ih =>
    cases heq
    cases hv.symm.trans hw
    exact ih (Option.some_inj.mp (hp.symm.trans hq))
  | entry hk hv hw hp hq h ih =>
    cases heq
    cases hv.symm.trans hw
    exact ih (Option.some_inj.mp (hp.symm.trans hq))

/-- Branches that stand beside each other and are the same have the same inside. -/
private theorem beside_oneOf {A B : List (String × Json)} {ss ts : List Json} {n : Json}
    (hsame : ∀ (i : ℕ) p q, ss[i]? = some p → ts[i]? = some q → p = q)
    (h : Beside (.obj A) (.obj B) (.obj [("oneOf", .arr ss), ("propertyNames", n)])
      (.obj [("oneOf", .arr ts)])) :
    (A = [("oneOf", .arr ss), ("propertyNames", n)] ∧ B = [("oneOf", .arr ts)]) ∨ A = B := by
  have hlone : ∀ {k w}, [("oneOf", Json.arr ts)].lookup k = some w → k = "oneOf" ∧ w = .arr ts := by
    intro k w hw
    by_cases hk : k = "oneOf"
    · simp_all
    · simp [List.lookup_cons, beq_eq_false_iff_ne.mpr hk] at hw
  cases h with
  | refl => exact .inl ⟨rfl, rfl⟩
  | schema hk hv hw =>
    rw [(hlone hw).1] at hk
    exact absurd hk (by decide)
  | member hv hw => exact absurd (hlone hw).1 (by decide)
  | entry hk hv hw hp hq h =>
    obtain ⟨rfl, rfl⟩ := hlone hw
    cases hv
    cases beside_eq h (hsame _ _ _ hp hq)
    exact .inr rfl

/-- A third type for a request, and no check of the names. -/
theorem counting_sound_types :
    let old := Json.obj [("oneOf", .arr (["string", "number"].map ofType)),
      ("propertyNames", ofType "string")]
    let new := Json.obj [("oneOf", .arr (["string", "number", "boolean"].map ofType))]
    comparable countingLeaf true old new = true ∧
      diffJSON .request old bodyPath new ≠ [] ∧ Clean (diffJSON .request old bodyPath new) ∧
      ∀ check, AcceptsAll check old new := by
  intro old new
  have hcomp : comparable countingLeaf true old new = true := by decide +kernel
  have hclean : Clean (diffJSON .request old bodyPath new) := by decide +kernel
  refine ⟨hcomp, by decide +kernel, hclean, fun check => ?_⟩
  refine (counting_sound schemaAt_body hcomp).1 hclean fun A B hbeside => ?_
  rcases beside_oneOf (by rintro (_ | _ | i) p q ⟨⟩ ⟨⟩ <;> rfl) hbeside with ⟨rfl, rfl⟩ | rfl
  · refine ⟨?_, (fun _ _ hv => by cases hv), (fun _ _ hv => by cases hv)⟩
    rintro v w ⟨⟩ ⟨⟩ x -
    rw [branches_ofType]
    cases x <;> simp [hasType, Json.isStr]
  · exact .of_same rfl rfl rfl

/-- A request comes to reject what it accepted: a number two alternatives accept, a
list with a null beside its one string, and an empty list. -/
theorem counting_narrowed :
    (let old := oneOfTypes ["integer"]
      let new := oneOfTypes ["integer", "number"]
      Clean (diffJSON .request old bodyPath new) ∧
        ∀ check, accepts check old (.num 1) = true ∧ accepts check new (.num 1) = false) ∧
    (let nullable := Json.obj [("type", .arr [.str "string", .str "null"])]
      let old := Json.obj [("contains", ofType "string"), ("maxContains", .num 1)]
      let new := Json.obj [("contains", nullable), ("maxContains", .num 1)]
      let x := Json.arr [.str "a", .null]
      Clean (diffJSON .request old bodyPath new) ∧
        ∀ check, accepts check old x = true ∧ accepts check new x = false) ∧
    (let old := Json.obj [("contains", ofType "integer"), ("minContains", .num 0)]
      let new := Json.obj [("contains", ofType "integer")]
      Clean (diffJSON .request old bodyPath new) ∧
        ∀ check, accepts check old (.arr []) = true ∧ accepts check new (.arr []) = false) := by
  refine ⟨⟨?_, fun check => ⟨rfl, rfl⟩⟩, ⟨?_, fun check => ⟨rfl, rfl⟩⟩,
    ⟨?_, fun check => ⟨rfl, rfl⟩⟩⟩ <;> decide +kernel

end Examples

end Pacto.Diff
