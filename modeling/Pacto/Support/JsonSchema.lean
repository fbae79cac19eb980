import Pacto.Support.Json

/-!
# The instances a JSON schema accepts

A schema is a boolean or an object of keywords, and accepts an instance when
every keyword holds of it.  Two keywords read their neighbours: the additional
properties are those `properties` does not name, and the bounds on `contains`
count for nothing without it.  The keywords not spelled out here (a pattern, a
format, a divisor and any other) are left to a check of the keyword, its value and
the instance.
-/

namespace Pacto.Support
namespace Schema

open Json

/-! ## Keywords on one instance -/

/-- The instance has the type of a name.  An integer is a number. -/
def hasType (x : Json) : String → Bool
  | "null" => x = .null
  | "boolean" => match x with
    | .bool _ => true
    | _ => false
  | "number" => match x with
    | .num _ => true
    | _ => false
  | "integer" => match x with
    | .num q => q.den = 1
    | _ => false
  | "string" => x.isStr
  | "array" => match x with
    | .arr _ => true
    | _ => false
  | "object" => match x with
    | .obj _ => true
    | _ => false
  | _ => false

def typeNames : Json → List String
  | .str t => [t]
  | .arr ts => ts.filterMap fun
    | .str t => some t
    | _ => none
  | _ => []

/-- What a bound of a keyword is compared with, if the instance has it. -/
def measure (k : String) (x : Json) : Option ℚ :=
  match k, x with
  | "minimum", .num q | "maximum", .num q => some q
  | "minLength", .str s | "maxLength", .str s => some s.length
  | "minItems", .arr xs | "maxItems", .arr xs => some xs.length
  | "minProperties", .obj fields | "maxProperties", .obj fields =>
    some (fields.map Prod.fst).dedup.length
  | _, _ => none

/-- The bounds from above. -/
def upper : List String := ["maximum", "maxLength", "maxItems", "maxProperties"]

/-- The bounds from below. -/
def lower : List String := ["minimum", "minLength", "minItems", "minProperties"]

def atMost (bound : Json) (m : Option ℚ) : Bool :=
  match bound, m with
  | .num b, some q => q ≤ b
  | _, _ => true

def atLeast (bound : Json) (m : Option ℚ) : Bool :=
  match bound, m with
  | .num b, some q => b ≤ q
  | _, _ => true

/-- The object names every entry of the list. -/
def hasNames (names : List Json) (x : Json) : Bool :=
  match x with
  | .obj fields => names.all fun
    | .str n => (fields.lookup n).isSome
    | _ => true
  | _ => true

def declared (siblings : List (String × Json)) : List String :=
  (((siblings.lookup "properties").getD .null).fields).map Prod.fst

/-- The number a neighbour bounds with. -/
def numberOf (siblings : List (String × Json)) (k : String) : Option ℚ :=
  match siblings.lookup k with
  | some (.num q) => some q
  | _ => none

/-- So many elements satisfy `contains`, at least one where nothing is said. -/
def countOk (siblings : List (String × Json)) (n : ℕ) : Bool :=
  ((numberOf siblings "minContains").getD 1 ≤ n) &&
    match numberOf siblings "maxContains" with
    | some q => n ≤ q
    | none => true

/-- A keyword beside its neighbours holds of an instance.  `r` is the keyword's
value read as schemas. -/
def holds (check : String → Json → Json → Bool) (siblings : List (String × Json)) (k : String)
    (v : Json) (r : Reading (Json → Bool)) (x : Json) : Bool :=
  if upper.contains k then atMost v (measure k x)
  else if lower.contains k then atLeast v (measure k x)
  else
    match k with
    | "type" => (typeNames v).any (hasType x)
    | "enum" => v.elements.contains x
    | "const" => v = x
    | "uniqueItems" => v ≠ .bool true || decide x.elements.Nodup
    | "required" => hasNames v.elements x
    | "properties" => (r.members.map Prod.fst).all fun n =>
      match r.members.lookup n, x.fields.lookup n with
      | some s, some y => s y
      | _, _ => true
    | "additionalProperties" => (x.fields.map Prod.fst).all fun n =>
      (declared siblings).contains n ||
        match x.fields.lookup n with
        | some y => r.schema y
        | none => true
    | "items" => x.elements.all r.schema
    | "allOf" => r.entries.all fun s => s x
    | "anyOf" => r.entries.any fun s => s x
    | "oneOf" => r.entries.countP (fun s => s x) = 1
    | "not" => !r.schema x
    | "contains" => match x with
      | .arr xs => countOk siblings (xs.countP r.schema)
      | _ => true
    | "minContains" | "maxContains" => true
    | "propertyNames" => x.fields.all fun f => r.schema (.str f.1)
    | _ => check k v x

/-! ## Schemas -/

variable (check : String → Json → Json → Bool)

/-- What an object of keywords accepts, from the readings of their values. -/
def ofKeywords (keywords : List (String × Json × Reading (Json → Bool))) (x : Json) : Bool :=
  let siblings := keywords.map fun f => (f.1, f.2.1)
  (keywords.map Prod.fst).all fun k =>
    match keywords.lookup k with
    | some (v, r) => holds check siblings k v r x
    | none => true

def reading : Json → Reading (Json → Bool) :=
  fold (fun b _ => b) (ofKeywords check) fun _ => false

def accepts (s x : Json) : Bool := (reading check s).schema x

section Accepts

variable {check} {fs : List (String × Json)} {v x : Json}

theorem reading_schema : (reading check v).schema = accepts check v := rfl

@[simp]
theorem accepts_bool (b : Bool) : accepts check (.bool b) x = b := rfl

/-- An object accepts what every keyword of it holds of. -/
theorem accepts_obj : accepts check (.obj fs) x = true ↔
    ∀ k v, fs.lookup k = some v → holds check fs k v (reading check v) x = true := by
  have hfold : accepts check (.obj fs) x =
      ofKeywords check (fs.map fun f => (f.1, f.2, reading check f.2)) x := by
    unfold accepts reading
    rw [fold_obj]
  have hsiblings : (fs.map fun f => (f.1, f.2, reading check f.2)).map (fun f => (f.1, f.2.1)) =
      fs := by
    simp [Function.comp_def]
  rw [hfold]
  unfold ofKeywords
  dsimp only
  rw [hsiblings, List.all_eq_true]
  constructor
  · intro h k v hk
    have hlookup : (fs.map fun f => (f.1, f.2, reading check f.2)).lookup k =
        some (v, reading check v) := by
      rw [lookup_map_snd fun v => (v, reading check v), hk]
      rfl
    simpa [hlookup] using h k (mem_keys_of_lookup hlookup)
  · intro h k _
    rw [lookup_map_snd fun v => (v, reading check v)]
    cases hk : fs.lookup k with
    | none => rfl
    | some v => exact h k v hk

/-! ### The keywords that hold schemas -/

attribute [local simp] holds upper lower

theorem holds_properties : holds check fs "properties" v (reading check v) x = true ↔
    ∀ n s y, v.fields.lookup n = some s → x.fields.lookup n = some y →
      accepts check s y = true := by
  have hmembers : (reading check v).members = v.fields.map fun f => (f.1, accepts check f.2) :=
    members_fold ..
  simp only [holds, upper, lower, hmembers, lookup_map_snd]
  simp only [List.contains_cons, List.contains_nil, String.reduceBEq, Bool.or_false,
    Bool.false_eq_true, if_false, List.all_eq_true]
  constructor
  · intro h n s y hs hy
    have hmem : n ∈ (v.fields.map fun f => (f.1, accepts check f.2)).map Prod.fst := by
      simpa [Function.comp_def] using ⟨s, mem_of_lookup_eq_some hs⟩
    simpa [hs, hy] using h n hmem
  · intro h n _
    cases hs : v.fields.lookup n with
    | none => rfl
    | some s =>
      cases hy : x.fields.lookup n with
      | none => rfl
      | some y => exact h n s y hs hy

theorem holds_additionalProperties :
    holds check fs "additionalProperties" v (reading check v) x = true ↔
      ∀ n y, n ∉ declared fs → x.fields.lookup n = some y → accepts check v y = true := by
  simp only [holds, upper, lower, reading_schema, List.contains_cons, List.contains_nil,
    String.reduceBEq, Bool.or_false, Bool.false_eq_true, if_false, List.all_eq_true, Bool.or_eq_true,
    List.contains_iff_mem]
  constructor
  · intro h n y hn hy
    have hy' := (h n (mem_keys_of_lookup hy)).resolve_left hn
    simpa [hy] using hy'
  · intro h n _
    by_cases hn : n ∈ declared fs
    · exact .inl hn
    · right
      cases hy : x.fields.lookup n with
      | none => rfl
      | some y => exact h n y hn hy

theorem holds_items : holds check fs "items" v (reading check v) x = true ↔
    ∀ y ∈ x.elements, accepts check v y = true := by
  simp [reading_schema]

theorem holds_allOf : holds check fs "allOf" v (reading check v) x = true ↔
    ∀ s ∈ v.elements, accepts check s x = true := by
  simp [reading, entries_fold, accepts]

theorem holds_anyOf : holds check fs "anyOf" v (reading check v) x = true ↔
    ∃ s ∈ v.elements, accepts check s x = true := by
  simp [reading, entries_fold, accepts]

theorem holds_oneOf : holds check fs "oneOf" v (reading check v) x = true ↔
    v.elements.countP (fun s => accepts check s x) = 1 := by
  simp [reading, entries_fold, accepts, List.countP_map, Function.comp_def]

theorem holds_contains {xs : List Json} :
    holds check fs "contains" v (reading check v) (.arr xs) = true ↔
      countOk fs (xs.countP (accepts check v)) = true := by
  simp [reading_schema]

theorem holds_propertyNames : holds check fs "propertyNames" v (reading check v) x = true ↔
    ∀ f ∈ x.fields, accepts check v (.str f.1) = true := by
  simp [reading_schema]

end Accepts

end Schema
end Pacto.Support
