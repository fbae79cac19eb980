import Pacto.Diff.Classification

/-!
# The walk over two schemas

`diffJSON` compares two JSON values key by key and grades each difference.  In a
schema a keyword edit widens or narrows what is accepted, and the position of the
schema decides which of the two breaks: a request may widen, a response may narrow
and a record may do neither.  An edit the walk cannot rank breaks.

This is the walk without `$ref`s, of a configuration, a tool or a schema that has
none.
-/

namespace Pacto.Diff

open Delivery Support DottedPath

/-! ## Effects -/

/-- `effect`: what an edit does to the set of accepted values. -/
inductive Effect where
  | unknown
  | none
  | widen
  | narrow
  deriving DecidableEq, Repr

/-- How open a keyword is: a number, no bound at all, or not to be ranked. -/
inductive Openness where
  | nan
  | finite (q : ℚ)
  | infinite
  deriving DecidableEq, Repr

/-- `rank` compares how open a keyword is on each side. -/
def rank : Openness → Openness → Effect
  | .nan, _ => .unknown
  | _, .nan => .unknown
  | .infinite, .infinite => .none
  | .infinite, .finite _ => .narrow
  | .finite _, .infinite => .widen
  | .finite a, .finite b => if a < b then .widen else if b < a then .narrow else .none

/-- `number` ranks a bound, `sign` being 1 for an upper one and -1 for a lower
one. -/
def number (v : Json) (sign : ℚ) : Openness :=
  match v with
  | .null => .infinite
  | .num q => .finite (sign * q)
  | _ => .nan

/-- `flag` ranks a boolean keyword, absent meaning false. -/
def flag (v : Json) (narrowsWhenTrue : Bool) : Openness :=
  match v with
  | .null => if narrowsWhenTrue then .finite 1 else .finite 0
  | .bool b => if b = narrowsWhenTrue then .finite 0 else .finite 1
  | _ => .nan

/-- `openness`: false accepts nothing extra, a schema what it allows, and true
or absent anything. -/
def openness : Json → Openness
  | .null => .finite 2
  | .bool b => if b then .finite 2 else .finite 0
  | .obj _ => .finite 1
  | _ => .nan

/-- `presence` ranks a keyword that constrains by being there. -/
def presence (v : Json) : Openness := if v = .null then .finite 1 else .finite 0

def toStringSlice : List Json → Option (List String)
  | [] => some []
  | .str s :: rest => (toStringSlice rest).map (s :: ·)
  | _ :: _ => none

/-- `typeSet` reads a `type` value: nothing is the universal set, which is
`none` inside. -/
def typeSet : Json → Option (Option (List String))
  | .null => some none
  | .str t => some (some [t])
  | .arr ts => (toStringSlice ts).map some
  | _ => none

def typesCover (a b : Option (List String)) : Bool :=
  match a, b with
  | none, _ => true
  | some _, none => false
  | some a, some b => b.all fun t => a.contains t || (t = "integer" && a.contains "number")

def typeEffect (old new : Json) : Effect :=
  match typeSet old, typeSet new with
  | some o, some n =>
    match typesCover n o, typesCover o n with
    | true, true => .none
    | true, false => .widen
    | false, true => .narrow
    | false, false => .unknown
  | _, _ => .unknown

def grows (ct : ChangeType) : Effect := if ct = .added then .widen else .narrow

def entryEffect (kw : String) (ct : ChangeType) : Effect :=
  if ["enum", "type", "oneOf", "anyOf"].contains kw then grows ct
  else if ["required", "allOf"].contains kw then (if ct = .added then .narrow else .widen)
  else .unknown

def upperBounds : List String :=
  ["maxLength", "maximum", "maxItems", "maxProperties", "maxContains", "exclusiveMaximum"]

def lowerBounds : List String :=
  ["minLength", "minimum", "minItems", "minProperties", "minContains", "exclusiveMinimum"]

/-- `presenceKeywords`: adding one narrows, dropping one widens and rewriting one
cannot be ranked. -/
def presenceKeywords : List String :=
  ["pattern", "format", "const", "enum", "multipleOf", "allOf", "anyOf", "oneOf", "not", "contains",
    "propertyNames", "required"]

def isBool : Json → Bool
  | .bool _ => true
  | _ => false

/-- `boundEffect`.  OpenAPI 3.0 spells exclusivity as a flag. -/
def boundEffect (kw : String) (old new : Json) : Effect :=
  if (isBool old || isBool new) && hasPrefix "exclusive" kw then rank (flag old true) (flag new true)
  else if upperBounds.contains kw then rank (number old 1) (number new 1)
  else rank (number old (-1)) (number new (-1))

/-- `keywordEffect` says how editing a keyword changes the accepted set.  A side
without the keyword is null. -/
def keywordEffect (kw : String) (elem : Bool) (ct : ChangeType) (old new : Json) : Effect :=
  if elem then entryEffect kw ct
  else if upperBounds.contains kw || lowerBounds.contains kw then boundEffect kw old new
  else if kw = "type" then typeEffect old new
  else if ["additionalProperties", "unevaluatedProperties", "items"].contains kw then
    rank (openness old) (openness new)
  else if kw = "uniqueItems" then rank (flag old true) (flag new true)
  else if kw = "nullable" then rank (flag old false) (flag new false)
  else if presenceKeywords.contains kw && (old = .null || new = .null) then
    rank (presence old) (presence new)
  else .unknown

/-! ## Grades -/

def byPosition (dir : Direction) (e : Effect) : Classification :=
  if e = .none || (e = .widen && dir = .request) || (e = .narrow && dir = .response) then .nonBreaking
  else .breaking

/-- `positional` classifies a schema edit by the position of the schema.  The
path has no brackets. -/
def positional (dir : Direction) (path : String) (elem : Bool) (ct : ChangeType) (old new : Json) :
    Classification :=
  let segs := (split path.toList).map String.ofList
  let kw := segs.getLastD ""
  if segs.dropLast.any ["not", "if"].contains then .breaking
  else if !elem && ct ≠ .modified && (kw = "properties" || isSchemaProperty path) then
    if ct = .added then .nonBreaking
    else if dir = .request then .potentialBreaking
    else .breaking
  else byPosition dir (keywordEffect kw elem ct old new)

/-- The most a change inside a response header is graded. -/
def capped (c : Classification) : Classification :=
  if c = .breaking then .potentialBreaking else c

def classifySchemaChange (dir : Direction) (path : String) (elem : Bool) (ct : ChangeType)
    (old new : Json) : Classification :=
  let segs := segments path
  match rules.lookup (strip path, ct) with
  | some c => c
  | none =>
    let inResponseHeader := dir = .response && inResponseHeaders path
    if isDocOnly segs then .nonBreaking
    else if isExtension segs then .potentialBreaking
    else if positionallyGraded dir segs then
      let c := positional dir (strip path) elem ct old new
      if inResponseHeader then capped c else c
    else if isSchemaProperty path then .potentialBreaking
    else if hasSuffix ".required" path.toList then .breaking
    else if dir = .response && ct = .removed && !inResponseHeader && isResponsePayload path then
      .breaking
    else .potentialBreaking

/-! ## The walk -/

def mergedKeys (old new : List (String × Json)) : List String :=
  (old.map Prod.fst ++ new.map Prod.fst).dedup.insertionSort (· ≤ ·)

def scalars (xs : List Json) : Bool := xs.all (·.scalar)

def specChange (dir : Direction) (path : String) (ct : ChangeType) (old new : Json) : SpecChange where
  path := path
  reason := path ++ " " ++ (if ct = .modified then "changed" else ct.text)
  classification := classifySchemaChange dir path false ct old new
  type := ct
  oldValue := old
  newValue := new

def entryChange (dir : Direction) (path entry reason : String) (ct : ChangeType) (old new : Json) :
    SpecChange where
  path := path ++ "[" ++ entry ++ "]"
  reason := reason ++ " " ++ ct.text
  classification := classifySchemaChange dir path true ct old new
  type := ct
  oldValue := old
  newValue := new

def diffScalarArrayAsSets (dir : Direction) (path : String) (old new : List Json) :
    List SpecChange :=
  ((new.filter fun s => !old.contains s).map fun s =>
      entryChange dir path s.text (path ++ " " ++ s.text) .added .null s) ++
    (old.filter fun s => !new.contains s).map fun s =>
      entryChange dir path s.text (path ++ " " ++ s.text) .removed s .null

/-- `closedObject` regrades the property changes under an object whose old schema
declares no additional properties. -/
def closedObject (dir : Direction) (path : String) (old : List (String × Json))
    (changes : List SpecChange) : List SpecChange :=
  if dir = .unknown || old.lookup "additionalProperties" ≠ some (.bool false) then changes
  else
    changes.map fun c =>
      let props := (path ++ ".properties.").toList
      let name := c.path.toList.drop props.length
      if props.isPrefixOf c.path.toList && c.type ≠ .modified && !name.contains '.' then
        { c with classification := c.classification.worse (byPosition dir (grows c.type)) }
      else c

/-- The comparison of a value with another at a path. -/
abbrev Walk : Type := String → Json → List SpecChange

def diffJSONObjects (dir : Direction) (path : String) (old new : List (String × Json))
    (walks : List (String × Walk)) : List SpecChange :=
  closedObject dir path old ((mergedKeys old new).flatMap fun k =>
    let child := path ++ "." ++ k
    match old.lookup k, new.lookup k with
    | none, none => []
    | none, some w => [specChange dir child .added .null w]
    | some v, none => [specChange dir child .removed v .null]
    | some _, some w => ((walks.lookup k).map fun walk => walk child w).getD [])

def diffJSONArrays (dir : Direction) (path : String) (old new : List Json) (walks : List Walk) :
    List SpecChange :=
  if scalars old && scalars new then diffScalarArrayAsSets dir path old new
  else
    (List.range (max old.length new.length)).flatMap fun i =>
      let entry := path ++ "[" ++ toString i ++ "]"
      match old[i]?, new[i]? with
      | none, none => []
      | none, some w => [entryChange dir path (toString i) entry .added .null w]
      | some v, none => [entryChange dir path (toString i) entry .removed v .null]
      | some _, some w => (walks[i]?.map fun walk => walk entry w).getD []

mutual

def diffJSON (dir : Direction) : Json → Walk
  | .obj old, path, new =>
    if .obj old = new then []
    else
      match new with
      | .obj new => diffJSONObjects dir path old new (walkFields dir old)
      | new => [specChange dir path .modified (.obj old) new]
  | .arr old, path, new =>
    if .arr old = new then []
    else
      match new with
      | .arr new => diffJSONArrays dir path old new (walkList dir old)
      | new => [specChange dir path .modified (.arr old) new]
  | .null, path, new => if .null = new then [] else [specChange dir path .modified .null new]
  | .bool b, path, new =>
    if .bool b = new then [] else [specChange dir path .modified (.bool b) new]
  | .num q, path, new => if .num q = new then [] else [specChange dir path .modified (.num q) new]
  | .str s, path, new => if .str s = new then [] else [specChange dir path .modified (.str s) new]

def walkFields (dir : Direction) : List (String × Json) → List (String × Walk)
  | [] => []
  | (k, v) :: rest => (k, diffJSON dir v) :: walkFields dir rest

def walkList (dir : Direction) : List Json → List Walk
  | [] => []
  | x :: xs => diffJSON dir x :: walkList dir xs

end

/-! ## What the walk reports -/

variable {dir : Direction} {path : String}

theorem walkFields_eq (old : List (String × Json)) :
    walkFields dir old = old.map fun f => (f.1, diffJSON dir f.2) := by
  induction old with
  | nil => rfl
  | cons f old ih => simp [walkFields, ih]

theorem walkList_eq (old : List Json) : walkList dir old = old.map (diffJSON dir) := by
  induction old with
  | nil => rfl
  | cons x old ih => simp [walkList, ih]

/-- The walk finds nothing to grade above `NON_BREAKING`. -/
def Clean (changes : List SpecChange) : Prop := ∀ c ∈ changes, c.classification = .nonBreaking

instance (changes : List SpecChange) : Decidable (Clean changes) :=
  inferInstanceAs (Decidable (∀ _ ∈ _, _))

theorem clean_of_closedObject {old : List (String × Json)} {changes : List SpecChange}
    (h : Clean (closedObject dir path old changes)) : Clean changes := by
  unfold closedObject at h
  split at h
  · exact h
  · intro c hc
    have hregraded := h _ (List.mem_map_of_mem hc)
    dsimp only at hregraded
    split at hregraded
    · cases hclass : c.classification <;>
        cases hworse : byPosition dir (grows c.type) <;>
        simp_all [Classification.worse]
    · exact hregraded

theorem mem_mergedKeys {old new : List (String × Json)} {k : String} :
    k ∈ mergedKeys old new ↔ k ∈ old.map Prod.fst ∨ k ∈ new.map Prod.fst := by
  simp [mergedKeys, List.mem_insertionSort]

section Objects

attribute [local simp] diffJSON

variable {old new : List (String × Json)} {k : String} {v w : Json}

/-- What an uneventful walk over two objects says about one key. -/
theorem clean_key (h : Clean (diffJSON dir (.obj old) path (.obj new)))
    (hne : Json.obj old ≠ .obj new) (hk : k ∈ mergedKeys old new) :
    Clean (match old.lookup k, new.lookup k with
      | none, none => []
      | none, some w => [specChange dir (path ++ "." ++ k) .added .null w]
      | some v, none => [specChange dir (path ++ "." ++ k) .removed v .null]
      | some v, some w => diffJSON dir v (path ++ "." ++ k) w) := by
  rw [diffJSON, if_neg hne] at h
  have hclean := clean_of_closedObject h
  intro c hc
  apply hclean c
  rw [List.mem_flatMap]
  refine ⟨k, hk, ?_⟩
  dsimp only
  rw [walkFields_eq, lookup_map_snd]
  cases hold : old.lookup k <;> cases hnew : new.lookup k <;> simp_all

theorem clean_added (h : Clean (diffJSON dir (.obj old) path (.obj new)))
    (hold : old.lookup k = none) (hnew : new.lookup k = some w) :
    classifySchemaChange dir (path ++ "." ++ k) false .added .null w = .nonBreaking := by
  have hne : Json.obj old ≠ .obj new := by
    rintro heq
    cases heq
    rw [hold] at hnew
    cases hnew
  have hkey := clean_key h hne (mem_mergedKeys.mpr (.inr (mem_keys_of_lookup hnew)))
  rw [hold, hnew] at hkey
  exact hkey _ (List.mem_singleton_self _)

theorem clean_removed (h : Clean (diffJSON dir (.obj old) path (.obj new)))
    (hold : old.lookup k = some v) (hnew : new.lookup k = none) :
    classifySchemaChange dir (path ++ "." ++ k) false .removed v .null = .nonBreaking := by
  have hne : Json.obj old ≠ .obj new := by
    rintro heq
    cases heq
    rw [hold] at hnew
    cases hnew
  have hkey := clean_key h hne (mem_mergedKeys.mpr (.inl (mem_keys_of_lookup hold)))
  rw [hold, hnew] at hkey
  exact hkey _ (List.mem_singleton_self _)

theorem diffJSON_self (v : Json) : diffJSON dir v path v = [] := by
  cases v <;> simp

theorem clean_both (h : Clean (diffJSON dir (.obj old) path (.obj new)))
    (hold : old.lookup k = some v) (hnew : new.lookup k = some w) :
    Clean (diffJSON dir v (path ++ "." ++ k) w) := by
  by_cases heq : Json.obj old = .obj new
  · cases heq
    rw [hold] at hnew
    cases hnew
    rw [diffJSON_self]
    simp [Clean]
  · have hkey := clean_key h heq (mem_mergedKeys.mpr (.inl (mem_keys_of_lookup hold)))
    rwa [hold, hnew] at hkey

end Objects

section Arrays

variable {old new : List Json}

/-- Two lists of scalars are compared as sets. -/
theorem clean_sets (h : Clean (diffJSON dir (.arr old) path (.arr new))) (hne : old ≠ new)
    (hold : scalars old = true) (hnew : scalars new = true) :
    Clean (diffScalarArrayAsSets dir path old new) := by
  rw [diffJSON, if_neg (by simpa using hne)] at h
  simpa [diffJSONArrays, hold, hnew] using h

/-- Other lists are compared entry by entry. -/
theorem clean_entry (h : Clean (diffJSON dir (.arr old) path (.arr new))) (hne : old ≠ new)
    (hscalars : ¬ (scalars old = true ∧ scalars new = true)) {i : ℕ}
    (hi : i < max old.length new.length) :
    Clean (match old[i]?, new[i]? with
      | none, none => []
      | none, some w =>
        [entryChange dir path (toString i) (path ++ "[" ++ toString i ++ "]") .added .null w]
      | some v, none =>
        [entryChange dir path (toString i) (path ++ "[" ++ toString i ++ "]") .removed v .null]
      | some v, some w => diffJSON dir v (path ++ "[" ++ toString i ++ "]") w) := by
  rw [diffJSON, if_neg (by simpa using hne), diffJSONArrays,
    if_neg (by simpa using hscalars)] at h
  intro c hc
  apply h c
  rw [List.mem_flatMap]
  refine ⟨i, List.mem_range.mpr hi, ?_⟩
  dsimp only
  rw [walkList_eq, List.getElem?_map]
  cases hold : old[i]? <;> cases hnew : new[i]? <;> simp_all

end Arrays

end Pacto.Diff
