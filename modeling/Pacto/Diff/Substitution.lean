import Pacto.Diff.Counting
import Pacto.Diff.Values

/-!
# The walk over two schemas is sound

Two schemas can be compared when every keyword that differs is one the walk knows
how to rank, with a value of the shape it asks for, and the properties have the same
names.  If the walk over two such schemas grades every change `NON_BREAKING`, then a
request schema accepts at least what it accepted, a response schema at most that,
and a record schema the same.
-/

namespace Pacto.Diff

open Delivery Support DottedPath Schema

/-! ## Schemas that can be compared -/

/-- The keywords of one schema that may change inside. -/
def schemaKeywords (counting : Bool) : List String :=
  ["items", "additionalProperties"] ++ if counting then ["contains", "propertyNames"] else []

/-- The keywords of a list of schemas that may change inside. -/
def listKeywords (counting : Bool) : List String :=
  ["allOf", "anyOf"] ++ if counting then ["oneOf"] else []

/-- An object. -/
def isObj : Json → Bool
  | .obj _ => true
  | _ => false

/-- A list of schemas. -/
def isSchemas : Json → Bool
  | .arr ss => ss.all (·.schemaLike)
  | _ => false

/-- The properties of the two sides have the same names. -/
def sameNames (A B : List (String × Json)) : Bool :=
  (declared A).all (declared B).contains && (declared B).all (declared A).contains

/-- A comparison of a value with another, by what the value is read as. -/
abbrev Pairing : Type := Json.Reading (Json → Bool)

/-- The members of a map can be compared with those of the same name. -/
def membersAgree (r : Pairing) (w : Json) : Bool :=
  (r.members.map Prod.fst).all fun n =>
    decide (PlainName n) &&
      match r.members.lookup n, w.fields.lookup n with
      | some agrees, some t => agrees t
      | _, _ => true

/-- The entries of a list can be compared with those at the same place. -/
def entriesAgree (r : Pairing) (w : Json) : Bool :=
  (r.entries.zip w.elements).all fun e => e.1 e.2

/-- A condition on two values that are both there. -/
def bothAgree (a : Option (Json × Pairing)) (b : Option Json) (agrees : Pairing → Json → Bool) :
    Bool :=
  match a, b with
  | some (_, r), some w => agrees r w
  | _, _ => true

/-- The values of one keyword can be compared.  `leaf` says which values of a
keyword without schemas may change. -/
def keyAgrees (leaf : String → Json → Bool) (counting : Bool) (k : String)
    (a : Option (Json × Pairing)) (b : Option Json) : Bool :=
  a.map Prod.fst = b || (a.all (fun f => leaf k f.1) && b.all (leaf k)) ||
    ((schemaKeywords counting).contains k && a.all (·.1.schemaLike) && b.all (·.schemaLike) &&
      bothAgree a b fun r w => r.schema w) ||
    (k = "properties" && a.all (fun f => isObj f.1) && b.all isObj && bothAgree a b membersAgree) ||
    ((listKeywords counting).contains k && a.all (fun f => isSchemas f.1) && b.all isSchemas &&
      bothAgree a b entriesAgree)

/-- The keywords of a schema can be compared with those of another. -/
def fieldsAgree (leaf : String → Json → Bool) (counting : Bool)
    (keywords : List (String × Json × Pairing)) (new : Json) : Bool :=
  match new with
  | .bool _ => true
  | .obj B =>
    let A := keywords.map fun f => (f.1, f.2.1)
    A = B || (sameNames A B &&
      (mergedKeys A B).all fun k => keyAgrees leaf counting k (keywords.lookup k) (B.lookup k))
  | _ => false

/-- A value read for comparison. -/
def pairing (leaf : String → Json → Bool) (counting : Bool) : Json → Pairing :=
  Json.fold (fun _ new => new.schemaLike) (fieldsAgree leaf counting) fun _ => false

def comparable (leaf : String → Json → Bool) (counting : Bool) (old new : Json) : Bool :=
  (pairing leaf counting old).schema new

section Comparable

variable {leaf : String → Json → Bool} {counting : Bool} {A B : List (String × Json)}
  {a b : Option Json} {k : String} {v w : Json}

/-- What two schemas that can be compared share. -/
theorem comparable_obj (h : comparable leaf counting (.obj A) (.obj B) = true) (hne : A ≠ B) :
    sameNames A B = true ∧
      ∀ k, keyAgrees leaf counting k
        ((A.lookup k).map fun v => (v, pairing leaf counting v)) (B.lookup k) = true := by
  unfold comparable pairing at h
  rw [Json.fold_obj] at h
  have hfields : (A.map fun f => (f.1, f.2, pairing leaf counting f.2)).map
      (fun f => (f.1, f.2.1)) = A := by simp [Function.comp_def]
  change fieldsAgree leaf counting (A.map fun f => (f.1, f.2, pairing leaf counting f.2)) (.obj B) =
    true at h
  unfold fieldsAgree at h
  dsimp only at h
  rw [hfields] at h
  simp only [hne, decide_false, Bool.false_or, Bool.and_eq_true, List.all_eq_true] at h
  refine ⟨h.1, fun k => ?_⟩
  by_cases hk : k ∈ mergedKeys A B
  · have hagrees := h.2 k hk
    rwa [lookup_map_snd fun v => (v, pairing leaf counting v)] at hagrees
  · have hnone : ∀ {C : List (String × Json)}, k ∉ C.map Prod.fst → C.lookup k = none := by
      intro C hC
      by_contra hsome
      obtain ⟨v, hv⟩ := Option.ne_none_iff_exists'.mp hsome
      exact hC (mem_keys_of_lookup hv)
    rw [mem_mergedKeys, not_or] at hk
    simp [hnone hk.1, hnone hk.2, keyAgrees]

/-- The ways two values of a keyword can be compared. -/
theorem keyAgrees_cases
    (h : keyAgrees leaf counting k (a.map fun v => (v, pairing leaf counting v)) b = true) :
    a = b ∨ ((∀ v, a = some v → leaf k v = true) ∧ ∀ w, b = some w → leaf k w = true) ∨
      (k ∈ schemaKeywords counting ∧ (∀ v, a = some v → v.schemaLike = true) ∧
        (∀ w, b = some w → w.schemaLike = true) ∧
        ∀ v w, a = some v → b = some w → comparable leaf counting v w = true) ∨
      (k = "properties" ∧ (∀ v, a = some v → isObj v = true) ∧
        (∀ w, b = some w → isObj w = true) ∧
        ∀ v w, a = some v → b = some w → membersAgree (pairing leaf counting v) w = true) ∨
      (k ∈ listKeywords counting ∧ (∀ v, a = some v → isSchemas v = true) ∧
        (∀ w, b = some w → isSchemas w = true) ∧
        ∀ v w, a = some v → b = some w → entriesAgree (pairing leaf counting v) w = true) := by
  have hboth : ∀ {agrees : Pairing → Json → Bool},
      bothAgree (a.map fun v => (v, pairing leaf counting v)) b agrees = true →
        ∀ v w, a = some v → b = some w → agrees (pairing leaf counting v) w = true := by
    rintro agrees hagrees v w rfl rfl
    exact hagrees
  have hsome : ∀ {c : Option Json} {p : Json → Bool}, c.all p = true →
      ∀ v, c = some v → p v = true := by
    rintro c p hc v rfl
    exact hc
  have hfst : ∀ {p : Json → Bool}, (a.map fun v => (v, pairing leaf counting v)).all
      (fun f => p f.1) = true → ∀ v, a = some v → p v = true := by
    rintro p hp v rfl
    exact hp
  have hmap : (a.map fun v => (v, pairing leaf counting v)).map Prod.fst = a := by
    cases a <;> rfl
  unfold keyAgrees at h
  simp only [hmap, Bool.or_eq_true, Bool.and_eq_true, decide_eq_true_eq, List.contains_iff_mem] at h
  rcases h with (((h | h) | h) | h) | h
  · exact .inl h
  · exact .inr (.inl ⟨hfst h.1, hsome h.2⟩)
  · exact .inr (.inr (.inl ⟨h.1.1.1, hfst h.1.1.2, hsome h.1.2, hboth h.2⟩))
  · exact .inr (.inr (.inr (.inl ⟨h.1.1.1, hfst h.1.1.2, hsome h.1.2, hboth h.2⟩)))
  · exact .inr (.inr (.inr (.inr ⟨h.1.1.1, hfst h.1.1.2, hsome h.1.2, hboth h.2⟩)))

theorem membersAgree_lookup (h : membersAgree (pairing leaf counting v) w = true) :
    (∀ n ∈ v.fields.map Prod.fst, PlainName n) ∧
      ∀ n s t, v.fields.lookup n = some s → w.fields.lookup n = some t →
        comparable leaf counting s t = true := by
  have hmembers : (pairing leaf counting v).members =
      v.fields.map fun f => (f.1, comparable leaf counting f.2) := Json.members_fold ..
  unfold membersAgree at h
  simp only [hmembers, lookup_map_snd, List.all_eq_true, Bool.and_eq_true, decide_eq_true_eq,
    List.map_map, Function.comp_def] at h
  refine ⟨fun n hn => (h n hn).1, fun n s t hs ht => ?_⟩
  have hagrees := (h n (mem_keys_of_lookup hs)).2
  simpa [hs, ht] using hagrees

theorem entriesAgree_getElem (h : entriesAgree (pairing leaf counting v) w = true) (i : ℕ)
    {s t : Json} (hs : v.elements[i]? = some s) (ht : w.elements[i]? = some t) :
    comparable leaf counting s t = true := by
  have hentries : (pairing leaf counting v).entries = v.elements.map (comparable leaf counting) :=
    Json.entries_fold ..
  rw [entriesAgree, hentries, List.all_eq_true] at h
  have hzip : ((v.elements.map (comparable leaf counting)).zip w.elements)[i]? =
      some (comparable leaf counting s, t) := by
    simp [List.getElem?_zip_eq_some, hs, ht]
  exact h _ (List.mem_of_getElem? hzip)

/-- A keyword with no values of its own has none on either side. -/
theorem eq_of_noLeaf (hleaf : ∀ k v, leaf k v = true → k ∈ ["const", "enum"] ∨ leafShape k v = true)
    (hvalue : k ∉ ["const", "enum"]) (hshape : ∀ v, leafShape k v = false)
    (ha : ∀ v, a = some v → leaf k v = true) (hb : ∀ w, b = some w → leaf k w = true) : a = b := by
  have hnone : ∀ {c : Option Json}, (∀ v, c = some v → leaf k v = true) → c = none := by
    intro c hc
    match c with
    | none => rfl
    | some v => exact absurd ((hleaf k v (hc v rfl)).resolve_left hvalue) (by simp [hshape])
  rw [hnone ha, hnone hb]

theorem sameNames_iff (h : sameNames A B = true) (n : String) : n ∈ declared A ↔ n ∈ declared B := by
  simp only [sameNames, Bool.and_eq_true, List.all_eq_true, List.contains_iff_mem] at h
  exact ⟨h.1 n, h.2 n⟩

end Comparable

/-! ## One keyword -/

section OneKey

variable {check : String → Json → Json → Bool} {leaf : String → Json → Bool} {counting : Bool}
  {dir : Direction} {path : String} {A B : List (String × Json)} {x : Json}

/-- The parts of two schemas refine: what a keyword holds as a schema, by name or
in a list. -/
structure PartsSubstitute (check : String → Json → Json → Bool) (leaf : String → Json → Bool)
    (counting : Bool) (dir : Direction) (A B : List (String × Json)) : Prop where
  schema : ∀ k ∈ schemaKeywords true, ∀ v w, A.lookup k = some v → B.lookup k = some w →
    comparable leaf counting v w = true → Substitutes check dir v w
  member : ∀ v w, A.lookup "properties" = some v → B.lookup "properties" = some w → ∀ n s t,
    v.fields.lookup n = some s → w.fields.lookup n = some t →
      comparable leaf counting s t = true → Substitutes check dir s t
  entry : ∀ k ∈ listKeywords true, ∀ v w, A.lookup k = some v → B.lookup k = some w →
    ∀ (i : ℕ) s t, v.elements[i]? = some s → w.elements[i]? = some t →
      comparable leaf counting s t = true → Substitutes check dir s t

/-- The instances `additionalProperties` is about. -/
def Additional (siblings : List (String × Json)) (x y : Json) : Prop :=
  ∃ n, n ∉ declared siblings ∧ x.fields.lookup n = some y

theorem additional_iff {a : Option Json} :
    HoldsAt check A "additionalProperties" a x ↔ Covers check (Additional A x) a := by
  simp only [HoldsAt, holds_additionalProperties, Covers, Additional]
  refine forall_congr' fun v => imp_congr_right fun _ => ⟨?_, fun h n y hn hy => h y ⟨n, hn, hy⟩⟩
  rintro h y ⟨n, hn, hy⟩
  exact h n y hn hy

theorem items_iff {a : Option Json} :
    HoldsAt check A "items" a x ↔ Covers check (· ∈ x.elements) a := by
  simp only [HoldsAt, holds_items, Covers]

theorem propertyNames_iff {a : Option Json} : HoldsAt check A "propertyNames" a x ↔
    Covers check (fun y => ∃ f ∈ x.fields, y = .str f.1) a := by
  simp only [HoldsAt, holds_propertyNames, Covers]
  refine forall_congr' fun v => imp_congr_right fun _ => ⟨?_, fun h f hf => h _ ⟨f, hf, rfl⟩⟩
  rintro h y ⟨f, hf, rfl⟩
  exact h f hf

theorem properties_key (h : SchemaAt path)
    (hparts : PartsSubstitute check leaf counting dir A B)
    (hclean : Clean (diffJSON dir (.obj A) path (.obj B))) (hnames : sameNames A B = true)
    (hk : ∀ v w, A.lookup "properties" = some v → B.lookup "properties" = some w →
      isObj v = true ∧ isObj w = true ∧ membersAgree (pairing leaf counting v) w = true) :
    dir.Refines (HoldsAt check A "properties" (A.lookup "properties") x)
      (HoldsAt check A "properties" (B.lookup "properties") x) := by
  have hdeclared : ∀ {C D : List (String × Json)} {v : Json}, (∀ n, n ∈ declared C ↔ n ∈ declared D) →
      C.lookup "properties" = some v → D.lookup "properties" = none →
        HoldsAt check A "properties" (some v) x := by
    intro C D v hsame hv hnone
    rw [holdsAt_some, holds_properties]
    intro n s y hs _
    have hmem : n ∈ declared C := by
      rw [declared, hv]
      exact mem_keys_of_lookup hs
    rw [hsame, declared, hnone] at hmem
    exact absurd hmem List.not_mem_nil
  have hiff := sameNames_iff hnames
  cases hv : A.lookup "properties" with
  | none =>
    cases hw : B.lookup "properties" with
    | none => exact .of_iff Iff.rfl
    | some w =>
      have hholds := hdeclared (fun n => (hiff n).symm) hw hv
      exact .of_iff ⟨fun _ => hholds, fun _ => holdsAt_none⟩
  | some v =>
    cases hw : B.lookup "properties" with
    | none =>
      have hholds := hdeclared hiff hv hw
      exact .of_iff ⟨fun _ => holdsAt_none, fun _ => hholds⟩
    | some w =>
      obtain ⟨hobjv, hobjw, hmembers⟩ := hk v w hv hw
      obtain ⟨hplain, hcomp⟩ := membersAgree_lookup hmembers
      have hwalk := keyClean_of_clean hclean "properties"
      rw [hv, hw] at hwalk
      match v, w with
      | .obj ps, .obj qs =>
        refine properties_refines h (fun n => ?_) hplain
          (fun n s t hs ht => hparts.member _ _ hv hw n s t hs ht (hcomp n s t hs ht)) ?_
        · simpa [declared, hv, hw, Json.fields] using hiff n
        · have hpath : path ++ "." ++ "properties" = path ++ ".properties" := by
            rw [String.append_assoc]
            rfl
          rw [← hpath]
          exact hwalk

variable (h : SchemaAt path)
  (hleaf : ∀ k v, leaf k v = true → k ∈ ["const", "enum"] ∨ leafShape k v = true)
  (hparts : PartsSubstitute check leaf counting dir A B)
  (hclean : Clean (diffJSON dir (.obj A) path (.obj B)))
  (hkeys : ∀ k, keyAgrees leaf counting k
    ((A.lookup k).map fun v => (v, pairing leaf counting v)) (B.lookup k) = true)

include hleaf hclean hkeys

theorem boundPair {k : String} (hk : k ∈ ["minContains", "maxContains"]) :
    BoundPair dir path k (A.lookup k) (B.lookup k) := by
  have hnot : k ∉ schemaKeywords counting ∧ k ≠ "properties" ∧ k ∉ listKeywords counting ∧
      k ∉ ["const", "enum"] := by
    simp only [List.mem_cons, List.not_mem_nil, or_false] at hk
    rcases hk with rfl | rfl <;> cases counting <;> decide
  have hnum : ∀ v, leaf k v = true → isNum v = true := fun v hv =>
    isNum_of_leaf ((hleaf k v hv).resolve_left hnot.2.2.2) (.inr (.inr hk))
  rcases keyAgrees_cases (hkeys k) with hsame | ⟨ha, hb⟩ | ⟨hk', -⟩ | ⟨hk', -⟩ | ⟨hk', -⟩
  · exact .inl hsame
  · exact .inr ⟨fun v hv => hnum v (ha v hv), fun w hw => hnum w (hb w hw),
      keyClean_of_clean hclean k⟩
  · exact absurd hk' hnot.1
  · exact absurd hk' hnot.2.1
  · exact absurd hk' hnot.2.2.1

include h hparts

theorem contains_key (hcounts : dir.Asks (CountsKept check) A B) :
    dir.Refines (HoldsAt check A "contains" (A.lookup "contains") x)
      (HoldsAt check B "contains" (B.lookup "contains") x) := by
  refine contains_refines h hcounts (boundPair hleaf hclean hkeys (by decide))
    (boundPair hleaf hclean hkeys (by decide)) ?_ (keyClean_of_clean hclean _)
  rcases keyAgrees_cases (hkeys "contains") with hsame | ⟨ha, hb⟩ | ⟨-, ha, hb, hcomp⟩ | ⟨hk, -⟩ |
    ⟨hk, -⟩
  · exact .inl hsame
  · exact .inl (eq_of_noLeaf hleaf (by decide) (by simp [leafShape, upper, lower]) ha hb)
  · exact .inr ⟨ha, hb, fun v w hv hw => hparts.schema _ (by decide) v w hv hw (hcomp v w hv hw)⟩
  · exact absurd hk (by decide)
  · exact absurd hk (by cases counting <;> decide)

/-- A keyword that holds one schema for some parts of the instance. -/
theorem covers_key {k : String} (hk : k ∈ ["items", "additionalProperties", "propertyNames"])
    {about : Json → Prop} :
    dir.Refines (Covers check about (A.lookup k)) (Covers check about (B.lookup k)) := by
  have hkind : (∀ v, leafShape k v = false) ∧ Keyword k ∧
      k ∉ upperBounds ++ lowerBounds ++ ["uniqueItems", "nullable", "properties"] ∧
      (k ∈ ["additionalProperties", "unevaluatedProperties", "items"] ∨ k ∈ presenceKeywords) ∧
      k ∉ listKeywords counting ∧ k ∉ ["const", "enum"] ∧ k ∈ schemaKeywords true := by
    simp only [List.mem_cons, List.not_mem_nil, or_false] at hk
    rcases hk with rfl | rfl | rfl <;>
      exact ⟨by simp [leafShape, upper, lower], by decide, by decide, by decide,
        by cases counting <;> decide, by decide, by decide⟩
  obtain ⟨hshape, hkeyword, hneutral, hranked, hlist, hvalue, hschema⟩ := hkind
  rcases keyAgrees_cases (hkeys k) with hsame | ⟨ha, hb⟩ | ⟨-, ha, hb, hcomp⟩ | ⟨rfl, -⟩ | ⟨hk', -⟩
  · exact .of_iff (by rw [hsame])
  · exact .of_iff (by rw [eq_of_noLeaf hleaf hvalue hshape ha hb])
  · exact oneSchema_refines h hkeyword hneutral hranked ha hb
      (fun v w hv hw => hparts.schema k hschema v w hv hw (hcomp v w hv hw))
      (keyClean_of_clean hclean k)
  · exact absurd hk (by decide)
  · exact absurd hk' hlist

/-- A list of schemas that is there on one side only, or that refines entry by
entry. -/
theorem list_key {k : String} {P : Option Json → Prop} (hk : k ∈ ["allOf", "anyOf", "oneOf"])
    (hnone : P none)
    (hlists : ∀ ss ts, A.lookup k = some (.arr ss) → B.lookup k = some (.arr ts) →
      (∀ (i : ℕ) s t, ss[i]? = some s → ts[i]? = some t → Substitutes check dir s t) →
      Clean (diffJSON dir (.arr ss) (path ++ "." ++ k) (.arr ts)) →
        dir.Refines (P (some (.arr ss))) (P (some (.arr ts)))) :
    dir.Refines (P (A.lookup k)) (P (B.lookup k)) := by
  have hkind : (∀ v, leafShape k v = false) ∧ Keyword k ∧ k ∈ presenceKeywords ∧
      k ∉ schemaKeywords counting ∧ k ∉ ["const", "enum"] ∧ k ∈ listKeywords true := by
    simp only [List.mem_cons, List.not_mem_nil, or_false] at hk
    rcases hk with rfl | rfl | rfl <;>
      exact ⟨by simp [leafShape, upper, lower], by decide, by decide, by cases counting <;> decide,
        by decide, by decide⟩
  obtain ⟨hshape, hkeyword, hpresence, hschema, hvalue, hlist⟩ := hkind
  have hnull : ∀ {c : Option Json}, (∀ v, c = some v → isSchemas v = true) → c ≠ some .null := by
    rintro c hc rfl
    exact absurd (hc _ rfl) (by simp [isSchemas])
  rcases keyAgrees_cases (hkeys k) with hsame | ⟨ha, hb⟩ | ⟨hk', -⟩ | ⟨rfl, -⟩ | ⟨-, ha, hb, hcomp⟩
  · exact .of_iff (by rw [hsame])
  · exact .of_iff (by rw [eq_of_noLeaf hleaf hvalue hshape ha hb])
  · exact absurd hk' hschema
  · exact absurd hk (by decide)
  · refine (keyClean_of_clean hclean k).refines hkeyword h.toGraded h.last (fun heq => by rw [heq])
      ?_ (presence_sound hpresence (hnull ha) (hnull hb) (fun heq => heq ▸ hnone)
        fun heq => heq ▸ hnone)
    intro v w hv hw halike hwalk
    rcases halike with ⟨fs, gs, rfl, rfl⟩ | ⟨ss, ts, rfl, rfl⟩
    · exact absurd (ha _ hv) (by simp [isSchemas])
    · rw [hv, hw]
      exact hlists ss ts hv hw (fun i s t hs ht => hparts.entry k hlist _ _ hv hw i s t hs ht
        (entriesAgree_getElem (hcomp _ _ hv hw) i hs ht)) hwalk

theorem oneSchema_key {k : String} (hk : k ∈ schemaKeywords counting)
    (hadditional : k ≠ "additionalProperties") (hcontains : k ≠ "contains") :
    dir.Refines (HoldsAt check A k (A.lookup k) x) (HoldsAt check A k (B.lookup k) x) := by
  have hcases : k = "items" ∨ k = "propertyNames" := by
    cases counting <;> simp_all [schemaKeywords]
  rcases hcases with rfl | rfl
  · exact (covers_key h hleaf hparts hclean hkeys (k := "items") (by decide)).congr items_iff items_iff
  · exact (covers_key h hleaf hparts hclean hkeys (k := "propertyNames") (by decide)).congr
      propertyNames_iff propertyNames_iff

theorem schemas_key (hcounts : dir.Asks (CountsKept check) A B) {k : String}
    (hk : k ∈ listKeywords counting) :
    dir.Refines (HoldsAt check A k (A.lookup k) x) (HoldsAt check A k (B.lookup k) x) := by
  have hcases : k = "allOf" ∨ k = "anyOf" ∨ k = "oneOf" := by
    cases counting <;> simp only [listKeywords] at hk <;> simp at hk <;> tauto
  have hlist := fun hk => list_key (P := fun c => HoldsAt check A k c x) h hleaf hparts hclean hkeys
    (k := k) hk holdsAt_none
  rcases hcases with rfl | rfl | rfl
  · refine hlist (by decide) fun ss ts _ _ hsub hwalk => ?_
    have hrefines := allOf_refines (x := x) h (by decide) (by decide) hsub hwalk
      (by simp [entryEffect])
    exact hrefines.congr (holdsAt_some.trans holds_allOf) (holdsAt_some.trans holds_allOf)
  · refine hlist (by decide) fun ss ts _ _ hsub hwalk => ?_
    have hrefines := anyOf_refines (x := x) h (by decide) (by decide) hsub hwalk
      (by simp [entryEffect])
    exact hrefines.congr (holdsAt_some.trans holds_anyOf) (holdsAt_some.trans holds_anyOf)
  · refine hlist (by decide) fun ss ts hss hts hsub hwalk => ?_
    exact oneOf_refines hcounts hss hts
      (anyOf_refines h (by decide) (by decide) hsub hwalk (by simp [entryEffect]))

/-- Every keyword of two schemas that can be compared refines. -/
theorem key_refines (hnames : sameNames A B = true) (hvalues : dir.Asks ValuesSeen A B)
    (hcounts : dir.Asks (CountsKept check) A B) (k : String) :
    dir.Refines (HoldsAt check A k (A.lookup k) x) (HoldsAt check B k (B.lookup k) x) := by
  by_cases hadditional : k = "additionalProperties"
  · subst hadditional
    have habout : Additional B x = Additional A x := by
      funext y
      simp only [Additional, sameNames_iff hnames]
    have hrefines : dir.Refines (Covers check (Additional A x) (A.lookup "additionalProperties"))
        (Covers check (Additional A x) (B.lookup "additionalProperties")) :=
      covers_key h hleaf hparts hclean hkeys (by decide)
    exact hrefines.congr additional_iff (additional_iff.trans (by rw [habout]))
  by_cases hcontains : k = "contains"
  · subst hcontains
    exact contains_key h hleaf hparts hclean hkeys hcounts
  have hwalk := keyClean_of_clean hclean k
  have hrefines : dir.Refines (HoldsAt check A k (A.lookup k) x)
      (HoldsAt check A k (B.lookup k) x) := by
    by_cases hvalue : k ∈ ["const", "enum"]
    · simp only [List.mem_cons, List.not_mem_nil, or_false] at hvalue
      rcases hvalue with rfl | rfl
      · exact const_refines h ⟨fun hdir => (hvalues.1 hdir).1, fun hdir => (hvalues.2 hdir).1⟩ hwalk
      · exact enum_refines h ⟨fun hdir => (hvalues.1 hdir).2, fun hdir => (hvalues.2 hdir).2⟩ hwalk
    rcases keyAgrees_cases (hkeys k) with hsame | ⟨ha, hb⟩ | ⟨hk, -⟩ | ⟨rfl, ha, hb, hcomp⟩ |
      ⟨hk, -⟩
    · exact .of_iff (by rw [hsame])
    · exact leaf_refines h.toGraded h.last (fun v hv => (hleaf k v (ha v hv)).resolve_left hvalue)
        (fun w hw => (hleaf k w (hb w hw)).resolve_left hvalue) hwalk hvalue
    · exact oneSchema_key h hleaf hparts hclean hkeys hk hadditional hcontains
    · exact properties_key h hparts hclean hnames fun v w hv hw =>
        ⟨ha v hv, hb w hw, hcomp v w hv hw⟩
    · exact schemas_key h hleaf hparts hclean hkeys hcounts hk
  exact hrefines.congr Iff.rfl (holdsAt_siblings hadditional hcontains)

end OneKey

/-! ## Whole schemas -/

/-- Two schemas stand at the same place inside two schemas. -/
inductive Beside (s t : Json) : Json → Json → Prop where
  | refl : Beside s t s t
  | schema {A B : List (String × Json)} {k : String} {v w : Json} (hk : k ∈ schemaKeywords true)
      (hv : A.lookup k = some v) (hw : B.lookup k = some w) (h : Beside s t v w) :
      Beside s t (.obj A) (.obj B)
  | member {A B : List (String × Json)} {n : String} {v w p q : Json}
      (hv : A.lookup "properties" = some v) (hw : B.lookup "properties" = some w)
      (hp : v.fields.lookup n = some p) (hq : w.fields.lookup n = some q) (h : Beside s t p q) :
      Beside s t (.obj A) (.obj B)
  | entry {A B : List (String × Json)} {k : String} {v w p q : Json} {i : ℕ}
      (hk : k ∈ listKeywords true) (hv : A.lookup k = some v) (hw : B.lookup k = some w)
      (hp : v.elements[i]? = some p) (hq : w.elements[i]? = some q) (h : Beside s t p q) :
      Beside s t (.obj A) (.obj B)

/-- Only a keyword that holds schemas has other schemas inside. -/
theorem Beside.eq_of_flat {A B A' B' : List (String × Json)}
    (h : Beside (.obj A') (.obj B') (.obj A) (.obj B))
    (hflat : ∀ k ∈ "properties" :: schemaKeywords true ++ listKeywords true, A.lookup k = none) :
    A' = A ∧ B' = B := by
  cases h with
  | refl => exact ⟨rfl, rfl⟩
  | schema hk hv => exact absurd ((hflat _ (by simp [hk])).symm.trans hv) nofun
  | member hv => exact absurd ((hflat _ (by simp)).symm.trans hv) nofun
  | entry hk hv => exact absurd ((hflat _ (by simp [hk])).symm.trans hv) nofun

section Whole

variable {check : String → Json → Json → Bool} {leaf : String → Json → Bool} {counting : Bool}
  {dir : Direction} {A : List (String × Json)} {u v w : Json}

/-- At every place the two schemas can be compared, the walk sees the values that go and
nothing is lost to a count. -/
def Told (check : String → Json → Json → Bool) (leaf : String → Json → Bool) (counting : Bool)
    (dir : Direction) (old new : Json) : Prop :=
  ∀ A B, Beside (.obj A) (.obj B) old new → comparable leaf counting (.obj A) (.obj B) = true →
    dir.Asks ValuesSeen A B ∧ dir.Asks (CountsKept check) A B

/-- What is shown of a schema by induction over its parts. -/
def Sound (check : String → Json → Json → Bool) (leaf : String → Json → Bool) (counting : Bool)
    (dir : Direction) (old : Json) : Prop :=
  ∀ new, comparable leaf counting old new = true → Told check leaf counting dir old new →
    Substitutes check dir old new

theorem comparable_like (h : comparable leaf counting v w = true) :
    v.schemaLike = true ∧ w.schemaLike = true := by
  match v, w with
  | .bool _, w => exact ⟨rfl, h⟩
  | .obj _, .bool _ | .obj _, .obj _ => exact ⟨rfl, rfl⟩
  | .obj _, .null | .obj _, .num _ | .obj _, .str _ | .obj _, .arr _ => exact absurd h Bool.false_ne_true
  | .null, _ | .num _, _ | .str _, _ | .arr _, _ => exact absurd h Bool.false_ne_true

/-- Two objects refine when their parts do. -/
theorem sound_obj (hleaf : ∀ k v, leaf k v = true → k ∈ ["const", "enum"] ∨ leafShape k v = true)
    (hschema : ∀ f ∈ A, Sound check leaf counting dir f.2)
    (hmember : ∀ f ∈ A, ∀ g ∈ f.2.fields, Sound check leaf counting dir g.2)
    (hentry : ∀ f ∈ A, ∀ s ∈ f.2.elements, Sound check leaf counting dir s) :
    Sound check leaf counting dir (.obj A) := by
  intro new hcomp htold
  obtain ⟨hv, hw⟩ := comparable_like hcomp
  match new with
  | .bool b => exact substitutes_of_unlike hv hw (by simp [Alike])
  | .obj B =>
    intro path h hclean x
    by_cases hne : A = B
    · exact .of_iff (by rw [hne])
    obtain ⟨hnames, hkeys⟩ := comparable_obj hcomp hne
    obtain ⟨hvalues, hcounts⟩ := htold A B .refl hcomp
    have hparts : PartsSubstitute check leaf counting dir A B := by
      constructor
      · intro k hk v w hv hw hcomp
        exact hschema _ (mem_of_lookup_eq_some hv) w hcomp fun A' B' hbeside =>
          htold A' B' (.schema hk hv hw hbeside)
      · intro v w hv hw n s t hs ht hcomp
        exact hmember _ (mem_of_lookup_eq_some hv) _ (mem_of_lookup_eq_some hs) t hcomp
          fun A' B' hbeside => htold A' B' (.member hv hw hs ht hbeside)
      · intro k hk v w hv hw i s t hs ht hcomp
        exact hentry _ (mem_of_lookup_eq_some hv) s (List.mem_of_getElem? hs) t hcomp
          fun A' B' hbeside => htold A' B' (.entry hk hv hw hs ht hbeside)
    refine Direction.Refines.congr (.all fun k => ?_) accepts_obj_iff accepts_obj_iff
    exact key_refines h hleaf hparts hclean hkeys hnames hvalues hcounts k

/-- Two schemas that can be compared refine wherever the walk is uneventful. -/
theorem sound (hleaf : ∀ k v, leaf k v = true → k ∈ ["const", "enum"] ∨ leafShape k v = true)
    (old : Json) :
    Sound check leaf counting dir old := by
  -- a keyword holds schemas two levels down, so the parts of each part are carried along
  suffices h : Sound check leaf counting dir old ∧
      (∀ s ∈ old.elements, Sound check leaf counting dir s) ∧
      ∀ f ∈ old.fields, Sound check leaf counting dir f.2 from h.1
  have hnone : ∀ {v : Json}, (∀ w, comparable leaf counting v w = false) →
      Sound check leaf counting dir v :=
    fun hfalse w hcomp => absurd hcomp (by simp [hfalse])
  induction old using Json.induct with
  | null => exact ⟨hnone fun _ => rfl, by simp [Json.elements], by simp [Json.fields]⟩
  | num q => exact ⟨hnone fun _ => rfl, by simp [Json.elements], by simp [Json.fields]⟩
  | str s => exact ⟨hnone fun _ => rfl, by simp [Json.elements], by simp [Json.fields]⟩
  | bool b =>
    refine ⟨fun w hcomp _ => ?_, by simp [Json.elements], by simp [Json.fields]⟩
    obtain ⟨hv, hw⟩ := comparable_like hcomp
    exact substitutes_of_unlike hv hw (by simp [Alike])
  | arr xs ih => exact ⟨hnone fun _ => rfl, fun s hs => (ih s hs).1, by simp [Json.fields]⟩
  | obj fields ih =>
    refine ⟨sound_obj hleaf (fun f hf => (ih f hf).1) (fun f hf => (ih f hf).2.2)
      fun f hf => (ih f hf).2.1, by simp [Json.elements], fun f hf => (ih f hf).1⟩

/-- A keyword that may not change is the same on both sides. -/
theorem lookup_eq_of_comparable {B : List (String × Json)} {k : String}
    (hcomp : comparable leaf counting (.obj A) (.obj B) = true)
    (hleaf : ∀ v, leaf k v = false)
    (hk : k ∉ "properties" :: schemaKeywords counting ++ listKeywords counting) :
    A.lookup k = B.lookup k := by
  by_cases hne : A = B
  · rw [hne]
  simp only [List.cons_append, List.mem_cons, List.mem_append, not_or] at hk
  have hnone : ∀ {c : Option Json}, (∀ v, c = some v → leaf k v = true) → c = none := by
    intro c hc
    match c with
    | none => rfl
    | some v => exact absurd (hc v rfl) (by simp [hleaf])
  rcases keyAgrees_cases ((comparable_obj hcomp hne).2 k) with hsame | ⟨ha, hb⟩ | ⟨hk', -⟩ |
    ⟨hk', -⟩ | ⟨hk', -⟩
  · exact hsame
  · rw [hnone ha, hnone hb]
  · exact absurd hk' hk.2.1
  · exact absurd hk' hk.1
  · exact absurd hk' hk.2.2

/-- Nothing is lost to a count where no counting keyword may change. -/
theorem countsKept_of_comparable {B : List (String × Json)}
    (hleaf : ∀ k ∈ ["oneOf", "contains", "minContains"], ∀ v, leaf k v = false)
    (hcomp : comparable leaf false (.obj A) (.obj B) = true) :
    dir.Asks (CountsKept check) A B := by
  have hsame : ∀ k ∈ ["oneOf", "contains", "minContains"], A.lookup k = B.lookup k := by
    intro k hk
    refine lookup_eq_of_comparable hcomp (hleaf k hk) ?_
    simp only [List.mem_cons, List.not_mem_nil, or_false] at hk
    rcases hk with rfl | rfl | rfl <;> decide
  have hone := hsame "oneOf" (by decide)
  have hcontains := hsame "contains" (by decide)
  have hleast := hsame "minContains" (by decide)
  exact ⟨fun _ => .of_same hone hcontains hleast,
    fun _ => .of_same hone.symm hcontains.symm hleast.symm⟩

/-- The walk sees every value go where `const` may not change and `enum` lists
scalars. -/
theorem valuesSeen_of_comparable {B : List (String × Json)} (hconst : ∀ v, leaf "const" v = false)
    (henum : ∀ v, leaf "enum" v = true → leafShape "enum" v = true)
    (hcomp : comparable leaf counting (.obj A) (.obj B) = true) : dir.Asks ValuesSeen A B := by
  have hsame : A.lookup "const" = B.lookup "const" :=
    lookup_eq_of_comparable hcomp hconst (by cases counting <;> decide)
  have hseen : ∀ {c d : Option Json}, (∀ v, c = some v → leaf "enum" v = true) →
      (∀ w, d = some w → leaf "enum" w = true) → EnumSeen c d := by
    intro c d hc hd
    have hscalars : ∀ {c : Option Json}, (∀ v, c = some v → leaf "enum" v = true) →
        scalars (listed c) = true := by
      intro c hc
      match c with
      | none => rfl
      | some v =>
        have hv := henum v (hc v rfl)
        cases v <;> simp_all [leafShape, upper, lower, listed, Json.elements]
    refine ⟨fun hnull => ?_, .inl ⟨hscalars hc, hscalars hd⟩⟩
    exact absurd (henum _ (hd _ hnull)) (by decide)
  have henums : EnumSeen (A.lookup "enum") (B.lookup "enum") ∧
      EnumSeen (B.lookup "enum") (A.lookup "enum") := by
    by_cases hne : A = B
    · rw [hne]
      exact ⟨.refl, .refl⟩
    rcases keyAgrees_cases ((comparable_obj hcomp hne).2 "enum") with heq | ⟨ha, hb⟩ | ⟨hk, -⟩ |
      ⟨hk, -⟩ | ⟨hk, -⟩
    · rw [heq]
      exact ⟨.refl, .refl⟩
    · exact ⟨hseen ha hb, hseen hb ha⟩
    · exact absurd hk (by cases counting <;> decide)
    · exact absurd hk (by decide)
    · exact absurd hk (by cases counting <;> decide)
  refine ⟨fun _ => ⟨?_, henums.1⟩, fun _ => ⟨?_, henums.2⟩⟩ <;> rw [hsame] <;> exact .refl

end Whole

/-! ## Substitution -/

/-- The keywords of a schema whose values may change: types, lists of values that
are scalars, bounds, required names and the checks left open. -/
def substitutionLeaf (k : String) (v : Json) : Bool :=
  leafShape k v && !(["const", "minContains", "maxContains"].contains k)

/-- If the walk over two schemas of the common keywords grades every change
`NON_BREAKING`, the new schema can stand for the old one: a request accepts what it
accepted, a response is accepted by whoever accepted it, and a record is both. -/
theorem substitution_sound (check : String → Json → Json → Bool) {dir : Direction} {path : String}
    {old new : Json} (h : SchemaAt path) (hcomp : comparable substitutionLeaf false old new = true)
    (hclean : Clean (diffJSON dir old path new)) :
    (dir = .request → ∀ x, accepts check old x = true → accepts check new x = true) ∧
      (dir = .response → ∀ x, accepts check new x = true → accepts check old x = true) ∧
      (dir = .record → ∀ x, accepts check old x = accepts check new x) := by
  have hleaf : ∀ k v, substitutionLeaf k v = true → leafShape k v = true :=
    fun k v hk => (Bool.and_eq_true_iff.mp hk).1
  have hconst : ∀ v, substitutionLeaf "const" v = false := by simp [substitutionLeaf]
  have hcounting : ∀ k ∈ ["oneOf", "contains", "minContains"], ∀ v, substitutionLeaf k v = false := by
    simp [substitutionLeaf, leafShape, upper, lower]
  have htold : Told check substitutionLeaf false dir old new := fun A B _ hAB =>
    ⟨valuesSeen_of_comparable hconst (hleaf "enum") hAB, countsKept_of_comparable hcounting hAB⟩
  have hrefines : ∀ x, dir.Refines (accepts check old x = true) (accepts check new x = true) :=
    sound (fun k v hk => .inr (hleaf k v hk)) old new hcomp htold path h hclean
  refine ⟨?_, ?_, ?_⟩ <;> rintro rfl x
  · exact hrefines x
  · exact hrefines x
  · exact Bool.eq_iff_iff.mpr (hrefines x)

def bodyPath : String :=
  "openapi.paths[/orders].methods[POST].request-body.content.application/json.schema"

private def orderSchema (types : List Json) (most : ℚ) : Json :=
  .obj [("properties", .obj [("lines", .obj [("maxItems", .num most), ("type", .arr types)])]),
    ("required", .arr [.str "lines"]), ("type", .str "object")]

theorem schemaAt_body : SchemaAt bodyPath :=
  ⟨⟨by decide, by decide, by decide +kernel⟩, by decide⟩

/-- An order that may have more lines, or none, accepts every order it accepted. -/
theorem substitution_sound_order :
    let old := orderSchema [.str "array"] 5
    let new := orderSchema [.str "array", .str "null"] 9
    SchemaAt bodyPath ∧ comparable substitutionLeaf false old new = true ∧
      diffJSON .request old bodyPath new ≠ [] ∧ Clean (diffJSON .request old bodyPath new) ∧
      ∀ check x, accepts check old x = true → accepts check new x = true := by
  intro old new
  have hcomp : comparable substitutionLeaf false old new = true := by decide +kernel
  have hclean : Clean (diffJSON .request old bodyPath new) := by decide +kernel
  refine ⟨schemaAt_body, hcomp, by decide +kernel, hclean, fun check => ?_⟩
  exact (substitution_sound check schemaAt_body hcomp hclean).1 rfl

end Pacto.Diff
