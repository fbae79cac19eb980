import Mathlib.Data.Rat.Defs
import Pacto.Support.Assoc

/-!
# JSON values

A JSON value is a tree of arrays and objects over scalars.  An object lists its
members, the first of a name being the one that counts, so what is read of an
object is read by `List.lookup`.  A document that keeps each name once, in order,
is the only list of its members.

A value can be read in three ways at once: as a schema, as a list of schemas and
as a map of schemas by name.  `fold` computes the three readings from those of
the parts, which is how everything that recurses through a schema is defined.
-/

namespace Pacto.Support

/-- A JSON value. -/
inductive Json where
  | null
  | bool (b : Bool)
  | num (q : ℚ)
  | str (s : String)
  | arr (xs : List Json)
  | obj (fields : List (String × Json))
  deriving Repr

namespace Json

/-! ## Equality -/

mutual

def decEq : (a b : Json) → Decidable (a = b)
  | .null, b => match b with
    | .null => isTrue rfl
    | .bool _ | .num _ | .str _ | .arr _ | .obj _ => isFalse nofun
  | .bool x, b => match b with
    | .bool y => decidable_of_iff (x = y) (by simp)
    | .null | .num _ | .str _ | .arr _ | .obj _ => isFalse nofun
  | .num x, b => match b with
    | .num y => decidable_of_iff (x = y) (by simp)
    | .null | .bool _ | .str _ | .arr _ | .obj _ => isFalse nofun
  | .str x, b => match b with
    | .str y => decidable_of_iff (x = y) (by simp)
    | .null | .bool _ | .num _ | .arr _ | .obj _ => isFalse nofun
  | .arr x, b => match b with
    | .arr y => @decidable_of_iff _ (x = y) (by simp) (decEqList x y)
    | .null | .bool _ | .num _ | .str _ | .obj _ => isFalse nofun
  | .obj x, b => match b with
    | .obj y => @decidable_of_iff _ (x = y) (by simp) (decEqFields x y)
    | .null | .bool _ | .num _ | .str _ | .arr _ => isFalse nofun

def decEqList : (a b : List Json) → Decidable (a = b)
  | [], [] => isTrue rfl
  | [], _ :: _ => isFalse nofun
  | _ :: _, [] => isFalse nofun
  | x :: xs, y :: ys =>
    @decidable_of_iff _ (x = y ∧ xs = ys) (by simp)
      (@instDecidableAnd _ _ (decEq x y) (decEqList xs ys))

def decEqFields : (a b : List (String × Json)) → Decidable (a = b)
  | [], [] => isTrue rfl
  | [], _ :: _ => isFalse nofun
  | _ :: _, [] => isFalse nofun
  | (k, x) :: xs, (l, y) :: ys =>
    @decidable_of_iff _ (k = l ∧ x = y ∧ xs = ys) (by simp [and_assoc])
      (@instDecidableAnd _ _ inferInstance
        (@instDecidableAnd _ _ (decEq x y) (decEqFields xs ys)))

end

instance : DecidableEq Json := decEq

/-! ## Induction -/

/-- Induction over the elements of arrays and the members of objects. -/
theorem induct {P : Json → Prop} (null : P .null) (bool : ∀ b, P (.bool b)) (num : ∀ q, P (.num q))
    (str : ∀ s, P (.str s)) (arr : ∀ xs, (∀ x ∈ xs, P x) → P (.arr xs))
    (obj : ∀ fields, (∀ f ∈ fields, P f.2) → P (.obj fields)) (j : Json) : P j := by
  refine @Json.rec P (fun xs => ∀ x ∈ xs, P x) (fun fields => ∀ f ∈ fields, P f.2) (fun f => P f.2)
    null bool num str arr obj ?_ ?_ ?_ ?_ (fun _ _ h => h) j
  · exact fun _ h => absurd h List.not_mem_nil
  · exact fun _ _ hx hxs => List.forall_mem_cons.mpr ⟨hx, hxs⟩
  · exact fun _ h => absurd h List.not_mem_nil
  · exact fun _ _ hf hfs => List.forall_mem_cons.mpr ⟨hf, hfs⟩

/-! ## Parts -/

/-- The members of an object. -/
def fields : Json → List (String × Json)
  | .obj fields => fields
  | _ => []

/-- The elements of an array. -/
def elements : Json → List Json
  | .arr xs => xs
  | _ => []

/-- Neither an array nor an object. -/
def scalar : Json → Bool
  | .arr _ | .obj _ => false
  | _ => true

/-- A boolean or an object, the values that can be schemas. -/
def schemaLike : Json → Bool
  | .bool _ | .obj _ => true
  | _ => false

def isStr : Json → Bool
  | .str _ => true
  | _ => false

/-! ## Text -/

def decimals (den : ℕ) : ℕ → ℕ → List Char
  | 0, _ => []
  | n + 1, rem =>
    if rem = 0 then [] else Nat.digitChar (rem * 10 / den) :: decimals den n (rem * 10 % den)

/-- A number as it is printed.  A number with `k` binary places has `k`
decimals. -/
def numberText (q : ℚ) : String :=
  let sign := if q.num < 0 then "-" else ""
  let whole := toString (q.num.natAbs / q.den)
  match decimals q.den (q.den.log2 + 1) (q.num.natAbs % q.den) with
  | [] => sign ++ whole
  | places => sign ++ whole ++ "." ++ String.ofList places

/-- A scalar as it is printed. -/
def text : Json → String
  | .null => "<nil>"
  | .bool b => if b then "true" else "false"
  | .num q => numberText q
  | .str s => s
  | .arr _ | .obj _ => ""

/-! ## Reading a value as a schema, as schemas and as schemas by name -/

/-- The three readings of a value. -/
structure Reading (α : Type*) where
  schema : α
  entries : List α := []
  members : List (String × α) := []

section Fold

variable {α : Type*} (ofBool : Bool → α) (ofFields : List (String × Json × Reading α) → α)
  (other : α)

mutual

/-- The readings of a value, from what a boolean and an object are as schemas. -/
def fold : Json → Reading α
  | .null => { schema := other }
  | .bool b => { schema := ofBool b }
  | .num _ => { schema := other }
  | .str _ => { schema := other }
  | .arr xs => { schema := other, entries := foldList xs }
  | .obj fields =>
    { schema := ofFields (foldFields fields)
      members := (foldFields fields).map fun f => (f.1, f.2.2.schema) }

def foldList : List Json → List α
  | [] => []
  | x :: xs => (fold x).schema :: foldList xs

def foldFields : List (String × Json) → List (String × Json × Reading α)
  | [] => []
  | (k, v) :: rest => (k, v, fold v) :: foldFields rest

end

attribute [local simp] foldList foldFields

theorem foldList_eq (xs : List Json) :
    foldList ofBool ofFields other xs = xs.map fun x => (fold ofBool ofFields other x).schema := by
  induction xs with
  | nil => rfl
  | cons x xs ih => simp [ih]

theorem foldFields_eq (fields : List (String × Json)) :
    foldFields ofBool ofFields other fields =
      fields.map fun f => (f.1, f.2, fold ofBool ofFields other f.2) := by
  induction fields with
  | nil => rfl
  | cons f fields ih => simp [ih]

@[simp]
theorem fold_bool (b : Bool) : (fold ofBool ofFields other (.bool b)).schema = ofBool b := rfl

theorem fold_obj (fields : List (String × Json)) :
    (fold ofBool ofFields other (.obj fields)).schema =
      ofFields (fields.map fun f => (f.1, f.2, fold ofBool ofFields other f.2)) := by
  rw [← foldFields_eq]
  rfl

theorem entries_fold (v : Json) :
    (fold ofBool ofFields other v).entries =
      v.elements.map fun x => (fold ofBool ofFields other x).schema := by
  cases v <;> simp [fold, elements, foldList_eq]

theorem members_fold (v : Json) :
    (fold ofBool ofFields other v).members =
      v.fields.map fun f => (f.1, (fold ofBool ofFields other f.2).schema) := by
  cases v <;> simp [fold, Json.fields, foldFields_eq, Function.comp_def]

end Fold

end Json
end Pacto.Support
