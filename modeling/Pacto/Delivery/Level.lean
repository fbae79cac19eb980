import Pacto.Delivery.Model

/-!
# Levels and digests

The ladder of autonomy levels of `pkg/delivery/level.go`, the type
descriptors of `pkg/delivery/types.go` that decide who may raise what, and
the small string helpers every message uses.
-/

namespace Pacto.Delivery

/-! ## Digests and message helpers -/

/-- A lower-case hexadecimal digit. -/
def isHexDigit (c : Char) : Bool :=
  ('0' ≤ c && c ≤ '9') || ('a' ≤ c && c ≤ 'f')

/-- The length of the encoded part of a digest of each known algorithm. -/
def digestLength (algorithm : List Char) : Option Nat :=
  if algorithm = "sha256".toList then some 64
  else if algorithm = "sha384".toList then some 96
  else if algorithm = "sha512".toList then some 128
  else none

/-- `isDigest`: the string is an algorithm, a colon and an encoded part of
that algorithm's length. -/
def isDigest (d : String) : Bool :=
  let chars := d.toList
  let algorithm := chars.takeWhile (· ≠ ':')
  let encoded := (chars.dropWhile (· ≠ ':')).drop 1
  digestLength algorithm = some encoded.length && encoded.all isHexDigit

/-- `short` trims a digest for messages. -/
def short (d : String) : String :=
  if d = "" then "(none)"
  else
    match d.toList.findIdx? (· = ':') with
    | some i => if i + 13 < d.length then String.ofList (d.toList.take (i + 13)) else d
    | none => d

def joinWith (sep : String) : List String → String
  | [] => ""
  | [part] => part
  | part :: next :: rest => part ++ sep ++ joinWith sep (next :: rest)

theorem joinWith_ne_empty (sep : String) {parts : List String} {part : String}
    (hmem : part ∈ parts) (hne : part ≠ "") : joinWith sep parts ≠ "" := by
  induction parts with
  | nil => simp at hmem
  | cons first rest ih =>
    cases rest with
    | nil =>
      rw [List.mem_singleton] at hmem
      exact hmem ▸ hne
    | cons next rest =>
      rcases List.mem_cons.mp hmem with heq | hmem
      · subst heq
        simp [joinWith, hne]
      · simp [joinWith, ih hmem]

/-- `cmp.Or` on strings: the first that is not empty. -/
def orElse (a b : String) : String := if a = "" then b else a

def countOf (n : Nat) (noun : String) : String :=
  if n = 1 then "1 " ++ noun else toString n ++ " " ++ noun ++ "s"

def hasPrefix (p s : String) : Bool := p.toList.isPrefixOf s.toList

/-! ## The ladder -/

/-- The levels, lowest first. -/
def levelOrder : List Level := [.observe, .advise, .autoNonBreaking, .autonomous]

/-- The level's place on the ladder; `-1` for a name that is not a level. -/
def Level.rank : Level → Int
  | .observe => 0
  | .advise => 1
  | .autoNonBreaking => 2
  | .autonomous => 3
  | .other _ => -1

def levelAt (i : Int) : Level := levelOrder.getD i.toNat .unset

/-- Whether Pacto promotes on this level without anyone asking. -/
def Level.automatic (l : Level) : Bool := Level.autoNonBreaking.rank ≤ l.rank

/-- The level one step down, and `none` on observe. -/
def Level.below (l : Level) : Option Level :=
  if l.rank < 1 then none else some (levelAt (l.rank - 1))

/-- The Stage's level: `status.level`, or before it is seeded
`spec.startLevel`, or observe. -/
def currentLevel (spec : StageSpec) (st : StageStatus) : Level :=
  if st.level ≠ .unset then st.level
  else if 0 ≤ spec.startLevel.rank then spec.startLevel
  else .observe

/-- Whether the Stage's condition `type` is `True` with one of `reasons`, any
reason when none is given. -/
def conditionIs (st : StageStatus) (type : String) (reasons : List String := []) : Bool :=
  match st.conditions.find? (·.type = type) with
  | some c => c.status = "True" && (reasons.isEmpty || reasons.contains c.reason)
  | none => false

/-! ## Who may raise an operation -/

/-- The part of an operation type descriptor that decides who raises it and
what it changes. -/
structure OperationType where
  id : TypeID
  version : String
  facet : Facet
  raisers : List ActorClass
  requiresWitnessed : Option ActorClass := none
  deriving DecidableEq, Repr

def tier0 : List OperationType :=
  [ { id := .promote, version := "1.0.0", facet := .pointer,
      raisers := [.agent, .human, .controller] },
    { id := .rollback, version := "1.0.0", facet := .pointer,
      raisers := [.agent, .human, .controller] },
    { id := .override, version := "1.0.0", facet := .pointer,
      raisers := [.breakGlass], requiresWitnessed := some .controller },
    { id := .unfreeze, version := "1.0.0", facet := .freeze,
      raisers := [.human, .breakGlass] },
    { id := .freeze, version := "1.0.0", facet := .freeze,
      raisers := [.human, .breakGlass, .controller] },
    { id := .autonomy, version := "1.0.0", facet := .level,
      raisers := [.human, .agent, .breakGlass, .controller] },
    { id := .acknowledge, version := "1.0.0", facet := .upstream,
      raisers := [.human, .breakGlass] } ]

def typeByID (id : TypeID) : Option OperationType := tier0.find? (·.id = id)

/-- `MayRaise`: whether `cls` may raise an operation of type `id`.  A
witnessed operation is the controller's alone. -/
def mayRaise (id : TypeID) (cls : ActorClass) (witnessed : Bool) : Bool :=
  match typeByID id with
  | none => false
  | some t =>
    if witnessed then cls = .controller && t.requiresWitnessed = some .controller
    else t.raisers.contains cls

/-- The class as messages write it. -/
def ActorClass.text : ActorClass → String
  | .controller => "controller"
  | .agent => "agent"
  | .human => "human"
  | .breakGlass => "break-glass"

end Pacto.Delivery
