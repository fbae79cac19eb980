import Pacto.Delivery.Contracts

/-!
# The autonomy ladder

`pkg/delivery/level.go`: what a Stage earned on its level, the next level
Pacto proposes or the blockers that keep it from proposing one, and whether
the records a Stage requires are being written.
-/

namespace Pacto.Delivery

/-! ## Constants -/

/-- The label that marks the object a Stage applies through. -/
def applyRefLabel : String := "delivery.pacto.trianalab.io/apply-ref"

/-- The Ready reason of an observing Stage whose applyRef is labelled. -/
def reasonObservingGuarded : String := "ObservingGuarded"

def conditionRecordStoreReady : String := "RecordStoreReady"

/-- How many concluded operations may wait for a record before a Stage that
requires records stops moving on its own. -/
def maxRecordsPending : Int := 5

/-- How many qualifying promotions earn a proposal when the Stage does not
say. -/
def defaultProposeAfter : Nat := 10

/-- How many blockers a proposal lists. -/
def maxBlockers : Nat := 32

/-- The blocker kinds. -/
def blockerUnlabelledApplyRef : String := "unlabelled-apply-ref"
@[inherit_doc blockerUnlabelledApplyRef]
def blockerNoObservedDigest : String := "no-observed-digest"
@[inherit_doc blockerUnlabelledApplyRef]
def blockerNoRecordStore : String := "no-record-store"
@[inherit_doc blockerUnlabelledApplyRef]
def blockerNeedsVerified : String := "needs-verified"
@[inherit_doc blockerUnlabelledApplyRef]
def blockerNeedsClearedBreaking : String := "needs-cleared-breaking"
@[inherit_doc blockerUnlabelledApplyRef]
def blockerIncident : String := "incident"
@[inherit_doc blockerUnlabelledApplyRef]
def blockerPartialGraph : String := "partial-graph"
@[inherit_doc blockerUnlabelledApplyRef]
def blockerUndeclaredRange : String := "undeclared-range"
@[inherit_doc blockerUnlabelledApplyRef]
def blockerMissingContract : String := "missing-contract"

/-! ## Records -/

/-- `RecordsUnavailable`: why a Stage that requires records cannot have them
written now, empty when it does not require them or they are being written. -/
def recordsUnavailable (spec : StageSpec) (st : StageStatus) : String :=
  if !spec.recordsRequired then ""
  else
    match st.conditions.find? (·.type = conditionRecordStoreReady) with
    | none => "the recorder has not reported on it"
    | some c =>
      if c.status ≠ "True" then
        "the recorder is not writing its records (" ++ c.reason ++ ": " ++ c.message ++ ")"
      else if maxRecordsPending < st.stream.seq - st.stream.recordedSeq then
        toString (st.stream.seq - st.stream.recordedSeq) ++
          " operations wait for a record, more than " ++ toString maxRecordsPending
      else ""

/-! ## Evidence -/

/-- What a scan for evidence found: the digests or uids that count, whether a
cleared breaking change is among them, and what blocks the next level. -/
structure Evidence where
  found : List String := []
  cleared : Bool := false
  blockers : List Blocker := []
  deriving DecidableEq, Repr

/-- `block` of the source: one more blocker. -/
def Evidence.block (e : Evidence) (kind subject message : String) : Evidence :=
  { e with blockers := e.blockers ++ [{ kind := kind, subject := subject, message := message }] }

/-- `shadowEvidence`: the candidates of the newest `n` shadow entries GitOps'
source reported. -/
def shadowEvidence (st : StageStatus) (n : Nat) : List Shadow → Evidence → Evidence
  | [], e =>
    e.block blockerNeedsVerified ""
      (toString e.found.length ++ " of " ++ toString n ++
        " versions GitOps applied were observed here; Pacto proposes advise after " ++
        toString n ++ " verified")
  | s :: rest, e =>
    if s.observedAt = none then shadowEvidence st n rest e
    else
      let e :=
        if st.failedDigests.contains s.candidate then
          e.block blockerIncident s.candidate
            (short s.candidate ++ " failed its verify on this Stage")
        else if s.verification ≠ some .verified then
          e.block blockerNeedsVerified s.candidate
            (short s.candidate ++ " ran here but has not verified yet")
        else e
      let e := { e with found := e.found ++ [s.candidate] }
      if e.found.length = n then e else shadowEvidence st n rest e

/-- A level change that took effect. -/
def Concluded.changedLevel (c : Concluded) : Bool :=
  c.type = .autonomy && c.outcome = .succeeded

/-- `stepDownCause`: the failure the newest level change cites, or empty. -/
def stepDownCause (st : StageStatus) : String :=
  ((st.stream.concluded.reverse.find? (·.changedLevel)).map (·.cause)).getD ""

/-- `explainedBy`: `c` is the failed promote a step-down cites, or the
rollback or freeze it raised. -/
def explainedBy (c : Concluded) (cause : String) : Bool :=
  cause ≠ "" && (c.uid = cause || (c.cause = cause && c.outcome = .succeeded &&
    (c.type = .freeze || (c.type = .rollback && c.verification = some .verified))))

/-- One turn of the scan of `promoteEvidence`. -/
def promoteEvidenceStep (n : Nat) (cause : String) (e : Evidence) (c : Concluded) : Evidence :=
  if explainedBy c cause then e
  else if c.outcome = .failed || (!c.person && (c.type = .rollback || c.type = .freeze)) then
    e.block blockerIncident c.uid
      ("a " ++ c.type.text ++ " ended " ++ c.outcome.text ++ ": " ++ c.reason)
  else if c.type ≠ .promote || e.found.length = n then e
  else if c.outcome ≠ .succeeded || c.verification ≠ some .verified then
    e.block blockerNeedsVerified c.uid
      ("a promote ended " ++ c.outcome.text ++ " and " ++
        ((c.verification.map (·.text)).getD "unverified"))
  else { e with found := e.found ++ [c.uid], cleared := e.cleared || c.clearedBreaking }

/-- `promoteEvidence`: the uids of the newest `n` promotes concluded since the
last level change. -/
def promoteEvidence (st : StageStatus) (n : Nat) : Evidence :=
  let since := st.stream.concluded.reverse.takeWhile (!·.changedLevel)
  let e := since.foldl (promoteEvidenceStep n (stepDownCause st)) {}
  if e.found.length < n then
    e.block blockerNeedsVerified ""
      (toString e.found.length ++ " of " ++ toString n ++
        " promotes verified since the level last changed")
  else e

def impactVerdict (verdicts : List Verdict) : Option Verdict :=
  verdicts.find? (·.gate = gateImpact)

def countText (n noun : String) : String :=
  match n.toNat? with
  | some i => countOf i noun
  | none => orElse n "0" ++ " " ++ noun ++ "s"

def graphReady (latest : Option Plan) (service : String) (e : Evidence) : Evidence :=
  let e :=
    if !e.cleared then
      e.block blockerNeedsClearedBreaking service
        "no breaking change that every consumer accepts has verified here yet, and that is the one thing autonomous adds"
    else e
  match latest.bind fun p => impactVerdict p.verdicts with
  | none =>
    e.block blockerPartialGraph service "no promote has projected a change onto the graph yet"
  | some v =>
    if v.cite "completeness" ≠ "complete" then
      e.block blockerPartialGraph service
        ("the newest promote saw a " ++ orElse (v.cite "completeness") "unknown" ++ " graph: " ++
          v.message)
    else if v.cite "uncontracted" ≠ "" || v.cite "callersUnseen" ≠ "" then
      e.block blockerMissingContract service
        ("the newest promote saw " ++ countText (v.cite "uncontracted") "runtime caller" ++
          " with no contract and " ++ countText (v.cite "callersUnseen") "caller" ++
          " the graph cannot see: give each a contract")
    else if v.result ≠ .pass then e.block blockerUndeclaredRange service v.message
    else e

/-- `ProposeLevel`: the next level Pacto proposes for a Stage, or the blockers
that keep it from proposing one. -/
def proposeLevel (spec : StageSpec) (st : StageStatus) (latest : Option Plan) : Proposal :=
  let cur := currentLevel spec st
  if cur = .autonomous then {}
  else
    let n := if spec.proposeAfter = 0 then defaultProposeAfter else spec.proposeAfter
    let next := levelAt (cur.rank + 1)
    let e :=
      if cur = .observe then
        let e := shadowEvidence st n st.shadow {}
        let e :=
          if !conditionIs st "Ready" [reasonObservingGuarded] then
            e.block blockerUnlabelledApplyRef spec.applyRef
              ("label the applyRef " ++ applyRefLabel ++
                " and remove the pointer field from the manifest in git, so admission protects the pointer before Pacto owns it")
          else e
        if st.observedRevision = none then
          e.block blockerNoObservedDigest spec.applyRef
            "GitOps' source reports no digest yet, so Pacto does not know what runs"
        else e
      else
        let e := promoteEvidence st n
        let e :=
          if st.frozen then
            e.block blockerIncident spec.service ("the Stage is frozen: " ++ st.frozenReason)
          else e
        let e :=
          if !conditionIs st conditionRecordStoreReady then
            e.block blockerNoRecordStore spec.service
              "the recorder is not writing this Stage's records, and every grant of autonomy must be a signed record"
          else e
        if next = .autonomous then graphReady latest spec.service e else e
    let blockers := e.blockers.take maxBlockers
    if blockers = [] then { level := next, evidence := e.found } else { blockers := blockers }

end Pacto.Delivery
