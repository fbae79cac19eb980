import Pacto.Delivery.Contracts

/-!
# Guarantees between services

What an interface promises, what a consumer requires of it, and `Unmet`, which
compares the two.  What a contract declares beside its service is read from its
document by a `Readers`, together with the durations that other packages parse.
-/

namespace Pacto.Impact

open Delivery

/-! ## What contracts declare -/

/-- `Guarantees`: the behaviour an interface promises or a consumer relies on.
An empty field promises or requires nothing. -/
structure Guarantees where
  delivery : String := ""
  ordering : String := ""
  dedupeWindow : String := ""
  retention : String := ""
  timeout : String := ""
  idempotent : Bool := false
  deriving DecidableEq, Repr

/-- What a consumer requires from one interface of its provider. -/
structure Requirement where
  interface : String
  guarantees : Guarantees := {}
  deriving DecidableEq, Repr

/-- One interface a service declares. -/
structure Interface where
  name : String
  guarantees : Option Guarantees := none
  deriving DecidableEq, Repr

/-- One dependency a service declares. -/
structure Dependency where
  name : String
  requires : List Requirement := []
  deriving DecidableEq, Repr

/-- What a contract declares beside its service. -/
structure Declarations where
  interfaces : List Interface := []
  deriving DecidableEq, Repr

/-- What other packages read from texts. -/
structure Readers where
  declarations : Contract → Declarations
  parseDuration : String → Option Int

/-! ## Guarantees -/

/-- One required guarantee a provider does not meet. -/
structure Mismatch where
  consumer : String
  provider : String
  interface : String
  guarantee : String
  required : String
  offered : String := ""
  deriving DecidableEq, Repr

def boolText (b : Bool) : String := if b then "true" else ""

variable (R : Readers)

/-- `atLeast`: a duration that is missing or cannot be read meets nothing. -/
def atLeast (a b : String) : Bool :=
  match R.parseDuration a, R.parseDuration b with
  | some da, some db => db ≤ da
  | _, _ => false

/-- The checks of one requirement against what the interface offers: the
guarantee, what is required, what is offered and whether that is enough. -/
def guaranteeChecks (r o : Guarantees) : List (String × String × String × Bool) :=
  [("delivery", r.delivery, o.delivery, r.delivery = o.delivery),
    ("ordering", r.ordering, o.ordering, r.ordering = o.ordering || o.ordering = "global"),
    ("dedupeWindow", r.dedupeWindow, o.dedupeWindow, atLeast R o.dedupeWindow r.dedupeWindow),
    ("retention", r.retention, o.retention, atLeast R o.retention r.retention),
    ("timeout", r.timeout, o.timeout, atLeast R r.timeout o.timeout),
    ("idempotent", boolText r.idempotent, boolText o.idempotent, o.idempotent || !r.idempotent)]

/-- What `Unmet` finds for one requirement.  Of two interfaces of one name the
last one counts. -/
def unmetRequirement (consumer : String) (provider : Contract) (r : Requirement) : List Mismatch :=
  match (R.declarations provider).interfaces.reverse.find? (·.name = r.interface) with
  | none =>
    [{ consumer := consumer, provider := provider.serviceName, interface := r.interface
       guarantee := "interface", required := r.interface }]
  | some i =>
    (guaranteeChecks R r.guarantees (i.guarantees.getD {})).filterMap
      fun (name, required, offered, ok) =>
        if required ≠ "" && !ok then
          some { consumer := consumer, provider := provider.serviceName, interface := r.interface
                 guarantee := name, required := required, offered := offered }
        else none

/-- `Unmet`: every guarantee the dependency requires that the provider does not
meet. -/
def unmet (consumer : String) (dep : Dependency) (provider : Contract) : List Mismatch :=
  dep.requires.flatMap (unmetRequirement R consumer provider)

end Pacto.Impact
