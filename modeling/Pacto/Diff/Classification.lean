import Pacto.Support.DottedPath
import Pacto.Support.Json
import Pacto.Delivery.Contracts

/-!
# Classifying a change by its path

The fields of a contract are classified by a table of paths.  The walk over a
schema or a specification reads the rest off the path of a change: whether it
passes through documentation, an extension, a schema, a header or the payload of
a response.
-/

namespace Pacto.Diff

open Delivery Support DottedPath

/-- `schemaDirection`: which side supplies the data a schema describes. -/
inductive Direction where
  | unknown
  | request
  | response
  | record
  deriving DecidableEq, Repr

/-- `diff.Change`: what a plan reads of it, how the value changed and the
component edit it came from. -/
structure SpecChange extends Change where
  type : ChangeType
  oldValue : Json := .null
  newValue : Json := .null
  refPair : String := ""
  refRel : String := ""
  deriving DecidableEq, Repr

/-! ## The table -/

def rules : List ((String × ChangeType) × Classification) :=
  [(("pactoVersion", .modified), .nonBreaking), (("pactoVersion", .added), .nonBreaking),
   (("pactoVersion", .removed), .nonBreaking), (("service.name", .modified), .breaking),
   (("service.version", .modified), .nonBreaking),
   (("service.owner.team", .modified), .nonBreaking),
   (("service.owner.team", .added), .nonBreaking),
   (("service.owner.team", .removed), .nonBreaking),
   (("service.owner.dri", .modified), .nonBreaking),
   (("service.owner.dri", .added), .nonBreaking),
   (("service.owner.dri", .removed), .nonBreaking),
   (("service.owner.contacts", .modified), .nonBreaking),
   (("service.owner.contacts", .added), .nonBreaking),
   (("service.owner.contacts", .removed), .nonBreaking),
   (("service.domain", .added), .nonBreaking), (("service.domain", .modified), .nonBreaking),
   (("service.domain", .removed), .nonBreaking), (("service.offering", .added), .nonBreaking),
   (("service.offering", .modified), .nonBreaking),
   (("service.offering", .removed), .nonBreaking), (("service.summary", .added), .nonBreaking),
   (("service.summary", .modified), .nonBreaking), (("service.summary", .removed), .nonBreaking),
   (("service.lifecycle", .added), .nonBreaking),
   (("service.lifecycle", .removed), .nonBreaking),
   (("service.lifecycle.deprecated", .modified), .nonBreaking),
   (("service.lifecycle.sunset", .added), .nonBreaking),
   (("service.lifecycle.sunset", .removed), .nonBreaking),
   (("service.lifecycle.sunset", .modified), .potentialBreaking),
   (("service.lifecycle.successor", .added), .nonBreaking),
   (("service.lifecycle.successor", .modified), .nonBreaking),
   (("service.lifecycle.successor", .removed), .nonBreaking),
   (("workload", .modified), .breaking), (("workload", .added), .nonBreaking),
   (("workload", .removed), .nonBreaking), (("state.type", .modified), .breaking),
   (("state.persistence.scope", .modified), .breaking),
   (("state.persistence.durability", .modified), .breaking),
   (("state.dataCriticality", .modified), .potentialBreaking),
   (("state.dataCriticality", .added), .nonBreaking),
   (("state.dataCriticality", .removed), .nonBreaking), (("capabilities", .added), .nonBreaking),
   (("capabilities", .removed), .potentialBreaking), (("readiness", .added), .nonBreaking),
   (("readiness", .removed), .nonBreaking), (("readiness.minScore", .modified), .nonBreaking),
   (("readiness.minScore", .added), .nonBreaking),
   (("readiness.minScore", .removed), .nonBreaking),
   (("readiness.expires", .modified), .nonBreaking),
   (("readiness.expires", .added), .nonBreaking),
   (("readiness.expires", .removed), .nonBreaking),
   (("readiness.partialCredit", .modified), .nonBreaking),
   (("readiness.partialCredit", .added), .nonBreaking),
   (("readiness.partialCredit", .removed), .nonBreaking),
   (("readiness.claims", .added), .nonBreaking), (("readiness.claims", .removed), .nonBreaking),
   (("readiness.claims", .modified), .nonBreaking), (("interfaces", .added), .nonBreaking),
   (("interfaces", .removed), .breaking), (("interfaces.type", .modified), .breaking),
   (("interfaces.ref", .modified), .potentialBreaking),
   (("interfaces.visibility", .modified), .potentialBreaking),
   (("interfaces.compatibilityEpoch", .modified), .breaking),
   (("interfaces.lifecycle", .added), .nonBreaking),
   (("interfaces.lifecycle", .removed), .nonBreaking),
   (("interfaces.lifecycle.deprecated", .modified), .nonBreaking),
   (("interfaces.lifecycle.sunset", .added), .nonBreaking),
   (("interfaces.lifecycle.sunset", .removed), .nonBreaking),
   (("interfaces.lifecycle.sunset", .modified), .potentialBreaking),
   (("interfaces.lifecycle.successor", .added), .nonBreaking),
   (("interfaces.lifecycle.successor", .modified), .nonBreaking),
   (("interfaces.lifecycle.successor", .removed), .nonBreaking),
   (("interfaces.guarantees", .added), .nonBreaking),
   (("interfaces.guarantees", .removed), .breaking),
   (("interfaces.guarantees.weakened", .modified), .breaking),
   (("interfaces.guarantees.strengthened", .modified), .nonBreaking),
   (("configurations", .added), .nonBreaking), (("configurations", .removed), .breaking),
   (("configurations.schema", .modified), .potentialBreaking),
   (("configurations.schema", .removed), .breaking),
   (("configurations.ref", .modified), .potentialBreaking),
   (("configurations.ref", .added), .nonBreaking), (("configurations.ref", .removed), .breaking),
   (("configurations.configuration", .added), .nonBreaking),
   (("configurations.configuration", .modified), .potentialBreaking),
   (("configurations.configuration", .removed), .potentialBreaking),
   (("configurations.default", .removed), .breaking), (("environments", .added), .nonBreaking),
   (("environments", .removed), .potentialBreaking), (("policies", .added), .nonBreaking),
   (("policies", .removed), .potentialBreaking),
   (("policies.schema", .modified), .potentialBreaking),
   (("policies.ref", .modified), .potentialBreaking), (("policies.ref", .added), .nonBreaking),
   (("policies.ref", .removed), .potentialBreaking), (("dependencies", .added), .nonBreaking),
   (("dependencies", .removed), .breaking),
   (("dependencies.ref", .modified), .potentialBreaking),
   (("dependencies.compatibility", .modified), .potentialBreaking),
   (("dependencies.required", .modified), .potentialBreaking),
   (("dependencies.external", .modified), .nonBreaking),
   (("dependencies.requires", .removed), .nonBreaking),
   (("openapi.paths", .added), .nonBreaking), (("openapi.paths", .removed), .breaking),
   (("openapi.methods", .added), .nonBreaking), (("openapi.methods", .removed), .breaking),
   (("openapi.parameters", .added), .potentialBreaking),
   (("openapi.parameters", .removed), .breaking),
   (("openapi.parameters", .modified), .potentialBreaking),
   (("openapi.responses", .added), .nonBreaking), (("openapi.responses", .removed), .breaking),
   (("asyncapi.channels", .added), .nonBreaking), (("asyncapi.channels", .removed), .breaking),
   (("asyncapi.operations", .added), .nonBreaking),
   (("asyncapi.operations", .removed), .breaking),
   (("asyncapi.channels.publish", .added), .nonBreaking),
   (("asyncapi.channels.subscribe", .added), .nonBreaking),
   (("asyncapi.channels.publish", .removed), .breaking),
   (("asyncapi.channels.subscribe", .removed), .breaking),
   (("asyncapi.operations.action", .modified), .breaking),
   (("asyncapi.operations.channel.$ref", .modified), .breaking),
   (("grpc.services", .added), .nonBreaking), (("grpc.services", .removed), .breaking),
   (("grpc.rpcs", .added), .nonBreaking), (("grpc.rpcs", .removed), .breaking),
   (("grpc.rpcs", .modified), .breaking), (("grpc.messages", .added), .nonBreaking),
   (("grpc.messages", .removed), .breaking), (("grpc.messages.fields", .added), .nonBreaking),
   (("grpc.messages.fields", .removed), .breaking),
   (("grpc.messages.fields", .modified), .breaking), (("grpc.enums", .added), .nonBreaking),
   (("grpc.enums", .removed), .breaking), (("grpc.enums.values", .added), .potentialBreaking),
   (("grpc.enums.values", .removed), .breaking), (("grpc.enums.values", .modified), .breaking),
   (("mcp.tools", .added), .nonBreaking), (("mcp.tools", .removed), .breaking),
   (("checks", .added), .nonBreaking)]

/-- `classify`: what the table says about a path, or else about the path without
its brackets. -/
def classify (path : String) (ct : ChangeType) : Classification :=
  ((rules.lookup (path, ct)).or (rules.lookup (strip path, ct))).getD .potentialBreaking

/-! ## What a path passes through -/

def docKeywords : List String :=
  ["description", "title", "summary", "$comment", "example", "examples", "externalDocs",
    "deprecated", "tags"]

/-- `nameKeys`: they hold maps keyed by a name the author chose. -/
def nameKeys : List String :=
  ["properties", "patternProperties", "$defs", "definitions", "schemas", "headers", "messages"]

/-- The segments pass through a word that is not a name.  `named` says that the
first of them is one. -/
def passes (word : String → Bool) (named : Bool) : List String → Bool
  | [] => false
  | s :: rest => (word s && !named) || passes word (nameKeys.contains s) rest

def isDocOnly (segs : List String) : Bool := passes docKeywords.contains false segs

def isExtension (segs : List String) : Bool := passes (hasPrefix "x-") false segs

def schemaRoots : List String := ["schema", "inputSchema", "outputSchema"]

def inSchema (segs : List String) : Bool := segs.dropLast.any schemaRoots.contains

def inRecordSchema (segs : List String) : Bool :=
  segs.dropLast.any ["payload", "headers"].contains

def positionallyGraded (dir : Direction) (segs : List String) : Bool :=
  match dir with
  | .record => inRecordSchema segs
  | .unknown => false
  | .request | .response => inSchema segs

def hasSuffix (suffix : String) (s : List Char) : Bool := suffix.toList.isSuffixOf s

/-- `inResponseHeaders`: the path lies inside the headers of a response. -/
def inResponseHeaders (path : String) : Bool :=
  path.toList.tails.any fun t =>
    ".responses[".toList.isPrefixOf t &&
      "].headers.".toList.isPrefixOf ((t.drop ".responses[".length).dropWhile (· ≠ ']'))

/-- `isSchemaProperty`: the path names one entry of a `properties` map. -/
def isSchemaProperty (path : String) : Bool :=
  match cutLast ['.'] path.toList with
  | some (before, _) => before ≠ [] && hasSuffix ".properties" before
  | none => false

def hasMediaTypeField (s : List Char) : Bool :=
  ["schema", "example", "examples", "encoding"].any fun f =>
    hasSuffix ("." ++ f) s || (cut ("." ++ f ++ ".").toList s).isSome

/-- `isResponsePayload`: the path names the payload of a response as a whole. -/
def isResponsePayload (path : String) : Bool :=
  hasSuffix ".content" path.toList ||
    match cut ".content.".toList path.toList with
    | none => false
    | some (_, tail) =>
      tail.contains '/' &&
        ((match cutLast ".schema".toList tail with
          | some (before, rest) =>
            (rest = [] || hasSuffix ".properties" rest) && !hasMediaTypeField before
          | none => false) ||
          !hasMediaTypeField tail)

end Pacto.Diff
