import Mathlib.Data.String.Basic
import Pacto.Support.Cut

/-!
# Registry references

`pkg/contract/ociref.go`: how a reference is taken apart.  A digest follows the
first `@`, a tag follows a `:` after the last `/`, so the port of a registry is
never taken for one.
-/

namespace Pacto.Oci

open Support (splitFirst splitLast)

/-- `OCIScheme`. -/
def ociScheme : String := "oci://"

def trimOCIScheme (ref : String) : String :=
  match ref.dropPrefix? ociScheme with
  | some rest => rest.toString
  | none => ref

/-- `SplitOCIDigest`: what precedes the first `@`, and what follows it. -/
def splitOCIDigest (ref : String) : String × String :=
  match splitFirst '@' ref.toList with
  | some (rest, digest) => (String.ofList rest, String.ofList digest)
  | none => (ref, "")

def splitOCITag (ref : String) : String × Option String :=
  match splitLast ':' ref.toList with
  | some (repo, tag) =>
    if '/' ∈ tag then (ref, none) else (String.ofList repo, some (String.ofList tag))
  | none => (ref, none)

def splitOCIRef (ref : String) : String × String × String :=
  let (rest, digest) := splitOCIDigest ref
  let (repo, tag) := splitOCITag rest
  (repo, tag.getD "", digest)

/-- `OCIDomain`: the repository without its last segment. -/
def ociDomain (ref : String) : String :=
  if ref.startsWith "." || ref.startsWith "/" || ref.startsWith "~" then ""
  else
    match splitLast '/' (splitOCIRef (trimOCIScheme ref)).1.toList with
    | some (domain, _) => String.ofList domain
    | none => ""

end Pacto.Oci
