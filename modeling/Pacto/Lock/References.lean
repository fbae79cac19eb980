import Pacto.Graph.Sources
import Pacto.Lock.Model

/-!
# The reference closure

A configuration or policy reference leads to a bundle that may declare further
references, and a relative reference means something else in each directory.
`buildReferenceClosure` walks all of them.  It records one entry for each
occurrence, a declaration of one content, and enters each bundle once.
-/

namespace Pacto.Lock

open Pacto.Graph

variable {F : Type} (S : Sources F)

/-! ## Resolving one reference -/

/-- What one reference text resolves to from one directory: the pinned half of
an entry, the bundle to go on from and the identity that ends the walk. -/
structure RefResolution where
  entry : Reference
  child : Contract
  childDir : String
  identity : String
  deriving DecidableEq, Repr

def resolveReference (ref dir : String) : Except LockError RefResolution :=
  let parsed := parseDependencyRef ref
  if parsed.isLocal then
    match depLocalDir parsed.location dir with
    | .error reason => .error (.unresolved ref reason)
    | .ok path =>
      match S.loadLocalBundle path with
      | .error reason => .error (.unresolved ref reason)
      | .ok b =>
        match S.hashFS b.files with
        | .error reason => .error (.unresolved ref reason)
        | .ok h =>
          .ok { entry := { source := "local", path := parsed.location, contentHash := h,
                           version := b.contract.version }
                child := b.contract, childDir := path, identity := "local:" ++ path }
  else
    match resolvePinned S parsed.location "" with
    | .error reason => .error (.unresolved ref reason)
    | .ok p =>
      .ok { entry := { source := "oci", ref := ref, digest := p.digest,
                       version := p.bundle.contract.version }
            child := p.bundle.contract, childDir := ociBase, identity := "oci:" ++ p.digest }

/-- The entry of a declaration: the pin belongs to the text, the rest to the
declaration. -/
def RefResolution.entryOf (r : RefResolution) (fromID : String) (d : ReferenceRef) : Reference :=
  { r.entry with fromID := fromID, kind := d.kind, name := d.name }

/-- Where a reference entry points, for a reader. -/
def refOrigin (r : Reference) : String :=
  (if r.ref = "" then r.path else r.ref) ++ " (" ++ r.destinationID ++ ")"

/-! ## The walk -/

/-- A contract, the directory its references are resolved from and its content
identity, which is empty for the root. -/
structure Place where
  contract : Contract
  dir : String
  fromID : String
  deriving DecidableEq, Repr

/-- The bundle a reference resolved to. -/
def RefResolution.place (r : RefResolution) : Place :=
  ⟨r.child, r.childDir, r.entry.destinationID⟩

/-- What a walk has entered, resolved and recorded. -/
structure Closure where
  walked : List String := []
  resolved : List ((String × String) × RefResolution) := []
  out : List Reference := []

/-- Resolves a reference once for each directory and text. -/
def Closure.resolve (w : Closure) (ref dir : String) :
    Except LockError (RefResolution × Closure) :=
  match w.resolved.lookup (dir, ref) with
  | some r => .ok (r, w)
  | none =>
    match resolveReference S ref dir with
    | .error e => .error e
    | .ok r => .ok (r, { w with resolved := ((dir, ref), r) :: w.resolved })

/-- Records one declaration, and names the bundle behind it if that is to be
entered now. -/
def Closure.record (w : Closure) (here : Place) (d : ReferenceRef) :
    Except LockError (Option Place × Closure) :=
  match w.resolve S d.ref here.dir with
  | .error e => .error e
  | .ok (r, w) =>
    let entry := r.entryOf here.fromID d
    match w.out.find? (·.occurrence = entry.occurrence) with
    | some prev =>
      if prev ≠ entry then
        .error (.ambiguous entry.occurrence (refOrigin prev) (refOrigin entry))
      -- the same declaration, reached again by another route
      else .ok (none, w)
    | none =>
      let w := { w with out := w.out ++ [entry] }
      if r.identity ∈ w.walked then .ok (none, w)
      else .ok (some r.place, { w with walked := w.walked ++ [r.identity] })

/-- Records declarations in turn and enters the bundles behind them. -/
def visitAll (enter : Place → Closure → Option (Except LockError Closure)) (here : Place) :
    List ReferenceRef → Closure → Option (Except LockError Closure)
  | [], w => some (.ok w)
  | d :: ds, w =>
    match w.record S here d with
    | .error e => some (.error e)
    | .ok (none, w) => visitAll enter here ds w
    | .ok (some child, w) =>
      match enter child w with
      | none => none
      | some (.error e) => some (.error e)
      | some (.ok w) => visitAll enter here ds w

/-- Walks the references of a place, at most `n` bundles deep. -/
def visit : Nat → Place → Closure → Option (Except LockError Closure)
  | 0, _, _ => none
  | n + 1, here, w =>
    match here.contract.duplicateDeclarations with
    | dup :: _ => some (.error (.duplicateDeclaration ⟨here.fromID, dup.kind, dup.name⟩))
    | [] => visitAll S (visit n) here here.contract.referenceRefs w

/-- The references of a contract and of everything they lead to. -/
def buildReferenceClosure (n : Nat) (root : Contract) (baseDir : String) :
    Option (Except LockError (List Reference)) :=
  (visit S n ⟨root, baseDir, ""⟩ {}).map (Except.map Closure.out)

/-! ## Resolutions -/

variable {S}

/-- A local reference leads to the bundle of its directory, a registry reference
to the bundle of its digest. -/
theorem resolveReference_eq_ok {ref dir : String} {r : RefResolution}
    (h : resolveReference S ref dir = .ok r) :
    ((parseDependencyRef ref).isLocal = true ∧
      ∃ path b hash, depLocalDir (parseDependencyRef ref).location dir = .ok path ∧
        S.loadLocalBundle path = .ok b ∧ S.hashFS b.files = .ok hash ∧
        r = { entry := { source := "local", path := (parseDependencyRef ref).location,
                         contentHash := hash, version := b.contract.version }
              child := b.contract, childDir := path, identity := "local:" ++ path }) ∨
    ((parseDependencyRef ref).isLocal = false ∧
      ∃ p, resolvePinned S (parseDependencyRef ref).location "" = .ok p ∧
        r = { entry := { source := "oci", ref := ref, digest := p.digest,
                         version := p.bundle.contract.version }
              child := p.bundle.contract, childDir := ociBase,
              identity := "oci:" ++ p.digest }) := by
  unfold resolveReference at h
  simp only at h
  split at h
  · rename_i hlocal
    split at h
    · cases h
    · rename_i path hpath
      split at h
      · cases h
      · rename_i b hb
        split at h
        · cases h
        · rename_i hash hhash
          exact .inl ⟨hlocal, path, b, hash, hpath, hb, hhash, (Except.ok.inj h).symm⟩
  · rename_i hlocal
    split at h
    · cases h
    · rename_i p hp
      exact .inr ⟨by simpa using hlocal, p, hp, (Except.ok.inj h).symm⟩

/-- An entry without its declaration. -/
def Reference.pin (e : Reference) : Reference := { e with fromID := "", kind := "", name := "" }

theorem pin_entryOf {ref dir : String} {r : RefResolution}
    (h : resolveReference S ref dir = .ok r) (fromID : String) (d : ReferenceRef) :
    (r.entryOf fromID d).pin = r.entry := by
  rcases resolveReference_eq_ok h with ⟨-, -, -, -, -, -, -, rfl⟩ | ⟨-, -, -, rfl⟩ <;> rfl

theorem local_append_ne_oci (x y : String) : "local:" ++ x ≠ "oci:" ++ y := by
  intro h
  have hchars := congrArg String.toList h
  simp at hchars

/-- One identity, one place: the identity is a directory or a digest. -/
theorem place_eq_of_identity_eq {ref ref' dir dir' : String} {r r' : RefResolution}
    (h : resolveReference S ref dir = .ok r) (h' : resolveReference S ref' dir' = .ok r')
    (heq : r.identity = r'.identity) : r.place = r'.place := by
  rcases resolveReference_eq_ok h with
    ⟨-, path, b, hash, -, hb, hhash, rfl⟩ | ⟨-, p, hp, rfl⟩ <;>
  rcases resolveReference_eq_ok h' with
    ⟨-, path', b', hash', -, hb', hhash', rfl⟩ | ⟨-, p', hp', rfl⟩
  · obtain rfl : path = path' := by simpa using heq
    obtain rfl : b = b' := Except.ok.inj (hb.symm.trans hb')
    obtain rfl : hash = hash' := Except.ok.inj (hhash.symm.trans hhash')
    rfl
  · exact absurd heq (local_append_ne_oci _ _)
  · exact absurd heq.symm (local_append_ne_oci _ _)
  · have hdigest : p.digest = p'.digest := by simpa using heq
    have hbundle := bundle_eq_of_digest_eq hp hp' hdigest
    simp [RefResolution.place, Reference.destinationID, hdigest, hbundle]

/-! ## What a record does -/

/-- What was resolved before is what resolving again gives. -/
def Closure.Remembers (S : Sources F) (w : Closure) : Prop :=
  ∀ dir ref r, w.resolved.lookup (dir, ref) = some r → resolveReference S ref dir = .ok r

theorem Closure.Remembers.empty : Closure.Remembers S {} := by
  intro dir ref r h
  cases h

theorem Closure.resolve_eq_ok {w w' : Closure} {ref dir : String} {r : RefResolution}
    (hw : w.Remembers S) (h : w.resolve S ref dir = .ok (r, w')) :
    resolveReference S ref dir = .ok r ∧ w'.Remembers S ∧ w'.out = w.out ∧
      w'.walked = w.walked := by
  unfold Closure.resolve at h
  split at h
  · rename_i r₀ hfound
    cases h
    exact ⟨hw _ _ _ hfound, hw, rfl, rfl⟩
  · split at h
    · cases h
    · rename_i r₀ hr
      cases h
      refine ⟨hr, ?_, rfl, rfl⟩
      intro dir' ref' r' hlookup
      rw [List.lookup_cons] at hlookup
      split at hlookup
      · rename_i hkey
        obtain ⟨rfl, rfl⟩ : dir' = dir ∧ ref' = ref := by simpa using hkey
        rw [hr, Option.some.inj hlookup]
      · exact hw _ _ _ hlookup

/-- A declaration is recorded already, or is recorded now.  Recorded now, its
bundle is entered unless it was. -/
theorem Closure.record_eq_ok {w w' : Closure} {here : Place} {d : ReferenceRef}
    {next : Option Place} (hw : w.Remembers S) (h : w.record S here d = .ok (next, w')) :
    w'.Remembers S ∧ ∃ r, resolveReference S d.ref here.dir = .ok r ∧
      ((next = none ∧ w'.walked = w.walked ∧ w'.out = w.out ∧ r.entryOf here.fromID d ∈ w.out) ∨
       (w'.out = w.out ++ [r.entryOf here.fromID d] ∧
        (∀ e ∈ w.out, e.occurrence ≠ (r.entryOf here.fromID d).occurrence) ∧
        ((next = none ∧ w'.walked = w.walked ∧ r.identity ∈ w.walked) ∨
         (next = some r.place ∧ w'.walked = w.walked ++ [r.identity] ∧
          r.identity ∉ w.walked)))) := by
  unfold Closure.record at h
  split at h
  · cases h
  · rename_i r w₁ hresolve
    obtain ⟨hr, hw₁, hout, hwalked⟩ := Closure.resolve_eq_ok hw hresolve
    simp only at h
    split at h
    · rename_i prev hprev
      split at h
      · cases h
      · rename_i heq
        rw [not_not] at heq
        cases h
        refine ⟨hw₁, r, hr, .inl ⟨rfl, hwalked, hout, ?_⟩⟩
        rw [← heq, ← hout]
        exact List.mem_of_find?_eq_some hprev
    · rename_i hnone
      have hnew : ∀ e ∈ w.out, e.occurrence ≠ (r.entryOf here.fromID d).occurrence := by
        rw [← hout]
        simpa using List.find?_eq_none.mp hnone
      split at h
      · rename_i hmem
        cases h
        refine ⟨hw₁, r, hr, .inr ⟨by rw [hout], hnew, .inl ⟨rfl, hwalked, ?_⟩⟩⟩
        rw [← hwalked]
        exact hmem
      · rename_i hmem
        cases h
        refine ⟨hw₁, r, hr, .inr ⟨by rw [hout], hnew, .inr ⟨rfl, by rw [hwalked], ?_⟩⟩⟩
        rw [← hwalked]
        exact hmem

end Pacto.Lock
