import Pacto.Delivery.History
import Pacto.Delivery.Plan
import Pacto.Support.Walk

/-!
# Reading a stream under revoked keys

`pkg/deliveryrecord` lists the manifests on a stream's anchor and verifies each
with the keys of `pkg/delivery/trust.go`.  A record only a revoked key signs is
held back until the stream's own chain vouches for it: the last record the key
signed is it, or chains from it.

A manifest never changes, so the reader's memory of the manifests it read is
left out; so is a registry that cannot be read, which lists nothing.
-/

namespace Pacto.Delivery

open Support

/-! ## Keys -/

/-- A signed record: its statement, the digest of the signed payload, which is
its id, and the signature. -/
structure SignedBundle where
  statement : Statement
  id : String
  signature : String
  deriving DecidableEq, Repr

/-- One record key a reader trusts: the streams it covers, and what is wrong
with a bundle's signature by it.  A revoked key names the last record it signed
and that record's seq; the two go together. -/
structure RecordKey where
  covers : String → Bool := fun _ => true
  untilSeq : Int := 0
  untilRecord : String := ""
  verify : SignedBundle → Option String
  together : 0 < untilSeq ↔ untilRecord ≠ "" := by decide

def RecordKey.Revoked (k : RecordKey) : Prop := 0 < k.untilSeq

/-- Why a signature does not count: `historyOnly` when only a revoked key made
it, at or below the seq it was revoked after. -/
inductive VerifyError where
  | historyOnly (untilRecord : String)
  | refused (why : String)
  deriving DecidableEq, Repr

def historyOnlyText (untilRecord : String) : String :=
  "signed by a revoked key, and not in the history that ends at its last record " ++ untilRecord

/-- The loop of `verify` over the keys, from the errors met so far. -/
def verifyLoop (stream : String) (seq : Int) (bundle : SignedBundle) :
    List RecordKey → Option String → Option String → Option String → Except VerifyError Unit
  | [], err, revoked, history =>
    match history, revoked, err with
    | some untilRecord, _, _ => .error (.historyOnly untilRecord)
    | none, some why, _ => .error (.refused why)
    | none, none, some why => .error (.refused why)
    | none, none, none => .ok ()
  | k :: keys, err, revoked, history =>
    if !k.covers stream then verifyLoop stream seq bundle keys err revoked history
    else
      match k.verify bundle with
      | some why => verifyLoop stream seq bundle keys (some why) revoked history
      | none =>
        if 0 < k.untilSeq ∧ k.untilSeq < seq then
          verifyLoop stream seq bundle keys none
            (some ("signed by a key revoked after seq " ++ toString k.untilSeq ++
              " of stream " ++ quote stream ++ ", and this record is seq " ++ toString seq))
            history
        else if 0 < k.untilSeq then
          verifyLoop stream seq bundle keys none revoked (some k.untilRecord)
        else .ok ()

def verifyRecord (keys : List RecordKey) (stream : String) (seq : Int) (bundle : SignedBundle) :
    Except VerifyError Unit :=
  verifyLoop stream seq bundle keys
    (some ("no trusted key may sign records of stream " ++ quote stream)) none none

/-! ## Manifests -/

/-- What a referrer manifest holds: something of another tool, something that
is not one signed record, or a record. -/
inductive Content where
  | other
  | malformed (why : String)
  | signed (bundle : SignedBundle)
  deriving DecidableEq, Repr

/-- A referrer manifest on a stream's anchor. -/
structure Manifest where
  digest : String
  content : Content
  deriving DecidableEq, Repr

/-- What one referrer manifest read as: a record, why it is unreadable, or
neither.  `untilRecord` is set on a record only a revoked key signs. -/
structure Referrer where
  record : Option StoredRecord := none
  bad : String := ""
  untilRecord : String := ""
  deriving DecidableEq, Repr

def SignedBundle.stored (digest : String) (b : SignedBundle) : StoredRecord where
  id := b.id
  manifest := digest
  statement := b.statement

/-- `readOne` reads and verifies a manifest.  The stream and seq that choose
the keys are the ones the unverified record names. -/
def readOne (keys : List RecordKey) (m : Manifest) : Referrer :=
  match m.content with
  | .other => {}
  | .malformed why => { bad := m.digest ++ ": " ++ why }
  | .signed b =>
    let chain := b.statement.predicate.chain
    match verifyRecord keys chain.stream chain.seq b with
    | .ok _ => { record := some (b.stored m.digest) }
    | .error (.historyOnly untilRecord) =>
      { record := some (b.stored m.digest), untilRecord := untilRecord }
    | .error (.refused why) => { bad := m.digest ++ ": signature: " ++ why }

/-! ## Listing -/

/-- A record only a revoked key signs, and the last record that key signed. -/
structure Held where
  record : StoredRecord
  untilRecord : String
  deriving DecidableEq, Repr

/-- What `list` gathers from the manifests. -/
structure Listed where
  records : List StoredRecord := []
  held : List Held := []
  unreadable : List String := []
  seen : List String := []
  deriving DecidableEq, Repr

/-- `list` on one more manifest.  A second manifest with a record already
listed is passed over. -/
def listStep (keys : List RecordKey) (l : Listed) (m : Manifest) : Listed :=
  let got := readOne keys m
  if got.bad ≠ "" then { l with unreadable := l.unreadable ++ [got.bad] }
  else
    match got.record with
    | none => l
    | some rec =>
      if rec.id ∈ l.seen then l
      else if got.untilRecord ≠ "" then
        { l with
          seen := l.seen ++ [rec.id]
          held := l.held ++ [{ record := rec, untilRecord := got.untilRecord }] }
      else { l with seen := l.seen ++ [rec.id], records := l.records ++ [rec] }

def list (keys : List RecordKey) (ms : List Manifest) : Listed := ms.foldl (listStep keys) {}

/-- The record with an id among `recs`; a later one replaces an earlier one. -/
def byID (recs : List StoredRecord) (id : String) : Option StoredRecord :=
  recs.reverse.find? (·.id = id)

/-- The parent of the record with an id, as the loop of `history` follows it. -/
def parentIn (recs : List StoredRecord) (id : String) : Option String :=
  if id = "" then none else (byID recs id).map (·.predicate.chain.parent)

/-- Every record the loop of `history` walks through. -/
def Listed.known (l : Listed) : List StoredRecord := l.records ++ l.held.map (·.record)

/-- The ids the walks of `history` mark, one walk from each held record's
`untilRecord`. -/
def Listed.vouched (l : Listed) : List String :=
  walkAll (parentIn l.known) l.known.length (l.held.map (·.untilRecord))

/-- `history`: the held records the stream's own chain vouches for, and what is
wrong with the rest. -/
def Listed.history (l : Listed) : List StoredRecord × List String :=
  ((l.held.filter (·.record.id ∈ l.vouched)).map (·.record),
    (l.held.filter (·.record.id ∉ l.vouched)).map fun h =>
      h.record.manifest ++ ": " ++ historyOnlyText h.untilRecord)

/-- The records read from an anchor, and what could not be read. -/
structure Listing where
  records : List StoredRecord
  unreadable : List String
  deriving DecidableEq, Repr

def listStream (keys : List RecordKey) (stream : String) (ms : List Manifest) : Listing :=
  let l := list keys ms
  let all := l.records ++ l.history.1
  { records := all.filter (·.predicate.chain.stream = stream)
    unreadable :=
      l.unreadable ++ l.history.2 ++
        (all.filter (·.predicate.chain.stream ≠ stream)).map fun rec =>
          rec.manifest ++ ": names stream " ++ quote rec.predicate.chain.stream ++
            ", read from the anchor of " ++ quote stream }

def acceptedIds (keys : List RecordKey) (stream : String) (ms : List Manifest) : List String :=
  (listStream keys stream ms).records.map (·.id)

/-! ## Who signed what -/

/-- The place in a stream the bundle's record names. -/
def SignedBundle.chain (b : SignedBundle) : Chain := b.statement.predicate.chain

/-- The key covers the stream the record names and the signature is its own. -/
def RecordKey.Signs (k : RecordKey) (b : SignedBundle) : Prop :=
  k.covers b.chain.stream = true ∧ k.verify b = none

def Trusted (keys : List RecordKey) (b : SignedBundle) : Prop :=
  ∃ k ∈ keys, k.Signs b ∧ ¬k.Revoked

def HeldBy (keys : List RecordKey) (b : SignedBundle) (k : RecordKey) : Prop :=
  ¬Trusted keys b ∧ k.Signs b ∧ k.Revoked ∧ b.chain.seq ≤ k.untilSeq

instance (k : RecordKey) : Decidable k.Revoked := inferInstanceAs (Decidable (0 < k.untilSeq))

instance (k : RecordKey) (b : SignedBundle) : Decidable (k.Signs b) :=
  inferInstanceAs (Decidable (_ ∧ _))

instance (keys : List RecordKey) (b : SignedBundle) : Decidable (Trusted keys b) :=
  inferInstanceAs (Decidable (∃ k ∈ keys, k.Signs b ∧ ¬k.Revoked))

/-- The signed records among the manifests. -/
def bundles (ms : List Manifest) : List SignedBundle :=
  ms.filterMap fun m =>
    match m.content with
    | .signed b => some b
    | _ => none

/-- Whoever made the manifests holds only revoked keys. -/
def OnlyRevoked (keys : List RecordKey) (ms : List Manifest) : Prop :=
  ∀ b ∈ bundles ms, ∀ k ∈ keys, k.verify b = none → k.Revoked

def CollisionFree (ms : List Manifest) : Prop :=
  ∀ b ∈ bundles ms, ∀ b' ∈ bundles ms, b.id = b'.id → b.statement = b'.statement

instance (keys : List RecordKey) (ms : List Manifest) : Decidable (OnlyRevoked keys ms) :=
  inferInstanceAs (Decidable (∀ b ∈ bundles ms, ∀ k ∈ keys, k.verify b = none → k.Revoked))

instance (ms : List Manifest) : Decidable (CollisionFree ms) :=
  inferInstanceAs (Decidable (∀ b ∈ bundles ms, ∀ b' ∈ bundles ms,
    b.id = b'.id → b.statement = b'.statement))

variable {keys : List RecordKey} {b : SignedBundle}

theorem mem_bundles_of_signed {ms : List Manifest} {m : Manifest} (hm : m ∈ ms)
    (h : m.content = .signed b) : b ∈ bundles ms :=
  List.mem_filterMap.mpr ⟨m, hm, by simp [h]⟩

theorem bundles_subset {ms ms' : List Manifest} (h : ms ⊆ ms') : bundles ms ⊆ bundles ms' :=
  List.filterMap_subset _ h

/-! ## What the keys say -/

/-- A bundle passes only by a key that is not revoked: an earlier success that
was not enough is remembered as `revoked` or `history`. -/
theorem trusted_of_verifyLoop {err revoked history : Option String}
    (hmet : err = none → revoked.isSome ∨ history.isSome)
    (h : verifyLoop b.chain.stream b.chain.seq b keys err revoked history = .ok ()) :
    Trusted keys b := by
  induction keys generalizing err revoked history with
  | nil => cases history <;> cases revoked <;> cases err <;> simp_all [verifyLoop]
  | cons k keys ih =>
    have later : Trusted keys b → Trusted (k :: keys) b := fun ⟨k', hk', h⟩ =>
      ⟨k', List.mem_cons_of_mem _ hk', h⟩
    unfold verifyLoop at h
    split at h
    · exact later (ih hmet h)
    · rename_i hcovers
      split at h
      · exact later (ih (by simp) h)
      · rename_i hverify
        split at h
        · exact later (ih (by simp) h)
        · split at h
          · exact later (ih (by simp) h)
          · exact ⟨k, List.mem_cons_self, ⟨by simpa using hcovers, hverify⟩, ‹_›⟩

theorem verifyLoop_of_trusted {err revoked history : Option String} (h : Trusted keys b) :
    verifyLoop b.chain.stream b.chain.seq b keys err revoked history = .ok () := by
  induction keys generalizing err revoked history with
  | nil => obtain ⟨k, hk, -⟩ := h; cases hk
  | cons k keys ih =>
    by_cases hlater : Trusted keys b
    · unfold verifyLoop
      repeat' split
      all_goals first | exact ih hlater | rfl
    · obtain ⟨k', hk', ⟨hcovers, hverify⟩, hrevoked⟩ := h
      rcases List.mem_cons.mp hk' with rfl | hk'
      · have hrevoked : ¬0 < k'.untilSeq := hrevoked
        simp [verifyLoop, hcovers, hverify, hrevoked]
      · exact absurd ⟨k', hk', ⟨hcovers, hverify⟩, hrevoked⟩ hlater

/-- What the loop holds a bundle for is the last record of a revoked key that
signed it. -/
theorem verifyLoop_historyOnly {u : String} {err revoked history : Option String}
    (h : verifyLoop b.chain.stream b.chain.seq b keys err revoked history =
      .error (.historyOnly u)) :
    history = some u ∨
      ∃ k ∈ keys, (k.Signs b ∧ k.Revoked ∧ b.chain.seq ≤ k.untilSeq) ∧ k.untilRecord = u := by
  induction keys generalizing err revoked history with
  | nil => cases history <;> cases revoked <;> cases err <;> simp_all [verifyLoop]
  | cons k keys ih =>
    have later : ∀ {history : Option String} {P : RecordKey → Prop},
        (history = some u ∨ ∃ k' ∈ keys, P k') → history = some u ∨ ∃ k' ∈ k :: keys, P k' :=
      fun h => h.imp_right fun ⟨k', hk', h⟩ => ⟨k', List.mem_cons_of_mem _ hk', h⟩
    unfold verifyLoop at h
    split at h
    · exact later (ih h)
    · rename_i hcovers
      split at h
      · exact later (ih h)
      · rename_i hverify
        split at h
        · exact later (ih h)
        · split at h
          · rename_i hpast hrevoked
            rcases later (ih h) with heq | hkey
            · refine .inr ⟨k, List.mem_cons_self, ⟨⟨by simpa using hcovers, hverify⟩,
                hrevoked, ?_⟩, Option.some.inj heq⟩
              exact Int.not_lt.mp fun hlt => hpast ⟨hrevoked, hlt⟩
            · exact .inr hkey
          · cases h

/-! ## What a manifest reads as -/

/-- `m` reads as the record `rec`, held for `u` unless that is empty. -/
def Reads (keys : List RecordKey) (m : Manifest) (rec : StoredRecord) (u : String) : Prop :=
  (readOne keys m).bad = "" ∧ (readOne keys m).record = some rec ∧
    (readOne keys m).untilRecord = u

variable {m : Manifest} {rec : StoredRecord} {u : String}

/-- A manifest that reads as a record carries it, signed by a trusted key or
held by a revoked one. -/
theorem Reads.signed (h : Reads keys m rec u) :
    ∃ b, m.content = .signed b ∧ rec = b.stored m.digest ∧
      ((u = "" ∧ Trusted keys b) ∨
        (u ≠ "" ∧ ∃ k ∈ keys, HeldBy keys b k ∧ k.untilRecord = u)) := by
  obtain ⟨-, hrec, huntil⟩ := h
  unfold readOne at hrec huntil
  cases hcontent : m.content with
  | other => simp [hcontent] at hrec
  | malformed why => simp [hcontent] at hrec
  | signed b =>
    refine ⟨b, rfl, ?_⟩
    simp only [hcontent] at hrec huntil
    split at hrec
    · rename_i hok
      simp only [hok] at huntil
      exact ⟨(Option.some.inj hrec).symm,
        .inl ⟨huntil.symm, trusted_of_verifyLoop (by simp) hok⟩⟩
    · rename_i v hhistory
      simp only [hhistory] at huntil
      subst huntil
      obtain ⟨k, hk, hsigned, rfl⟩ := (verifyLoop_historyOnly hhistory).resolve_left (by simp)
      have huntrusted : ¬Trusted keys b := fun htrusted => by
        have hok : verifyRecord keys b.chain.stream b.chain.seq b = .ok () :=
          verifyLoop_of_trusted htrusted
        exact absurd (hhistory.symm.trans hok) (by simp)
      exact ⟨(Option.some.inj hrec).symm,
        .inr ⟨k.together.mp hsigned.2.1, k, hk, ⟨huntrusted, hsigned⟩, rfl⟩⟩
    · cases hrec

/-! ## Copies -/

/-- What a manifest reads as, if that is a record: the record and the last record
of the key it is held for, which is empty if a trusted key signs it. -/
def Referrer.copy (r : Referrer) : Option (StoredRecord × String) :=
  if r.bad ≠ "" then none else r.record.map (·, r.untilRecord)

/-- The copies of records among the manifests. -/
def copies (keys : List RecordKey) (ms : List Manifest) : List (StoredRecord × String) :=
  ms.filterMap fun m => (readOne keys m).copy

/-- The copy a listing keeps of a record. -/
def firstCopy (cs : List (StoredRecord × String)) (id : String) : Option (StoredRecord × String) :=
  cs.find? (·.1.id = id)

/-- The parent that the record with an id names. -/
def parentOf (cs : List (StoredRecord × String)) (id : String) : Option String :=
  if id = "" then none else (firstCopy cs id).map (·.1.predicate.chain.parent)

/-- A chain of records leads from `u` to the record `id`. -/
def Vouches (cs : List (StoredRecord × String)) (u id : String) : Prop :=
  Reaches (parentOf cs) u id

/-- A trusted key signs the record, or a copy is held for a last record that
vouches for it. -/
def CanCount (cs : List (StoredRecord × String)) (id : String) : Prop :=
  ∃ c ∈ cs, (c.1.id = id ∧ c.2 = "") ∨ (c.2 ≠ "" ∧ Vouches cs c.2 id)

/-- Whichever copies come first, one of them vouches for a held record: all its
own held copies do, or all copies of some record are held and do. -/
def SurelyVouched (cs : List (StoredRecord × String)) (id : String) : Prop :=
  (∀ c ∈ cs, c.1.id = id → c.2 ≠ "" → Vouches cs c.2 id) ∨
    ∃ c ∈ cs, ∀ c' ∈ cs, c'.1.id = c.1.id → c'.2 ≠ "" ∧ Vouches cs c'.2 id

/-- A record of the stream that has a held copy and can count is vouched for
whichever copies come first. -/
def Settled (keys : List RecordKey) (stream : String) (ms : List Manifest) : Prop :=
  ∀ c ∈ copies keys ms, c.2 ≠ "" → c.1.predicate.chain.stream = stream →
    CanCount (copies keys ms) c.1.id → SurelyVouched (copies keys ms) c.1.id

section Copies

variable {cs : List (StoredRecord × String)} {c : StoredRecord × String} {id : String}

theorem firstCopy_eq_some (h : firstCopy cs id = some c) : c ∈ cs ∧ c.1.id = id :=
  ⟨List.mem_of_find?_eq_some h, by simpa using List.find?_some h⟩

theorem exists_firstCopy (h : c ∈ cs) : ∃ c', firstCopy cs c.1.id = some c' :=
  Option.isSome_iff_exists.mp (List.find?_isSome.mpr ⟨c, h, by simp⟩)

theorem firstCopy_append (cs : List (StoredRecord × String)) (c : StoredRecord × String)
    (id : String) : firstCopy (cs ++ [c]) id =
      (firstCopy cs id).or (if c.1.id = id then some c else none) := by
  unfold firstCopy
  rw [List.find?_append]
  by_cases h : c.1.id = id <;> simp [h]

theorem parentOf_eq_some {a p : String} (h : parentOf cs a = some p) :
    a ≠ "" ∧ ∃ c ∈ cs, c.1.id = a ∧ c.1.predicate.chain.parent = p := by
  unfold parentOf at h
  split at h
  · cases h
  · rename_i hne
    obtain ⟨c, hc, hp⟩ := Option.map_eq_some_iff.mp h
    obtain ⟨hmem, hid⟩ := firstCopy_eq_some hc
    exact ⟨hne, c, hmem, hid, hp⟩

theorem mem_ids_of_parentOf (cs : List (StoredRecord × String)) (a : String)
    (h : (parentOf cs a).isSome) : a ∈ cs.map (·.1.id) := by
  obtain ⟨p, hp⟩ := Option.isSome_iff_exists.mp h
  obtain ⟨-, c, hc, hid, -⟩ := parentOf_eq_some hp
  exact List.mem_map.mpr ⟨c, hc, hid⟩

instance (cs : List (StoredRecord × String)) (u id : String) : Decidable (Vouches cs u id) :=
  decidable_of_iff (id ∈ walkAll (parentOf cs) cs.length [u]) <| by
    rw [mem_walkAll_iff (mem_ids_of_parentOf cs) (by simp)]
    simp [Vouches]

instance (cs : List (StoredRecord × String)) (id : String) : Decidable (CanCount cs id) :=
  inferInstanceAs (Decidable (∃ c ∈ cs, (_ ∧ _) ∨ (_ ∧ _)))

instance (cs : List (StoredRecord × String)) (id : String) : Decidable (SurelyVouched cs id) :=
  inferInstanceAs (Decidable (_ ∨ ∃ c ∈ cs, ∀ c' ∈ cs, _ → _ ∧ _))

instance (keys : List RecordKey) (stream : String) (ms : List Manifest) :
    Decidable (Settled keys stream ms) :=
  inferInstanceAs (Decidable (∀ c ∈ copies keys ms, _ → _ → _ → _))

end Copies

theorem exists_of_mem_copies {ms : List Manifest} {c : StoredRecord × String}
    (h : c ∈ copies keys ms) : ∃ m ∈ ms, Reads keys m c.1 c.2 := by
  obtain ⟨m, hm, hcopy⟩ := List.mem_filterMap.mp h
  unfold Referrer.copy at hcopy
  split at hcopy
  · cases hcopy
  · rename_i hbad
    obtain ⟨rec, hrec, rfl⟩ := Option.map_eq_some_iff.mp hcopy
    exact ⟨m, hm, not_not.mp hbad, hrec, rfl⟩

theorem copies_subset {ms ms' : List Manifest} (h : ms ⊆ ms') : copies keys ms ⊆ copies keys ms' :=
  List.filterMap_subset _ h

theorem CollisionFree.copies {ms : List Manifest} (h : CollisionFree ms)
    {c c' : StoredRecord × String} (hc : c ∈ copies keys ms) (hc' : c' ∈ copies keys ms)
    (hid : c.1.id = c'.1.id) : c.1.predicate = c'.1.predicate := by
  obtain ⟨m, hm, hreads⟩ := exists_of_mem_copies hc
  obtain ⟨m', hm', hreads'⟩ := exists_of_mem_copies hc'
  obtain ⟨b, hb, heq, -⟩ := hreads.signed
  obtain ⟨b', hb', heq', -⟩ := hreads'.signed
  rw [heq, heq'] at hid ⊢
  exact congrArg Statement.predicate
    (h b (mem_bundles_of_signed hm hb) b' (mem_bundles_of_signed hm' hb') hid)

/-- More manifests keep every parent link. -/
theorem parentOf_mono {ms ms' : List Manifest} (hsub : ms ⊆ ms') (hids : CollisionFree ms')
    (a p : String) (h : parentOf (copies keys ms) a = some p) :
    parentOf (copies keys ms') a = some p := by
  obtain ⟨hne, c, hc, rfl, rfl⟩ := parentOf_eq_some h
  obtain ⟨c', hc'⟩ := exists_firstCopy (copies_subset hsub hc)
  obtain ⟨hmem, hid⟩ := firstCopy_eq_some hc'
  simp [parentOf, hne, hc', hids.copies hmem (copies_subset hsub hc) hid]

theorem Vouches.mono {ms ms' : List Manifest} (hsub : ms ⊆ ms') (hids : CollisionFree ms')
    {u id : String} (h : Vouches (copies keys ms) u id) : Vouches (copies keys ms') u id :=
  Reaches.mono (parentOf_mono hsub hids) h

theorem CanCount.mono {ms ms' : List Manifest} (hsub : ms ⊆ ms') (hids : CollisionFree ms')
    {id : String} (h : CanCount (copies keys ms) id) : CanCount (copies keys ms') id := by
  obtain ⟨c, hc, htrusted | ⟨hne, hvouches⟩⟩ := h
  · exact ⟨c, copies_subset hsub hc, .inl htrusted⟩
  · exact ⟨c, copies_subset hsub hc, .inr ⟨hne, hvouches.mono hsub hids⟩⟩

/-! ## What is listed -/

/-- A listing keeps the first copy of each record. -/
structure Lists (cs : List (StoredRecord × String)) (l : Listed) : Prop where
  records : ∀ rec, rec ∈ l.records ↔ firstCopy cs rec.id = some (rec, "")
  held : ∀ x, x ∈ l.held ↔
    x.untilRecord ≠ "" ∧ firstCopy cs x.record.id = some (x.record, x.untilRecord)
  seen : ∀ id, id ∈ l.seen ↔ (firstCopy cs id).isSome

section Listing

variable {cs : List (StoredRecord × String)} {l : Listed}

/-- A further copy of a record changes nothing. -/
theorem Lists.pass (h : Lists cs l) (hseen : rec.id ∈ l.seen) : Lists (cs ++ [(rec, u)]) l := by
  have hfirst : ∀ id, firstCopy (cs ++ [(rec, u)]) id = firstCopy cs id := by
    intro id
    rw [firstCopy_append]
    split
    · rename_i hid
      obtain ⟨c, hc⟩ := Option.isSome_iff_exists.mp ((h.seen _).mp hseen)
      simp only at hid
      rw [← hid, hc, Option.some_or]
    · exact Option.or_none
  exact ⟨fun x => by rw [hfirst, h.records], fun x => by rw [hfirst, h.held],
    fun id => by rw [hfirst, h.seen]⟩

/-- The first copy of a record is kept, held or not. -/
theorem Lists.add (h : Lists cs l) (hseen : rec.id ∉ l.seen) {l' : Listed}
    (hrecords : ∀ x, x ∈ l'.records ↔ x ∈ l.records ∨ (x = rec ∧ u = ""))
    (hheld : ∀ x, x ∈ l'.held ↔ x ∈ l.held ∨ (u ≠ "" ∧ x = { record := rec, untilRecord := u }))
    (hseen' : l'.seen = l.seen ++ [rec.id]) : Lists (cs ++ [(rec, u)]) l' := by
  have hnone : firstCopy cs rec.id = none := by
    simpa [h.seen] using hseen
  have hfirst : ∀ id, firstCopy (cs ++ [(rec, u)]) id =
      if rec.id = id then some (rec, u) else firstCopy cs id := by
    intro id
    rw [firstCopy_append]
    split
    · rename_i hid
      simp only at hid
      rw [← hid, hnone, Option.none_or]
    · exact Option.or_none
  refine ⟨fun x => ?_, fun x => ?_, fun id => ?_⟩
  · rw [hrecords, h.records, hfirst]
    by_cases hid : rec.id = x.id
    · rw [if_pos hid, ← hid, hnone]
      simp [eq_comm]
    · have hne : x ≠ rec := fun heq => hid (heq ▸ rfl)
      simp [hid, hne]
  · rw [hheld, h.held, hfirst]
    by_cases hid : rec.id = x.record.id
    · obtain ⟨r, v⟩ := x
      simp only at hid
      simp only [← hid, hnone, if_true, Option.some.injEq, Prod.mk.injEq, Held.mk.injEq]
      constructor
      · rintro (⟨-, hfalse⟩ | ⟨hne, rfl, rfl⟩)
        · cases hfalse
        · exact ⟨hne, rfl, rfl⟩
      · rintro ⟨hne, rfl, rfl⟩
        exact .inr ⟨hne, rfl, rfl⟩
    · have hne : x ≠ { record := rec, untilRecord := u } := fun heq => hid (heq ▸ rfl)
      simp [hid, hne]
  · rw [hseen', List.mem_append, List.mem_singleton, h.seen, hfirst]
    by_cases hid : rec.id = id
    · simp [hid]
    · simp [hid, Ne.symm hid]

theorem Lists.step (h : Lists cs l) (m : Manifest) :
    Lists (cs ++ (readOne keys m).copy.toList) (listStep keys l m) := by
  unfold listStep Referrer.copy
  dsimp only
  split
  · rw [Option.toList_none, List.append_nil]
    exact ⟨h.records, h.held, h.seen⟩
  · split
    · rename_i hnone
      rw [hnone, Option.map_none, Option.toList_none, List.append_nil]
      exact h
    · rename_i rec hrec
      rw [hrec, Option.map_some, Option.toList_some]
      split
      · exact h.pass ‹_›
      · rename_i hseen
        split
        · rename_i hheld
          exact h.add hseen (by simp [hheld]) (by simp [hheld]) rfl
        · rename_i hheld
          rw [not_not] at hheld
          exact h.add hseen (by simp [hheld]) (by simp [hheld]) rfl

theorem lists_list (keys : List RecordKey) (ms : List Manifest) :
    Lists (copies keys ms) (list keys ms) := by
  induction ms using List.reverseRecOn with
  | nil => exact ⟨by simp [list, copies, firstCopy], by simp [list, copies, firstCopy],
      by simp [list, copies, firstCopy]⟩
  | append_singleton ms m ih =>
    have hcopies : copies keys (ms ++ [m]) = copies keys ms ++ (readOne keys m).copy.toList := by
      cases hcopy : (readOne keys m).copy <;> simp [copies, hcopy]
    rw [hcopies, list, List.foldl_append]
    exact ih.step m

theorem Lists.mem_known (h : Lists cs l) :
    rec ∈ l.known ↔ ∃ u, firstCopy cs rec.id = some (rec, u) := by
  simp only [Listed.known, List.mem_append, List.mem_map, h.records, h.held]
  constructor
  · rintro (hrec | ⟨x, ⟨-, hx⟩, rfl⟩)
    · exact ⟨"", hrec⟩
    · exact ⟨x.untilRecord, hx⟩
  · rintro ⟨u, hu⟩
    by_cases hempty : u = ""
    · exact .inl (hempty ▸ hu)
    · exact .inr ⟨⟨rec, u⟩, ⟨hempty, hu⟩, rfl⟩

/-- The loop of `history` follows the parents that the copies name. -/
theorem Lists.parentIn_known (h : Lists cs l) : parentIn l.known = parentOf cs := by
  funext a
  unfold parentIn parentOf
  split
  · rfl
  · cases hfound : byID l.known a with
    | none =>
      cases hfirst : firstCopy cs a with
      | none => rfl
      | some c =>
        obtain ⟨-, rfl⟩ := firstCopy_eq_some hfirst
        have hknown : c.1 ∈ l.known := h.mem_known.mpr ⟨c.2, hfirst⟩
        have hnone := List.find?_eq_none.mp hfound c.1 (List.mem_reverse.mpr hknown)
        simp at hnone
    | some rec =>
      have hid : rec.id = a := by simpa using List.find?_some hfound
      obtain ⟨u, hu⟩ := h.mem_known.mp (List.mem_reverse.mp (List.mem_of_find?_eq_some hfound))
      rw [← hid, hu]
      rfl

end Listing

/-! ## The parent walk -/

theorem mem_ids_of_parentIn (recs : List StoredRecord) (a : String)
    (h : (parentIn recs a).isSome) : a ∈ recs.map (·.id) := by
  unfold parentIn at h
  split at h
  · cases h
  · obtain ⟨rec, hfind⟩ := Option.isSome_iff_exists.mp (by simpa using h)
    have hid : rec.id = a := by simpa using List.find?_some hfind
    exact List.mem_map.mpr ⟨rec, List.mem_reverse.mp (List.mem_of_find?_eq_some hfind), hid⟩

/-- The loop of `history` ends from every start, whatever the parents are. -/
theorem history_walk_stopped (recs : List StoredRecord) (marked : List String) (start : String) :
    Stopped (parentIn recs) (walk (parentIn recs) recs.length marked start) :=
  walk_stopped (mem_ids_of_parentIn recs) _ _ _
    ((List.length_filter_le _ _).trans (by simp))

theorem mem_vouched_iff (keys : List RecordKey) (ms : List Manifest) (id : String) :
    id ∈ (list keys ms).vouched ↔ ∃ x ∈ (list keys ms).held,
      Vouches (copies keys ms) x.untilRecord id := by
  unfold Listed.vouched Vouches
  rw [mem_walkAll_iff (mem_ids_of_parentIn _) (by simp), (lists_list keys ms).parentIn_known]
  simp

/-! ## What is accepted -/

variable {stream id : String} {ms ms' : List Manifest}

/-- What is accepted depends on the copies that come first. -/
theorem mem_acceptedIds_iff :
    id ∈ acceptedIds keys stream ms ↔ ∃ c, firstCopy (copies keys ms) id = some c ∧
      c.1.predicate.chain.stream = stream ∧
        (c.2 = "" ∨ ∃ id' c', firstCopy (copies keys ms) id' = some c' ∧ c'.2 ≠ "" ∧
          Vouches (copies keys ms) c'.2 id) := by
  have hlists := lists_list keys ms
  have hvouched : ∀ id, id ∈ (list keys ms).vouched ↔ ∃ id' c',
      firstCopy (copies keys ms) id' = some c' ∧ c'.2 ≠ "" ∧
        Vouches (copies keys ms) c'.2 id := by
    intro id
    rw [mem_vouched_iff]
    constructor
    · rintro ⟨x, hx, hvouches⟩
      obtain ⟨hne, hfirst⟩ := (hlists.held x).mp hx
      exact ⟨x.record.id, _, hfirst, hne, hvouches⟩
    · rintro ⟨id', ⟨rec, u⟩, hfirst, hne, hvouches⟩
      obtain ⟨-, rfl⟩ := firstCopy_eq_some hfirst
      exact ⟨⟨rec, u⟩, (hlists.held _).mpr ⟨hne, hfirst⟩, hvouches⟩
  simp only [acceptedIds, listStream, Listed.history, List.mem_map, List.mem_filter,
    List.mem_append, decide_eq_true_eq, hlists.records, hlists.held, hvouched]
  constructor
  · rintro ⟨rec, ⟨hfirst | ⟨x, ⟨⟨hne, hfirst⟩, hvouch⟩, rfl⟩, hstream⟩, rfl⟩
    · exact ⟨_, hfirst, hstream, .inl rfl⟩
    · exact ⟨_, hfirst, hstream, .inr hvouch⟩
  · rintro ⟨⟨rec, u⟩, hfirst, hstream, hcounts⟩
    obtain ⟨-, rfl⟩ := firstCopy_eq_some hfirst
    by_cases hempty : u = ""
    · exact ⟨rec, ⟨.inl (hempty ▸ hfirst), hstream⟩, rfl⟩
    · have hvouch := hcounts.resolve_left hempty
      exact ⟨rec, ⟨.inr ⟨⟨rec, u⟩, ⟨⟨hempty, hfirst⟩, hvouch⟩, rfl⟩, hstream⟩, rfl⟩

/-- What is accepted has a copy and can count. -/
theorem canCount_of_accepted (h : id ∈ acceptedIds keys stream ms) :
    (∃ c ∈ copies keys ms, c.1.id = id ∧ c.1.predicate.chain.stream = stream) ∧
      CanCount (copies keys ms) id := by
  obtain ⟨c, hfirst, hstream, hcounts⟩ := mem_acceptedIds_iff.mp h
  obtain ⟨hc, hid⟩ := firstCopy_eq_some hfirst
  refine ⟨⟨c, hc, hid, hstream⟩, ?_⟩
  rcases hcounts with hempty | ⟨id', c', hfirst', hne, hvouches⟩
  · exact ⟨c, hc, .inl ⟨hid, hempty⟩⟩
  · exact ⟨c', (firstCopy_eq_some hfirst').1, .inr ⟨hne, hvouches⟩⟩

/-- Where the copies are settled, what can count is accepted. -/
theorem accepted_of_settled (hids : CollisionFree ms) (hsettled : Settled keys stream ms)
    (hcopy : ∃ c ∈ copies keys ms, c.1.id = id ∧ c.1.predicate.chain.stream = stream)
    (hcount : CanCount (copies keys ms) id) : id ∈ acceptedIds keys stream ms := by
  obtain ⟨c₀, hc₀, rfl, hstream₀⟩ := hcopy
  obtain ⟨c, hfirst⟩ := exists_firstCopy hc₀
  obtain ⟨hc, hid⟩ := firstCopy_eq_some hfirst
  have hstream : c.1.predicate.chain.stream = stream := by
    rw [hids.copies hc hc₀ hid, hstream₀]
  refine mem_acceptedIds_iff.mpr ⟨c, hfirst, hstream, ?_⟩
  by_cases hempty : c.2 = ""
  · exact .inl hempty
  · rw [← hid] at hcount hfirst ⊢
    refine .inr ?_
    rcases hsettled c hc hempty hstream hcount with hself | ⟨c', hc', hall⟩
    · exact ⟨c.1.id, c, hfirst, hempty, hself c hc rfl hempty⟩
    · obtain ⟨c'', hfirst''⟩ := exists_firstCopy hc'
      obtain ⟨hc'', hid''⟩ := firstCopy_eq_some hfirst''
      obtain ⟨hne, hvouches⟩ := hall c'' hc'' hid''
      exact ⟨c'.1.id, c'', hfirst'', hne, hvouches⟩

theorem Settled.perm (h : Settled keys stream ms) (hperm : ms'.Perm ms) (hids : CollisionFree ms)
    (hids' : CollisionFree ms') : Settled keys stream ms' := by
  have hto : copies keys ms' ⊆ copies keys ms := copies_subset hperm.subset
  have hfrom : copies keys ms ⊆ copies keys ms' := copies_subset hperm.symm.subset
  intro c hc hne hstream hcount
  rcases h c (hto hc) hne hstream (hcount.mono hperm.subset hids) with hself | ⟨c', hc', hall⟩
  · exact .inl fun c' hc' hid hne' =>
      (hself c' (hto hc') hid hne').mono hperm.symm.subset hids'
  · refine .inr ⟨c', hfrom hc', fun c'' hc'' hid => ?_⟩
    obtain ⟨hne', hvouches⟩ := hall c'' (hto hc'') hid
    exact ⟨hne', hvouches.mono hperm.symm.subset hids'⟩

/-! ## Orders of the manifests -/

theorem CollisionFree.perm (h : CollisionFree ms) (hperm : ms'.Perm ms) : CollisionFree ms' :=
  fun b hb b' hb' => h b (bundles_subset hperm.subset hb) b' (bundles_subset hperm.subset hb')

/-- Any copy can come first. -/
theorem exists_perm_first {c : StoredRecord × String} (hc : c ∈ copies keys ms) :
    ∃ ms', ms'.Perm ms ∧ firstCopy (copies keys ms') c.1.id = some c := by
  obtain ⟨m, hm, hcopy⟩ := List.mem_filterMap.mp hc
  refine ⟨m :: ms.erase m, (List.perm_cons_erase hm).symm, ?_⟩
  simp [copies, firstCopy, hcopy]

/-- In some order a record that can count is accepted. -/
theorem exists_perm_accepted (hids : CollisionFree ms) {c : StoredRecord × String}
    (hc : c ∈ copies keys ms) (hstream : c.1.predicate.chain.stream = stream)
    (hcount : CanCount (copies keys ms) c.1.id) :
    ∃ ms', ms'.Perm ms ∧ c.1.id ∈ acceptedIds keys stream ms' := by
  obtain ⟨c₁, hc₁, hcase⟩ := hcount
  obtain ⟨ms', hperm, hfirst₁⟩ := exists_perm_first hc₁
  refine ⟨ms', hperm, mem_acceptedIds_iff.mpr ?_⟩
  have hids' := hids.perm hperm
  obtain ⟨c₂, hfirst₂⟩ := exists_firstCopy (copies_subset hperm.symm.subset hc)
  obtain ⟨hc₂, hid₂⟩ := firstCopy_eq_some hfirst₂
  have hstream₂ : c₂.1.predicate.chain.stream = stream := by
    rw [hids'.copies hc₂ (copies_subset hperm.symm.subset hc) hid₂, hstream]
  refine ⟨c₂, hfirst₂, hstream₂, ?_⟩
  rcases hcase with ⟨hid, hempty⟩ | ⟨hne, hvouches⟩
  · rw [hid, hfirst₂, Option.some.injEq] at hfirst₁
    exact .inl (hfirst₁ ▸ hempty)
  · exact .inr ⟨c₁.1.id, c₁, hfirst₁, hne, hvouches.mono hperm.symm.subset hids'⟩

/-- What comes first of a record is among the manifests that come first, if these
have a copy of it. -/
theorem firstCopy_of_append {A B : List Manifest} {c c' : StoredRecord × String}
    (hc : c ∈ copies keys A) (h : firstCopy (copies keys (A ++ B)) c.1.id = some c') :
    c' ∈ copies keys A := by
  obtain ⟨c'', hfirst⟩ := exists_firstCopy hc
  have hc'' := (firstCopy_eq_some hfirst).1
  unfold firstCopy copies at h hfirst
  rw [List.filterMap_append, List.find?_append, hfirst, Option.some_or, Option.some.injEq] at h
  exact h ▸ hc''

/-- In some order a held record that is not surely vouched for is left out: the
copies that do not vouch for it come first. -/
theorem exists_perm_not_accepted (stream : String) (hids : CollisionFree ms)
    (hunsure : ¬SurelyVouched (copies keys ms) id) :
    ∃ ms', ms'.Perm ms ∧ id ∉ acceptedIds keys stream ms' := by
  classical
  obtain ⟨hself, hother⟩ := not_or.mp hunsure
  push Not at hself hother
  obtain ⟨c₁, hc₁, rfl, hne₁, hnot₁⟩ := hself
  obtain ⟨m₁, hm₁, hcopy₁⟩ := List.mem_filterMap.mp hc₁
  let Vouching (m : Manifest) : Prop := ∃ c, (readOne keys m).copy = some c ∧ c.2 ≠ "" ∧
    Vouches (copies keys ms) c.2 c₁.1.id
  let A := m₁ :: (ms.erase m₁).filter (¬Vouching ·)
  let B := (ms.erase m₁).filter (Vouching ·)
  have hperm : (A ++ B).Perm ms := by
    refine .trans (.cons m₁ ?_) (List.perm_cons_erase hm₁).symm
    simpa [B] using List.filter_append_perm (fun m => decide (¬Vouching m)) (ms.erase m₁)
  have hA : ∀ c ∈ copies keys A, c.2 ≠ "" → ¬Vouches (copies keys ms) c.2 c₁.1.id := by
    intro c hc hne hvouches
    obtain ⟨m, hm, hcopy⟩ := List.mem_filterMap.mp hc
    rcases List.mem_cons.mp hm with rfl | hm
    · rw [hcopy₁, Option.some.injEq] at hcopy
      exact hnot₁ (hcopy ▸ hvouches)
    · have hnot := of_decide_eq_true (List.mem_filter.mp hm).2
      exact hnot ⟨c, hcopy, hne, hvouches⟩
  have hfirstA : c₁ ∈ copies keys A := List.mem_filterMap.mpr ⟨m₁, List.mem_cons_self, hcopy₁⟩
  -- whatever comes first of any record does not vouch for this one
  have hfirst : ∀ id' c, firstCopy (copies keys (A ++ B)) id' = some c → c.2 ≠ "" →
      ¬Vouches (copies keys ms) c.2 c₁.1.id := by
    intro id' c hc hne hvouches
    obtain ⟨hmem, rfl⟩ := firstCopy_eq_some hc
    obtain ⟨c', hc', hid, hunvouched⟩ := hother c (copies_subset hperm.subset hmem)
    have hc'A : c' ∈ copies keys A := by
      obtain ⟨m', hm', hcopy'⟩ := List.mem_filterMap.mp hc'
      refine List.mem_filterMap.mpr ⟨m', ?_, hcopy'⟩
      by_cases heq : m' = m₁
      · exact heq ▸ List.mem_cons_self
      · refine List.mem_cons_of_mem _ (List.mem_filter.mpr ⟨?_, decide_eq_true ?_⟩)
        · exact (List.mem_erase_of_ne heq).mpr hm'
        · rintro ⟨c'', hcopy'', hne'', hvouches''⟩
          rw [hcopy', Option.some.injEq] at hcopy''
          subst hcopy''
          exact hunvouched hne'' hvouches''
    exact hA c (firstCopy_of_append hc'A (hid ▸ hc)) hne hvouches
  refine ⟨A ++ B, hperm, fun haccepted => ?_⟩
  obtain ⟨c, hc, -, hcounts⟩ := mem_acceptedIds_iff.mp haccepted
  rcases hcounts with hempty | ⟨id', c', hc', hne, hvouches⟩
  · have hc₁ : firstCopy (copies keys (A ++ B)) c₁.1.id = some c₁ := by
      simp [firstCopy, copies, A, hcopy₁]
    rw [hc₁, Option.some.injEq] at hc
    exact hne₁ (hc ▸ hempty)
  · exact hfirst id' c' hc' hne (hvouches.mono hperm.subset hids)

/-- `p` is the parent that a manifest's record with id `id` names. -/
def Parent (ms : List Manifest) (id p : String) : Prop :=
  ∃ b ∈ bundles ms, b.id = id ∧ b.chain.parent = p

/-- What a held copy vouches for is on the parent chain of the last record of a
revoked key. -/
theorem ancestor_of_vouches {c : StoredRecord × String} (hc : c ∈ copies keys ms) (hne : c.2 ≠ "")
    (h : Vouches (copies keys ms) c.2 id) :
    ∃ k ∈ keys, k.Revoked ∧ Relation.ReflTransGen (Parent ms) k.untilRecord id := by
  obtain ⟨m, hm, hreads⟩ := exists_of_mem_copies hc
  obtain ⟨b, -, -, hsigned⟩ := hreads.signed
  obtain ⟨k, hk, hheld, huntil⟩ := (hsigned.resolve_left fun h => hne h.1).2
  refine ⟨k, hk, hheld.2.2.1, huntil ▸ Relation.ReflTransGen.mono (fun a p hp => ?_) _ _ h.1⟩
  obtain ⟨-, c', hc', rfl, rfl⟩ := parentOf_eq_some hp
  obtain ⟨m', hm', hreads'⟩ := exists_of_mem_copies hc'
  obtain ⟨b', hb', hrec, -⟩ := hreads'.signed
  rw [hrec]
  exact ⟨b', mem_bundles_of_signed hm' hb', rfl, rfl⟩

/-- What the holder of revoked keys can add to what is accepted: records on the
parent chain of the last record of a revoked key. -/
theorem ancestor_of_accepted {R X : List Manifest} (hX : OnlyRevoked keys X)
    (hms : ∀ m, m ∈ ms ↔ m ∈ R ∨ m ∈ X) (hids : CollisionFree ms)
    (hsettled : Settled keys stream ms) (h : id ∈ acceptedIds keys stream ms)
    (hnew : id ∉ acceptedIds keys stream R) :
    ∃ k ∈ keys, k.Revoked ∧ Relation.ReflTransGen (Parent ms) k.untilRecord id := by
  have hsub : R ⊆ ms := fun m hm => (hms m).mpr (.inl hm)
  obtain ⟨⟨c₀, hc₀, hid₀, hstream₀⟩, hcount⟩ := canCount_of_accepted h
  have hcount' := hcount
  obtain ⟨c, hc, ⟨hid, hempty⟩ | ⟨hne, hvouches⟩⟩ := hcount'
  · -- the trusted copy is in `R`, so a held copy comes before it there
    have hcR : c ∈ copies keys R := by
      obtain ⟨m, hm, hcopy⟩ := List.mem_filterMap.mp hc
      refine List.mem_filterMap.mpr ⟨m, ((hms m).mp hm).resolve_right fun hmX => ?_, hcopy⟩
      obtain ⟨m', hm', hreads⟩ := exists_of_mem_copies
        (List.mem_filterMap.mpr ⟨m, hmX, hcopy⟩ : c ∈ copies keys X)
      obtain ⟨b, hb, -, hsigned⟩ := hreads.signed
      obtain ⟨k, hk, hsigns, hrevoked⟩ := (hsigned.resolve_right fun h => h.1 hempty).2
      exact hrevoked (hX b (mem_bundles_of_signed hm' hb) k hk hsigns.2)
    obtain ⟨c', hfirst⟩ := exists_firstCopy hcR
    obtain ⟨hc', hid'⟩ := firstCopy_eq_some hfirst
    have hc'ms := copies_subset hsub hc'
    have hid'' : c'.1.id = c₀.1.id := hid'.trans (hid.trans hid₀.symm)
    have hstream : c'.1.predicate.chain.stream = stream := by
      rw [hids.copies hc'ms hc₀ hid'', hstream₀]
    have hheld : c'.2 ≠ "" := fun hempty' =>
      hnew (mem_acceptedIds_iff.mpr ⟨c', hid ▸ hfirst, hstream, .inl hempty'⟩)
    rw [← hid₀, ← hid''] at hcount ⊢
    rcases hsettled c' hc'ms hheld hstream hcount with hself | ⟨c'', hc'', hall⟩
    · exact ancestor_of_vouches hc'ms hheld (hself c' hc'ms rfl hheld)
    · obtain ⟨hne, hvouches⟩ := hall c'' hc'' rfl
      exact ancestor_of_vouches hc'' hne hvouches
  · exact ancestor_of_vouches hc hne hvouches

/-- Whoever holds only revoked keys removes nothing from what is accepted and
adds no more than the history of a revoked key, in whatever order the manifests
are listed, exactly if their copies are settled.  The walk for the history ends
in any case. -/
theorem revoked_keys_keep_history (stream : String) (R X : List Manifest)
    (hX : OnlyRevoked keys X) (hids : CollisionFree (R ++ X)) :
    ((∀ ms, ms.Perm (R ++ X) →
      acceptedIds keys stream R ⊆ acceptedIds keys stream ms ∧
      (∀ id ∈ acceptedIds keys stream ms, id ∉ acceptedIds keys stream R →
        ∃ k ∈ keys, k.Revoked ∧ Relation.ReflTransGen (Parent ms) k.untilRecord id) ∧
      ∀ ms', ms'.Perm (R ++ X) →
        ∀ id, id ∈ acceptedIds keys stream ms' ↔ id ∈ acceptedIds keys stream ms) ↔
      Settled keys stream (R ++ X)) ∧
    ∀ recs marked start,
      Stopped (parentIn recs) (walk (parentIn recs) recs.length marked start) := by
  refine ⟨⟨fun h c hc hne hstream hcount => ?_, fun hsettled ms hperm => ?_⟩, history_walk_stopped⟩
  · by_contra hunsure
    obtain ⟨ms, hperm, hin⟩ := exists_perm_accepted hids hc hstream hcount
    obtain ⟨ms', hperm', hout⟩ := exists_perm_not_accepted stream hids hunsure
    exact hout (((h ms hperm).2.2 ms' hperm' _).mpr hin)
  · have hids' := hids.perm hperm
    have hsettled' := hsettled.perm hperm hids hids'
    refine ⟨fun id hid => ?_, fun id hid hnew => ?_, fun ms' hperm' id => ?_⟩
    · have hsub : R ⊆ ms := List.Subset.trans (List.subset_append_left _ _) hperm.symm.subset
      obtain ⟨⟨c, hc, hcid⟩, hcount⟩ := canCount_of_accepted hid
      exact accepted_of_settled hids' hsettled' ⟨c, copies_subset hsub hc, hcid⟩
        (hcount.mono hsub hids')
    · refine ancestor_of_accepted hX (fun m => ?_) hids' hsettled' hid hnew
      rw [hperm.mem_iff, List.mem_append]
    · have hids'' := hids.perm hperm'
      have hto := (hperm'.trans hperm.symm).subset
      have hfrom := (hperm.trans hperm'.symm).subset
      constructor
      · intro hid
        obtain ⟨⟨c, hc, hcid⟩, hcount⟩ := canCount_of_accepted hid
        exact accepted_of_settled hids' hsettled' ⟨c, copies_subset hto hc, hcid⟩
          (hcount.mono hto hids')
      · intro hid
        obtain ⟨⟨c, hc, hcid⟩, hcount⟩ := canCount_of_accepted hid
        exact accepted_of_settled hids'' (hsettled.perm hperm' hids hids'')
          ⟨c, copies_subset hfrom hc, hcid⟩ (hcount.mono hfrom hids'')

/-! ## A copy that hides a record -/

/-- A record of the stream `s`, signed by the key named `signer`. -/
def signedRecord (id signer : String) (seq : Int) (parent : String) : SignedBundle where
  statement :=
    { predicate :=
        { kind := .operation, chain := { stream := "s", seq := seq, parent := parent } } }
  id := id
  signature := signer

/-- A key by the name it signs with, revoked after `untilRecord`. -/
def keyNamed (name : String) (untilSeq : Int := 0) (untilRecord : String := "")
    (h : 0 < untilSeq ↔ untilRecord ≠ "" := by decide) : RecordKey where
  untilSeq := untilSeq
  untilRecord := untilRecord
  verify := fun b => if b.signature = name then none else some "no signature by this key"
  together := h

/-- The key that was revoked after record `r2` and the key that replaced it. -/
def rotatedKeys : List RecordKey := [keyNamed "old" 2 "r2", keyNamed "new"]

/-- A stream across the rotation; its first record was signed again since. -/
def rotatedStream : List Manifest :=
  [⟨"m1", .signed (signedRecord "r1" "new" 1 "")⟩, ⟨"m2", .signed (signedRecord "r2" "old" 2 "r1")⟩,
    ⟨"m3", .signed (signedRecord "r3" "new" 3 "r2")⟩]

/-- A fork of `r2` and a copy of `r1`, which the old key signs after it leaked. -/
def forgedManifests : List Manifest :=
  [⟨"m4", .signed (signedRecord "x" "old" 2 "r1")⟩, ⟨"m5", .signed (signedRecord "r1" "old" 1 "")⟩]

theorem revoked_keys_keep_history_rotatedStream :
    acceptedIds rotatedKeys "s" rotatedStream = ["r1", "r3", "r2"] ∧
      acceptedIds rotatedKeys "s" rotatedStream ⊆
        acceptedIds rotatedKeys "s" (forgedManifests ++ rotatedStream) :=
  ⟨by decide,
    ((revoked_keys_keep_history "s" rotatedStream forgedManifests (by decide) (by decide)).1.mpr
      (by decide +kernel) _ List.perm_append_comm).1⟩

def resignedStream : List Manifest := [⟨"m1", .signed (signedRecord "r1" "new" 1 "")⟩]

def copiedManifests : List Manifest := [⟨"m2", .signed (signedRecord "r1" "old" 1 "")⟩]

/-- A copy by the revoked key, listed first, takes the record the trusted key
signed out of what is accepted; listed last it does not. -/
theorem revoked_copy_hides_record :
    OnlyRevoked rotatedKeys copiedManifests ∧ CollisionFree (resignedStream ++ copiedManifests) ∧
      acceptedIds rotatedKeys "s" resignedStream = ["r1"] ∧
      acceptedIds rotatedKeys "s" (copiedManifests ++ resignedStream) = [] ∧
      acceptedIds rotatedKeys "s" (resignedStream ++ copiedManifests) = ["r1"] := by
  decide

end Pacto.Delivery
