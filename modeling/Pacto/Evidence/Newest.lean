import Mathlib.Data.List.Pairwise
import Pacto.Evidence.Compliance
import Pacto.Evidence.Ingest

/-!
# The newest evidence of a target

The commits of a producer carry growing sequences, whatever calls run at the same
time.  The list of latest records goes by the time of acceptance, which a call
takes before it reaches the commit.  Where the calls of a target commit in the order
of their stamps, the two orders agree and the listed record is the one of the
highest sequence.
-/

namespace Pacto.Evidence

/-! ## What a commit adds -/

theorem checkReplay_eq_ok_iff {r : Record} {history : List Record} :
    checkReplay r history = .ok () ↔ ∀ h ∈ history, h.envelope.id ≠ r.envelope.id ∧
      (h.envelope.producer.id = r.envelope.producer.id →
        h.envelope.sequence < r.envelope.sequence) := by
  have hmax : (∀ h ∈ history, h.envelope.producer.id = r.envelope.producer.id →
      h.envelope.sequence < r.envelope.sequence) ↔
      ∀ m, maxSequence r.envelope.producer.id history = some m → m < r.envelope.sequence := by
    constructor
    · intro hall m hm
      obtain ⟨hmem, -⟩ := List.max?_eq_some_iff.mp hm
      obtain ⟨h, hh, rfl⟩ := List.mem_map.mp hmem
      obtain ⟨hh, hproducer⟩ := List.mem_filter.mp hh
      exact hall h hh (by simpa using hproducer)
    · intro hall h hh hproducer
      have hmem : h.envelope.sequence ∈ ((history.filter fun h =>
          h.envelope.producer.id = r.envelope.producer.id).map (·.envelope.sequence)) :=
        List.mem_map_of_mem (List.mem_filter.mpr ⟨hh, by simpa using hproducer⟩)
      cases hm : maxSequence r.envelope.producer.id history with
      | none => simp [List.max?_eq_none_iff.mp hm] at hmem
      | some m =>
        obtain ⟨-, hle⟩ := List.max?_eq_some_iff.mp hm
        exact lt_of_le_of_lt (hle _ hmem) (hall m hm)
  rw [show (∀ h ∈ history, h.envelope.id ≠ r.envelope.id ∧ (h.envelope.producer.id =
      r.envelope.producer.id → h.envelope.sequence < r.envelope.sequence)) ↔
      (∀ h ∈ history, h.envelope.id ≠ r.envelope.id) ∧ _ from forall₂_and, hmax]
  unfold checkReplay
  by_cases hid : history.any fun h => h.envelope.id = r.envelope.id
  · simp only [hid, if_true, reduceCtorEq, false_iff, not_and]
    intro hall
    obtain ⟨h, hh, heq⟩ := List.any_eq_true.mp hid
    exact absurd (by simpa using heq) (hall h hh)
  · have hfresh : ∀ h ∈ history, h.envelope.id ≠ r.envelope.id := by simpa using hid
    rw [if_neg hid]
    cases maxSequence r.envelope.producer.id history with
    | none => simpa using hfresh
    | some m => simpa [not_le] using fun _ => hfresh

variable {H : Host}

/-- A commit leaves the registry or adds a record that is no replay. -/
theorem commit_registry (registry : List Record) (w : Weather) (r : Record) :
    (H.commit registry w r).2 = registry ∨
      ((H.commit registry w r).2 = registry ++ [r] ∧ checkReplay r registry = .ok ()) := by
  unfold Host.commit
  split_ifs
  · exact .inl rfl
  · exact .inl rfl
  · exact .inl rfl
  · cases hreplay : checkReplay r registry with
    | error e => exact .inl rfl
    | ok u =>
      cases w.publication with
      | confirmed => exact .inr ⟨rfl, rfl⟩
      | unconfirmed why => exact .inr ⟨rfl, rfl⟩
      | failed why => exact .inl rfl

theorem step_registry (s : Server) (e : Event) :
    (s.step H e).registry = s.registry ∨
      ∃ i w r, e = .commit i w ∧ s.stamped[i]? = some r ∧
        (s.step H e).registry = s.registry ++ [r] ∧ checkReplay r s.registry = .ok () := by
  cases e with
  | tick seconds => exact .inl rfl
  | call data answer =>
    refine .inl ?_
    simp only [Server.step]
    split <;> rfl
  | stamp i =>
    refine .inl ?_
    simp only [Server.step]
    split
    · rfl
    · split <;> rfl
  | commit i w =>
    simp only [Server.step]
    cases hr : s.stamped[i]? with
    | none => exact .inl rfl
    | some r =>
      rcases commit_registry (H := H) s.registry w r with h | ⟨h, hreplay⟩
      · exact .inl h
      · exact .inr ⟨i, w, r, rfl, hr, h, hreplay⟩

/-! ## Commits in the order of the stamps -/

/-- A commit comes after the stamps of the records its target has. -/
def Server.OnTime (s : Server) : Event → Prop
  | .commit i _ => ∀ r ∈ s.stamped[i]?, ∀ r' ∈ s.registry,
      r'.targetKey = r.targetKey → r'.acceptedAt ≤ r.acceptedAt
  | _ => True

instance (s : Server) : DecidablePred s.OnTime
  | .commit i _ => inferInstanceAs (Decidable (∀ r ∈ s.stamped[i]?, ∀ r' ∈ s.registry,
      r'.targetKey = r.targetKey → r'.acceptedAt ≤ r.acceptedAt))
  | .tick _ => .isTrue trivial
  | .call _ _ => .isTrue trivial
  | .stamp _ => .isTrue trivial

/-- Every commit of a run is on time. -/
def InOrder (H : Host) (s : Server) : List Event → Prop
  | [] => True
  | e :: events => s.OnTime e ∧ InOrder H (s.step H e) events

instance decidableInOrder (H : Host) : (s : Server) → (events : List Event) →
    Decidable (InOrder H s events)
  | _, [] => .isTrue trivial
  | s, e :: events =>
    have := decidableInOrder H (s.step H e) events
    inferInstanceAs (Decidable (s.OnTime e ∧ InOrder H (s.step H e) events))

/-- The second record was committed after the first one: its sequence is higher if
they share a producer, and it was not stamped before if they share a target. -/
structure Follows (a b : Record) : Prop where
  sequence : a.envelope.producer.id = b.envelope.producer.id →
    a.envelope.sequence < b.envelope.sequence
  acceptedAt : a.targetKey = b.targetKey → a.acceptedAt ≤ b.acceptedAt

theorem step_follows {s : Server} {e : Event} (hs : s.registry.Pairwise Follows)
    (he : s.OnTime e) : (s.step H e).registry.Pairwise Follows := by
  rcases step_registry (H := H) s e with h | ⟨i, w, r, rfl, hr, h, hreplay⟩
  · rwa [h]
  · rw [h, List.pairwise_append]
    refine ⟨hs, List.pairwise_singleton _ _, ?_⟩
    intro a ha b hb
    rw [List.mem_singleton.mp hb]
    exact ⟨(checkReplay_eq_ok_iff.mp hreplay a ha).2, he r hr a ha⟩

theorem run_follows {s : Server} {events : List Event} (hs : s.registry.Pairwise Follows)
    (hevents : InOrder H s events) : (s.run H events).registry.Pairwise Follows := by
  induction events generalizing s with
  | nil => exact hs
  | cons e events ih => exact ih (step_follows hs hevents.1) hevents.2

/-! ## The list -/

theorem producer_eq_of_targetKey {a b : Record} (h : a.targetKey = b.targetKey) :
    a.envelope.producer.id = b.envelope.producer.id :=
  (Fleet.newTargetKey_inj h).1

/-- Of one target, what was committed later supersedes. -/
theorem Follows.supersedes {a b : Record} (h : Follows a b) (ht : a.targetKey = b.targetKey) :
    supersedes b a := by
  have hle := h.acceptedAt ht
  have hlt := h.sequence (producer_eq_of_targetKey ht)
  unfold Evidence.supersedes
  split_ifs with hne
  · exact lt_of_le_of_ne hle (Ne.symm hne)
  · exact hlt

instance : Std.Irrefl supersedes := ⟨fun a => by simp [supersedes]⟩

instance : IsTrans Record supersedes := ⟨fun a b c hab hbc => by
  unfold supersedes at *
  split_ifs at * <;> omega⟩

theorem mem_latestPerTarget {history : List Record} {r : Record} :
    r ∈ latestPerTarget history ↔
      (Support.newestPerKey Record.targetKey supersedes history).lookup r.targetKey = some r := by
  have hproj := Support.projects_newestPerKey Record.targetKey supersedes history
  simp only [latestPerTarget, List.mem_filterMap, List.mem_insertionSort]
  constructor
  · rintro ⟨k, -, hk⟩
    rwa [(hproj.unbeaten hk).key_eq]
  · intro h
    have hmem : r.targetKey ∈ Support.newestPerKey Record.targetKey supersedes history :=
      AList.lookup_isSome.mp (by simp [h])
    exact ⟨r.targetKey, AList.mem_keys.mp hmem, h⟩

/-- If every commit of a target comes after the stamps of the records the target has,
the list shows for each target the record of the highest sequence.  The history is
the records of the subjects that answered, in any order. -/
theorem list_highest_sequence (s : Server) (hs : s.registry = []) (events : List Event)
    (horder : InOrder H s events) (answered : String → Bool) (history : List Record)
    (hhistory : history.Perm ((s.run H events).registry.filter fun r =>
      answered r.envelope.evidenceSet.contractRef)) (r : Record) :
    r ∈ latestPerTarget history ↔ r ∈ history ∧ ∀ r' ∈ history,
      r'.targetKey = r.targetKey → r'.envelope.sequence ≤ r.envelope.sequence := by
  have hfollows : (s.run H events).registry.Pairwise Follows :=
    run_follows (by simp [hs]) horder
  -- two different records of the history were committed one after the other
  have hpair : ∀ a ∈ history, ∀ b ∈ history, a ≠ b → Follows a b ∨ Follows b a := by
    intro a ha b hb hne
    have ha' := List.mem_of_mem_filter (hhistory.mem_iff.mp ha)
    have hb' := List.mem_of_mem_filter (hhistory.mem_iff.mp hb)
    have : Std.Symm fun a b => Follows a b ∨ Follows b a := ⟨fun _ _ => Or.symm⟩
    exact (hfollows.imp (S := fun a b => Follows a b ∨ Follows b a) .inl).forall ha' hb' hne
  rw [mem_latestPerTarget]
  constructor
  · intro hlookup
    obtain ⟨hmem, -, hnot⟩ :=
      (Support.projects_newestPerKey Record.targetKey supersedes history).unbeaten hlookup
    refine ⟨hmem, ?_⟩
    intro r' hr' ht
    by_cases hne : r' = r
    · rw [hne]
    rcases hpair r' hr' r hmem hne with h | h
    · exact (h.sequence (producer_eq_of_targetKey ht)).le
    · exact absurd (h.supersedes ht.symm) (hnot r' hr' ht)
  · rintro ⟨hmem, hmax⟩
    refine Support.lookup_newestPerKey_of_newer hmem ?_
    intro r' hr' ht hne
    rcases hpair r' hr' r hmem hne with h | h
    · exact h.supersedes ht
    · exact absurd (h.sequence (producer_eq_of_targetKey ht.symm)) (not_lt.mpr (hmax r' hr' ht))

/-! ### Two calls of one producer -/

/-- A revision of the contract, by its digest. -/
def ordersRevision : String :=
  "oci://registry/orders@sha256:" ++ String.ofList (List.replicate 64 'a')

def edgeEnvelope (id : String) (sequence : ℕ) : Envelope where
  apiVersion := apiVersionV1
  kind := kindEnvelope
  id := id
  producer := { id := "edge", keyID := "edge-key" }
  sequence := sequence
  evidenceSet := { reported [interfaceUp] with contractRef := ordersRevision }
  signature := some { algorithm := algorithmEd25519, value := "signed" }

def edgeHost : Host where
  codecs := wordCodecs
  unmarshal := fun data =>
    if data = "first" then .ok (edgeEnvelope "first" 1)
    else if data = "second" then .ok (edgeEnvelope "second" 2)
    else .error .trailingData
  trust := fun key => if key = "edge-key" then some { publicKey := "edge" } else none
  signed := fun _ _ => true
  pathMatch := fun _ _ => false
  configured := fun ref => ref = ordersRevision

/-- Both calls pass their checks before either is stamped. -/
def bothCalls : List Event :=
  [.call "first" (.ok { contract := cachedContract }),
    .call "second" (.ok { contract := cachedContract })]

def orderly : List Event := bothCalls ++ [.stamp 0, .tick 1, .stamp 0, .commit 0 {}, .commit 0 {}]

/-- The second call is stamped first, and the first call is committed first. -/
def overtaken : List Event := bothCalls ++ [.stamp 1, .tick 1, .stamp 0, .commit 1 {}, .commit 0 {}]

theorem list_highest_sequence_orderly :
    InOrder edgeHost { clock := 10 } orderly ∧
      ((Server.run edgeHost { clock := 10 } orderly).registry.map (·.envelope.sequence) = [1, 2]) ∧
      ∀ r, r ∈ latestPerTarget (Server.run edgeHost { clock := 10 } orderly).registry ↔
        r ∈ (Server.run edgeHost { clock := 10 } orderly).registry ∧
          ∀ r' ∈ (Server.run edgeHost { clock := 10 } orderly).registry,
            r'.targetKey = r.targetKey → r'.envelope.sequence ≤ r.envelope.sequence := by
  obtain ⟨horder, hsequences⟩ : InOrder edgeHost { clock := 10 } orderly ∧
      (Server.run edgeHost { clock := 10 } orderly).registry.map (·.envelope.sequence) = [1, 2] := by
    decide +kernel
  exact ⟨horder, hsequences, list_highest_sequence { clock := 10 } rfl orderly horder
    (fun _ => true) _ (by simp)⟩

/-- Two calls of one producer for one target are accepted, the sequences are committed
in their order, and the list shows the lower one. -/
theorem overtaken_lists_older :
    let s := Server.run edgeHost { clock := 10 } overtaken
    (s.returned.map fun answer => answer.isOk) = [true, true] ∧
      s.registry.map (·.envelope.sequence) = [1, 2] ∧
      (∀ r ∈ s.registry, r.targetKey = "edge/external/shop%2Forders") ∧
      (latestPerTarget s.registry).map (·.envelope.sequence) = [1] := by
  decide +kernel

end Pacto.Evidence
