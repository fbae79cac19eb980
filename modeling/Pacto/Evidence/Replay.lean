import Pacto.Evidence.Newest

/-!
# Evidence is not replayed

Commits run one at a time, and each reads the whole registry before it publishes, in
whatever order the registry lists it.  A push or the read that confirms it may fail, so
a commit that reports a failure may have published its record.  The ids of what is
published differ and the sequences of a producer grow, which also makes the latest
record of a target the same for every listing.
-/

namespace Pacto.Evidence

variable {H : Host}

/-- How a registry lists its records: every one of them, in an order of its own. -/
structure Listing where
  order : List Record → List Record
  complete : ∀ records, (order records).Perm records

/-- One call of `Commit`, and what the registry does meanwhile. -/
structure CommitCall where
  record : Record
  weather : Weather
  listing : Listing

/-- What a commit that reads the given list adds to the registry, whatever it reports. -/
def Host.publishes (H : Host) (listed : List Record) (w : Weather) (r : Record) : List Record :=
  (H.commit listed w r).2.drop listed.length

/-- The registry after serial commits, in the order of publication. -/
def Host.commitAll (H : Host) (calls : List CommitCall) : List Record :=
  calls.foldl (fun registry c =>
    registry ++ H.publishes (c.listing.order registry) c.weather c.record) []

/-! ## Publication -/

/-- The second record is no replay of the first. -/
def NoReplay (a b : Record) : Prop :=
  a.envelope.id ≠ b.envelope.id ∧
    (a.envelope.producer.id = b.envelope.producer.id → a.envelope.sequence < b.envelope.sequence)

theorem publishes_noReplay {registry listed : List Record} (hlisted : listed.Perm registry)
    (h : registry.Pairwise NoReplay) (w : Weather) (r : Record) :
    (registry ++ H.publishes listed w r).Pairwise NoReplay := by
  unfold Host.publishes
  rcases commit_registry (H := H) listed w r with heq | ⟨heq, hreplay⟩
  · simpa [heq] using h
  · rw [heq, List.drop_left, List.pairwise_append]
    refine ⟨h, List.pairwise_singleton _ _, fun a ha b hb => ?_⟩
    rw [List.mem_singleton.mp hb]
    exact checkReplay_eq_ok_iff.mp hreplay a (hlisted.mem_iff.mpr ha)

theorem commitAll_noReplay (H : Host) (calls : List CommitCall) :
    (H.commitAll calls).Pairwise NoReplay := by
  unfold Host.commitAll
  induction calls using List.reverseRecOn with
  | nil => exact List.Pairwise.nil
  | append_singleton calls c ih =>
    rw [List.foldl_append]
    exact publishes_noReplay (c.listing.complete _) ih c.weather c.record

/-! ## Listing -/

theorem supersedes_total {a b : Record} (h : NoReplay a b) (ht : a.targetKey = b.targetKey) :
    supersedes a b ∨ supersedes b a := by
  have hlt := h.2 (producer_eq_of_targetKey ht)
  unfold supersedes
  split_ifs <;> omega

/-- The latest records do not depend on the order of the history. -/
theorem latestPerTarget_perm {history history' : List Record} (hperm : history.Perm history')
    (h : history.Pairwise NoReplay) : latestPerTarget history = latestPerTarget history' := by
  have hlookup (k : String) :
      (Support.newestPerKey Record.targetKey supersedes history).lookup k =
        (Support.newestPerKey Record.targetKey supersedes history').lookup k :=
    Support.lookup_newestPerKey_perm hperm (k := k) fun r hr r' hr' ht hne => by
      have : Std.Symm fun a b : Record => NoReplay a b ∨ NoReplay b a := ⟨fun _ _ => Or.symm⟩
      rcases (h.imp (S := fun a b => NoReplay a b ∨ NoReplay b a) .inl).forall hr hr' hne with h | h
      · exact supersedes_total h ht
      · exact (supersedes_total h ht.symm).symm
  have hkeys : (Support.newestPerKey Record.targetKey supersedes history).keys.Perm
      (Support.newestPerKey Record.targetKey supersedes history').keys := by
    refine (List.perm_ext_iff_of_nodup (AList.keys_nodup _) (AList.keys_nodup _)).mpr fun k => ?_
    rw [← AList.mem_keys, ← AList.mem_keys, ← AList.lookup_isSome, ← AList.lookup_isSome, hlookup]
  unfold latestPerTarget
  dsimp only
  rw [Support.insertionSort_eq_of_perm hkeys, funext hlookup]

/-- Evidence cannot be replayed: over any serial commits the published ids differ, each
producer's sequences grow in the order of publication, and the latest records are the
same in every listing of the registry. -/
theorem commits_not_replayed (H : Host) (calls : List CommitCall) :
    ((H.commitAll calls).map (·.envelope.id)).Nodup ∧
      (H.commitAll calls).Pairwise (fun a b =>
        a.envelope.producer.id = b.envelope.producer.id →
          a.envelope.sequence < b.envelope.sequence) ∧
      ∀ l l' : Listing, latestPerTarget (l.order (H.commitAll calls)) =
        latestPerTarget (l'.order (H.commitAll calls)) := by
  have hpair := commitAll_noReplay H calls
  refine ⟨?_, hpair.imp And.right, fun l l' => ?_⟩
  · exact List.pairwise_map.mpr (hpair.imp And.left)
  · rw [← latestPerTarget_perm (l.complete _).symm hpair,
      ← latestPerTarget_perm (l'.complete _).symm hpair]

end Pacto.Evidence
