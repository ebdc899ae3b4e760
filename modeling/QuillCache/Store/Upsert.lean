import QuillCache.Store.Intact

/-!
# Upserts

`upsert_start` takes one of three paths: a put if there is no readable object, the buffers of the old object if
it has the requested size, and otherwise a put after the old object is freed. What the caller gets is the same
on all of them, except that re-opened buffers are those of the old object, as many as it had
(`upsert_opens`, `reopened_as_before`).

The old object is freed before the new one is allocated. An upsert of another size that finds no room has
therefore lost it (`upsert_loses_object`); any other failed upsert leaves the master as it was
(`failed_upsert`).
-/

namespace QuillCache.Store.MasterService

open Lib Prog List Multiset Option

def objectBuffers (o : ObjectMetadata) : List AllocatedBuffer := o.replicas.values.filterMap fun r => r.data.buffer?

lemma coe_objectBuffers (o : ObjectMetadata) :
    (objectBuffers o : Multiset AllocatedBuffer) = o.footprint.buffers :=
  replicaBuffers_values o

lemma Fresh.opens {identity : IdentityScope} {config : ReplicateConfig} {clock n : ℕ}
    {bs : List AllocatedBuffer} {o : ObjectMetadata} (h : Fresh identity config clock n bs o) :
    bs.Perm (objectBuffers o) ∧ o.replicas.values.length = bs.length := by
  constructor
  · rw [← coe_eq_coe, coe_objectBuffers, h.footprint_eq, granted_buffers]
  · have hcard := congrArg Multiset.card h.footprint_eq
    rw [granted, ObjectMetadata.footprint, card_map, coe_card, length_map,
      length_zipIdx] at hcard
    rw [← hcard, AList.values, length_map]
    rfl

lemma mem_footprint {o : ObjectMetadata} {r : Replica} (hr : r ∈ o.replicas.values) :
    ∃ f ∈ o.footprint, f.2.2 = r.data := by
  obtain ⟨e, he, rfl⟩ := List.mem_map.mp hr
  exact ⟨_, Multiset.mem_map_of_mem _ he, rfl⟩

lemma size_of_uniform {o : ObjectMetadata} (hu : Uniform o.footprint) {r : Replica} (hr : r ∈ o.replicas.values) :
    r.size = existingSize o := by
  obtain ⟨n, hn⟩ := hu
  have hsize : ∀ r ∈ o.replicas.values, r.size = n := by
    intro r hr
    obtain ⟨f, hf, hdata⟩ := mem_footprint hr
    rw [Replica.size, ← hdata]
    exact hn f hf
  obtain ⟨r₀, rs, hvalues⟩ := exists_cons_of_ne_nil (ne_nil_of_mem hr)
  rw [hsize r hr, existingSize, hvalues]
  exact (hsize r₀ (hvalues ▸ List.mem_cons_self)).symm

lemma values_withStatus (status : ReplicaStatus) (o : ObjectMetadata) :
    (o.withStatus status).replicas.values = o.replicas.values.map fun r => { r with status } := by
  simp [ObjectMetadata.withStatus, AList.values, AList.mapEntries]

def SameSize (s : MasterService) (key : ObjectKey) (size : ℕ) : Prop :=
  ∃ o, s.objects.lookup key = some o ∧ o.hasCompleteReplica = true ∧ existingSize o = size

/-- What `upsert_start` opened for writing: the object under `key`, for the caller, not readable, with the
returned buffers of the requested size. -/
structure Opens (key : ObjectKey) (identity : IdentityScope) (size : ℕ) (bs : List AllocatedBuffer)
    (s' : MasterService) (o : ObjectMetadata) : Prop where
  lookup_eq : s'.objects.lookup key = some o
  identity_eq : o.identity = identity
  initialized : ∀ r ∈ o.replicas.values, r.status = .initialized
  size_eq : ∀ r ∈ o.replicas.values, r.size = size
  buffers_perm : bs.Perm (objectBuffers o)

lemma Puts.opens {s s' : MasterService} {key : ObjectKey} {identity : IdentityScope} {size : ℕ}
    {config : ReplicateConfig} {bs : List AllocatedBuffer} (h : Puts s key identity size config (.ok bs) s') :
    ∃ o, Opens key identity size bs s' o ∧ o.softPinned = config.withSoftPin ∧
      o.hardPinned = config.withHardPin ∧ o.replicas.values.length = config.replicaNum := by
  obtain ⟨-, ⟨bs', o, hr, hlen, hsize, ho, hfresh⟩ | ⟨hr, -⟩⟩ := h
  · cases hr
    obtain ⟨hperm, hcount⟩ := hfresh.opens
    refine ⟨o, ⟨ho, hfresh.identity_eq, hfresh.initialized, fun r hr => ?_, hperm⟩, hfresh.softPinned_eq,
      hfresh.hardPinned_eq, hcount.trans hlen⟩
    obtain ⟨f, hf, hdata⟩ := mem_footprint hr
    rw [Replica.size, ← hdata]
    exact hfresh.size_eq hsize f hf
  · cases hr

/-- **A successful upsert** opens an object for the caller, with the returned buffers of the requested size,
none of them readable; with the pins and the number of replicas of the config unless it re-opens a readable
object of that size, and then with the replicas of that object. -/
theorem upsert_opens (s : MasterService) (hs : ReachableAny s) (key : ObjectKey) (identity : IdentityScope)
    (size : ℕ) (config : ReplicateConfig) (bs : List AllocatedBuffer) (s' : MasterService)
    (hrun : (upsertStart key identity size config).run s = some (.ok bs, s')) :
    ∃ o, Opens key identity size bs s' o ∧
      (¬SameSize s key size → o.softPinned = config.withSoftPin ∧ o.hardPinned = config.withHardPin ∧
        o.replicas.values.length = config.replicaNum) ∧
      (SameSize s key size → ∃ old, s.objects.lookup key = some old ∧ o.footprint = old.footprint) := by
  obtain ⟨hintact, huniform⟩ := hs.intact
  obtain ⟨-, ⟨hopen, hputs⟩ | ⟨old, hold, hcomplete, ⟨-, hr, -⟩ | ⟨-, hsize, hr, rfl⟩ | ⟨-, hsize, s₁, -, -, hputs⟩⟩⟩ :=
    upsertStart_intact hintact _ _ hrun
  · obtain ⟨o, hopens, hconfig⟩ := hputs.opens
    refine ⟨o, hopens, fun _ => hconfig, ?_⟩
    rintro ⟨old, hold, hcomplete, -⟩
    rw [isComplete, hold, any_some, hcomplete] at hopen
    cases hopen
  · cases hr
  · cases hr
    refine ⟨{ old.withStatus .initialized with identity, lastAccess := s.clock }, ⟨?_, rfl, ?_, ?_, ?_⟩,
      fun hnot => absurd ⟨old, hold, hcomplete, hsize⟩ hnot, fun _ => ⟨old, hold, footprint_withStatus _ _⟩⟩
    · rw [AList.lookup_update, if_pos rfl, hold]
      rfl
    · rw [values_withStatus, List.forall_mem_map]
      exact fun _ _ => rfl
    · rw [values_withStatus, List.forall_mem_map]
      exact fun r hr => (size_of_uniform (huniform key old hold) hr).trans hsize
    · rw [objectBuffers, values_withStatus, List.filterMap_map]
      exact List.Perm.refl _
  · obtain ⟨o, hopens, hconfig⟩ := hputs.opens
    refine ⟨o, hopens, fun _ => hconfig, ?_⟩
    rintro ⟨old', hold', -, hsize'⟩
    rw [hold] at hold'
    cases hold'
    exact absurd hsize' hsize

def oneReadable : List MasterOp :=
  [.mountSegment "a" 1024, .mountSegment "b" 1024,
    .putStart "x" ⟨"m", "t", none, "u"⟩ 100 ⟨1, false, false, none⟩, .putEnd "x"]

theorem upsert_opens_oneReadable :
    ∃ s bs s' o, ReachableAny s ∧
      (upsertStart "x" ⟨"m", "t", none, "v"⟩ 200 ⟨2, false, true, none⟩).run s = some (.ok bs, s') ∧
      Opens "x" ⟨"m", "t", none, "v"⟩ 200 bs s' o := by
  have hrun : ((serveAll anyMounts oneReadable (new "random")).any fun s =>
      ((upsertStart "x" ⟨"m", "t", none, "v"⟩ 200 ⟨2, false, true, none⟩).run s).any fun r => r.1.isOk) = true := by
    decide +kernel
  obtain ⟨s, hs, hupsert⟩ := (Option.any_eq_true _ _).mp hrun
  obtain ⟨⟨r, s'⟩, hrun', hok⟩ := (Option.any_eq_true _ _).mp hupsert
  cases r with
  | error e => cases hok
  | ok bs =>
    have hreach := reachableAny_of_serveAll hs
    obtain ⟨o, hopens, -⟩ := upsert_opens s hreach _ _ _ _ bs s' hrun'
    exact ⟨s, bs, s', o, hreach, hrun', hopens⟩

/-- An upsert of the same size asks for two replicas and a hard pin: the object keeps its one replica, and is
not pinned. -/
theorem reopened_as_before :
    ∃ s bs s' o, Reachable s ∧
      (upsertStart "x" ⟨"m", "t", none, "v"⟩ 100 ⟨2, false, true, none⟩).run s = some (.ok bs, s') ∧
      s'.objects.lookup "x" = some o ∧ o.replicas.values.length ≠ 2 ∧ o.hardPinned ≠ true := by
  have hrun : ((serveAll freshMounts oneReadable (new "random")).any fun s =>
      ((upsertStart "x" ⟨"m", "t", none, "v"⟩ 100 ⟨2, false, true, none⟩).run s).any fun r => r.1.isOk &&
        (r.2.objects.lookup "x").any fun o => decide (o.replicas.values.length ≠ 2 ∧ o.hardPinned ≠ true)) = true := by
    decide +kernel
  obtain ⟨s, hs, hupsert⟩ := (Option.any_eq_true _ _).mp hrun
  obtain ⟨⟨r, s'⟩, hrun', hboth⟩ := (Option.any_eq_true _ _).mp hupsert
  obtain ⟨hok, hobject⟩ := Bool.and_eq_true_iff.mp hboth
  obtain ⟨o, ho, hbad⟩ := (Option.any_eq_true _ _).mp hobject
  cases r with
  | error e => cases hok
  | ok bs => exact ⟨s, bs, s', o, reachable_of_serveAll hs, hrun', ho, of_decide_eq_true hbad⟩

/-! ## Failed upserts -/

/-- **A failed upsert** of a readable object: the object is leased, and nothing has changed; or it is not, it
has another size, and it has been freed. -/
theorem failed_upsert (s : MasterService) (hs : ReachableAny s) (key : ObjectKey) (identity : IdentityScope)
    (size : ℕ) (config : ReplicateConfig) (o : ObjectMetadata) (ho : s.objects.lookup key = some o)
    (hcomplete : o.hasCompleteReplica = true) (e : ErrorCode) (s' : MasterService)
    (hrun : (upsertStart key identity size config).run s = some (.error e, s')) :
    (s.clock < o.leaseUntil ∧ e = .objectNotReady ∧ s' = s) ∨
      (o.leaseUntil ≤ s.clock ∧ existingSize o ≠ size ∧ e = .noAvailableSegment ∧ s'.objects.lookup key = none) := by
  obtain ⟨-, ⟨hopen, -⟩ | ⟨o', ho', -, ⟨hleased, hr, hsame⟩ | ⟨-, -, hr, -⟩ | ⟨hfree, hsize, s₁, -, -, -, hbegun⟩⟩⟩ :=
    upsertStart_intact hs.intact.1 _ _ hrun
  · rw [isComplete, ho, any_some, hcomplete] at hopen
    cases hopen
  all_goals rw [ho] at ho'; cases ho'
  · cases hr
    exact .inl ⟨hleased, rfl, hsame⟩
  · cases hr
  · rcases hbegun with ⟨_, _, hr, -⟩ | ⟨hr, hnone, -⟩
    · cases hr
    · cases hr
      exact .inr ⟨hfree, hsize, rfl, hnone⟩

/-- An upsert that does not fit loses the object. -/
theorem upsert_loses_object :
    ∃ s o s', Reachable s ∧ s.objects.lookup "x" = some o ∧ o.hasCompleteReplica = true ∧
      (upsertStart "x" ⟨"m", "t", none, "u"⟩ 5000 ⟨1, false, false, none⟩).run s =
        some (.error .noAvailableSegment, s') ∧ s'.objects.lookup "x" = none := by
  have hrun : ((serveAll freshMounts oneReadable (new "random")).any fun s =>
      ((s.objects.lookup "x").any fun o => o.hasCompleteReplica) &&
      ((upsertStart "x" ⟨"m", "t", none, "u"⟩ 5000 ⟨1, false, false, none⟩).run s).any fun r =>
        decide (r.1 = .error .noAvailableSegment) && (r.2.objects.lookup "x").isNone) = true := by
    decide +kernel
  obtain ⟨s, hs, hboth⟩ := (Option.any_eq_true _ _).mp hrun
  obtain ⟨hobject, hupsert⟩ := Bool.and_eq_true_iff.mp hboth
  obtain ⟨o, ho, hcomplete⟩ := (Option.any_eq_true _ _).mp hobject
  obtain ⟨⟨r, s'⟩, hrun', hlost⟩ := (Option.any_eq_true _ _).mp hupsert
  obtain ⟨hr, hnone⟩ := Bool.and_eq_true_iff.mp hlost
  have hr : r = .error .noAvailableSegment := of_decide_eq_true hr
  subst hr
  exact ⟨s, o, s', reachable_of_serveAll hs, ho, hcomplete, hrun', isNone_iff_eq_none.mp hnone⟩

theorem failed_upsert_tooLarge :
    ∃ s o s', ReachableAny s ∧ s.objects.lookup "x" = some o ∧ o.hasCompleteReplica = true ∧
      (upsertStart "x" ⟨"m", "t", none, "u"⟩ 5000 ⟨1, false, false, none⟩).run s =
        some (.error .noAvailableSegment, s') ∧ o.leaseUntil ≤ s.clock ∧ existingSize o ≠ 5000 := by
  have hrun : ((serveAll anyMounts oneReadable (new "random")).any fun s =>
      ((s.objects.lookup "x").any fun o => o.hasCompleteReplica) &&
      ((upsertStart "x" ⟨"m", "t", none, "u"⟩ 5000 ⟨1, false, false, none⟩).run s).any fun r =>
        decide (r.1 = .error .noAvailableSegment)) = true := by
    decide +kernel
  obtain ⟨s, hs, hboth⟩ := (Option.any_eq_true _ _).mp hrun
  obtain ⟨hobject, hupsert⟩ := Bool.and_eq_true_iff.mp hboth
  obtain ⟨o, ho, hcomplete⟩ := (Option.any_eq_true _ _).mp hobject
  obtain ⟨⟨r, s'⟩, hrun', hr⟩ := (Option.any_eq_true _ _).mp hupsert
  have hr : r = .error .noAvailableSegment := of_decide_eq_true hr
  subst hr
  have hreach := reachableAny_of_serveAll hs
  rcases failed_upsert s hreach _ _ _ _ o ho hcomplete _ s' hrun' with ⟨-, he, -⟩ | ⟨hfree, hsize, -⟩
  · cases he
  · exact ⟨s, o, s', hreach, ho, hcomplete, hrun', hfree, hsize⟩

end QuillCache.Store.MasterService
