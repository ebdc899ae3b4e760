import QuillCache.Store.MasterHistory
import QuillCache.Store.Snapshot

/-!
# Replaying the op-log

A master logs mounts, unmounts, commits and removals. Puts in flight, reclaimed leftovers and revokes are not logged,
and a replay reserves the exact ranges of the committed objects where the live allocators have rounded them up. So
the recovered master is not a copy of the live one at any point; what holds between the two is `Mirrors`: the same
segments, and of the objects exactly those that are complete. `Exact` is what holds of a recovered master alone.

The entries that a call appends keep the two in step: a removal (`Mirrors.removed`), a commit of an object that is not
complete yet (`Mirrors.committed`), a mount and an unmount.
-/

namespace QuillCache.Store

open Lib Prog Relation AList Function List Multiset Option

def SegmentState.mounted (g : SegmentState) : List (SegmentName × ℕ) :=
  g.allocators.map fun a => (a.segmentName, a.inner.capacity)

namespace MasterService

/-! ## Recovered masters -/

/-- A recovered master: its allocators hold exactly the ranges of its objects, and no segment is scaled. -/
structure Exact (m : MasterService) : Prop where
  owes : Owes True 0 m.view
  unscaled : ∀ a ∈ m.segments.allocators, a.inner.multiplierBits = 0
  oplog_eq : m.oplog = none

/-- The entries apply one after the other, and every master on the way is exact. -/
inductive Replays : MasterService → List OpLogEntry → MasterService → Prop where
  | nil {m : MasterService} (h : Exact m) : Replays m [] m
  | cons {m m₁ m₂ : MasterService} {e : OpLogEntry} {es : List OpLogEntry} (h : Exact m)
      (hop : applyOp e m = some (.ok (), m₁)) (hrest : Replays m₁ es m₂) : Replays m (e :: es) m₂

section replays

variable {m m₁ m₂ m' : MasterService} {e : OpLogEntry} {es es' : List OpLogEntry}

lemma Replays.exact (h : Replays m es m') : Exact m' := by
  induction h with
  | nil h => exact h
  | cons _ _ _ ih => exact ih

lemma Replays.single (h : Exact m) (hop : applyOp e m = some (.ok (), m₁)) (h₁ : Exact m₁) : Replays m [e] m₁ :=
  .cons h hop (.nil h₁)

lemma Replays.append (h : Replays m es m₁) (h' : Replays m₁ es' m₂) : Replays m (es ++ es') m₂ := by
  induction h with
  | nil => exact h'
  | cons hm hop _ ih => exact .cons hm hop (ih h')

lemma Replays.applyAll (h : Replays m es m') : applyAll es m = some (.ok (), m') := by
  induction h with
  | nil => rfl
  | cons _ hop _ ih => exact bind_eq_some.mpr ⟨_, _, hop, ih⟩

lemma Replays.take (h : Replays m es m') (n : ℕ) : ∃ m₁, Replays m (es.take n) m₁ := by
  induction h generalizing n with
  | nil h => exact ⟨_, by rw [take_nil]; exact .nil h⟩
  | cons hm hop hrest ih =>
    cases n with
    | zero => exact ⟨_, .nil hm⟩
    | succ n =>
      obtain ⟨m₁, hm₁⟩ := ih n
      exact ⟨m₁, .cons hm hop hm₁⟩

end replays

/-! ### What an entry does to a recovered master -/

section entries

variable {m : MasterService}

lemma map_mounted_eq {as as' : List OffsetBufferAllocator} (h : SameFleet as as') :
    as'.map (fun a => (a.segmentName, a.inner.capacity)) = as.map fun a => (a.segmentName, a.inner.capacity) := by
  induction h with
  | nil => rfl
  | cons hsame _ ih => rw [List.map_cons, List.map_cons, ih, hsame.segmentName_eq, hsame.capacity_eq]

lemma mounted_of_sameFleet {g g' : SegmentState} (h : SameFleet g.allocators g'.allocators) :
    g'.mounted = g.mounted := map_mounted_eq h

lemma names_eq_mounted (g : SegmentState) : g.names = g.mounted.map Prod.fst := by
  simp [SegmentState.names, SegmentState.mounted, comp_def]

lemma unscaled_of_sameFleet {as as' : List OffsetBufferAllocator} (h : SameFleet as as')
    (hu : ∀ a ∈ as, a.inner.multiplierBits = 0) : ∀ a ∈ as', a.inner.multiplierBits = 0 := by
  intro a' ha'
  obtain ⟨a, ha, hsame⟩ := h.exists_same ha'
  rw [hsame.multiplierBits_eq]
  exact hu a ha

lemma Exact.removed (h : Exact m) (key : ObjectKey) :
    ∃ m', applyOp (.removed key) m = some (.ok (), m') ∧ Exact m' ∧ m'.objects = m.objects.erase key ∧
      m'.segments.mounted = m.segments.mounted ∧ m'.segments.nextReplicaId = m.segments.nextReplicaId := by
  have howes := h.owes.takeOut key
  cases ho : m.objects.lookup key with
  | none =>
    have hsame : m.objects.erase key = m.objects := AList.erase_of_notMem (lookup_eq_none.mp ho)
    refine ⟨m, ?_, h, hsame.symm, rfl, rfl⟩
    refine bind_eq_some.mpr ⟨m, m, rfl, ?_⟩
    simp only [ho]
    rfl
  | some o =>
    rw [ho, owed, ← add_zero o.footprint.buffers] at howes
    obtain ⟨_, g, hfree, howes', hsame, hnext, -⟩ := howes.free rfl
    refine ⟨{ m with objects := m.objects.erase key, segments := g }, ?_,
      ⟨howes', unscaled_of_sameFleet hsame h.unscaled, h.oplog_eq⟩, rfl, mounted_of_sameFleet hsame, hnext⟩
    refine bind_eq_some.mpr ⟨m, m, rfl, ?_⟩
    simp only [ho]
    refine bind_eq_some.mpr ⟨_, _, rfl, bind_eq_some.mpr ⟨(), _, ?_, rfl⟩⟩
    exact map_eq_some_iff.mpr ⟨((), g), hfree, rfl⟩

lemma Exact.mounted (h : Exact m) {name : SegmentName} {capacity : ℕ} (hname : name ∉ m.segments.names)
    (hcap : capacity ≤ SmallFloat.maxBinSize) :
    ∃ m', applyOp (.segmentMounted name capacity) m = some (.ok (), m') ∧ Exact m' ∧ m'.objects = m.objects ∧
      m'.segments.mounted = m.segments.mounted ++ [(name, capacity)] ∧
      m'.segments.nextReplicaId = m.segments.nextReplicaId := by
  have hlt : capacity < 2 ^ 64 := by
    simp only [SmallFloat.maxBinSize] at hcap
    omega
  obtain ⟨a, hnew, hseg, hcapacity, howes⟩ := h.owes.push hname hlt
  refine ⟨_, bind_eq_some.mpr ⟨(), _, mountSegment_run hnew m, rfl⟩, ⟨howes, fun b hb => ?_, ?_⟩, rfl, ?_, rfl⟩
  · rcases mem_append.mp hb with hb | hb
    · exact h.unscaled b hb
    · rw [List.mem_singleton.mp hb]
      exact OffsetBufferAllocator.multiplierBits_new hnew hcap
  · rw [h.oplog_eq]
    rfl
  · simp [SegmentState.mounted, hseg, hcapacity]

lemma unmountSegment_run {name : SegmentName} (hname : name ∈ m.segments.names) :
    (unmountSegment name).run m = some (.ok (), m.unmounted name) := by
  have hmounted : (m.segments.allocators.any fun a => decide (a.segmentName = name)) = true := by
    simpa [SegmentState.names] using hname
  have hrun : (unmountSegment name).run m = (if (!(m.segments.allocators.any fun a => a.segmentName = name)) = true
      then _ else _ : MasterProg _).run m := rfl
  rw [hrun, hmounted]
  rfl

lemma owes_unmounted (h : Owes True 0 m.view) (name : SegmentName) : Owes True 0 (m.unmounted name).view := by
  have hkept : ∀ b ∈ bufferSum (dropFootprints name m.view.objects), b.segmentName ≠ name := by
    intro b hb
    rw [bufferSum_dropFootprints] at hb
    exact (Multiset.mem_filter.mp hb).2
  have hdrop := (h.dropReplicas name).dropAllocator hkept
  have hview : (m.unmounted name).view =
      ⟨{ m.view.segments with allocators := m.view.segments.allocators.filter fun a => a.segmentName ≠ name },
        dropFootprints name m.view.objects⟩ := by
    rw [view, unmounted, footprints_dropSegmentReplicas]
    rfl
  rw [hview]
  convert hdrop using 1
  rw [add_zero, Multiset.filter_filter, eq_comm, filter_eq_nil]
  rintro b - ⟨hne, heq⟩
  exact heq hne

lemma Exact.unmounted (h : Exact m) {name : SegmentName} (hname : name ∈ m.segments.names) :
    applyOp (.segmentUnmounted name) m = some (.ok (), m.unmounted name) ∧ Exact (m.unmounted name) := by
  refine ⟨bind_eq_some.mpr ⟨_, _, unmountSegment_run hname, rfl⟩, owes_unmounted h.owes name, fun a ha => ?_, ?_⟩
  · exact h.unscaled a (List.mem_of_mem_filter ha)
  · rw [MasterService.unmounted, h.oplog_eq]
    rfl

lemma mounted_unmounted (s : MasterService) (name : SegmentName) :
    (s.unmounted name).segments.mounted = s.segments.mounted.filter fun p => p.1 ≠ name := by
  simp [MasterService.unmounted, SegmentState.mounted, List.filter_map, comp_def]

structure Agrees (o o' : ObjectMetadata) : Prop where
  replicas : o.replicas.Shuffled o'.replicas
  identity_eq : o'.identity = o.identity
  softPinned_eq : o'.softPinned = o.softPinned
  hardPinned_eq : o'.hardPinned = o.hardPinned

variable {o o' : ObjectMetadata}

lemma Agrees.footprint_eq (h : Agrees o o') : o'.footprint = o.footprint := by
  rw [ObjectMetadata.footprint, ObjectMetadata.footprint, h.replicas.items_eq]

lemma Agrees.values_perm (h : Agrees o o') : o.replicas.values.Perm o'.replicas.values :=
  h.replicas.map _

lemma Agrees.hasCompleteReplica_eq (h : Agrees o o') :
    o'.hasCompleteReplica = o.hasCompleteReplica := h.values_perm.any_eq.symm

lemma Agrees.refl (o : ObjectMetadata) : Agrees o o := ⟨.refl _, rfl, rfl, rfl⟩

lemma Agrees.trans {o₁ o₂ o₃ : ObjectMetadata} (h : Agrees o₁ o₂) (h' : Agrees o₂ o₃) : Agrees o₁ o₃ :=
  ⟨h.replicas.trans h'.replicas, h'.identity_eq.trans h.identity_eq, h'.softPinned_eq.trans h.softPinned_eq,
    h'.hardPinned_eq.trans h.hardPinned_eq⟩

lemma Agrees.symm (h : Agrees o o') : Agrees o' o :=
  ⟨h.replicas.symm, h.identity_eq.symm, h.softPinned_eq.symm, h.hardPinned_eq.symm⟩

lemma Agrees.of_shuffled (h : o.Shuffled o') : Agrees o o' :=
  ⟨h.1, by rw [h.2], by rw [h.2], by rw [h.2]⟩

lemma rel_agrees_refl (o : Option ObjectMetadata) : Option.Rel Agrees o o := by
  cases o with
  | none => exact .none
  | some o => exact .some (.refl o)

lemma rel_of_shuffle {s s' : MasterService} (h : Shuffle s s') (k : ObjectKey) :
    Option.Rel Agrees (s.objects.lookup k) (s'.objects.lookup k) := by
  have hk := h.objects k
  revert hk
  generalize s.objects.lookup k = o
  generalize s'.objects.lookup k = o'
  rintro (hsame | -)
  · exact .some (.of_shuffled hsame)
  · exact .none

lemma rel_agrees_trans {o₁ o₂ o₃ : Option ObjectMetadata} (h : Option.Rel Agrees o₁ o₂) (h' : Option.Rel Agrees o₂ o₃) :
    Option.Rel Agrees o₁ o₃ := by
  cases h with
  | none => exact h'
  | some h =>
    cases h' with
    | some h' => exact .some (h.trans h')

variable {x : Option ObjectMetadata}

lemma eq_none_of_rel (h : Option.Rel Agrees none x) : x = none := by
  cases h
  rfl

lemma exists_agrees_left {o : ObjectMetadata} (h : Option.Rel Agrees x (some o)) :
    ∃ o', x = some o' ∧ Agrees o' o := by
  cases h with
  | some h => exact ⟨_, rfl, h⟩

lemma exists_agrees_right {o : ObjectMetadata} (h : Option.Rel Agrees (some o) x) :
    ∃ o', x = some o' ∧ Agrees o o' := by
  cases h with
  | some h => exact ⟨_, rfl, h⟩

lemma footprints_insert_any (t : ObjectMap) (k : ObjectKey) (o : ObjectMetadata) :
    footprints (t.insert k o) = (k, o.footprint) ::ₘ footprints (t.erase k) := by
  simp [footprints, AList.items, entries_insert, AList.erase]

lemma sums_erase {t : ObjectMap} {k : ObjectKey} (h : ∀ o, t.lookup k = some o → o.footprint = 0) :
    bufferSum (footprints (t.erase k)) = bufferSum (footprints t) ∧
      idSum (footprints (t.erase k)) = idSum (footprints t) := by
  cases ho : t.lookup k with
  | none => rw [footprints_erase_of_none ho]; exact ⟨rfl, rfl⟩
  | some o =>
    rw [footprints_erase ho, h o ho, bufferSum_cons, idSum_cons]
    exact ⟨(zero_add _).symm, (zero_add _).symm⟩

lemma mem_ids {o : ObjectMetadata} {r : Replica} (hr : r ∈ o.replicas.values) : r.id ∈ o.footprint.ids := by
  obtain ⟨e, he, rfl⟩ := List.mem_map.mp hr
  exact Multiset.mem_map.mpr ⟨(e.1, e.2.id, e.2.data), Multiset.mem_map.mpr ⟨e, mem_coe.mpr he, rfl⟩, rfl⟩

lemma Exact.committed (h : Exact m) {key : ObjectKey} {o : ObjectMetadata} {n : ℕ} (hok : o.footprint.Ok)
    (hgone : ∀ o', m.objects.lookup key = some o' → o'.footprint = 0)
    (hpack : Packing m.segments.allocators (o.footprint.buffers + liveBuffers m.segments.allocators))
    (hids : (o.footprint.ids + idSum (footprints m.objects)).Nodup) (hlt : ∀ i ∈ o.footprint.ids, i < n)
    (hnext : m.segments.nextReplicaId ≤ n) (hn : n < 2 ^ 32) :
    ∃ m' o', applyOp (commitEntry key o) m = some (.ok (), m') ∧ Exact m' ∧
      m'.objects = m.objects.insert key o' ∧ Agrees o o' ∧ m'.segments.mounted = m.segments.mounted ∧
      m.segments.nextReplicaId ≤ m'.segments.nextReplicaId ∧ m'.segments.nextReplicaId ≤ n := by
  rw [← replicaBuffers_values] at hpack
  obtain ⟨_, g, hcommit, rfl, hfleet, hsame, hlive, -, hge, hle, hids'⟩ :=
    commitEach_spec h.owes.fleet hpack hnext (fun r hr => hlt _ (mem_ids hr)) hn
  have hrs : o.replicas.Shuffled (ReplicaList.ofList o.replicas.values) :=
    shuffled_ofList fun e he => hok.id_eq (e.1, e.2.id, e.2.data)
      (Multiset.mem_map.mpr ⟨e, mem_coe.mpr he, rfl⟩)
  have hagrees : Agrees o ⟨.ofList o.replicas.values, o.identity, 0, m.clock, o.softPinned, o.hardPinned⟩ :=
    ⟨hrs, rfl, rfl, rfl⟩
  obtain ⟨hbuffers, hidsum⟩ := sums_erase hgone
  refine ⟨{ m with segments := g, objects := _ }, _, ?_, ⟨⟨hfleet, ?_, ?_, ?_, ?_, hle.trans_lt hn⟩,
    unscaled_of_sameFleet hsame h.unscaled, h.oplog_eq⟩, rfl, hagrees, mounted_of_sameFleet hsame, hge, hle⟩
  · exact bind_eq_some.mpr ⟨_, _, map_eq_some_iff.mpr ⟨_, hcommit, rfl⟩, rfl⟩
  · change liveBuffers g.allocators = bufferSum (footprints (m.objects.insert key _)) + 0
    rw [footprints_insert_any, bufferSum_cons, hbuffers, hlive, replicaBuffers_values, hagrees.footprint_eq,
      add_assoc]
    exact congrArg _ h.owes.live_eq
  · change ∀ e ∈ footprints (m.objects.insert key _), e.2.Ok
    rw [footprints_insert_any]
    intro e he
    rcases Multiset.mem_cons.mp he with rfl | he
    · exact hagrees.footprint_eq.symm ▸ hok
    · exact h.owes.ok e (mem_of_le (footprints_erase_le _ _) he)
  · change (idSum (footprints (m.objects.insert key _))).Nodup
    rwa [footprints_insert_any, idSum_cons, hidsum, hagrees.footprint_eq]
  · change ∀ i ∈ idSum (footprints (m.objects.insert key _)), i < g.nextReplicaId
    rw [footprints_insert_any, idSum_cons, hidsum, hagrees.footprint_eq]
    intro i hi
    rcases mem_add.mp hi with hi | hi
    · obtain ⟨x, hx, rfl⟩ := Multiset.mem_map.mp hi
      have hx : x ∈ o.replicas.items.map fun e => (e.1, e.2.id, e.2.data) := hx
      obtain ⟨e, he, rfl⟩ := Multiset.mem_map.mp hx
      exact hids' e.2 (List.mem_map.mpr ⟨e, mem_coe.mp he, rfl⟩)
    · exact (h.owes.ids_lt i hi).trans_le hge

end entries

/-! ## The live master and the recovered one -/

/-- `m` is what the log of `s` recovers: the same segments, and of the objects those that are complete. Objects
without replicas may be left over. -/
structure Mirrors (s m : MasterService) : Prop where
  exact : Exact m
  mounted_eq : m.segments.mounted = s.segments.mounted
  complete : ∀ k o, s.objects.lookup k = some o → o.hasCompleteReplica = true →
    ∃ o', m.objects.lookup k = some o' ∧ Agrees o o'
  rest : ∀ k o', m.objects.lookup k = some o' → s.isComplete k = true ∨ o'.footprint = 0
  settled : ∀ k o, s.objects.lookup k = some o → o.hasCompleteReplica = true →
    ∀ r ∈ o.replicas.values, r.isComplete = true
  next_le : m.segments.nextReplicaId ≤ s.segments.nextReplicaId

section mirrors

variable {s s' m : MasterService} {k : ObjectKey} {D : Multiset AllocatedBuffer}

lemma isComplete_iff : s.isComplete k = true ↔ ∃ o, s.objects.lookup k = some o ∧ o.hasCompleteReplica = true := by
  rw [isComplete, Option.any_eq_true]

lemma isComplete_congr (h : Option.Rel Agrees (s.objects.lookup k) (s'.objects.lookup k)) :
    s'.isComplete k = s.isComplete k := by
  rw [isComplete, isComplete]
  revert h
  generalize s.objects.lookup k = o
  generalize s'.objects.lookup k = o'
  rintro (hagrees | -)
  · exact hagrees.hasCompleteReplica_eq
  · rfl

lemma Mirrors.gone (h : Mirrors s m) (hopen : s.isComplete k = false) :
    ∀ o', m.objects.lookup k = some o' → o'.footprint = 0 := by
  intro o' ho'
  rcases h.rest k o' ho' with hc | hzero
  · rw [hopen] at hc
    cases hc
  · exact hzero

lemma Mirrors.lookup_of_ne_zero (h : Mirrors s m) {o' : ObjectMetadata} (ho' : m.objects.lookup k = some o')
    (hne : o'.footprint ≠ 0) :
    ∃ o, s.objects.lookup k = some o ∧ o.hasCompleteReplica = true ∧ Agrees o o' := by
  obtain ⟨o, ho, hc⟩ := isComplete_iff.mp ((h.rest k o' ho').resolve_right hne)
  obtain ⟨o'', ho'', hagrees⟩ := h.complete k o ho hc
  rw [ho', Option.some.injEq] at ho''
  exact ⟨o, ho, hc, ho''.symm ▸ hagrees⟩

lemma Exact.removedAll (h : Exact m) (ks : List ObjectKey) :
    ∃ m', Replays m (ks.map .removed) m' ∧ m'.segments.mounted = m.segments.mounted ∧
      m'.segments.nextReplicaId = m.segments.nextReplicaId ∧
      ∀ k, m'.objects.lookup k = if k ∈ ks then none else m.objects.lookup k := by
  induction ks generalizing m with
  | nil => exact ⟨m, .nil h, rfl, rfl, fun _ => (if_neg not_mem_nil).symm⟩
  | cons key ks ih =>
    obtain ⟨m₁, hop, hexact, hobjects, hmounted, hnext⟩ := h.removed key
    obtain ⟨m', hrest, hmounted', hnext', hlookup⟩ := ih hexact
    refine ⟨m', .cons h hop hrest, hmounted'.trans hmounted, hnext'.trans hnext, fun k => ?_⟩
    rw [hlookup, hobjects]
    by_cases hk : k = key
    · subst hk
      rw [lookup_erase, ite_self, if_pos List.mem_cons_self]
    · rw [lookup_erase_ne hk]
      simp only [List.mem_cons, hk, false_or]

/-- **Calls that keep the complete objects or log their removal.** If the objects `ks` are gone and nothing else has
become complete or has ceased to be, the entries of their removal lead to a mirror again. -/
lemma Mirrors.removed (h : Mirrors s m) (ks : List ObjectKey) (hfleet : s'.segments.mounted = s.segments.mounted)
    (hnext : s.segments.nextReplicaId ≤ s'.segments.nextReplicaId) (hgone : ∀ k ∈ ks, s'.isComplete k = false)
    (hsame : ∀ k, k ∉ ks → Option.Rel Agrees (s.objects.lookup k) (s'.objects.lookup k) ∨
      (s.isComplete k = false ∧ s'.isComplete k = false)) :
    ∃ m', Replays m (ks.map .removed) m' ∧ Mirrors s' m' := by
  obtain ⟨m', hreplays, hmounted, hnext', hlookup⟩ := h.exact.removedAll ks
  have hold : ∀ k o, s'.objects.lookup k = some o → o.hasCompleteReplica = true → k ∉ ks ∧
      ∃ o₀, s.objects.lookup k = some o₀ ∧ Agrees o₀ o := by
    intro k o ho hc
    have hcomplete : s'.isComplete k = true := isComplete_iff.mpr ⟨o, ho, hc⟩
    have hk : k ∉ ks := fun hk => by
      rw [hgone k hk] at hcomplete
      cases hcomplete
    refine ⟨hk, ?_⟩
    rcases hsame k hk with hrel | ⟨-, hopen⟩
    · exact exists_agrees_left (ho ▸ hrel)
    · rw [hopen] at hcomplete
      cases hcomplete
  refine ⟨m', hreplays, hreplays.exact, hmounted.trans (h.mounted_eq.trans hfleet.symm), fun k o ho hc => ?_,
    fun k o' ho' => ?_, fun k o ho hc r hr => ?_, hnext'.trans_le (h.next_le.trans hnext)⟩
  · obtain ⟨hk, o₀, ho₀, hagrees⟩ := hold k o ho hc
    obtain ⟨o', ho', hagrees'⟩ := h.complete k o₀ ho₀ (hagrees.hasCompleteReplica_eq.symm.trans hc)
    exact ⟨o', by rw [hlookup, if_neg hk]; exact ho', hagrees.symm.trans hagrees'⟩
  · rw [hlookup] at ho'
    split_ifs at ho' with hk
    refine (h.rest k o' ho').imp_left fun hcomplete => ?_
    rcases hsame k hk with hrel | ⟨hopen, -⟩
    · exact (isComplete_congr hrel).trans hcomplete
    · rw [hopen] at hcomplete
      cases hcomplete
  · obtain ⟨-, o₀, ho₀, hagrees⟩ := hold k o ho hc
    exact h.settled k o₀ ho₀ (hagrees.hasCompleteReplica_eq.symm.trans hc) r (hagrees.values_perm.mem_iff.mpr hr)

lemma Mirrors.congr (h : Mirrors s m) (hfleet : s'.segments.mounted = s.segments.mounted)
    (hnext : s.segments.nextReplicaId ≤ s'.segments.nextReplicaId)
    (hsame : ∀ k, Option.Rel Agrees (s.objects.lookup k) (s'.objects.lookup k) ∨
      (s.isComplete k = false ∧ s'.isComplete k = false)) : Mirrors s' m := by
  obtain ⟨m', hreplays, hmirrors⟩ := h.removed [] hfleet hnext (fun k hk => absurd hk not_mem_nil)
    fun k _ => hsame k
  cases hreplays
  exact hmirrors

/-! ### Sums over the complete objects -/

def completeObjects (s : MasterService) : ObjectMap := s.objects.retain fun _ o => o.hasCompleteReplica

def completeReplicas (s : MasterService) : List Replica :=
  s.completeObjects.values.flatMap fun o => o.replicas.values

lemma bufferSum_add (os os' : Multiset (ObjectKey × Footprint)) :
    bufferSum (os + os') = bufferSum os + bufferSum os' := by
  rw [bufferSum, Multiset.map_add, sum_add]
  rfl

lemma idSum_add (os os' : Multiset (ObjectKey × Footprint)) : idSum (os + os') = idSum os + idSum os' := by
  rw [idSum, Multiset.map_add, sum_add]
  rfl

lemma sums_retain {t : ObjectMap} {p : ObjectMetadata → Bool}
    (h : ∀ k o, t.lookup k = some o → p o = false → o.footprint = 0) :
    bufferSum (footprints (t.retain fun _ => p)) = bufferSum (footprints t) ∧
      idSum (footprints (t.retain fun _ => p)) = idSum (footprints t) := by
  have hsplit : footprints t = footprints (t.retain fun _ => p) +
      (t.items.filter fun e => ¬p e.2 = true).map fun e => (e.1, e.2.footprint) := by
    rw [footprints, footprints, items_retain, ← Multiset.map_add, filter_add_not]
  have hzero : ∀ e ∈ (t.items.filter fun e => ¬p e.2 = true).map fun e => (e.1, e.2.footprint), e.2 = 0 := by
    intro e he
    obtain ⟨e', he', rfl⟩ := Multiset.mem_map.mp he
    obtain ⟨hmem, hp⟩ := Multiset.mem_filter.mp he'
    exact h e'.1 e'.2 (mem_items.mp hmem) (Bool.not_eq_true _ ▸ hp)
  rw [hsplit, bufferSum_add, idSum_add]
  constructor
  · refine (add_eq_left.mpr (Multiset.sum_eq_zero fun x hx => ?_)).symm
    obtain ⟨e, he, rfl⟩ := Multiset.mem_map.mp hx
    rw [hzero e he]
    rfl
  · refine (add_eq_left.mpr (Multiset.sum_eq_zero fun x hx => ?_)).symm
    obtain ⟨e, he, rfl⟩ := Multiset.mem_map.mp hx
    rw [hzero e he]
    rfl

variable {o : ObjectMetadata}

lemma footprint_eq_zero_iff : o.footprint = 0 ↔ o.replicas.values = [] := by
  rw [ObjectMetadata.footprint, Multiset.map_eq_zero, AList.values, map_eq_nil_iff]
  exact coe_eq_zero _

lemma hasCompleteReplica_of_footprint (h : o.footprint = 0) : o.hasCompleteReplica = false := by
  rw [ObjectMetadata.hasCompleteReplica, footprint_eq_zero_iff.mp h]
  rfl

lemma complete_or_empty (h : ∀ r ∈ o.replicas.values, r.isComplete = true) :
    o.hasCompleteReplica = true ∨ o.footprint = 0 := by
  by_cases hempty : o.replicas.values = []
  · exact Or.inr (footprint_eq_zero_iff.mpr hempty)
  · obtain ⟨r, hr⟩ := exists_mem_of_ne_nil _ hempty
    exact Or.inl (List.any_eq_true.mpr ⟨r, hr, h r hr⟩)

lemma Mirrors.rel_complete (h : Mirrors s m) (k : ObjectKey) :
    Option.Rel Agrees (s.completeObjects.lookup k) (m.completeObjects.lookup k) := by
  rw [completeObjects, completeObjects, lookup_retain, lookup_retain]
  by_cases hc : s.isComplete k = true
  · obtain ⟨o, ho, hoc⟩ := isComplete_iff.mp hc
    obtain ⟨o', ho', hagrees⟩ := h.complete k o ho hoc
    rw [ho, ho', filter_some, filter_some, if_pos hoc, if_pos (hagrees.hasCompleteReplica_eq.trans hoc)]
    exact .some hagrees
  · have hnone : (s.objects.lookup k).filter (fun o => o.hasCompleteReplica) = none := by
      rw [filter_eq_none_iff]
      exact fun o ho hoc => hc (isComplete_iff.mpr ⟨o, ho, hoc⟩)
    have hnone' : (m.objects.lookup k).filter (fun o => o.hasCompleteReplica) = none := by
      rw [filter_eq_none_iff]
      intro o' ho' hoc
      rw [hasCompleteReplica_of_footprint (h.gone (by simpa using hc) o' ho')] at hoc
      cases hoc
    rw [hnone, hnone']
    exact .none

lemma Mirrors.footprints_eq (h : Mirrors s m) : footprints m.completeObjects = footprints s.completeObjects := by
  refine footprints_congr fun k => ?_
  have hrel := h.rel_complete k
  revert hrel
  generalize s.completeObjects.lookup k = o
  generalize m.completeObjects.lookup k = o'
  rintro (hagrees | -)
  · exact congrArg some hagrees.footprint_eq
  · rfl

lemma Mirrors.sums_eq (h : Mirrors s m) :
    bufferSum (footprints m.objects) = bufferSum (footprints s.completeObjects) ∧
      idSum (footprints m.objects) = idSum (footprints s.completeObjects) := by
  have hrest : ∀ k o', m.objects.lookup k = some o' → o'.hasCompleteReplica = false → o'.footprint = 0 := by
    intro k o' ho' hopen
    by_contra hne
    obtain ⟨o, -, hc, hagrees⟩ := h.lookup_of_ne_zero ho' hne
    rw [hagrees.hasCompleteReplica_eq, hc] at hopen
    cases hopen
  obtain ⟨hbuffers, hids⟩ := sums_retain hrest
  rw [← h.footprints_eq]
  exact ⟨hbuffers.symm, hids.symm⟩

/-- The buffers and the ids of the recovered objects are among those of the live ones, beside those of an object
that is not complete. -/
lemma Mirrors.sums_le (h : Mirrors s m) (ho : s.objects.lookup k = some o) (hopen : s.isComplete k = false) :
    o.footprint.buffers + bufferSum (footprints m.objects) ≤ bufferSum (footprints s.objects) ∧
      o.footprint.ids + idSum (footprints m.objects) ≤ idSum (footprints s.objects) := by
  have hwithout : footprints s.completeObjects =
      footprints ((s.objects.erase k).retain fun _ o => o.hasCompleteReplica) := by
    refine footprints_congr fun k' => ?_
    rw [completeObjects, lookup_retain, lookup_retain]
    by_cases hk : k' = k
    · rw [hk, lookup_erase, ho, filter_some, if_neg]
      · rfl
      · intro hoc
        rw [isComplete, ho, any_some, hoc] at hopen
        cases hopen
    · rw [lookup_erase_ne hk]
  have hle : footprints s.completeObjects ≤ footprints (s.objects.erase k) := by
    rw [hwithout, footprints, items_retain]
    exact map_le_map (Multiset.filter_le _ _)
  obtain ⟨rest, hrest⟩ := Multiset.le_iff_exists_add.mp hle
  rw [h.sums_eq.1, h.sums_eq.2, footprints_erase ho, bufferSum_cons, idSum_cons, hrest, bufferSum_add, idSum_add]
  exact ⟨add_le_add_right (Multiset.le_add_right _ _) _, add_le_add_right (Multiset.le_add_right _ _) _⟩

/-! ### The entries of a call -/

def Few (s : MasterService) : Prop := ∀ a ∈ s.segments.allocators, a.live.entries.length < 2 ^ 20

lemma values_withComplete (o : ObjectMetadata) :
    ∀ r ∈ (o.withStatus .complete).replicas.values, r.isComplete = true := by
  intro r hr
  obtain ⟨e, he, rfl⟩ := List.mem_map.mp hr
  obtain ⟨e', -, rfl⟩ := List.mem_map.mp he
  rfl

/-- The buffers of the objects can be reserved side by side on the mounted segments, and their ids are different and
below the next one. -/
structure Packed (s : MasterService) : Prop where
  packing : ∀ as : List OffsetBufferAllocator, (∀ a ∈ as, a.inner.multiplierBits = 0) →
    (as.map fun a => (a.segmentName, a.inner.capacity)) = s.segments.mounted → Packing as (bufferSum (footprints s.objects))
  ok : ∀ e ∈ footprints s.objects, e.2.Ok
  ids_nodup : (idSum (footprints s.objects)).Nodup
  ids_lt : ∀ i ∈ idSum (footprints s.objects), i < s.segments.nextReplicaId
  next_lt : s.segments.nextReplicaId < 2 ^ 32

lemma packed_of_owes (hs : Owes False D s.view) (hfew : s.Few) : Packed s := by
  refine ⟨fun as hunscaled hmounted => ?_, hs.ok, hs.ids_nodup, hs.ids_lt, hs.next_lt⟩
  have hlive : liveBuffers s.segments.allocators = bufferSum (footprints s.objects) + D := hs.live_eq
  have hpack : Packing as (liveBuffers s.segments.allocators) := by
    refine packing_of_fleet hs.fleet hfew hunscaled fun a ha => ?_
    have hmem : (a.segmentName, a.inner.capacity) ∈ as.map fun a => (a.segmentName, a.inner.capacity) := by
      rw [hmounted]
      exact List.mem_map_of_mem ha
    obtain ⟨a', ha', heq⟩ := List.mem_map.mp hmem
    exact ⟨a', ha', congrArg Prod.fst heq, congrArg Prod.snd heq⟩
  rw [hlive] at hpack
  exact hpack.mono (Multiset.le_add_right _ _)

lemma Packed.mono (h : Packed s) (hmounted : s'.segments.mounted = s.segments.mounted)
    (hle : footprints s'.objects ≤ footprints s.objects) (hnext : s.segments.nextReplicaId ≤ s'.segments.nextReplicaId)
    (hlt : s'.segments.nextReplicaId < 2 ^ 32) : Packed s' := by
  obtain ⟨rest, hrest⟩ := Multiset.le_iff_exists_add.mp hle
  have hids := idSum_le hle
  refine ⟨fun as hunscaled has => ?_, fun e he => h.ok e (mem_of_le hle he), nodup_of_le hids h.ids_nodup,
    fun i hi => (h.ids_lt i (mem_of_le hids hi)).trans_le hnext, hlt⟩
  refine (h.packing as hunscaled (has.trans hmounted)).mono ?_
  rw [hrest, bufferSum_add]
  exact Multiset.le_add_right _ _

lemma Mirrors.committed (h : Mirrors s m) (hs : Packed s) (ho : s.objects.lookup k = some o)
    (hopen : s.isComplete k = false) (hobjects : s'.objects = s.objects.update k (·.withStatus .complete))
    (hsegments : s'.segments = s.segments) :
    ∃ m', applyOp (commitEntry k (o.withStatus .complete)) m = some (.ok (), m') ∧ Mirrors s' m' := by
  have hfp := footprint_withStatus .complete o
  obtain ⟨hbuffers, hids⟩ := h.sums_le ho hopen
  have hlive : liveBuffers m.segments.allocators = bufferSum (footprints m.objects) + 0 := h.exact.owes.live_eq
  have hmem : ∀ i ∈ o.footprint.ids, i ∈ idSum (footprints s.objects) := fun i hi =>
    mem_of_le ((Multiset.le_add_right _ _).trans hids) hi
  have hpack := hs.packing m.segments.allocators h.exact.unscaled h.mounted_eq
  obtain ⟨m', o', hop, hexact, hinsert, hagrees, hmounted, -, hnext⟩ :=
    h.exact.committed (o := o.withStatus .complete) (n := s.segments.nextReplicaId)
      (hfp.symm ▸ hs.ok _ (mem_footprints_of_lookup ho)) (h.gone hopen)
      (hpack.mono (by rw [hfp, hlive, add_zero]; exact hbuffers))
      (by rw [hfp]; exact nodup_of_le hids hs.ids_nodup)
      (fun i hi => hs.ids_lt i (hmem i (hfp ▸ hi))) h.next_le hs.next_lt
  have hlookup : ∀ k', s'.objects.lookup k' =
      if k' = k then some (o.withStatus .complete) else s.objects.lookup k' := by
    intro k'
    rw [hobjects, lookup_update]
    split_ifs with hk
    · rw [hk, ho, map_some]
    · rfl
  refine ⟨m', hop, hexact, hmounted.trans (h.mounted_eq.trans (by rw [hsegments])), fun k' o₁ ho₁ hc => ?_,
    fun k' o₁ ho₁ => ?_, fun k' o₁ ho₁ hc => ?_, by rw [hsegments]; exact hnext⟩
  · rw [hlookup] at ho₁
    rw [hinsert]
    split_ifs at ho₁ with hk
    · cases ho₁
      exact ⟨o', by rw [hk, lookup_insert], hagrees⟩
    · rw [lookup_insert_ne hk]
      exact h.complete k' o₁ ho₁ hc
  · rw [hinsert] at ho₁
    rw [isComplete, hlookup]
    split_ifs with hk
    · rw [hk, lookup_insert, Option.some.injEq] at ho₁
      rw [← ho₁, hagrees.footprint_eq, any_some]
      exact complete_or_empty (values_withComplete o)
    · rw [lookup_insert_ne hk] at ho₁
      exact h.rest k' o₁ ho₁
  · rw [hlookup] at ho₁
    split_ifs at ho₁ with hk
    · cases ho₁
      exact values_withComplete o
    · exact h.settled k' o₁ ho₁ hc

variable {name : SegmentName}

lemma Mirrors.mount {capacity : ℕ} (h : Mirrors s m) (hname : name ∉ s.segments.names)
    (hcap : capacity ≤ SmallFloat.maxBinSize)
    (hmounted : s'.segments.mounted = s.segments.mounted ++ [(name, capacity)]) (hobjects : s'.objects = s.objects)
    (hnext : s'.segments.nextReplicaId = s.segments.nextReplicaId) :
    ∃ m', applyOp (.segmentMounted name capacity) m = some (.ok (), m') ∧ Mirrors s' m' := by
  rw [names_eq_mounted, ← h.mounted_eq, ← names_eq_mounted] at hname
  obtain ⟨m', hop, hexact, hobjects', hmounted', hnext'⟩ := h.exact.mounted hname hcap
  refine ⟨m', hop, hexact, by rw [hmounted', hmounted, h.mounted_eq], ?_, ?_, ?_, ?_⟩
  · rw [hobjects, hobjects']
    exact h.complete
  · intro k o' ho'
    rw [isComplete, hobjects]
    exact h.rest k o' (hobjects' ▸ ho')
  · rw [hobjects]
    exact h.settled
  · rw [hnext', hnext]
    exact h.next_le

lemma Agrees.withoutSegment {o o' : ObjectMetadata} (h : Agrees o o') (name : SegmentName) :
    Agrees (o.withoutSegment name) (o'.withoutSegment name) :=
  ⟨h.replicas.filter _, h.identity_eq, h.softPinned_eq, h.hardPinned_eq⟩

lemma mem_withoutSegment {r : Replica} (hr : r ∈ (o.withoutSegment name).replicas.values) :
    r ∈ o.replicas.values := by
  obtain ⟨e, he, rfl⟩ := List.mem_map.mp hr
  exact List.mem_map_of_mem (List.mem_of_mem_filter he)

lemma complete_of_withoutSegment (hc : (o.withoutSegment name).hasCompleteReplica = true) :
    o.hasCompleteReplica = true := by
  obtain ⟨r, hr, hrc⟩ := List.any_eq_true.mp hc
  exact List.any_eq_true.mpr ⟨r, mem_withoutSegment hr, hrc⟩

lemma lookup_unmounted :
    (s.unmounted name).objects.lookup k = some o ↔
      ∃ o₀, s.objects.lookup k = some o₀ ∧ o = o₀.withoutSegment name ∧ o.footprint ≠ 0 := by
  have hempty : (!o.replicas.entries.isEmpty) = true ↔ o.footprint ≠ 0 := by
    simp [ObjectMetadata.footprint, AList.items]
  rw [MasterService.unmounted, lookup_dropSegmentReplicas, filter_eq_some_iff, hempty, map_eq_some_iff]
  constructor
  · rintro ⟨⟨o₀, ho₀, rfl⟩, hne⟩
    exact ⟨o₀, ho₀, rfl, hne⟩
  · rintro ⟨o₀, ho₀, rfl, hne⟩
    exact ⟨⟨o₀, ho₀, rfl⟩, hne⟩

lemma Mirrors.unmount (h : Mirrors s m) (hname : name ∈ s.segments.names) :
    applyOp (.segmentUnmounted name) m = some (.ok (), m.unmounted name) ∧
      Mirrors (s.unmounted name) (m.unmounted name) := by
  have hname' : name ∈ m.segments.names := by rwa [names_eq_mounted, h.mounted_eq, ← names_eq_mounted]
  obtain ⟨hop, hexact⟩ := h.exact.unmounted hname'
  refine ⟨hop, hexact, by rw [mounted_unmounted, mounted_unmounted, h.mounted_eq], ?_, ?_, ?_, h.next_le⟩
  · intro k o ho hc
    obtain ⟨o₀, ho₀, rfl, hne⟩ := lookup_unmounted.mp ho
    obtain ⟨o', ho', hagrees⟩ := h.complete k o₀ ho₀ (complete_of_withoutSegment hc)
    have hagrees' := hagrees.withoutSegment name
    exact ⟨_, lookup_unmounted.mpr ⟨o', ho', rfl, hagrees'.footprint_eq.symm ▸ hne⟩, hagrees'⟩
  · intro k o' ho'
    obtain ⟨o₁, ho₁, rfl, hne⟩ := lookup_unmounted.mp ho'
    have hne₁ : o₁.footprint ≠ 0 := by
      intro hzero
      rw [footprint_withoutSegment, hzero] at hne
      exact hne rfl
    obtain ⟨o, ho, hc, hagrees⟩ := h.lookup_of_ne_zero ho₁ hne₁
    have hne' : (o.withoutSegment name).footprint ≠ 0 := (hagrees.withoutSegment name).footprint_eq ▸ hne
    refine Or.inl (isComplete_iff.mpr ⟨_, lookup_unmounted.mpr ⟨o, ho, rfl, hne'⟩, ?_⟩)
    exact (complete_or_empty fun r hr => h.settled k o ho hc r (mem_withoutSegment hr)).resolve_right hne'
  · intro k o ho hc r hr
    obtain ⟨o₀, ho₀, rfl, -⟩ := lookup_unmounted.mp ho
    exact h.settled k o₀ ho₀ (complete_of_withoutSegment hc) r (mem_withoutSegment hr)

end mirrors

end MasterService

end QuillCache.Store
