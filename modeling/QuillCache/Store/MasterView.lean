import QuillCache.Store.Master
import QuillCache.Store.SegmentsSpec

/-!
# What the segments mutex protects

A thread that does not hold the segments mutex may change neither the allocators nor which replicas exist and where
they live. The *view* is that protected part: the segment state, and for every object its *footprint*, the ids and
locations of its replicas.

`Owes exact D v` is the invariant of the view while its holder still has to account for the buffers `D`: every buffer
handed out belongs to exactly one replica or is in `D`. With the mutex free nothing is owed (`Sound`). If `exact`, the
allocators hold the exact ranges, as after a recovery; otherwise they may hold ranges that were rounded up.
-/

namespace QuillCache.Store

open Lib AList Function List Multiset

/-- The replicas of an object without their status: map key, id and location. -/
abbrev Footprint := Multiset (ReplicaId × ReplicaId × ReplicaData)

def ObjectMetadata.footprint (o : ObjectMetadata) : Footprint :=
  o.replicas.items.map fun e => (e.1, e.2.id, e.2.data)

namespace Footprint

def buffers (f : Footprint) : Multiset AllocatedBuffer := f.filterMap fun r => r.2.2.buffer?

def ids (f : Footprint) : Multiset ReplicaId := f.map fun r => r.2.1

/-- All replicas are in memory, on different segments, and are filed under their id. -/
structure Ok (f : Footprint) : Prop where
  memory : ∀ r ∈ f, ∃ b, r.2.2 = .memory b
  id_eq : ∀ r ∈ f, r.2.1 = r.1
  distinct : (f.buffers.map AllocatedBuffer.segmentName).Nodup

end Footprint

def footprints (t : ObjectMap) : Multiset (ObjectKey × Footprint) :=
  t.items.map fun e => (e.1, e.2.footprint)

/-- What the segments mutex protects. -/
structure View where
  segments : SegmentState
  objects : Multiset (ObjectKey × Footprint)

def MasterService.view (s : MasterService) : View := ⟨s.segments, footprints s.objects⟩

def bufferSum (os : Multiset (ObjectKey × Footprint)) : Multiset AllocatedBuffer :=
  (os.map fun e => e.2.buffers).sum

def idSum (os : Multiset (ObjectKey × Footprint)) : Multiset ReplicaId :=
  (os.map fun e => e.2.ids).sum

/-- The buffers handed out are those of the objects and the buffers `D` that the holder of the mutex
still has to account for. -/
structure Owes (exact : Prop) (D : Multiset AllocatedBuffer) (v : View) : Prop where
  fleet : FleetOk exact v.segments.allocators
  live_eq : liveBuffers v.segments.allocators = bufferSum v.objects + D
  ok : ∀ e ∈ v.objects, e.2.Ok
  ids_nodup : (idSum v.objects).Nodup
  ids_lt : ∀ i ∈ idSum v.objects, i < v.segments.nextReplicaId
  next_lt : v.segments.nextReplicaId < 2 ^ 32

/-- The invariant while the segments mutex is free. -/
abbrev Sound (v : View) : Prop := Owes False 0 v

section views

variable {exact : Prop} {D : Multiset AllocatedBuffer} {v : View} {os os' : Multiset (ObjectKey × Footprint)}
  {k : ObjectKey} {f : Footprint} {t : ObjectMap} {o : ObjectMetadata}

@[simp] lemma bufferSum_cons (e : ObjectKey × Footprint) :
    bufferSum (e ::ₘ os) = e.2.buffers + bufferSum os := by
  simp [bufferSum]

@[simp] lemma idSum_cons (e : ObjectKey × Footprint) : idSum (e ::ₘ os) = e.2.ids + idSum os := by
  simp [idSum]

@[simp] lemma bufferSum_zero : bufferSum 0 = 0 := rfl

@[simp] lemma idSum_zero : idSum 0 = 0 := rfl

lemma idSum_le (h : os ≤ os') : idSum os ≤ idSum os' := by
  obtain ⟨r, rfl⟩ := Multiset.le_iff_exists_add.mp h
  simp [idSum]

/-! ### Footprints of an object map -/

lemma footprint_withStatus (status : ReplicaStatus) (o : ObjectMetadata) :
    (o.withStatus status).footprint = o.footprint := by
  simp only [ObjectMetadata.footprint, ObjectMetadata.withStatus, items_mapEntries,
    Multiset.map_map]
  rfl

lemma footprint_eq_of_shuffled {o' : ObjectMetadata} (h : o.Shuffled o') :
    o'.footprint = o.footprint := by
  rw [ObjectMetadata.footprint, ObjectMetadata.footprint, h.1.items_eq]

lemma replicaBuffers_values (o : ObjectMetadata) :
    replicaBuffers o.replicas.values = o.footprint.buffers := by
  simp only [replicaBuffers, Footprint.buffers, ObjectMetadata.footprint, AList.values, AList.items,
    map_coe, filterMap_coe, List.filterMap_map]
  rfl

lemma footprints_insert (h : k ∉ t) :
    footprints (t.insert k o) = (k, o.footprint) ::ₘ footprints t := by
  simp only [footprints, items_insert h, Multiset.map_cons]

lemma footprints_erase (h : t.lookup k = some o) :
    footprints t = (k, o.footprint) ::ₘ footprints (t.erase k) := by
  simp only [footprints, items_eq_cons_erase h, Multiset.map_cons]

lemma mem_footprints_of_lookup (h : t.lookup k = some o) : (k, o.footprint) ∈ footprints t := by
  rw [footprints_erase h]
  exact Multiset.mem_cons_self _ _

lemma footprints_erase_of_none (h : t.lookup k = none) : footprints (t.erase k) = footprints t := by
  rw [AList.erase_of_notMem (lookup_eq_none.mp h)]

lemma mem_keys_footprints : k ∈ (footprints t).map Prod.fst ↔ k ∈ t := by
  rw [footprints, Multiset.map_map]
  constructor
  · intro h
    obtain ⟨e, he, rfl⟩ := Multiset.mem_map.mp h
    exact mem_iff_exists_lookup.mpr ⟨e.2, mem_items.mp he⟩
  · intro h
    obtain ⟨o, ho⟩ := mem_iff_exists_lookup.mp h
    exact Multiset.mem_map.mpr ⟨⟨k, o⟩, mem_items.mpr ho, rfl⟩

lemma footprints_congr {t' : ObjectMap}
    (h : ∀ k, (t'.lookup k).map ObjectMetadata.footprint = (t.lookup k).map ObjectMetadata.footprint) :
    footprints t' = footprints t := by
  have hitems : (t'.mapEntries fun _ o => o.footprint).items =
      (t.mapEntries fun _ o => o.footprint).items :=
    items_ext fun k => by rw [lookup_mapEntries, lookup_mapEntries, h]
  have hmap := congrArg (Multiset.map fun e => (e.1, e.2)) hitems
  simpa [footprints, items_mapEntries, comp_def] using hmap

lemma footprints_update {g : ObjectMetadata → ObjectMetadata}
    (hg : ∀ o, (g o).footprint = o.footprint) (k : ObjectKey) (t : ObjectMap) :
    footprints (t.update k g) = footprints t := by
  refine footprints_congr fun k' => ?_
  rw [lookup_update]
  split_ifs
  · rw [Option.map_map]
    exact congrArg (fun f => (t.lookup k').map f) (funext hg)
  · rfl

lemma Shuffle.exists_lookup {s s' : MasterService} (h : Shuffle s s') (ho : s.objects.lookup k = some o) :
    ∃ o', s'.objects.lookup k = some o' ∧ o.Shuffled o' := by
  have hobj := h.objects k
  rw [ho] at hobj
  revert hobj
  generalize s'.objects.lookup k = o'
  rintro (hsame | -)
  exact ⟨_, rfl, hsame⟩

lemma Shuffle.exists_before {s s' : MasterService} (h : Shuffle s s') (ho : s'.objects.lookup k = some o) :
    ∃ o₀, s.objects.lookup k = some o₀ ∧ o₀.Shuffled o := by
  have hobj := h.objects k
  rw [ho] at hobj
  revert hobj
  generalize s.objects.lookup k = o₀
  rintro (hsame | -)
  exact ⟨_, rfl, hsame⟩

lemma ObjectMetadata.Shuffled.hasCompleteReplica_eq {o' : ObjectMetadata} (h : o.Shuffled o') :
    o'.hasCompleteReplica = o.hasCompleteReplica := by
  have hvalues : o.replicas.values.Perm o'.replicas.values := h.1.map _
  exact hvalues.any_eq.symm

lemma view_shuffle {s s' : MasterService} (h : Shuffle s s') : s'.view = s.view := by
  have hsegs : s'.segments = s.segments := by rw [h.rest]
  have hobjs : footprints s'.objects = footprints s.objects := by
    refine footprints_congr fun k => ?_
    have hk := h.objects k
    revert hk
    generalize s.objects.lookup k = x
    generalize s'.objects.lookup k = y
    rintro (ho | -)
    · exact congrArg some (footprint_eq_of_shuffled ho)
    · rfl
  simp only [MasterService.view, hsegs, hobjs]

/-! ### The steps of the holder -/

lemma Owes.take (h : Owes exact D v) (hv : v.objects = (k, f) ::ₘ os) :
    Owes exact (f.buffers + D) ⟨v.segments, os⟩ := by
  refine ⟨h.fleet, ?_, fun e he => h.ok e (hv ▸ Multiset.mem_cons_of_mem he), ?_, fun i hi => ?_, h.next_lt⟩
  · rw [h.live_eq, hv, bufferSum_cons]
    abel
  · have hnd := h.ids_nodup
    rw [hv, idSum_cons] at hnd
    exact nodup_of_le (Multiset.le_add_left _ _) hnd
  · exact h.ids_lt i (by rw [hv, idSum_cons]; exact mem_add.mpr (.inr hi))

/-- What is owed for an object that was taken out of the map, if there was one. -/
def owed : Option ObjectMetadata → Multiset AllocatedBuffer
  | none => 0
  | some o => o.footprint.buffers

variable {g : SegmentState}

lemma Owes.takeOut (h : Owes exact 0 ⟨g, footprints t⟩) (k : ObjectKey) :
    Owes exact (owed (t.lookup k)) ⟨g, footprints (t.erase k)⟩ := by
  cases ho : t.lookup k with
  | none => rwa [owed, footprints_erase_of_none ho]
  | some o => simpa only [owed, add_zero] using h.take (footprints_erase ho)

lemma footprints_erase_le (t : ObjectMap) (k : ObjectKey) : footprints (t.erase k) ≤ footprints t := by
  cases ho : t.lookup k with
  | none => rw [footprints_erase_of_none ho]
  | some o =>
    rw [footprints_erase ho]
    exact le_cons_self _ _

lemma Owes.free {B : Multiset AllocatedBuffer} (h : Owes exact (B + D) v) {o : ObjectMetadata}
    (ho : o.footprint.buffers = B) :
    Wp (SegmentState.freeReplicas o.replicas) (fun _ g => Owes exact D ⟨g, v.objects⟩ ∧
      SameFleet v.segments.allocators g.allocators ∧
      g.nextReplicaId = v.segments.nextReplicaId ∧ g.strategy = v.segments.strategy) v.segments := by
  rw [SegmentState.freeReplicas, SegmentState.onAllocators, wp_focus]
  have hlive : liveBuffers v.segments.allocators =
      replicaBuffers o.replicas.values + (bufferSum v.objects + D) := by
    rw [h.live_eq, replicaBuffers_values, ho]
    abel
  refine (freeEach_spec h.fleet hlive).mono ?_
  rintro _ as ⟨hok, hsame, hlive'⟩
  exact ⟨⟨hok, hlive', h.ok, h.ids_nodup, h.ids_lt, h.next_lt⟩, hsame, rfl, rfl⟩

lemma Owes.place (h : Owes False D v) (size replicaNum : ℕ) (preferred : Option SegmentName) :
    Wp (MasterService.askStrategy size replicaNum preferred) (fun r g =>
      SameFleet v.segments.allocators g.allocators ∧
      g.nextReplicaId = v.segments.nextReplicaId ∧ g.strategy = v.segments.strategy ∧
      ((∃ bs : List AllocatedBuffer, r = .ok bs ∧ bs.length = replicaNum ∧
          (∀ b ∈ bs, b.size = size) ∧ (bs.map AllocatedBuffer.segmentName).Nodup ∧
          Owes False (bs + D) ⟨g, v.objects⟩) ∨
        (r = .error .noAvailableSegment ∧ ¬Fits v.segments.allocators size replicaNum ∧
          Owes False D ⟨g, v.objects⟩))) v.segments := by
  change Wp (SegmentState.onAllocators _) _ v.segments
  rw [SegmentState.onAllocators, wp_focus]
  refine (AllocationStrategy.allocate_spec v.segments.strategy size replicaNum preferred h.fleet).mono ?_
  rintro r as (⟨bs, rfl, hlen, hp⟩ | ⟨rfl, hfits, rfl⟩)
  · refine ⟨hp.same, rfl, rfl, .inl ⟨bs, rfl, hlen, hp.size_eq, hp.names_nodup, hp.ok, ?_, h.ok,
      h.ids_nodup, h.ids_lt, h.next_lt⟩⟩
    rw [hp.live_eq, h.live_eq]
    abel
  · exact ⟨SameFleet.refl _, rfl, rfl, .inr ⟨rfl, hfits, h⟩⟩

/-- The footprint of fresh replicas for `bs`, with ids from `n` on. -/
def granted (n : ℕ) (bs : List AllocatedBuffer) : Footprint :=
  ((bs.zipIdx n).map fun b => (b.2, b.2, .memory b.1) : List (ReplicaId × ReplicaId × ReplicaData))

lemma granted_buffers (n : ℕ) (bs : List AllocatedBuffer) : (granted n bs).buffers = bs := by
  rw [granted, Footprint.buffers, filterMap_coe, List.filterMap_map]
  have hfun : (fun r : ReplicaId × ReplicaId × ReplicaData => r.2.2.buffer?) ∘
      (fun b : AllocatedBuffer × ℕ => (b.2, b.2, ReplicaData.memory b.1)) = some ∘ Prod.fst := rfl
  rw [hfun, List.filterMap_eq_map, zipIdx_map_fst]

lemma granted_ids (n : ℕ) (bs : List AllocatedBuffer) :
    (granted n bs).ids = (List.range' n bs.length : List ℕ) := by
  rw [granted, Footprint.ids, map_coe, List.map_map, ← zipIdx_map_snd n bs]
  rfl

variable {bs : List AllocatedBuffer}

lemma granted_ok {n : ℕ} (hnames : (bs.map AllocatedBuffer.segmentName).Nodup) : (granted n bs).Ok := by
  refine ⟨fun r hr => ?_, fun r hr => ?_, ?_⟩
  · obtain ⟨b, -, rfl⟩ := List.mem_map.mp (mem_coe.mp hr)
    exact ⟨b.1, rfl⟩
  · obtain ⟨b, -, rfl⟩ := List.mem_map.mp (mem_coe.mp hr)
    rfl
  · rw [granted_buffers, map_coe]
    exact coe_nodup.mpr hnames

lemma assignIds_spec {acc : ReplicaList} (hacc : ∀ i ∈ acc, i < g.nextReplicaId)
    (hinit : ∀ r ∈ acc.values, r.status = .initialized) :
    Pc (MasterService.assignIds bs acc) (fun rs g' =>
      g' = { g with nextReplicaId := g.nextReplicaId + bs.length } ∧
      (g.nextReplicaId < 2 ^ 32 → g'.nextReplicaId < 2 ^ 32) ∧
      (∀ r ∈ rs.values, r.status = .initialized) ∧
      rs.items.map (fun e => (e.1, e.2.id, e.2.data)) = granted g.nextReplicaId bs +
        acc.items.map fun e => (e.1, e.2.id, e.2.data)) g := by
  induction bs generalizing acc g with
  | nil =>
    rw [MasterService.assignIds, pc_pure]
    exact ⟨rfl, id, hinit, by simp [granted]⟩
  | cons b bs ih =>
    have hfresh : g.nextReplicaId ∉ acc := fun hmem => (hacc _ hmem).ne rfl
    simp only [MasterService.assignIds, pc_bind, pc_get, pc_addChecked, pc_set]
    intro hlt
    refine (ih (fun i hi => ?_) (fun r hr => ?_)).mono ?_
    · rcases (mem_insert acc).mp hi with rfl | hi
      · exact Nat.lt_succ_self _
      · exact Nat.lt_succ_of_lt (hacc i hi)
    · rw [AList.values, entries_insert_of_notMem hfresh, List.map_cons, List.mem_cons] at hr
      rcases hr with rfl | hr
      · rfl
      · exact hinit r hr
    · rintro rs g' ⟨rfl, hnext, hst, hfp⟩
      refine ⟨?_, fun _ => hnext hlt, hst, ?_⟩
      · refine congrArg (fun n => { g with nextReplicaId := n }) ?_
        rw [length_cons, Nat.add_assoc, Nat.add_comm 1]
      · rw [hfp, items_insert hfresh, Multiset.map_cons, granted, granted, zipIdx_cons,
          List.map_cons, ← cons_coe, add_cons, cons_add]
        rfl

lemma assignIds_empty (bs : List AllocatedBuffer) (g : SegmentState) :
    Pc (MasterService.assignIds bs ∅) (fun rs g' =>
      g' = { g with nextReplicaId := g.nextReplicaId + bs.length } ∧
      (g.nextReplicaId < 2 ^ 32 → g'.nextReplicaId < 2 ^ 32) ∧
      (∀ r ∈ rs.values, r.status = .initialized) ∧
      rs.items.map (fun e => (e.1, e.2.id, e.2.data)) = granted g.nextReplicaId bs) g := by
  refine (assignIds_spec (by simp) (by simp [AList.values])).mono ?_
  rintro rs g' ⟨hg', hlt, hinit, hfp⟩
  rw [items_empty, Multiset.map_zero, add_zero] at hfp
  exact ⟨hg', hlt, hinit, hfp⟩

lemma Owes.insert {n : ℕ} (h : Owes exact bs ⟨g, os⟩) (hids : ∀ i ∈ idSum os, i < n)
    (hnext : g.nextReplicaId = n + bs.length) (hnames : (bs.map AllocatedBuffer.segmentName).Nodup) :
    Owes exact 0 ⟨g, (k, granted n bs) ::ₘ os⟩ := by
  refine ⟨h.fleet, ?_, fun e he => ?_, ?_, fun i hi => ?_, h.next_lt⟩
  · rw [h.live_eq, bufferSum_cons, granted_buffers]
    abel
  · rcases Multiset.mem_cons.mp he with rfl | he
    · exact granted_ok hnames
    · exact h.ok e he
  · rw [idSum_cons, granted_ids, nodup_add]
    refine ⟨coe_nodup.mpr nodup_range', h.ids_nodup, ?_⟩
    refine Multiset.disjoint_left.mpr fun {i} hi hi' => ?_
    have hge := (mem_range'_1.mp (mem_coe.mp hi)).1
    exact absurd (hids i hi') (not_lt.mpr hge)
  · rw [idSum_cons, granted_ids] at hi
    rcases mem_add.mp hi with hi | hi
    · have hlt := (mem_range'_1.mp (mem_coe.mp hi)).2
      exact hnext.symm ▸ hlt
    · exact h.ids_lt i hi

/-! ### Buffers of objects -/

lemma mem_footprint_buffers {b : AllocatedBuffer} :
    b ∈ o.footprint.buffers ↔ ∃ r ∈ o.replicas.values, r.data = .memory b := by
  rw [← replicaBuffers_values, replicaBuffers, mem_coe, List.mem_filterMap]
  refine exists_congr fun r => and_congr_right fun _ => ?_
  cases hr : r.data with
  | memory c => simp
  | disk path n => simp

lemma Owes.footprint_ok (h : Owes exact D ⟨g, footprints t⟩) (ho : t.lookup k = some o) :
    o.footprint.Ok := h.ok _ (mem_footprints_of_lookup ho)

lemma mem_bufferSum {b : AllocatedBuffer} (ho : t.lookup k = some o) (hb : b ∈ o.footprint.buffers) :
    b ∈ bufferSum (footprints t) := by
  rw [footprints_erase ho, bufferSum_cons]
  exact mem_add.mpr (.inl hb)

lemma Owes.mem_live {b : AllocatedBuffer} (h : Owes exact D ⟨g, footprints t⟩) (ho : t.lookup k = some o)
    (hb : b ∈ o.footprint.buffers) : b ∈ liveBuffers g.allocators := by
  rw [show liveBuffers g.allocators = _ from h.live_eq]
  exact mem_add.mpr (Or.inl (mem_bufferSum ho hb))

lemma Owes.disjoint_of_ne {k' : ObjectKey} {o' : ObjectMetadata} {b b' : AllocatedBuffer}
    (h : Owes exact D ⟨g, footprints t⟩) (ho : t.lookup k = some o) (ho' : t.lookup k' = some o') (hne : k' ≠ k)
    (hb : b ∈ o.footprint.buffers) (hb' : b' ∈ o'.footprint.buffers) (hname : b.segmentName = b'.segmentName) :
    RangesDisjoint b.offset b.size b'.offset b'.size := by
  refine h.fleet.disjoint (h.mem_live ho hb) (h.mem_live ho' hb') ?_ hname
  rintro rfl
  -- the buffer would be handed out twice
  have hnodup : (bufferSum (footprints t)).Nodup := by
    have hlive := h.fleet.liveBuffers_nodup
    rw [h.live_eq] at hlive
    exact nodup_of_le (Multiset.le_add_right _ _) hlive
  have hrest : (t.erase k).lookup k' = some o' := by rwa [lookup_erase_ne hne]
  rw [footprints_erase ho, bufferSum_cons, nodup_add] at hnodup
  exact Multiset.disjoint_left.mp hnodup.2.2 hb (mem_bufferSum hrest hb')

/-! ### Mounting and unmounting -/

lemma Owes.push {name : SegmentName} {capacity : ℕ} (h : Owes exact D v)
    (hname : name ∉ v.segments.allocators.map OffsetBufferAllocator.segmentName)
    (hcap : capacity < 2 ^ 64) :
    ∃ a, OffsetBufferAllocator.new name capacity = some a ∧ a.segmentName = name ∧
      a.inner.capacity = capacity ∧
      Owes exact D ⟨{ v.segments with allocators := v.segments.allocators ++ [a] }, v.objects⟩ := by
  have hspec : ∃ a, OffsetBufferAllocator.new name capacity = some a ∧ a.Valid exact ∧ _ :=
    OffsetBufferAllocator.new_spec name hcap
  obtain ⟨a, hnew, hvalid, hseg, hcapacity, hbufs⟩ := hspec
  refine ⟨a, hnew, hseg, hcapacity, ⟨fun c hc => ?_, ?_⟩, ?_, h.ok, h.ids_nodup, h.ids_lt, h.next_lt⟩
  · rcases mem_append.mp hc with hc | hc
    · exact h.fleet.valid c hc
    · rw [List.mem_singleton.mp hc]
      exact hvalid
  · rw [map_append, List.map_singleton, hseg]
    refine nodup_append.mpr ⟨h.fleet.names_nodup, List.nodup_singleton _, fun x hx y hy => ?_⟩
    rw [List.mem_singleton.mp hy]
    rintro rfl
    exact hname hx
  · rw [liveBuffers_append, h.live_eq]
    simp [liveBuffers, hbufs]

/-- The footprints that are left when the segment `name` goes. -/
def dropFootprints (name : SegmentName) (os : Multiset (ObjectKey × Footprint)) :
    Multiset (ObjectKey × Footprint) :=
  (os.map fun e => (e.1, e.2.filter fun r => r.2.2.segmentName ≠ some name)).filter fun e => e.2 ≠ 0

lemma footprint_withoutSegment (name : SegmentName) (o : ObjectMetadata) :
    (o.withoutSegment name).footprint = o.footprint.filter fun r => r.2.2.segmentName ≠ some name := by
  simp only [ObjectMetadata.footprint, ObjectMetadata.withoutSegment, items_retain,
    Multiset.filter_map]
  refine congrArg _ (Multiset.filter_congr fun e _ => ?_)
  exact decide_eq_true_iff

lemma footprints_dropSegmentReplicas (name : SegmentName) (t : ObjectMap) :
    footprints (MasterService.dropSegmentReplicas name t) = dropFootprints name (footprints t) := by
  have hempty : ∀ o : ObjectMetadata, (!o.replicas.entries.isEmpty) = true ↔ o.footprint ≠ 0 := by
    intro o
    simp [ObjectMetadata.footprint, AList.items]
  simp only [footprints, MasterService.dropSegmentReplicas, items_retain, items_mapEntries,
    dropFootprints, Multiset.filter_map, Multiset.map_map]
  refine congrArg₂ _ ?_ (Multiset.filter_congr fun e _ => ?_)
  · funext e
    simp only [comp_apply, footprint_withoutSegment]
  · simp only [comp_apply, hempty, footprint_withoutSegment]

lemma buffers_filter (name : SegmentName) (f : Footprint) :
    Footprint.buffers (f.filter fun r => r.2.2.segmentName ≠ some name) =
      f.buffers.filter fun b => b.segmentName ≠ name := by
  rw [Footprint.buffers, Footprint.buffers, Multiset.filterMap_filter, Multiset.filter_filterMap]
  refine congrArg (fun g => Multiset.filterMap g f) (funext fun r => ?_)
  obtain ⟨i, j, b | ⟨path, n⟩⟩ := r
  · by_cases hb : b.segmentName = name <;> simp [hb, Option.filter]
  · simp

lemma bufferSum_dropFootprints (name : SegmentName) (os : Multiset (ObjectKey × Footprint)) :
    bufferSum (dropFootprints name os) = (bufferSum os).filter fun b => b.segmentName ≠ name := by
  induction os using Multiset.induction_on with
  | empty => rfl
  | cons e os ih =>
    rw [bufferSum_cons, filter_add, ← ih, ← buffers_filter, dropFootprints, Multiset.map_cons]
    by_cases hzero : (e.2.filter fun r => r.2.2.segmentName ≠ some name) = 0
    · rw [Multiset.filter_cons_of_neg _ (by simpa using hzero), hzero]
      exact (zero_add _).symm
    · rw [Multiset.filter_cons_of_pos _ (by simpa using hzero), bufferSum_cons]
      rfl

lemma idSum_dropFootprints_le (name : SegmentName) (os : Multiset (ObjectKey × Footprint)) :
    idSum (dropFootprints name os) ≤ idSum os := by
  refine (idSum_le (filter_le _ _)).trans ?_
  induction os using Multiset.induction_on with
  | empty => rfl
  | cons e os ih =>
    rw [Multiset.map_cons, idSum_cons, idSum_cons]
    exact add_le_add (map_le_map (filter_le _ _)) ih

lemma liveBuffers_filter (name : SegmentName) (as : List OffsetBufferAllocator) :
    liveBuffers (as.filter fun a => a.segmentName ≠ name) =
      (liveBuffers as).filter fun b => b.segmentName ≠ name := by
  induction as with
  | nil => rfl
  | cons a as ih =>
    rw [liveBuffers_cons, filter_add, ← ih]
    by_cases ha : a.segmentName = name
    · have hnone : a.buffers.filter (fun b => b.segmentName ≠ name) = 0 :=
        filter_eq_nil.mpr fun b hb =>
          not_not.mpr ((OffsetBufferAllocator.segmentName_of_mem hb).trans ha)
      rw [List.filter_cons_of_neg (by simpa using ha), hnone, zero_add]
    · have hall : a.buffers.filter (fun b => b.segmentName ≠ name) = a.buffers :=
        Multiset.filter_eq_self.mpr fun b hb =>
          (OffsetBufferAllocator.segmentName_of_mem hb).symm ▸ ha
      rw [List.filter_cons_of_pos (by simpa using ha), liveBuffers_cons, hall]

lemma Owes.dropReplicas (h : Owes exact D v) (name : SegmentName) :
    Owes exact ((bufferSum v.objects).filter (fun b => ¬b.segmentName ≠ name) + D)
      ⟨v.segments, dropFootprints name v.objects⟩ := by
  have hids := idSum_dropFootprints_le name v.objects
  refine ⟨h.fleet, ?_, fun e he => ?_, nodup_of_le hids h.ids_nodup,
    fun i hi => h.ids_lt i (mem_of_le hids hi), h.next_lt⟩
  · rw [h.live_eq, bufferSum_dropFootprints, ← add_assoc, filter_add_not]
  · obtain ⟨e', he', rfl⟩ := Multiset.mem_map.mp (Multiset.mem_of_mem_filter he)
    have hok := h.ok e' he'
    refine ⟨fun r hr => hok.memory r (Multiset.mem_of_mem_filter hr),
      fun r hr => hok.id_eq r (Multiset.mem_of_mem_filter hr), ?_⟩
    rw [buffers_filter]
    exact nodup_of_le (map_le_map (filter_le _ _)) hok.distinct

lemma Owes.dropAllocator {name : SegmentName} (h : Owes exact D v)
    (hobjs : ∀ b ∈ bufferSum v.objects, b.segmentName ≠ name) :
    Owes exact (D.filter fun b => b.segmentName ≠ name)
      ⟨{ v.segments with allocators := v.segments.allocators.filter fun a => a.segmentName ≠ name },
        v.objects⟩ := by
  refine ⟨⟨fun a ha => h.fleet.valid a (List.mem_of_mem_filter ha), ?_⟩, ?_, h.ok, h.ids_nodup,
    h.ids_lt, h.next_lt⟩
  · exact (filter_sublist.map _).nodup h.fleet.names_nodup
  · rw [liveBuffers_filter, h.live_eq, filter_add, Multiset.filter_eq_self.mpr hobjs]

end views

end QuillCache.Store
