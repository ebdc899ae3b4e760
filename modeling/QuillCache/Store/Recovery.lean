import QuillCache.Store.MasterSerial

/-!
# Recovering a master: snapshots and the op-log

Both ways to rebuild a master mount its segments anew and then re-reserve the exact range of every recovered replica,
one by one, in the allocators (`reserveBuffer`). The live allocators have handed out ranges that were rounded up, so the
free space of the two is laid out differently. What decides whether the reservations succeed is a `Packing`: the ranges
lie side by side inside the segments, which are not scaled, and there are not too many on one segment. Then they succeed
in any order (`reserveEach_spec`, `commitEach_spec`).

Source: `master_service.rs`.
-/

namespace QuillCache.Store

open Lib Multiset

/-! ## The model -/

namespace SegmentState

def reserveBuffer (buffer : AllocatedBuffer) : Exec (List OffsetBufferAllocator) (Except ErrorCode Unit) := fun as =>
  match as.findIdx? fun a => BufferAllocator.segmentName a = buffer.segmentName with
  | none => some (.error .segmentNotFound, as)
  | some i => (onAllocator i (BufferAllocator.reserve buffer.offset buffer.size) as).map fun r =>
    (if r.1 then .ok () else .error .invalidReplica, r.2)

def reserveData : ReplicaData → Exec (List OffsetBufferAllocator) (Except ErrorCode Unit)
  | .memory buffer => reserveBuffer buffer
  | .disk _ _ => return .ok ()

def reserveEach : List Replica → Exec (List OffsetBufferAllocator) (Except ErrorCode Unit)
  | [] => return .ok ()
  | r :: rs => do
    match ← reserveData r.data with
    | .error e => return .error e
    | .ok () => reserveEach rs

/-- The reservations of `apply_op` for one object, which also advance the next replica id. -/
def commitEach : List Replica → Exec SegmentState (Except ErrorCode Unit)
  | [] => return .ok ()
  | r :: rs => do
    match ← onAllocators (reserveData r.data) with
    | .error e => return .error e
    | .ok () => do
      let next ← addChecked 32 r.id 1
      modify fun s => { s with nextReplicaId := max s.nextReplicaId next }
      commitEach rs

end SegmentState

def ReplicaList.ofList (replicas : List Replica) : ReplicaList := AList.insertAll Replica.id id ∅ replicas

structure SegmentSnapshot where
  name : SegmentName
  capacity : ℕ

structure ObjectSnapshot where
  key : ObjectKey
  replicas : List Replica
  identity : IdentityScope
  leaseUntil : ℕ
  lastAccess : ℕ
  softPinned : Bool
  hardPinned : Bool

structure MasterSnapshot where
  version : ℕ
  strategy : String
  clock : ℕ
  leaseTtl : ℕ
  highWatermark : F64
  evictionRatio : F64
  segmentTtl : ℕ
  nextReplicaId : ReplicaId
  segments : List SegmentSnapshot
  objects : List ObjectSnapshot

def ObjectMetadata.toSnapshot (key : ObjectKey) (o : ObjectMetadata) : ObjectSnapshot :=
  ⟨key, o.replicas.values, o.identity, o.leaseUntil, o.lastAccess, o.softPinned, o.hardPinned⟩

def ObjectSnapshot.toMetadata (obj : ObjectSnapshot) : ObjectMetadata :=
  ⟨.ofList obj.replicas, obj.identity, obj.leaseUntil, obj.lastAccess, obj.softPinned, obj.hardPinned⟩

namespace MasterService

open Prog

def snapshot : MasterProg MasterSnapshot := do
  acquire
  let objects ← read fun s => some (s.objects.entries.map fun e => e.2.toSnapshot e.1)
  let clock ← now
  let segmentTtl ← read fun s => some s.segmentTtl
  let s ← read some
  release
  return {
    version := 1, strategy := s.strategyName, clock, leaseTtl := s.leaseTtl, highWatermark := s.highWatermark
    evictionRatio := s.evictionRatio, segmentTtl, nextReplicaId := s.segments.nextReplicaId
    segments := s.segments.allocators.map fun a => ⟨a.segmentName, a.inner.capacity⟩, objects }

def mountAll : List SegmentSnapshot → Exec MasterService Unit
  | [] => return ()
  | seg :: segs => do
    (mountSegment seg.name seg.capacity).run
    mountAll segs

def ownSegments {α : Type} (m : Exec SegmentState α) : Exec MasterService α :=
  focus segments (fun s t => { s with segments := t }) m

def restoreAll : List ObjectSnapshot → Exec MasterService (Except ErrorCode Unit)
  | [] => return .ok ()
  | obj :: objs => do
    match ← ownSegments (SegmentState.onAllocators (SegmentState.reserveEach obj.replicas)) with
    | .error e => return .error e
    | .ok () => do
      modify fun s => { s with objects := s.objects.insert obj.key obj.toMetadata }
      restoreAll objs

def prepared (snapshot : MasterSnapshot) : MasterService :=
  { new snapshot.strategy with
    clock := snapshot.clock, segmentTtl := snapshot.segmentTtl, leaseTtl := snapshot.leaseTtl
    highWatermark := snapshot.highWatermark, evictionRatio := snapshot.evictionRatio }

/-- Rebuild a master from a snapshot; `none` is a panic. -/
def recover (snapshot : MasterSnapshot) : Option (Except ErrorCode MasterService) := do
  let (_, mounted) ← mountAll snapshot.segments (prepared snapshot)
  let (result, restored) ← restoreAll snapshot.objects mounted
  return result.map fun _ =>
    { restored with segments := { restored.segments with nextReplicaId := snapshot.nextReplicaId } }

def applyOp : OpLogEntry → Exec MasterService (Except ErrorCode Unit)
  | .segmentMounted name capacity => do
    (mountSegment name capacity).run
    return .ok ()
  | .segmentUnmounted name => do
    let _ ← (unmountSegment name).run
    return .ok ()
  | .removed key => do
    let s ← get
    match s.objects.lookup key with
    | none => return .ok ()
    | some o => do
      set { s with objects := s.objects.erase key }
      ownSegments (SegmentState.freeReplicas o.replicas)
      return .ok ()
  | .putCommitted key identity replicas softPinned hardPinned => do
    match ← ownSegments (SegmentState.commitEach replicas) with
    | .error e => return .error e
    | .ok () => do
      modify fun s => { s with objects := s.objects.insert key {
        replicas := .ofList replicas, identity, leaseUntil := 0, lastAccess := s.clock, softPinned, hardPinned } }
      return .ok ()

def applyAll : List OpLogEntry → Exec MasterService (Except ErrorCode Unit)
  | [] => return .ok ()
  | entry :: entries => do
    match ← applyOp entry with
    | .error e => return .error e
    | .ok () => applyAll entries

/-- Rebuild a master from the entries that `OpLog::replay` reads; `none` is a panic. -/
def recoverFromOplog (strategy : String) (entries : List OpLogEntry) : Option (Except ErrorCode MasterService) :=
  (applyAll entries (new strategy)).map fun r => r.1.map fun _ => r.2

end MasterService

/-! ## Exact reservations -/

/-- The buffers lie side by side on the segments, which are not scaled, and no segment has too many of them. -/
structure Packing (as : List OffsetBufferAllocator) (T : Multiset AllocatedBuffer) : Prop where
  unscaled : ∀ a ∈ as, a.inner.multiplierBits = 0
  nodup : T.Nodup
  disjoint : ∀ x ∈ T, ∀ y ∈ T, x ≠ y → x.segmentName = y.segmentName →
    RangesDisjoint x.offset x.size y.offset y.size
  bounds : ∀ x ∈ T, ∃ a ∈ as, a.segmentName = x.segmentName ∧ 0 < x.size ∧ x.offset + x.size ≤ a.inner.capacity
  few : ∀ name, (T.filter fun x => x.segmentName = name).card ≤ 2 ^ 20

section reserve

variable {as as' : List OffsetBufferAllocator} {T T' : Multiset AllocatedBuffer} {x : AllocatedBuffer}

lemma Packing.mono (h : Packing as T) (hle : T' ≤ T) : Packing as T' := by
  refine ⟨h.unscaled, nodup_of_le hle h.nodup, fun x hx y hy => ?_, fun x hx => ?_, fun name => ?_⟩
  · exact h.disjoint x (mem_of_le hle hx) y (mem_of_le hle hy)
  · exact h.bounds x (mem_of_le hle hx)
  · exact (card_le_card (filter_le_filter _ hle)).trans (h.few name)

lemma Packing.same (h : Packing as T) (hsame : SameFleet as as') : Packing as' T := by
  refine ⟨fun a' ha' => ?_, h.nodup, h.disjoint, fun x hx => ?_, h.few⟩
  · obtain ⟨a, ha, haa⟩ := hsame.exists_same ha'
    rw [haa.multiplierBits_eq]
    exact h.unscaled a ha
  · obtain ⟨a, ha, hname, hpos, hle⟩ := h.bounds x hx
    obtain ⟨a', ha', haa⟩ := exists_right_of_forall₂ hsame ha
    exact ⟨a', ha', haa.segmentName_eq.trans hname, hpos, haa.capacity_eq.symm ▸ hle⟩

lemma packing_of_fleet {exact : Prop} (h : FleetOk exact as) (hfew : ∀ a ∈ as, a.live.entries.length < 2 ^ 20)
    (hunscaled : ∀ a ∈ as', a.inner.multiplierBits = 0)
    (hsame : ∀ a ∈ as, ∃ a' ∈ as', a'.segmentName = a.segmentName ∧ a'.inner.capacity = a.inner.capacity) :
    Packing as' (liveBuffers as) := by
  refine ⟨hunscaled, h.liveBuffers_nodup, fun x hx y hy => h.disjoint hx hy, fun x hx => ?_, fun name => ?_⟩
  · obtain ⟨a, ha, hname, hpos, hle⟩ := h.bounds hx
    obtain ⟨a', ha', hname', hcap⟩ := hsame a ha
    exact ⟨a', ha', hname'.trans hname, hpos, hcap.symm ▸ hle⟩
  · by_cases hname : ∃ a ∈ as, a.segmentName = name
    · obtain ⟨a, ha, rfl⟩ := hname
      have hcard : a.buffers.card = a.live.entries.length := card_map _ _
      have hledger : a.buffers = (liveBuffers as).filter fun b => b.segmentName = a.segmentName := h.buffers_eq ha
      rw [← hledger, hcard]
      exact (hfew a ha).le
    · rw [filter_eq_nil.mpr]
      · exact Nat.zero_le _
      · intro x hx hxname
        obtain ⟨a, ha, hax, -⟩ := h.bounds hx
        exact hname ⟨a, ha, hax.trans hxname⟩

/-- A range of a packing can be reserved beside those that are. -/
theorem reserveBuffer_spec (h : FleetOk True as) (hpack : Packing as (x ::ₘ liveBuffers as)) :
    Wp (SegmentState.reserveBuffer x) (fun r as' => r = .ok () ∧ FleetOk True as' ∧ SameFleet as as' ∧
      liveBuffers as' = x ::ₘ liveBuffers as) as := by
  obtain ⟨a, ha, hname, hpos, hle⟩ := hpack.bounds x (mem_cons_self _ _)
  obtain ⟨i, hfind, hi⟩ := h.findIdx?_name ha
  rw [hname] at hfind
  have hcard : a.buffers.card < 2 ^ 20 := by
    have hfew := hpack.few x.segmentName
    rwa [filter_cons_of_pos (p := fun y : AllocatedBuffer => y.segmentName = x.segmentName) _ rfl,
      card_cons, ← hname, ← h.buffers_eq ha] at hfew
  have hdisj : ∀ y ∈ a.buffers, RangesDisjoint x.offset x.size y.offset y.size := by
    intro y hy
    have hlive : y ∈ liveBuffers as := mem_liveBuffers.mpr ⟨a, ha, hy⟩
    have hne : x ≠ y := by
      rintro rfl
      exact (nodup_cons.mp hpack.nodup).1 hlive
    exact hpack.disjoint x (mem_cons_self _ _) y (mem_cons_of_mem hlive) hne
      (hname.symm.trans (OffsetBufferAllocator.segmentName_of_mem hy).symm)
  have hspec := onAllocator_spec hi (OffsetBufferAllocator.reserve_spec (h.valid a ha) (hpack.unscaled a ha) hcard
    hpos hname.symm hle hdisj)
  obtain ⟨r, as', hrun, a', ⟨rfl, hvalid, hsame, hbufs⟩, rfl⟩ := hspec
  refine ⟨.ok (), as.set i a', ?_, rfl, h.set hi hvalid hsame, sameFleet_set hi hsame, ?_⟩
  · simp only [SegmentState.reserveBuffer, hfind]
    exact Option.map_eq_some_iff.mpr ⟨_, hrun, rfl⟩
  · have hset : liveBuffers (as.set i a') + a.buffers = _ := liveBuffers_set hi
    rw [hbufs, add_cons, ← cons_add] at hset
    exact add_right_cancel hset

def dataBuffers (data : ReplicaData) : Multiset AllocatedBuffer := (data.buffer?.toList : List AllocatedBuffer)

lemma replicaBuffers_cons (r : Replica) (rs : List Replica) :
    replicaBuffers (r :: rs) = dataBuffers r.data + replicaBuffers rs := by
  cases hdata : r.data with
  | memory b => simp [replicaBuffers, dataBuffers, hdata]
  | disk path n => simp [replicaBuffers, dataBuffers, hdata]

lemma Packing.head {r : Replica} {rs : List Replica} (h : Packing as (replicaBuffers (r :: rs) + T)) :
    Packing as (dataBuffers r.data + T) := by
  refine h.mono ?_
  rw [replicaBuffers_cons, add_right_comm]
  exact Multiset.le_add_right _ _

lemma reserveData_spec {data : ReplicaData} (h : FleetOk True as)
    (hpack : Packing as (dataBuffers data + liveBuffers as)) :
    Wp (SegmentState.reserveData data) (fun r as' => r = .ok () ∧ FleetOk True as' ∧ SameFleet as as' ∧
      liveBuffers as' = dataBuffers data + liveBuffers as) as := by
  cases data with
  | memory b =>
    rw [show dataBuffers (.memory b) + liveBuffers as = b ::ₘ liveBuffers as from rfl] at hpack ⊢
    exact reserveBuffer_spec h hpack
  | disk path n =>
    rw [SegmentState.reserveData, wp_pure]
    exact ⟨rfl, h, .refl as, (zero_add _).symm⟩

/-- The reservations of `recover` for one object. -/
theorem reserveEach_spec {rs : List Replica} (h : FleetOk True as)
    (hpack : Packing as (replicaBuffers rs + liveBuffers as)) :
    Wp (SegmentState.reserveEach rs) (fun r as' => r = .ok () ∧ FleetOk True as' ∧ SameFleet as as' ∧
      liveBuffers as' = replicaBuffers rs + liveBuffers as) as := by
  induction rs generalizing as with
  | nil =>
    rw [SegmentState.reserveEach, wp_pure]
    exact ⟨rfl, h, .refl as, by simp [replicaBuffers]⟩
  | cons r rs ih =>
    rw [SegmentState.reserveEach]
    refine Wp.call (reserveData_spec h hpack.head) ?_
    rintro _ as₁ ⟨rfl, hok₁, hsame₁, hlive₁⟩
    have hall : replicaBuffers rs + liveBuffers as₁ = replicaBuffers (r :: rs) + liveBuffers as := by
      rw [hlive₁, replicaBuffers_cons]
      abel
    refine (ih hok₁ (hall ▸ hpack.same hsame₁)).mono ?_
    rintro _ as₂ ⟨hr, hok₂, hsame₂, hlive₂⟩
    exact ⟨hr, hok₂, hsame₁.trans hsame₂, hlive₂.trans hall⟩

/-- The reservations of `apply_op` for one object. -/
theorem commitEach_spec {rs : List Replica} {g : SegmentState} {n : ℕ} (h : FleetOk True g.allocators)
    (hpack : Packing g.allocators (replicaBuffers rs + liveBuffers g.allocators)) (hg : g.nextReplicaId ≤ n)
    (hids : ∀ r ∈ rs, r.id < n) (hn : n < 2 ^ 32) :
    Wp (SegmentState.commitEach rs) (fun r g' => r = .ok () ∧ FleetOk True g'.allocators ∧
      SameFleet g.allocators g'.allocators ∧
      liveBuffers g'.allocators = replicaBuffers rs + liveBuffers g.allocators ∧ g'.strategy = g.strategy ∧
      g.nextReplicaId ≤ g'.nextReplicaId ∧ g'.nextReplicaId ≤ n ∧ ∀ r ∈ rs, r.id < g'.nextReplicaId) g := by
  induction rs generalizing g with
  | nil =>
    rw [SegmentState.commitEach, wp_pure]
    exact ⟨rfl, h, .refl _, by simp [replicaBuffers], rfl, le_rfl, hg, by simp⟩
  | cons r rs ih =>
    have hr := hids r List.mem_cons_self
    rw [SegmentState.commitEach, SegmentState.onAllocators, wp_bind, wp_focus]
    refine (reserveData_spec h hpack.head).mono ?_
    rintro _ as₁ ⟨rfl, hok₁, hsame₁, hlive₁⟩
    simp only [wp_bind, wp_addChecked, wp_modify]
    have hall : replicaBuffers rs + liveBuffers as₁ = replicaBuffers (r :: rs) + liveBuffers g.allocators := by
      rw [hlive₁, replicaBuffers_cons]
      abel
    refine ⟨lt_of_le_of_lt hr hn, (@ih { g with allocators := as₁, nextReplicaId := max g.nextReplicaId (r.id + 1) } hok₁
      (hall ▸ hpack.same hsame₁) (max_le hg hr) fun r' hr' => hids r' (List.mem_cons_of_mem _ hr')).mono ?_⟩
    rintro _ g₂ ⟨hres, hok₂, hsame₂, hlive₂, hstrategy, hge, hle, hlt⟩
    refine ⟨hres, hok₂, hsame₁.trans hsame₂, hlive₂.trans hall, hstrategy, (le_max_left _ _).trans hge, hle, ?_⟩
    intro r' hr'
    rcases List.mem_cons.mp hr' with rfl | hr'
    · exact (le_max_right g.nextReplicaId _).trans hge
    · exact hlt r' hr'

end reserve

end QuillCache.Store
