import QuillCache.Store.MasterGuarded

/-!
# Every interleaving keeps the master consistent

`Consistent s` is what the clients of a master rely on: the objects and the allocators describe the same
buffers. It follows from `Sound` of the view, so it holds whenever the segments mutex is free, in every
interleaving of the operations in which names are mounted only while they are not mounted
(`interleavings_consistent`).
-/

namespace QuillCache.Store

open Lib List Multiset

namespace SegmentState

def names (s : SegmentState) : List SegmentName := s.allocators.map OffsetBufferAllocator.segmentName

def capacities (s : SegmentState) : List ℕ := s.allocators.map fun a => a.inner.capacity

lemma sumChecked_eq {l : List ℕ} (h : l.sum < 2 ^ 64) : sumChecked l = some l.sum := by
  induction l with
  | nil => rfl
  | cons n ns ih =>
    rw [List.sum_cons] at h
    rw [sumChecked, ih (by omega), List.sum_cons]
    exact if_pos h

lemma sumChecked_eq_none {l : List ℕ} (h : 2 ^ 64 ≤ l.sum) : sumChecked l = none := by
  induction l with
  | nil => exact absurd h (by simp)
  | cons n ns ih =>
    rw [List.sum_cons] at h
    rw [sumChecked]
    by_cases hns : ns.sum < 2 ^ 64
    · rw [sumChecked_eq hns]
      exact if_neg (by omega)
    · rw [ih (by omega)]
      rfl

lemma sumChecked_congr {l l' : List ℕ} (h : l.sum = l'.sum) : sumChecked l = sumChecked l' := by
  by_cases hlt : l.sum < 2 ^ 64
  · rw [sumChecked_eq hlt, sumChecked_eq (h ▸ hlt), h]
  · rw [sumChecked_eq_none (by omega), sumChecked_eq_none (by omega)]

end SegmentState

namespace MasterService

def replicas (s : MasterService) : List Replica := s.objects.values.flatMap fun o => o.replicas.values

def memoryBuffers (s : MasterService) : List AllocatedBuffer :=
  s.replicas.filterMap fun r => r.data.buffer?

def liveEntries (s : MasterService) : List AllocatedBuffer :=
  s.segments.allocators.flatMap fun a => a.live.entries.map fun e => ⟨a.segmentName, e.1, e.2.size⟩

/-- The objects and the allocators describe the same buffers. -/
structure Consistent (s : MasterService) : Prop where
  /-- The segments have distinct names. -/
  names_nodup : s.segments.names.Nodup
  /-- Buffers of one segment are pairwise disjoint. -/
  disjoint : s.memoryBuffers.Pairwise fun b c =>
    b.segmentName = c.segmentName → RangesDisjoint b.offset b.size c.offset c.size
  /-- Buffers lie inside their segment. -/
  bounds : ∀ b ∈ s.memoryBuffers, ∃ a ∈ s.segments.allocators,
    a.segmentName = b.segmentName ∧ b.offset + b.size ≤ a.inner.capacity
  /-- Each buffer is one live entry, and each live entry is the buffer of one replica. -/
  live_perm : s.memoryBuffers.Perm s.liveEntries
  /-- No live entry occurs twice. -/
  live_nodup : s.liveEntries.Nodup
  /-- Replica ids are globally unique. -/
  ids_nodup : (s.replicas.map Replica.id).Nodup
  /-- The replicas of one object lie on distinct segments. -/
  segments_nodup : ∀ o ∈ s.objects.values, (o.replicas.values.map Replica.segmentName).Nodup
  /-- If the capacities fit a `u64`, the bytes allocated are those of the replicas, and at most the
  capacity. -/
  accounted : s.segments.capacities.sum < 2 ^ 64 →
    s.segments.allocated = some (s.replicas.map Replica.size).sum ∧
    s.segments.capacity = some s.segments.capacities.sum ∧
    (s.replicas.map Replica.size).sum ≤ s.segments.capacities.sum

/-! ## From the view to the state -/

section

variable {s : MasterService} {exact : Prop}

lemma coe_memoryBuffers (s : MasterService) : (s.memoryBuffers : Multiset _) = bufferSum s.view.objects := by
  have hlist : ∀ l : List ((_ : ObjectKey) × ObjectMetadata),
      ((((l.map Sigma.snd).flatMap fun o => o.replicas.values).filterMap fun r => r.data.buffer? :
        List AllocatedBuffer) : Multiset _) = (l.map fun e => e.2.footprint.buffers).sum := by
    intro l
    induction l with
    | nil => rfl
    | cons e l ih =>
      rw [List.map_cons, flatMap_cons, filterMap_append, ← coe_add, ih,
        List.map_cons, List.sum_cons, ← replicaBuffers_values]
      rfl
  rw [memoryBuffers, replicas, AList.values, hlist, bufferSum, view, footprints, AList.items,
    map_coe, map_coe, sum_coe, List.map_map]
  rfl

lemma coe_replicaIds (s : MasterService) :
    (s.replicas.map Replica.id : Multiset _) = idSum s.view.objects := by
  have hlist : ∀ l : List ((_ : ObjectKey) × ObjectMetadata),
      ((((l.map Sigma.snd).flatMap fun o => o.replicas.values).map Replica.id : List ReplicaId) :
        Multiset _) = (l.map fun e => e.2.footprint.ids).sum := by
    intro l
    induction l with
    | nil => rfl
    | cons e l ih =>
      rw [List.map_cons, flatMap_cons, map_append, ← coe_add, ih, List.map_cons,
        List.sum_cons]
      refine congrArg (· + _) ?_
      simp only [Footprint.ids, ObjectMetadata.footprint, AList.values, AList.items, map_coe,
        List.map_map]
      rfl
  rw [replicas, AList.values, hlist, idSum, view, footprints, AList.items, map_coe,
    map_coe, sum_coe, List.map_map]
  rfl

lemma coe_liveEntries (s : MasterService) :
    (s.liveEntries : Multiset _) = liveBuffers s.segments.allocators := by
  rw [liveEntries]
  induction s.segments.allocators with
  | nil => rfl
  | cons a as ih => rw [flatMap_cons, ← coe_add, ih, liveBuffers_cons]; rfl

lemma map_data_eq {γ : Type} {l : List Replica} {f : Replica → γ} {g : AllocatedBuffer → γ}
    (hmem : ∀ r ∈ l, ∃ b, r.data = .memory b) (hg : ∀ r b, r.data = .memory b → f r = g b) :
    l.map f = (l.filterMap fun r => r.data.buffer?).map g := by
  induction l with
  | nil => rfl
  | cons r l ih =>
    obtain ⟨b, hb⟩ := hmem r List.mem_cons_self
    rw [List.map_cons, List.filterMap_cons_some (b := b) (by rw [hb]; rfl), List.map_cons, hg r b hb,
      ih fun r' hr' => hmem r' (List.mem_cons_of_mem _ hr')]

lemma mem_footprints {o : ObjectMetadata} (ho : o ∈ s.objects.values) :
    ∃ k, (k, o.footprint) ∈ s.view.objects := by
  obtain ⟨e, he, rfl⟩ := List.mem_map.mp ho
  exact ⟨e.1, Multiset.mem_map.mpr ⟨e, mem_coe.mpr he, rfl⟩⟩

lemma memory_of_sound (h : Owes exact 0 s.view) {o : ObjectMetadata} (ho : o ∈ s.objects.values) {r : Replica}
    (hr : r ∈ o.replicas.values) : ∃ b, r.data = .memory b := by
  obtain ⟨k, hk⟩ := mem_footprints ho
  obtain ⟨e, he, rfl⟩ := List.mem_map.mp hr
  exact (h.ok _ hk).memory (e.1, e.2.id, e.2.data)
    (Multiset.mem_map.mpr ⟨e, mem_coe.mpr he, rfl⟩)

lemma segments_nodup_of_sound (h : Sound s.view) {o : ObjectMetadata} (ho : o ∈ s.objects.values) :
    (o.replicas.values.map Replica.segmentName).Nodup := by
  obtain ⟨k, hk⟩ := mem_footprints ho
  have hdistinct := (h.ok _ hk).distinct
  rw [← replicaBuffers_values, replicaBuffers, map_coe, coe_nodup] at hdistinct
  rw [map_data_eq (g := some ∘ AllocatedBuffer.segmentName) (fun r hr => memory_of_sound h ho hr)
    fun r b hb => by rw [Replica.segmentName, hb]; rfl, ← List.map_map]
  exact hdistinct.map (Option.some_injective _)

lemma memoryBuffers_of_sound (h : Owes exact 0 s.view) :
    (s.memoryBuffers : Multiset _) = liveBuffers s.segments.allocators := by
  rw [coe_memoryBuffers, ← add_zero (bufferSum _)]
  exact h.live_eq.symm

lemma sum_size_eq (hmem : ∀ r ∈ s.replicas, ∃ b, r.data = .memory b) :
    (s.replicas.map Replica.size).sum = ((bufferSum s.view.objects).map AllocatedBuffer.size).sum := by
  have hsize := map_data_eq (f := Replica.size) (g := AllocatedBuffer.size) hmem
    fun r b hb => by rw [Replica.size, hb]; rfl
  rw [hsize, ← coe_memoryBuffers, map_coe, sum_coe]
  rfl

lemma sum_size_of_sound (h : Owes exact 0 s.view) :
    (s.replicas.map Replica.size).sum = (s.segments.allocators.map fun a => a.inner.allocatedSize).sum := by
  have hmem : ∀ r ∈ s.replicas, ∃ b, r.data = .memory b := fun r hr => by
    obtain ⟨o, ho, hro⟩ := mem_flatMap.mp hr
    exact memory_of_sound h ho hro
  rw [sum_size_eq hmem, ← coe_memoryBuffers, memoryBuffers_of_sound h]
  exact h.fleet.sum_allocated.symm

lemma allocated_of_sound (h : Owes exact 0 s.view) :
    s.segments.allocated = SegmentState.sumChecked (s.replicas.map Replica.size) :=
  SegmentState.sumChecked_congr (sum_size_of_sound h).symm

/-- A sound view is that of a consistent master. -/
theorem consistent_of_sound (h : Sound s.view) : Consistent s := by
  have hlive := memoryBuffers_of_sound h
  have hmem : ∀ b ∈ s.memoryBuffers, b ∈ liveBuffers s.segments.allocators := fun b hb => by
    rw [← hlive]
    exact mem_coe.mpr hb
  have hnodup : s.memoryBuffers.Nodup := by
    rw [← coe_nodup, hlive]
    exact h.fleet.liveBuffers_nodup
  have hperm : s.memoryBuffers.Perm s.liveEntries := by
    rw [← coe_eq_coe, hlive, coe_liveEntries]
  refine ⟨h.fleet.names_nodup, ?_, fun b hb => ?_, hperm, hperm.nodup_iff.mp hnodup, ?_,
    fun o ho => segments_nodup_of_sound h ho, fun hcap => ?_⟩
  · exact hnodup.pairwise_of_forall_ne fun b hb c hc hne hname =>
      h.fleet.disjoint (hmem b hb) (hmem c hc) hne hname
  · obtain ⟨a, ha, hname, -, hle⟩ := h.fleet.bounds (hmem b hb)
    exact ⟨a, ha, hname, hle⟩
  · rw [← coe_nodup, coe_replicaIds]
    exact h.ids_nodup
  · have hle : (s.replicas.map Replica.size).sum ≤ s.segments.capacities.sum := by
      rw [sum_size_of_sound h]
      exact h.fleet.sum_allocated_le
    refine ⟨?_, SegmentState.sumChecked_eq hcap, hle⟩
    rw [sum_size_of_sound h] at hle ⊢
    exact SegmentState.sumChecked_eq (lt_of_le_of_lt hle hcap)

end

/-! ## Interleavings -/

/-- Mounts name a segment that is not mounted at the moment of the push, with a capacity that is a
`u64`. -/
def mountsFresh : Section → MasterService → Prop
  | .push name capacity, s => name ∉ s.segments.names ∧ capacity < 2 ^ 64
  | _, _ => True

instance : ∀ l s, Decidable (mountsFresh l s)
  | .push _ _, _ => inferInstanceAs (Decidable (_ ∧ _))
  | .reclaim _, _ | .retire _, _ | .insert _, _ | .finish _, _ | .grant _, _ | .choose, _ | .evict _, _
  | .inspect _, _ | .reopen _, _ | .replace _, _ | .append _, _ | .silent, _ => inferInstanceAs (Decidable True)

def system : System Section MasterService MasterOp where
  prog := MasterOp.prog
  assume := mountsFresh
  env := Shuffle

instance : ∀ l s, Decidable (system.assume l s) := inferInstanceAs (∀ l s, Decidable (mountsFresh l s))

lemma owes_new (exact : Prop) (strategy : String) : Owes exact 0 (new strategy).view := by
  refine ⟨⟨by simp [new, view], by simp [new, view]⟩, rfl, ?_, ?_, ?_, by simp [new, view]⟩
  · simp [new, view, footprints]
  · simp [new, view, footprints]
  · simp [new, view, footprints]

lemma sound_new (strategy : String) : Sound (new strategy).view := owes_new False strategy

lemma safe_reachable {s : MasterService} {c : Config Section MasterService} (hs : Sound s.view)
    (hrun : Relation.ReflTransGen (Config.Step system) (Config.idle s) c) :
    Config.Safe (discipline mountsFresh) c :=
  Config.Safe.run rfl (fun op => balanced_prog (fun _ _ _ h => h) op) (fun _ _ h => view_shuffle h)
    (Config.safe_idle hs) hrun

/-- **Interleavings**: any number of threads run operations of one master, section by section. Whenever
the segments mutex is free, the objects and the allocators describe the same buffers. -/
theorem interleavings_consistent (strategy : String) (logging : Bool)
    (c : Config Section MasterService)
    (hrun : Relation.ReflTransGen (Config.Step system)
      (Config.idle (if logging then (new strategy).enableOplog else new strategy)) c)
    (hfree : c.holder = none) : Consistent c.shared := by
  refine consistent_of_sound ((safe_reachable ?_ hrun).free hfree)
  cases logging with
  | false => exact sound_new strategy
  | true => exact sound_new strategy

/-- Two threads mount a segment each; then one puts an object with two replicas, and the other ends the
put before the first has released the mutex. -/
def twoWriters : List (ℕ × Option MasterOp) :=
  [(0, some (.mountSegment "a" 1024)), (1, some (.mountSegment "b" 1024)), (0, none), (1, none),
    (0, none), (0, none), (0, none), (1, none), (0, none), (1, none), (1, none), (1, none),
    (0, some (.putStart "x" ⟨"m", "t", none, "u"⟩ 100 ⟨2, false, false, none⟩)), (0, none), (0, none),
    (0, none), (0, none), (0, none), (0, none), (0, none), (1, some (.putEnd "x")), (1, none),
    (1, none), (0, none)]

theorem interleavings_consistent_twoWriters :
    ∃ c, Config.play system twoWriters (Config.idle (new "random")) = some c ∧ c.holder = none ∧
      c.shared.memoryBuffers.length = 2 ∧ Consistent c.shared := by
  have hplay : ((Config.play system twoWriters (Config.idle (new "random"))).any fun c =>
      c.holder = none ∧ c.shared.memoryBuffers.length = 2) = true := by decide +kernel
  obtain ⟨c, hc, hfree, hlen⟩ : ∃ c, Config.play system twoWriters (Config.idle (new "random")) = some c ∧
      c.holder = none ∧ c.shared.memoryBuffers.length = 2 := by
    simpa [Option.any_eq_true] using hplay
  exact ⟨c, hc, hfree, hlen,
    interleavings_consistent "random" false c (Config.steps_of_play hc) hfree⟩

end MasterService

end QuillCache.Store
