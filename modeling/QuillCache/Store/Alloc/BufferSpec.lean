import QuillCache.Store.Alloc.OffsetSpec

/-!
# The segment allocator: live buffers

The live map of an `OffsetBufferAllocator` is its ledger: `buffers` is the multiset of the buffers it
has handed out. `Valid` ties the ledger to the byte-addressed allocator below it, and the
specifications say what each method does to the ledger. The layers above use nothing else.
-/

namespace QuillCache.Store.OffsetBufferAllocator

open Lib SmallFloat AList Multiset Option

/-- The live map is the ledger of the inner allocator. -/
structure Valid (exact : Prop) (b : OffsetBufferAllocator) : Prop where
  inner : ∃ L, b.inner.Inv exact b.live.values L
  key_eq : ∀ e ∈ b.live.items, e.2.offset = e.1
  base_eq : b.inner.base = 0
  pool_eq : b.inner.core.maxCapacity = 2 ^ 22

def buffers (b : OffsetBufferAllocator) : Multiset AllocatedBuffer :=
  b.live.items.map fun e => ⟨b.segmentName, e.1, e.2.size⟩

structure Same (b b' : OffsetBufferAllocator) : Prop where
  segmentName_eq : b'.segmentName = b.segmentName
  capacity_eq : b'.inner.capacity = b.inner.capacity
  multiplierBits_eq : b'.inner.multiplierBits = b.inner.multiplierBits

lemma Same.refl (b : OffsetBufferAllocator) : Same b b := ⟨rfl, rfl, rfl⟩

lemma Same.trans {b₁ b₂ b₃ : OffsetBufferAllocator} (h : Same b₁ b₂) (h' : Same b₂ b₃) :
    Same b₁ b₃ :=
  ⟨h'.segmentName_eq.trans h.segmentName_eq, h'.capacity_eq.trans h.capacity_eq,
    h'.multiplierBits_eq.trans h.multiplierBits_eq⟩

section ledger

variable {exact : Prop} {b : OffsetBufferAllocator} {x y : AllocatedBuffer}

lemma Valid.weaken (h : b.Valid exact) : b.Valid False := by
  obtain ⟨L, hL⟩ := h.inner
  exact { h with inner := ⟨L, hL.weaken⟩ }

lemma Valid.buffers_eq (h : b.Valid exact) :
    b.buffers = (b.live.values : Multiset Allocation).map
      fun a => ⟨b.segmentName, a.offset, a.size⟩ := by
  rw [values_eq_items, Multiset.map_map]
  exact Multiset.map_congr rfl fun e he => by simp [h.key_eq e he]

lemma segmentName_of_mem (hx : x ∈ b.buffers) : x.segmentName = b.segmentName := by
  obtain ⟨e, -, rfl⟩ := Multiset.mem_map.mp hx
  rfl

lemma Valid.bounds (h : b.Valid exact) (hx : x ∈ b.buffers) :
    0 < x.size ∧ x.offset + x.size ≤ b.inner.capacity := by
  obtain ⟨L, hL⟩ := h.inner
  rw [h.buffers_eq] at hx
  obtain ⟨a, ha, rfl⟩ := Multiset.mem_map.mp hx
  have hb := hL.bounds ha
  rw [h.base_eq, Nat.zero_add] at hb
  exact hb

lemma buffers_nodup (b : OffsetBufferAllocator) : b.buffers.Nodup := by
  have hkeys : (b.buffers.map AllocatedBuffer.offset).Nodup := by
    rw [buffers, Multiset.map_map]
    exact b.live.items_nodupKeys
  exact hkeys.of_map

lemma Valid.disjoint (h : b.Valid exact) (hx : x ∈ b.buffers) (hy : y ∈ b.buffers) (hxy : x ≠ y) :
    RangesDisjoint x.offset x.size y.offset y.size := by
  obtain ⟨L, hL⟩ := h.inner
  rw [h.buffers_eq] at hx hy
  obtain ⟨a, ha, rfl⟩ := Multiset.mem_map.mp hx
  obtain ⟨c, hc, rfl⟩ := Multiset.mem_map.mp hy
  obtain ⟨s, hs⟩ := exists_cons_of_mem ha
  have hac : c ≠ a := by
    rintro rfl
    exact hxy rfl
  have hcs : c ∈ s := (mem_cons.mp (hs ▸ hc)).resolve_left hac
  obtain ⟨t, rfl⟩ := exists_cons_of_mem hcs
  rw [hs] at hL
  exact hL.disjoint

lemma Valid.allocated_eq (h : b.Valid exact) :
    b.inner.allocatedSize = (b.buffers.map AllocatedBuffer.size).sum := by
  obtain ⟨L, hL⟩ := h.inner
  rw [hL.allocatedSize_eq, h.buffers_eq, Multiset.map_map]
  rfl

lemma Valid.allocated_le (h : b.Valid exact) : b.inner.allocatedSize ≤ b.inner.capacity := by
  obtain ⟨L, hL⟩ := h.inner
  rw [hL.allocatedSize_eq]
  exact hL.sum_size_le

lemma Valid.capacity_lt (h : b.Valid exact) : b.inner.capacity < 2 ^ 64 := by
  obtain ⟨L, hL⟩ := h.inner
  have hroom := hL.room
  omega

lemma Valid.insert {a : OffsetAllocator} {z : Allocation} {L : List Region} (h : b.Valid exact)
    (hinv : a.Inv exact (z ::ₘ b.live.values) L) (hcfg : b.inner.SameConfig a) :
    Valid exact { b with inner := a, live := b.live.insert z.offset z } ∧
      buffers { b with inner := a, live := b.live.insert z.offset z } =
        ⟨b.segmentName, z.offset, z.size⟩ ::ₘ b.buffers := by
  -- the granted range is disjoint from every live one, so its offset is new
  have hfresh : z.offset ∉ b.live := by
    intro hmem
    obtain ⟨y, hy⟩ := mem_iff_exists_lookup.mp hmem
    have hitem := mem_items.mpr hy
    have hyoff : y.offset = z.offset := h.key_eq _ hitem
    have hyv : y ∈ (b.live.values : Multiset Allocation) := by
      rw [values_eq_items]
      exact Multiset.mem_map_of_mem Sigma.snd hitem
    obtain ⟨s, hs⟩ := exists_cons_of_mem hyv
    have hzpos := (hinv.bounds (mem_cons_self _ _)).1
    have hypos := (hinv.bounds (mem_cons_of_mem hyv)).1
    rw [hs] at hinv
    rcases hinv.disjoint with hd | hd <;> omega
  refine ⟨⟨⟨L, ?_⟩, ?_, hcfg.base_eq.trans h.base_eq, hcfg.maxCapacity_eq.trans h.pool_eq⟩, ?_⟩
  · simpa [values_eq_items, items_insert hfresh] using hinv
  · simp only [items_insert hfresh, mem_cons]
    rintro e (rfl | he)
    · rfl
    · exact h.key_eq e he
  · simp only [buffers, items_insert hfresh, map_cons]

end ledger

/-! ## Specifications -/

section specs

variable {exact : Prop} {b : OffsetBufferAllocator} {x : AllocatedBuffer} {size : ℕ}

theorem new_spec (name : SegmentName) {capacity : ℕ} (hcap : capacity < 2 ^ 64) :
    ∃ b, new name capacity = some b ∧ b.Valid exact ∧ b.segmentName = name ∧
      b.inner.capacity = capacity ∧ b.buffers = 0 := by
  have hroom : 0 + capacity < 2 ^ 64 := by omega
  have hspec : ∃ a L, OffsetAllocator.new 0 capacity 256 (1 <<< 22) = some a ∧ a.Inv exact 0 L ∧ _ :=
    OffsetAllocator.new_spec hroom (by norm_num) (by decide)
  obtain ⟨a, L, hnew, hinv, hbase, hcapacity, hmax⟩ := hspec
  refine ⟨⟨name, a, ∅⟩, ?_, ⟨⟨L, hinv⟩, by simp, hbase, hmax.trans (by decide)⟩, rfl, hcapacity, rfl⟩
  simp only [new, hnew, bind_eq_bind, bind_some]
  rfl

lemma multiplierBits_new {name : SegmentName} {capacity : ℕ} (hnew : new name capacity = some b)
    (hcap : capacity ≤ maxBinSize) : b.inner.multiplierBits = 0 := by
  obtain ⟨a, ha, hb⟩ := bind_eq_some_iff.mp hnew
  rw [OffsetAllocator.new, calculateMultiplier_of_le hcap, bind_eq_bind, bind_some] at ha
  obtain ⟨core, -, hcore⟩ := bind_eq_some_iff.mp ha
  rw [← Option.some.inj hb, ← Option.some.inj hcore]

lemma Valid.exists_largestFreeRegion (h : b.Valid exact) :
    ∃ n, BufferAllocator.largestFreeRegion b = some n := by
  obtain ⟨L, hL⟩ := h.inner
  obtain ⟨total, largest, hreport, -⟩ := OffsetAllocator.storageReport_spec hL
  exact ⟨largest, by simp [BufferAllocator.largestFreeRegion, hreport]⟩

/-- **Allocating** a non-zero size that the largest free region admits succeeds, and adds the
returned buffer to the ledger. -/
theorem allocate_spec {n : ℕ} (h : b.Valid False)
    (hn : BufferAllocator.largestFreeRegion b = some n) (hle : size ≤ n) :
    Wp (allocate size) (fun out b' => b'.Valid False ∧ Same b b' ∧
      ((size = 0 ∧ out = none ∧ b'.buffers = b.buffers) ∨
        (0 < size ∧ ∃ x, out = some x ∧ x.segmentName = b.segmentName ∧ x.size = size ∧
          b'.buffers = x ::ₘ b.buffers))) b := by
  obtain ⟨L, hL⟩ := h.inner
  obtain ⟨total, largest, hreport, -, hlt, hiff⟩ := OffsetAllocator.storageReport_spec hL
  have hlargest : largest = n := by
    simpa [BufferAllocator.largestFreeRegion, hreport] using hn
  subst hlargest
  rw [allocate, wp_bind, onInner, wp_focus]
  refine (OffsetAllocator.allocate_spec hL (by omega)).mono ?_
  rintro out a ⟨hcfg, ⟨rfl, ⟨L', hinv⟩, hno⟩ | ⟨hcan, z, L', rfl, hsize, hinv⟩⟩
  · have hzero : size = 0 := by
      by_contra hne
      exact hno ((hiff size (Nat.pos_of_ne_zero hne)).mp hle)
    rw [wp_pure]
    exact ⟨⟨⟨L', hinv⟩, h.key_eq, hcfg.base_eq.trans h.base_eq, hcfg.maxCapacity_eq.trans h.pool_eq⟩,
      ⟨rfl, hcfg.capacity_eq, hcfg.multiplierBits_eq⟩, .inl ⟨hzero, rfl, rfl⟩⟩
  · obtain ⟨hvalid, hbufs⟩ := h.insert hinv hcfg
    simp only [wp_bind, wp_modify, wp_get, wp_pure]
    exact ⟨hvalid, ⟨rfl, hcfg.capacity_eq, hcfg.multiplierBits_eq⟩,
      .inr ⟨hcan.1, _, rfl, rfl, rfl, hsize ▸ hbufs⟩⟩

/-- **Deallocating** a live buffer takes exactly it off the ledger. -/
theorem deallocate_spec {rest : Multiset AllocatedBuffer} (h : b.Valid exact)
    (hx : b.buffers = x ::ₘ rest) :
    Wp (deallocate x) (fun _ b' => b'.Valid exact ∧ Same b b' ∧ b'.buffers = rest) b := by
  obtain ⟨L, hL⟩ := h.inner
  have hmem : x ∈ b.buffers := hx ▸ mem_cons_self _ _
  obtain ⟨e, he, rfl⟩ := Multiset.mem_map.mp hmem
  have hlookup : b.live.lookup e.1 = some e.2 := mem_items.mp he
  have hitems := items_eq_cons_erase hlookup
  have hvalues : (b.live.values : Multiset Allocation) = e.2 ::ₘ (b.live.erase e.1).values := by
    rw [values_eq_items, values_eq_items, hitems, map_cons]
  have hrest : rest = (b.live.erase e.1).items.map fun e => ⟨b.segmentName, e.1, e.2.size⟩ := by
    rw [buffers, hitems, map_cons] at hx
    exact ((cons_inj_right _).mp hx).symm
  rw [hvalues] at hL
  simp only [deallocate, wp_bind, wp_get, hlookup, wp_set, onInner, wp_focus]
  refine (OffsetAllocator.free_spec hL).mono ?_
  rintro _ a ⟨hcfg, L', hinv⟩
  refine ⟨⟨⟨L', hinv⟩, fun f hf => ?_, hcfg.base_eq.trans h.base_eq,
    hcfg.maxCapacity_eq.trans h.pool_eq⟩, ⟨rfl, hcfg.capacity_eq, hcfg.multiplierBits_eq⟩, hrest.symm⟩
  exact h.key_eq f (hitems ▸ mem_cons_of_mem hf)

lemma deallocate_valid (h : b.Valid exact) (x : AllocatedBuffer) :
    Wp (deallocate x) (fun _ b' => b'.Valid exact ∧ Same b b') b := by
  cases hx : b.live.lookup x.offset with
  | none =>
    simp only [deallocate, wp_bind, wp_get, hx, wp_pure]
    exact ⟨h, .refl b⟩
  | some a =>
    have hmem : ⟨b.segmentName, x.offset, a.size⟩ ∈ b.buffers :=
      Multiset.mem_map.mpr ⟨⟨x.offset, a⟩, mem_items.mpr hx, rfl⟩
    obtain ⟨rest, hrest⟩ := exists_cons_of_mem hmem
    -- only the offset of the buffer is read
    exact (deallocate_spec h hrest).mono fun _ _ hspec => ⟨hspec.1, hspec.2.1⟩

/-- **Reserving** in an exact, unscaled segment with a small ledger succeeds on any range that is
inside the segment and free. -/
theorem reserve_spec (h : b.Valid True) (hbits : b.inner.multiplierBits = 0)
    (hcard : b.buffers.card < 2 ^ 20) (hpos : 0 < x.size) (hname : x.segmentName = b.segmentName)
    (hle : x.offset + x.size ≤ b.inner.capacity)
    (hdisj : ∀ y ∈ b.buffers, RangesDisjoint x.offset x.size y.offset y.size) :
    Wp (reserve x.offset x.size) (fun ok b' => ok = true ∧ b'.Valid True ∧ Same b b' ∧
      b'.buffers = x ::ₘ b.buffers) b := by
  obtain ⟨L, hL⟩ := h.inner
  have hcard' : (b.live.values : Multiset Allocation).card < 2 ^ 20 := by
    rwa [h.buffers_eq, card_map] at hcard
  have hcan : b.inner.CanReserve L x.offset x.size := by
    refine hL.canReserve hbits ?_ (h.base_eq ▸ Nat.zero_le _) hpos (by omega) fun z hz => ?_
    · rw [h.pool_eq]
      omega
    · rw [h.buffers_eq] at hdisj
      exact hdisj _ (Multiset.mem_map_of_mem _ hz)
  rw [reserve, wp_bind, onInner, wp_focus]
  refine (OffsetAllocator.reserveExact_spec hL hbits x.offset x.size).mono ?_
  rintro out a ⟨hcfg, ⟨-, -, hno⟩ | ⟨-, z, L', rfl, hoff, hsize, hinv⟩⟩
  · exact absurd hcan hno
  · obtain ⟨hvalid, hbufs⟩ := h.insert hinv hcfg
    have hx : (⟨b.segmentName, z.offset, z.size⟩ : AllocatedBuffer) = x := by
      rw [hoff, hsize, ← hname]
    simp only [wp_bind, wp_modify, wp_pure]
    exact ⟨trivial, hvalid, ⟨rfl, hcfg.capacity_eq, hcfg.multiplierBits_eq⟩, hx ▸ hbufs⟩

end specs

end QuillCache.Store.OffsetBufferAllocator
