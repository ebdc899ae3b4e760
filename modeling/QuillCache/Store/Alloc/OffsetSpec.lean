import QuillCache.Store.Alloc.Offset
import QuillCache.Store.Alloc.CoreRun

/-!
# The byte-addressed allocators: invariant and specifications

A live allocation *occupies* one used region of the core: it starts where the region starts, scaled
to bytes, and is no longer than it. `Inv` pairs the live allocations with the used regions, so that
what is known about the tiling of the core carries over to byte ranges: live ranges are disjoint,
lie inside the capacity, and their sizes add up to `allocatedSize`.

`exact` marks an allocator all of whose regions were reserved exactly: there the live ranges *are*
the used regions, and a range can be reserved as soon as it meets no live one.
-/

namespace QuillCache.Store

open Lib SmallFloat CoreAllocator List Multiset Option

/-! ## The scaling -/

lemma multiplierLoop_spec {size : ℕ} (hsize : size < 2 ^ 64) (fuel bits : ℕ) (hbits : bits ≤ 33)
    (hfuel : 33 < bits + fuel) :
    ∃ m ≤ 33, multiplierLoop size fuel bits = some m ∧ size >>> m ≤ maxBinSize := by
  induction fuel generalizing bits with
  | zero => omega
  | succ fuel ih =>
    rw [multiplierLoop]
    split_ifs with hlt
    · -- 33 halvings bring any `u64` below the limit
      have hne : bits ≠ 33 := by
        rintro rfl
        rw [Nat.shiftRight_eq_div_pow] at hlt
        simp only [maxBinSize] at hlt
        omega
      exact ih (bits + 1) (by omega) (by omega)
    · exact ⟨bits, hbits, rfl, not_lt.mp hlt⟩

lemma calculateMultiplier_spec {size : ℕ} (hsize : size < 2 ^ 64) :
    ∃ m ≤ 33, calculateMultiplier size = some m ∧ size >>> m ≤ maxBinSize :=
  multiplierLoop_spec hsize 64 0 (by norm_num) (by norm_num)

lemma calculateMultiplier_of_le {size : ℕ} (hsize : size ≤ maxBinSize) :
    calculateMultiplier size = some 0 := by
  rw [calculateMultiplier, multiplierLoop, Nat.shiftRight_zero, if_neg (not_lt.mpr hsize)]

lemma roundUp_units_le_iff {size m n : ℕ} (hpos : 0 < size) :
    (size + 2 ^ m - 1) / 2 ^ m ≤ n ↔ size ≤ n * 2 ^ m := by
  have hp : 0 < 2 ^ m := Nat.two_pow_pos m
  rw [Nat.div_le_iff_le_mul_add_pred hp, Nat.mul_comm]
  omega

namespace OffsetAllocator

/-! ## The invariant -/

/-- The allocation `a` lives in the used region `r`; `exact` says that it fills it. -/
structure Occupies (exact : Prop) (base m : ℕ) (a : Allocation) (r : Region) : Prop where
  core_eq : a.core = ⟨r.off, r.slot⟩
  offset_eq : a.offset = base + r.off * 2 ^ m
  size_pos : 0 < a.size
  size_le : a.size ≤ r.size * 2 ^ m
  size_eq : exact → a.size = r.size * 2 ^ m

/-- The allocator's memory is tiled by `L`, and its live allocations are `live`. -/
structure Inv (exact : Prop) (a : OffsetAllocator) (live : Multiset Allocation)
    (L : List Region) : Prop where
  core : a.core.Inv L
  size_eq : a.core.size = a.capacity >>> a.multiplierBits
  bits_le : a.multiplierBits ≤ 33
  room : a.base + a.capacity < 2 ^ 64
  occupies : Multiset.Rel (Occupies exact a.base a.multiplierBits) live (usedRegions L)
  allocatedSize_eq : a.allocatedSize = (live.map Allocation.size).sum
  allocatedNum_eq : a.allocatedNum = live.card

structure SameConfig (a a' : OffsetAllocator) : Prop where
  base_eq : a'.base = a.base
  multiplierBits_eq : a'.multiplierBits = a.multiplierBits
  capacity_eq : a'.capacity = a.capacity
  maxCapacity_eq : a'.core.maxCapacity = a.core.maxCapacity

section inv

variable {exact : Prop} {a a' : OffsetAllocator} {live : Multiset Allocation} {L : List Region}
  {x y : Allocation}

lemma Inv.units_le (h : a.Inv exact live L) : a.core.size * 2 ^ a.multiplierBits ≤ a.capacity := by
  rw [h.size_eq, Nat.shiftRight_eq_div_pow]
  exact Nat.div_mul_le_self _ _

lemma Inv.region_le (h : a.Inv exact live L) {r : Region} (hr : r ∈ L) :
    r.off * 2 ^ a.multiplierBits + r.size * 2 ^ a.multiplierBits ≤ a.capacity := by
  rw [← Nat.add_mul]
  exact (Nat.mul_le_mul_right _ (h.core.layout.tiles.bounds hr).2).trans h.units_le

lemma Inv.exists_region (h : a.Inv exact live L) (hx : x ∈ live) :
    ∃ r ∈ L, r.used = true ∧ Occupies exact a.base a.multiplierBits x r := by
  obtain ⟨r, hr, hocc⟩ := exists_mem_of_rel_of_mem h.occupies hx
  obtain ⟨hrL, hused⟩ := List.mem_filter.mp (mem_coe.mp hr)
  exact ⟨r, hrL, hused, hocc⟩

lemma Inv.bounds (h : a.Inv exact live L) (hx : x ∈ live) :
    0 < x.size ∧ x.offset + x.size ≤ a.base + a.capacity := by
  obtain ⟨r, hr, -, hocc⟩ := h.exists_region hx
  have hle := h.region_le hr
  have hsize := hocc.size_le
  rw [hocc.offset_eq]
  exact ⟨hocc.size_pos, by omega⟩

lemma Inv.usedRegions_pairwise (h : a.Inv exact live L) :
    (usedRegions L).Pairwise fun r s => RangesDisjoint r.off r.size s.off s.size :=
  (h.core.layout.tiles.pairwise.imp fun hrs => .inl hrs).sublist filter_sublist

lemma Inv.disjoint {rest : Multiset Allocation} (h : a.Inv exact (x ::ₘ y ::ₘ rest) L) :
    RangesDisjoint x.offset x.size y.offset y.size := by
  obtain ⟨r, rs, hx, hrest, hr⟩ := rel_cons_left.mp h.occupies
  obtain ⟨s, ss, hy, -, rfl⟩ := rel_cons_left.mp hrest
  have hperm : (usedRegions L).Perm (r :: s :: ss.toList) := by
    rw [← coe_eq_coe, hr, ← cons_coe, ← cons_coe, coe_toList]
  have hpw := hperm.pairwise h.usedRegions_pairwise fun hab => RangesDisjoint.symm hab
  have hrs := rel_of_pairwise_cons hpw List.mem_cons_self
  have hxs := hx.size_le
  have hys := hy.size_le
  rw [hx.offset_eq, hy.offset_eq]
  -- scale the disjointness of the two regions to bytes
  rcases hrs with hle | hle
  · have := Nat.mul_le_mul_right (2 ^ a.multiplierBits) hle
    rw [Nat.add_mul] at this
    exact Or.inl (by omega)
  · have := Nat.mul_le_mul_right (2 ^ a.multiplierBits) hle
    rw [Nat.add_mul] at this
    exact Or.inr (by omega)

lemma Inv.sum_size_le (h : a.Inv exact live L) : (live.map Allocation.size).sum ≤ a.capacity := by
  have hrel : (live.map Allocation.size).sum ≤
      ((usedRegions L : Multiset Region).map fun r => r.size * 2 ^ a.multiplierBits).sum :=
    sum_le_sum_of_rel_le
      (Multiset.rel_map.mpr (h.occupies.mono fun _ _ _ _ hocc => hocc.size_le))
  refine hrel.trans (le_trans ?_ h.units_le)
  rw [Multiset.sum_map_mul_right]
  refine Nat.mul_le_mul_right _ ?_
  rw [Multiset.map_coe, sum_coe, ← h.core.sum_size]
  exact (filter_sublist.map Region.size).sum_le_sum fun _ _ => Nat.zero_le _

lemma Inv.card_le (h : a.Inv exact live L) : live.card ≤ a.capacity := by
  refine le_trans ?_ h.sum_size_le
  have hone : ∀ n ∈ live.map Allocation.size, 1 ≤ n := by
    simp only [Multiset.mem_map]
    rintro _ ⟨x, hx, rfl⟩
    exact (h.bounds hx).1
  simpa using Multiset.card_nsmul_le_sum hone

lemma Inv.weaken (h : a.Inv exact live L) : a.Inv False live L :=
  { h with
    occupies := h.occupies.mono fun _ _ _ _ hocc =>
      ⟨hocc.core_eq, hocc.offset_eq, hocc.size_pos, hocc.size_le, False.elim⟩ }

end inv

/-! ## Specifications -/

section specs

variable {exact : Prop} {a a' : OffsetAllocator} {live : Multiset Allocation} {L : List Region}
  {x y : Allocation} {size : ℕ}

theorem new_spec {base capacity initCapacity maxCapacity : ℕ} (hroom : base + capacity < 2 ^ 64)
    (hinit : 0 < initCapacity) (hmax : max initCapacity maxCapacity < unused) :
    ∃ a L, new base capacity initCapacity maxCapacity = some a ∧ a.Inv exact 0 L ∧
      a.base = base ∧ a.capacity = capacity ∧
      a.core.maxCapacity = max initCapacity maxCapacity := by
  have hcap64 : capacity < 2 ^ 64 := by omega
  obtain ⟨m, hm, hcalc, hle⟩ := calculateMultiplier_spec hcap64
  have hmod : capacity >>> m % 2 ^ 32 = capacity >>> m := by
    refine Nat.mod_eq_of_lt ?_
    simp only [maxBinSize] at hle
    omega
  obtain ⟨s, i, hnew, hinv, hsize, hcap⟩ := CoreAllocator.new_spec hle hinit hmax
  refine ⟨⟨s, base, m, capacity, 0, 0⟩, _, ?_, ⟨hinv, hsize, hm, hroom, ?_, rfl, rfl⟩, rfl, rfl, hcap⟩
  · simp only [new, hcalc, bind_eq_bind, bind_some, hmod, hnew]
    rfl
  · simp [usedRegions]

def units (a : OffsetAllocator) (size : ℕ) : ℕ := (size + 2 ^ a.multiplierBits - 1) / 2 ^ a.multiplierBits

lemma units_pos (hpos : 0 < size) : 0 < a.units size :=
  Nat.div_pos (by have := Nat.two_pow_pos a.multiplierBits; omega) (Nat.two_pow_pos _)

lemma fakeSize_spec (hround : size + 2 ^ a.multiplierBits < 2 ^ 64) :
    Wp (fakeSize size) (fun n a' => a' = a ∧ n = a.units size) a := by
  simp only [fakeSize, wp_bind, wp_get]
  split_ifs with hbits
  · simp only [wp_bind, wp_addChecked, wp_pure, Nat.one_shiftLeft, Nat.shiftRight_eq_div_pow]
    exact ⟨hround, trivial, rfl⟩
  · simp only [wp_pure, units, Nat.eq_zero_of_not_pos hbits, pow_zero, Nat.add_sub_cancel, Nat.div_one]
    exact ⟨trivial, trivial⟩

def CanServe (a : OffsetAllocator) (L : List Region) (size : ℕ) : Prop :=
  0 < size ∧ a.units size ≤ maxBinSize ∧ CanAllocate a.core L (a.units size)

lemma record_spec {c : CoreAllocator} {r : Region} {L' : List Region} (h : a.Inv exact live L)
    (hcore : c.Inv L') (hsize : c.size = a.core.size) (hmax : c.maxCapacity = a.core.maxCapacity)
    (hperm : (usedRegions L').Perm (r :: usedRegions L))
    (hx : Occupies exact a.base a.multiplierBits x r) :
    Wp (record x.size) (fun _ a' => a'.Inv exact (x ::ₘ live) L' ∧ SameConfig a a')
      { a with core := c } := by
  have hocc : Multiset.Rel (Occupies exact a.base a.multiplierBits) (x ::ₘ live) (usedRegions L') := by
    rw [coe_eq_coe.mpr hperm, ← cons_coe]
    exact h.occupies.cons hx
  -- the books after the grant satisfy the invariant, so they are within bounds
  have hinv : Inv exact { a with
      core := c
      allocatedSize := a.allocatedSize + x.size
      allocatedNum := a.allocatedNum + 1 } (x ::ₘ live) L' :=
    ⟨hcore, hsize.trans h.size_eq, h.bits_le, h.room, hocc,
      by simp [h.allocatedSize_eq, Nat.add_comm], by simp [h.allocatedNum_eq]⟩
  have hsum := hinv.allocatedSize_eq.le.trans hinv.sum_size_le
  have hnum := hinv.allocatedNum_eq.le.trans hinv.card_le
  have hroom := hinv.room
  simp only at hsum hnum hroom
  simp only [record, wp_bind, wp_get, wp_addChecked, wp_set]
  exact ⟨by omega, by omega, hinv, rfl, rfl, rfl, hmax⟩

/-- **Allocating** succeeds exactly when the request can be served; then one live allocation of the
requested size is added. -/
theorem allocate_spec (h : a.Inv False live L) (hround : size + 2 ^ a.multiplierBits < 2 ^ 64) :
    Wp (allocate size) (fun out a' => SameConfig a a' ∧
      ((out = none ∧ (∃ L', a'.Inv False live L') ∧ ¬a.CanServe L size) ∨
        (a.CanServe L size ∧ ∃ x L', out = some x ∧ x.size = size ∧
          a'.Inv False (x ::ₘ live) L'))) a := by
  unfold allocate
  split_ifs with hzero
  · rw [wp_pure]
    exact ⟨⟨rfl, rfl, rfl, rfl⟩, .inl ⟨rfl, ⟨L, h⟩, fun hs => hs.1.ne' hzero⟩⟩
  refine Wp.call (fakeSize_spec hround) ?_
  rintro n a₁ ⟨ha, hn⟩
  rw [ha, hn]
  have hpos : 0 < size := Nat.pos_of_ne_zero hzero
  have hupos : 0 < a.units size := units_pos hpos
  split_ifs with hbig
  · rw [wp_pure]
    exact ⟨⟨rfl, rfl, rfl, rfl⟩, .inl ⟨rfl, ⟨L, h⟩, fun hs => hs.2.1.not_gt hbig⟩⟩
  have hle : a.units size ≤ maxBinSize := not_lt.mp hbig
  have hmod : a.units size % 2 ^ 32 = a.units size := by
    refine Nat.mod_eq_of_lt ?_
    simp only [maxBinSize] at hle
    omega
  rw [hmod, wp_bind, onCore, wp_focus]
  refine (CoreAllocator.allocate_spec h.core hupos hle).mono ?_
  rintro al c ⟨L', hcore, hsize, hmax, ⟨rfl, rfl, hno⟩ | ⟨hcan, r, rfl, hused, hrsize, hperm⟩⟩
  · have hnone : OffsetAllocation.noSpace.isNoSpace = true := by decide
    rw [if_pos hnone, wp_pure]
    exact ⟨⟨rfl, rfl, rfl, hmax⟩, .inl ⟨rfl, ⟨L', hcore, hsize.trans h.size_eq, h.bits_le, h.room,
      h.occupies, h.allocatedSize_eq, h.allocatedNum_eq⟩, fun hs => hno hs.2.2⟩⟩
  have hrL' : r ∈ L' := by
    have : r ∈ usedRegions L' := hperm.mem_iff.mpr List.mem_cons_self
    exact (List.mem_filter.mp this).1
  have hslot : ¬(OffsetAllocation.isNoSpace ⟨r.off, r.slot⟩) = true := by
    simpa [OffsetAllocation.isNoSpace] using hcore.ne_unused hrL'
  rw [if_neg hslot]
  have hx : Occupies False a.base a.multiplierBits
      ⟨a.base + r.off * 2 ^ a.multiplierBits, size, ⟨r.off, r.slot⟩⟩ r := by
    refine ⟨rfl, rfl, hpos, ?_, False.elim⟩
    rw [← roundUp_units_le_iff hpos, hrsize]
    exact (floatToUint_roundUp hle).1
  refine Wp.call (record_spec h hcore hsize hmax hperm hx) ?_
  rintro _ a' ⟨hinv, hcfg⟩
  have hb := (hinv.bounds (Multiset.mem_cons_self _ _)).2
  have hroom := hinv.room
  simp only [hcfg.base_eq, hcfg.capacity_eq] at hb hroom
  have hshift : r.off <<< a.multiplierBits % 2 ^ 64 = r.off * 2 ^ a.multiplierBits := by
    rw [Nat.shiftLeft_eq]
    exact Nat.mod_eq_of_lt (by omega)
  simp only [wp_bind, wp_get, wp_addChecked, wp_pure, hcfg.base_eq, hcfg.multiplierBits_eq, hshift]
  exact ⟨by omega, hcfg, .inr ⟨⟨hpos, hle, hcan⟩, _, L', rfl, rfl, hinv⟩⟩

/-- **Freeing** a live allocation takes exactly it off the books. -/
theorem free_spec (h : a.Inv exact (x ::ₘ live) L) :
    Wp (free x) (fun _ a' => SameConfig a a' ∧ ∃ L', a'.Inv exact live L') a := by
  obtain ⟨r, rs, hx, hrest, hr⟩ := rel_cons_left.mp h.occupies
  have hmem : r ∈ usedRegions L := by
    rw [← mem_coe, hr]
    exact Multiset.mem_cons_self _ _
  obtain ⟨hrL, hused⟩ := List.mem_filter.mp hmem
  simp only [free, wp_bind, onCore, wp_focus, wp_modify, hx.core_eq]
  refine (CoreAllocator.free_spec h.core hrL hused r.off).mono ?_
  rintro _ c ⟨L', hcore, hperm, hcfg⟩
  have hrs : rs = (usedRegions L' : Multiset Region) := by
    have heq : (usedRegions L : Multiset Region) = r ::ₘ (usedRegions L' : Multiset Region) :=
      coe_eq_coe.mpr hperm
    rw [hr] at heq
    exact (Multiset.cons_inj_right r).mp heq
  refine ⟨⟨rfl, rfl, rfl, hcfg.maxCapacity_eq⟩, L', hcore, hcfg.size_eq.trans h.size_eq, h.bits_le,
    h.room, hrs ▸ hrest, ?_, ?_⟩
  · simp [h.allocatedSize_eq]
  · simp [h.allocatedNum_eq]

def CanReserve (a : OffsetAllocator) (L : List Region) (offset size : ℕ) : Prop :=
  a.base ≤ offset ∧ a.core.CanReserve L (offset - a.base) size

/-- In an exact allocator a range that meets no live one can be reserved, as long as the node pool
has room for two more regions per live allocation. -/
lemma Inv.canReserve (h : a.Inv True live L) (hbits : a.multiplierBits = 0) {offset : ℕ}
    (hpool : 2 * live.card + 4 ≤ a.core.maxCapacity) (hbase : a.base ≤ offset) (hpos : 0 < size)
    (hle : offset + size ≤ a.base + a.capacity)
    (hdisj : ∀ x ∈ live, RangesDisjoint offset size x.offset x.size) :
    a.CanReserve L offset size := by
  have hsize : a.core.size = a.capacity := by
    rw [h.size_eq, hbits, Nat.shiftRight_zero]
  have hnodes : a.core.freeOffset ≤ 2 * live.card + 1 := by
    have hlen : L.length ≤ 2 * L.countP Region.used + 1 := h.core.layout.coalesced.length_le
    rw [card_eq_card_of_rel h.occupies, ← h.core.loose.stack.length_eq, length_map,
      coe_card, usedRegions, ← countP_eq_length_filter]
    exact hlen
  refine ⟨hbase, hpos, by omega, by omega, fun r hr hused => ?_⟩
  have hmem : r ∈ (usedRegions L : Multiset Region) :=
    mem_coe.mpr (List.mem_filter.mpr ⟨hr, hused⟩)
  obtain ⟨x, hx, hocc⟩ := exists_mem_of_rel_of_mem (rel_flip.mpr h.occupies) hmem
  have hd := hdisj x hx
  have hoff := hocc.offset_eq
  have heq := hocc.size_eq trivial
  simp only [hbits, pow_zero, Nat.mul_one] at hoff heq
  simp only [RangesDisjoint, hoff, heq] at hd ⊢
  omega

/-- **Reserving** in an unscaled allocator succeeds exactly when the range can be reserved. -/
theorem reserveExact_spec (h : a.Inv exact live L) (hbits : a.multiplierBits = 0) (offset size : ℕ) :
    Wp (reserveExact offset size) (fun out a' => SameConfig a a' ∧
      ((out = none ∧ (∃ L', a'.Inv exact live L') ∧ ¬a.CanReserve L offset size) ∨
        (a.CanReserve L offset size ∧ ∃ x L', out = some x ∧ x.offset = offset ∧ x.size = size ∧
          a'.Inv exact (x ::ₘ live) L'))) a := by
  have hcore32 : a.core.size < 2 ^ 32 := by
    have := h.core.size_le
    simp only [maxBinSize] at this
    omega
  simp only [reserveExact, wp_bind, wp_get]
  split_ifs with hbad hbig
  · rw [wp_pure]
    refine ⟨⟨rfl, rfl, rfl, rfl⟩, .inl ⟨rfl, ⟨L, h⟩, ?_⟩⟩
    rintro ⟨hbase, hpos, -⟩
    rcases hbad with hzero | hlt | hne
    · exact hpos.ne' hzero
    · omega
    · exact hne hbits
  · rw [wp_pure]
    refine ⟨⟨rfl, rfl, rfl, rfl⟩, .inl ⟨rfl, ⟨L, h⟩, ?_⟩⟩
    rintro ⟨hbase, hpos, hle, -⟩
    omega
  push Not at hbad
  rw [wp_bind, onCore, wp_focus]
  refine (CoreAllocator.reserveExact_spec h.core (offset - a.base) size).mono ?_
  rintro out c ⟨L', hcore, hsize, hmax, ⟨rfl, rfl, hno⟩ | ⟨hcan, i, rfl, hperm⟩⟩
  · rw [wp_pure]
    exact ⟨⟨rfl, rfl, rfl, hmax⟩, .inl ⟨rfl, ⟨L', hcore, hsize.trans h.size_eq, h.bits_le, h.room,
      h.occupies, h.allocatedSize_eq, h.allocatedNum_eq⟩, fun hs => hno hs.2⟩⟩
  have hx : Occupies exact a.base a.multiplierBits ⟨offset, size, ⟨offset - a.base, i⟩⟩
      ⟨i, offset - a.base, size, true⟩ := by
    refine ⟨rfl, ?_, hcan.1, ?_, fun _ => ?_⟩
    · simp only [hbits, pow_zero, Nat.mul_one]
      omega
    · simp [hbits]
    · simp [hbits]
  refine Wp.call (record_spec h hcore hsize hmax hperm hx) ?_
  rintro _ a' ⟨hinv, hcfg⟩
  rw [wp_pure]
  exact ⟨hcfg, .inr ⟨⟨hbad.2.1, hcan⟩, _, L', rfl, rfl, rfl, hinv⟩⟩

/-- The largest free region leaves room to round a request up: it is a bin size, and the bin sizes
below `2 ^ 31` stay below `15 * 2 ^ 27`. -/
lemma Inv.roundUp_lt (h : a.Inv exact live L) {k : ℕ} (hk : binValue k ≤ a.core.size) :
    binValue k * 2 ^ a.multiplierBits + 2 ^ a.multiplierBits < 2 ^ 64 := by
  have hmax := h.core.size_le
  have hroom := h.room
  simp only [maxBinSize] at hmax
  rw [← Nat.succ_mul]
  rcases h.bits_le.lt_or_eq with hlt | heq
  · calc (binValue k).succ * 2 ^ a.multiplierBits
        ≤ (15 * 2 ^ 28 + 1) * 2 ^ 32 :=
          Nat.mul_le_mul (by omega) (Nat.pow_le_pow_right (by norm_num) (by omega))
      _ < 2 ^ 64 := by norm_num
  · have hsize : a.core.size < 2 ^ 31 := by
      rw [h.size_eq, heq, Nat.shiftRight_eq_div_pow]
      omega
    have hk232 : k < 232 := binValue_strictMono.lt_iff_lt.mp (by
      have h232 : binValue 232 = 2 ^ 31 := by decide
      omega)
    have hle := binValue_strictMono.monotone (Nat.le_of_lt_succ hk232)
    have h231 : binValue 231 = 15 * 2 ^ 27 := by decide
    rw [heq]
    omega

/-- The reported largest free region decides whether a request can be served. -/
theorem storageReport_spec (h : a.Inv exact live L) :
    ∃ total largest, a.storageReport = some (total, largest) ∧ largest ≤ a.capacity ∧
      largest + 2 ^ a.multiplierBits < 2 ^ 64 ∧
      ∀ size, 0 < size → (size ≤ largest ↔ a.CanServe L size) := by
  obtain ⟨rep, s', hrep, -, hle, ⟨k, hk⟩, hiff⟩ := CoreAllocator.storageReport_spec h.core
  have hbytes : rep.largestFreeRegion * 2 ^ a.multiplierBits ≤ a.capacity :=
    (Nat.mul_le_mul_right _ hle).trans h.units_le
  have hshift : rep.largestFreeRegion <<< a.multiplierBits % 2 ^ 64 =
      rep.largestFreeRegion * 2 ^ a.multiplierBits := by
    rw [Nat.shiftLeft_eq]
    exact Nat.mod_eq_of_lt (by have := h.room; omega)
  refine ⟨_, _, by simp only [storageReport, hrep, bind_eq_bind, bind_some]; rfl, ?_,
    ?_, fun size hpos => ?_⟩
  · rw [hshift]
    exact hbytes
  · rw [hshift, hk]
    exact h.roundUp_lt (hk ▸ hle)
  have hupos : 0 < a.units size := units_pos hpos
  rw [hshift, ← roundUp_units_le_iff hpos]
  constructor
  · intro hu
    have hmax : a.units size ≤ maxBinSize := hu.trans (hle.trans h.core.size_le)
    exact ⟨hpos, hmax, (hiff _ hupos hmax).mp hu⟩
  · rintro ⟨-, hmax, hcan⟩
    exact (hiff _ hupos hmax).mpr hcan

end specs

end OffsetAllocator

end QuillCache.Store
