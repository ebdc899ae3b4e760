import QuillCache.Store.Alloc.CoreReserve

/-!
# `CoreAllocator`: whole runs

A run starts from `new` and applies `allocate`, `free` of a live handle and `reserve_exact` in any
order. `CoreRun.Valid` is what holds after every step; `CoreRun.Sound` spells it out over the
allocator's own fields, with the panic-freedom of every next operation and of freeing every live
handle in any order.
-/

namespace QuillCache.Store

open Lib SmallFloat Function List

namespace CoreAllocator

/-! ## The start state -/

lemma blank_loose {size initCapacity maxCapacity : ℕ}
    (hmax : max initCapacity maxCapacity < unused) :
    Loose (blank size initCapacity maxCapacity) [] := by
  have hleaf : ∀ t, (blank size initCapacity maxCapacity).leaf t = 0 := by
    intro t
    simp only [leaf, blank, getD_eq_getElem?_getD, getElem?_replicate]
    split_ifs <;> rfl
  refine ⟨⟨by simp [blank], by simp [blank], le_max_left .., hmax, Nat.zero_le _, ?_⟩,
    ⟨fun _ => [], ⟨by simp [blank], by simp [blank], fun b => ?_, fun _ => linked_nil,
      fun _ => nodup_nil, by simp, ⟨fun t ht l hl => ?_, fun t ht => ?_⟩⟩, by simp [freeSlots]⟩,
    by simp, rfl⟩
  · simp [blank]
  · simp only [bin, blank, getD_eq_getElem?_getD, getElem?_replicate]
    split_ifs <;> rfl
  · simp [hleaf]
  · rw [hleaf]
    simp [blank]

/-- A fresh allocator is one free region. -/
theorem new_spec {size initCapacity maxCapacity : ℕ} (hsize : size ≤ maxBinSize)
    (hinit : 0 < initCapacity) (hmax : max initCapacity maxCapacity < unused) :
    ∃ s i, new size initCapacity maxCapacity = some s ∧ Inv s [⟨i, 0, size, false⟩] ∧
      s.size = size ∧ s.maxCapacity = max initCapacity maxCapacity := by
  have hlt : size < 2 ^ 32 := by
    simp only [maxBinSize] at hsize
    omega
  have hspec : Wp (insertNodeIntoBin size 0) _ (blank size initCapacity maxCapacity) :=
    insertNodeIntoBin_spec (blank_loose hmax) hinit (by simpa [blank] using hlt)
  obtain ⟨i, s, hrun, -, hl, hbody, -, -, hcfg⟩ := hspec
  have hs : s.size = size := hcfg.size_eq
  refine ⟨s, i, by simp [new, hrun], ⟨hl, ?_, ?_, hs ▸ hsize⟩, hs, hcfg.maxCapacity_eq⟩
  · exact linked_singleton (congrArg Node.neighborPrev hbody) (congrArg Node.neighborNext hbody)
  · rw [hs]
    exact ⟨⟨rfl, Nat.zero_add size⟩, isChain_singleton _, fun hpos r hr => by
      rw [mem_singleton.mp hr]
      exact hpos⟩

end CoreAllocator

/-! ## Runs -/

structure Handle where
  alloc : OffsetAllocation
  requested : ℕ
  deriving DecidableEq

structure CoreRun where
  core : CoreAllocator
  live : List Handle

/-- An operation on a core allocator; `free k` frees the `k`-th live handle. -/
inductive CoreOp where
  | allocate (size : ℕ)
  | free (k : ℕ)
  | reserveExact (offset size : ℕ)
  deriving DecidableEq

namespace CoreRun

open CoreAllocator

/-- What an operation may be applied to: a size that fits one core allocator, a live handle. -/
def Legal (st : CoreRun) : CoreOp → Prop
  | .allocate size => 0 < size ∧ size ≤ maxBinSize
  | .free k => k < st.live.length
  | .reserveExact offset size => offset < 2 ^ 32 ∧ size < 2 ^ 32

/-- Execute an operation, keeping track of the live handles; `none` is a panic. -/
def exec (st : CoreRun) : CoreOp → Option CoreRun
  | .allocate size => do
    let (a, core) ← allocate size st.core
    return if a.isNoSpace then ⟨core, st.live⟩ else ⟨core, ⟨a, size⟩ :: st.live⟩
  | .free k => do
    let h ← st.live[k]?
    let (_, core) ← free h.alloc st.core
    return ⟨core, st.live.eraseIdx k⟩
  | .reserveExact offset size => do
    let (a, core) ← reserveExact offset size st.core
    return match a with
      | none => ⟨core, st.live⟩
      | some a => ⟨core, ⟨a, size⟩ :: st.live⟩

def Step (st st' : CoreRun) : Prop := ∃ op, st.Legal op ∧ st.exec op = some st'

def freeAll : List Handle → Exec CoreAllocator Unit
  | [] => return ()
  | h :: hs => do
    free h.alloc
    freeAll hs

/-- The live handles are the used regions of `L`: each handle names its region, which is at least as
long as requested. -/
def Tracks (live : List Handle) (L : List Region) : Prop :=
  ∃ G : List (Handle × Region), G.map Prod.fst = live ∧ (G.map Prod.snd).Perm (usedRegions L) ∧
    ∀ p ∈ G, p.1.alloc = ⟨p.2.off, p.2.slot⟩ ∧ p.1.requested ≤ p.2.size

def Valid (size : ℕ) (st : CoreRun) : Prop :=
  ∃ L, Inv st.core L ∧ st.core.size = size ∧ Tracks st.live L

section valid

variable {size : ℕ} {st st' : CoreRun} {L L' : List Region} {live : List Handle} {r : Region}

lemma Tracks.cons {h : Handle} (ht : Tracks live L) (hL : (usedRegions L').Perm (r :: usedRegions L))
    (halloc : h.alloc = ⟨r.off, r.slot⟩) (hreq : h.requested ≤ r.size) : Tracks (h :: live) L' := by
  obtain ⟨G, rfl, hperm, hG⟩ := ht
  refine ⟨(h, r) :: G, rfl, (hperm.cons r).trans hL.symm, fun p hp => ?_⟩
  rcases mem_cons.mp hp with rfl | hp
  · exact ⟨halloc, hreq⟩
  · exact hG p hp

lemma Tracks.erase {k : ℕ} {h : Handle} (ht : Tracks live L) (hk : live[k]? = some h) :
    ∃ r ∈ L, r.used = true ∧ h.alloc = ⟨r.off, r.slot⟩ ∧
      ∀ L', (usedRegions L).Perm (r :: usedRegions L') → Tracks (live.eraseIdx k) L' := by
  obtain ⟨G, rfl, hperm, hG⟩ := ht
  rw [getElem?_map, Option.map_eq_some_iff] at hk
  obtain ⟨p, hp, rfl⟩ := hk
  obtain ⟨hk, rfl⟩ := List.getElem?_eq_some_iff.mp hp
  have hmem : G[k].2 ∈ usedRegions L :=
    hperm.mem_iff.mp (mem_map_of_mem (getElem_mem hk))
  obtain ⟨hrL, hru⟩ := mem_filter.mp hmem
  refine ⟨G[k].2, hrL, hru, (hG _ (getElem_mem hk)).1, fun L' hL' => ?_⟩
  refine ⟨G.eraseIdx k, by rw [eraseIdx_map], ?_, fun p hp =>
    hG p (mem_of_mem_eraseIdx hp)⟩
  have hsplit : (G.map Prod.snd).Perm (G[k].2 :: (G.eraseIdx k).map Prod.snd) := by
    rw [← map_cons]
    exact ((getElem_cons_eraseIdx_perm hk).map Prod.snd).symm
  exact (hsplit.symm.trans (hperm.trans hL')).cons_inv

lemma Valid.free {k : ℕ} {h : Handle} (hv : Valid size st) (hk : st.live[k]? = some h) :
    ∃ s', CoreAllocator.free h.alloc st.core = some ((), s') ∧
      Valid size ⟨s', st.live.eraseIdx k⟩ := by
  obtain ⟨L, hinv, hsize, htracks⟩ := hv
  obtain ⟨r, hr, hru, halloc, herase⟩ := htracks.erase hk
  obtain ⟨_, s', hrun, L', hinv', hperm, hcfg⟩ := free_spec hinv hr hru r.off
  exact ⟨s', halloc ▸ hrun, L', hinv', hcfg.size_eq.trans hsize, herase L' hperm⟩

/-- Every legal operation of a valid run succeeds and keeps it valid. -/
theorem Valid.exec {op : CoreOp} (h : Valid size st) (hlegal : st.Legal op) :
    ∃ st', st.exec op = some st' ∧ Valid size st' := by
  obtain ⟨L, hinv, hsize, htracks⟩ := h
  cases op with
  | allocate n =>
    obtain ⟨hpos, hle⟩ := hlegal
    obtain ⟨a, s', hrun, L', hinv', hsize', -, hor⟩ := allocate_spec hinv hpos hle
    rcases hor with ⟨rfl, rfl, -⟩ | ⟨-, r, rfl, hru, hrs, hperm⟩
    · exact ⟨⟨s', st.live⟩, by simp [CoreRun.exec, hrun, OffsetAllocation.isNoSpace,
        OffsetAllocation.noSpace], L', hinv', hsize'.trans hsize, htracks⟩
    · have hslot : r.slot ≠ unused :=
        hinv'.ne_unused (mem_filter.mp (hperm.mem_iff.mpr mem_cons_self)).1
      exact ⟨⟨s', ⟨⟨r.off, r.slot⟩, n⟩ :: st.live⟩,
        by simp [CoreRun.exec, hrun, OffsetAllocation.isNoSpace, hslot], L', hinv',
        hsize'.trans hsize, htracks.cons hperm rfl (hrs ▸ (floatToUint_roundUp hle).1)⟩
  | free k =>
    have hk : ∃ h, st.live[k]? = some h := ⟨_, getElem?_eq_getElem hlegal⟩
    obtain ⟨h, hk⟩ := hk
    obtain ⟨s', hrun, hv'⟩ := Valid.free ⟨L, hinv, hsize, htracks⟩ hk
    exact ⟨⟨s', st.live.eraseIdx k⟩, by simp [CoreRun.exec, hk, hrun], hv'⟩
  | reserveExact offset n =>
    obtain ⟨out, s', hrun, L', hinv', hsize', -, hor⟩ :=
      reserveExact_spec hinv offset n
    rcases hor with ⟨rfl, rfl, -⟩ | ⟨-, i, rfl, hperm⟩
    · exact ⟨⟨s', st.live⟩, by simp [CoreRun.exec, hrun], L', hinv', hsize'.trans hsize, htracks⟩
    · exact ⟨⟨s', ⟨⟨offset, i⟩, n⟩ :: st.live⟩, by simp [CoreRun.exec, hrun], L', hinv',
        hsize'.trans hsize, htracks.cons hperm rfl le_rfl⟩

/-- The live handles can be freed in any order. -/
theorem Valid.freeAll {order : List Handle} (hv : Valid size st) (hp : order.Perm st.live) :
    ∃ s', CoreRun.freeAll order st.core = some ((), s') ∧ Valid size ⟨s', []⟩ := by
  induction order generalizing st with
  | nil =>
    have hnil : st.live = [] := hp.nil_eq.symm
    exact ⟨st.core, rfl, hnil ▸ hv⟩
  | cons h hs ih =>
    obtain ⟨k, hk⟩ := mem_iff_getElem?.mp (hp.mem_iff.mp mem_cons_self)
    obtain ⟨hlt, rfl⟩ := List.getElem?_eq_some_iff.mp hk
    obtain ⟨s₁, hrun, hv₁⟩ := hv.free hk
    have hp₁ : hs.Perm (st.live.eraseIdx k) :=
      (hp.trans (getElem_cons_eraseIdx_perm hlt).symm).cons_inv
    obtain ⟨s', hrun', hv'⟩ := ih hv₁ hp₁
    refine ⟨s', ?_, hv'⟩
    change Option.bind (CoreAllocator.free _ st.core) (fun p => CoreRun.freeAll hs p.2) = _
    rw [hrun]
    exact hrun'

/-- A run keeps its invariant. -/
theorem Valid.run (hv : Valid size st) (hrun : Relation.ReflTransGen Step st st') :
    Valid size st' := by
  induction hrun with
  | refl => exact hv
  | tail _ hstep ih =>
    obtain ⟨op, hlegal, hexec⟩ := hstep
    obtain ⟨st'', hexec', hv'⟩ := ih.exec hlegal
    rw [hexec, Option.some.injEq] at hexec'
    exact hexec' ▸ hv'

end valid

/-! ## The invariant over the allocator's fields -/

def nodeSpans (s : CoreAllocator) : Spans ℕ where
  start i := (s.node i).dataOffset
  len i := (s.node i).dataSize
  used i := (s.node i).used

/-- The allocator's data structures, over its own fields: `chain` lists the nodes in neighbour order
and `bins b` the members of bin `b`. -/
structure WellFormed (s : CoreAllocator) (chain : List ℕ) (bins : ℕ → List ℕ) : Prop where
  /-- The neighbour links run through `chain`, and its nodes tile the memory. -/
  neighbours : Linked unused s.prev s.next chain
  tiles : (nodeSpans s).Tiles 0 s.size chain
  coalesced : (nodeSpans s).Coalesced chain
  /-- The bin links of bin `b` run through `bins b`, from `bin_indices[b]`. -/
  bin_links : ∀ b, Linked unused s.binPrev s.binNext (bins b)
  bin_head : ∀ b, s.bin b = (bins b).head?.getD unused
  bin_nodup : ∀ b, (bins b).Nodup
  /-- A node is in a bin exactly when it is free, and only in the bin of its rounded-down size. -/
  mem_bin : ∀ b i, i ∈ bins b ↔
    i ∈ chain ∧ (s.node i).used = false ∧ b = uintToFloatRoundDown (s.node i).dataSize
  leaf_bit : ∀ t < numTopBins, ∀ l < 8, (s.leaf t).getLsbD l = true ↔ bins (8 * t + l) ≠ []
  top_bit : ∀ t < numTopBins, s.usedBinsTop.getLsbD t = true ↔ ∃ l < 8, bins (8 * t + l) ≠ []
  free_storage : s.freeStorage =
    ((chain.filter fun i => !(s.node i).used).map fun i => (s.node i).dataSize).sum
  /-- The free-node stack holds exactly the slots of no node. -/
  stack_nodup : (s.freeNodes.drop s.freeOffset).Nodup
  mem_stack : ∀ i, i ∈ s.freeNodes.drop s.freeOffset ↔ i < s.currentCapacity ∧ i ∉ chain
  pool : s.nodes.length = s.currentCapacity ∧ ∀ i ∈ chain, i < s.currentCapacity

/-- The live handles against the nodes: they are the used nodes, pairwise disjoint, inside the
memory and at least as long as requested. -/
structure HandlesSound (s : CoreAllocator) (chain : List ℕ) (live : List Handle) : Prop where
  used_nodes : (live.map fun h => h.alloc.metadata).Perm (chain.filter fun i => (s.node i).used)
  offset_eq : ∀ h ∈ live, h.alloc.offset = (s.node h.alloc.metadata).dataOffset
  long_enough : ∀ h ∈ live, h.requested ≤ (s.node h.alloc.metadata).dataSize
  inside : ∀ h ∈ live, h.alloc.offset + (s.node h.alloc.metadata).dataSize ≤ s.size
  disjoint : live.Pairwise fun h h' => RangesDisjoint h.alloc.offset
    (s.node h.alloc.metadata).dataSize h'.alloc.offset (s.node h'.alloc.metadata).dataSize

section sound

variable {size : ℕ} {s : CoreAllocator} {st : CoreRun} {L : List Region}

lemma tiles_slots {lo hi : ℕ} (hL : ∀ r ∈ L, Holds s r) (h : regionSpans.Tiles lo hi L) :
    (nodeSpans s).Tiles lo hi (L.map Region.slot) := by
  induction L generalizing lo with
  | nil => exact h
  | cons r L ih =>
    obtain ⟨hoff, hsize, -⟩ := hL r mem_cons_self
    refine ⟨hoff.trans h.1, ?_⟩
    change (nodeSpans s).Tiles (lo + (s.node r.slot).dataSize) hi (L.map Region.slot)
    rw [hsize]
    exact ih (fun r' hr' => hL r' (mem_cons_of_mem _ hr')) h.2

lemma filter_slots {f : Bool → Bool} (hL : ∀ r ∈ L, Holds s r) :
    (L.map Region.slot).filter (fun i => f (s.node i).used) =
      (L.filter fun r => f r.used).map Region.slot := by
  rw [filter_map]
  congr 1
  exact filter_congr fun r hr => by
    rw [comp_apply, (hL r hr).2.2]

lemma wellFormed_of_inv (h : Inv s L) : ∃ bins, WellFormed s (L.map Region.slot) bins := by
  obtain ⟨⟨hstack, ⟨B, hB, hF⟩, hholds, hfree⟩, hlinked, ⟨htiles, hcoal, -⟩, -⟩ := id h
  have hnd := hstack.perm.nodup_iff.mpr nodup_range
  obtain ⟨hdrop, -, hdisj⟩ := nodup_append.mp hnd
  refine ⟨B, hlinked, tiles_slots hholds htiles, ?_, hB.linked, hB.head_eq, hB.nodup, fun b i => ?_,
    hB.bits.leaf_iff, fun t ht => hB.bits.top_iff_exists ht, ?_, hdrop, fun i => ?_,
    hstack.nodes_length, fun i hi => hstack.nodes_length ▸ hstack.lt hi⟩
  · unfold Spans.Coalesced at hcoal ⊢
    rw [isChain_map]
    refine hcoal.imp_of_mem_imp fun a b ha hb hab => ?_
    simp only [nodeSpans, (hholds a ha).2.2, (hholds b hb).2.2]
    exact hab
  · constructor
    · intro hi
      obtain ⟨r, hr, -, rfl⟩ := (hF i).mpr ⟨b, hi⟩
      exact ⟨mem_map_of_mem hr, (hB.mem b _ hi).2.1, (hB.mem b _ hi).2.2.symm⟩
    · rintro ⟨hi, hused, rfl⟩
      obtain ⟨r, hr, rfl⟩ := mem_map.mp hi
      obtain ⟨-, hsize, hu⟩ := hholds r hr
      rw [hsize]
      exact h.mem_bin hB hF hr (hu.symm.trans hused)
  · rw [hfree, freeSize, filter_slots (f := fun u => !u) hholds, map_map]
    congr 1
    exact map_congr_left fun r hr => (hholds r (mem_filter.mp hr).1).2.1.symm
  · have hmem := hstack.perm.mem_iff (a := i)
    rw [mem_append, mem_range] at hmem
    refine ⟨fun hi => ⟨hmem.mp (.inl hi), fun hi' => hdisj i hi i hi' rfl⟩, fun hi => ?_⟩
    exact (hmem.mpr hi.1).resolve_right hi.2

lemma handlesSound_of_tracks {live : List Handle} (h : Inv s L) (ht : Tracks live L) :
    HandlesSound s (L.map Region.slot) live := by
  obtain ⟨G, rfl, hperm, hG⟩ := ht
  have hholds := h.loose.holds
  have hmem : ∀ p ∈ G, p.2 ∈ L := fun p hp =>
    (mem_filter.mp (hperm.mem_iff.mp (mem_map_of_mem hp))).1
  have hoff : ∀ p ∈ G, p.1.alloc.offset = p.2.off := fun p hp => by rw [(hG p hp).1]
  have hsize : ∀ p ∈ G, (s.node p.1.alloc.metadata).dataSize = p.2.size := fun p hp => by
    rw [(hG p hp).1]
    exact (hholds _ (hmem p hp)).2.1
  refine ⟨?_, ?_, ?_, ?_, ?_⟩
  · have hfilter := filter_slots (f := id) hholds
    simp only [id] at hfilter
    rw [hfilter, map_map]
    have hmap : G.map ((fun h => h.alloc.metadata) ∘ Prod.fst) =
        (G.map Prod.snd).map Region.slot := by
      rw [map_map]
      exact map_congr_left fun p hp => by
        simp only [comp_apply, (hG p hp).1]
    rw [hmap]
    exact hperm.map Region.slot
  · simp only [forall_mem_map]
    intro p hp
    rw [(hG p hp).1]
    exact (hholds _ (hmem p hp)).1.symm
  · simp only [forall_mem_map]
    intro p hp
    rw [hsize p hp]
    exact (hG p hp).2
  · simp only [forall_mem_map]
    intro p hp
    rw [hsize p hp, hoff p hp]
    exact (h.layout.tiles.bounds (hmem p hp)).2
  · have hL : L.Pairwise fun a b => RangesDisjoint a.off a.size b.off b.size :=
      h.layout.tiles.pairwise.imp fun hab => .inl hab
    have hused : (usedRegions L).Pairwise fun a b => RangesDisjoint a.off a.size b.off b.size :=
      hL.sublist filter_sublist
    have hGp := hperm.symm.pairwise hused fun hab => RangesDisjoint.symm hab
    rw [pairwise_map] at hGp ⊢
    refine hGp.imp_of_mem fun {p q} hp hq hpq => ?_
    rw [hsize p hp, hsize q hq, hoff p hp, hoff q hq]
    exact hpq

lemma Valid.single_region (hpos : 0 < size) (hv : Valid size ⟨s, []⟩) :
    ∃ i, Inv s [⟨i, 0, size, false⟩] := by
  obtain ⟨L, hinv, rfl, G, hG, hperm, -⟩ := hv
  simp only [map_eq_nil_iff] at hG
  subst hG
  have hused : L.countP Region.used = 0 := by
    rw [countP_eq_length_filter]
    exact congrArg List.length (nil_perm.mp hperm)
  have hlen : L.length ≤ 2 * L.countP Region.used + 1 := hinv.layout.coalesced.length_le
  have htiles := hinv.layout.tiles
  match L, hlen, htiles, hinv with
  | [], _, htiles, _ => exact absurd htiles hpos.ne
  | [r], _, htiles, hinv =>
    have hr : r.used = false := by
      simpa using hused
    have hoff : r.off = 0 := htiles.1
    have hsz : r.size = s.size := by
      have := htiles.2
      simpa [regionSpans] using this
    refine ⟨r.slot, ?_⟩
    rw [← hoff, ← hsz, ← hr]
    exact hinv
  | _ :: _ :: _, hlen, _, _ =>
    simp only [hused, length_cons] at hlen
    omega

end sound

/-- **The core allocator over whole runs.** From a fresh allocator, after any sequence of
allocations, frees of live handles and exact reservations: the nodes tile the memory in neighbour
order with no two free neighbours, the bins, bitmaps, free total and free-node stack describe
exactly them, the live handles are the used nodes, disjoint, inside and long enough, no further
operation panics, and freeing every live handle in any order leaves one free region of the whole
size. -/
theorem core_run_sound (size initCapacity maxCapacity : ℕ) (hpos : 0 < size)
    (hsize : size ≤ maxBinSize) (hinit : 0 < initCapacity)
    (hmax : max initCapacity maxCapacity < unused) :
    ∃ s₀, new size initCapacity maxCapacity = some s₀ ∧
      ∀ st, Relation.ReflTransGen Step ⟨s₀, []⟩ st →
        st.core.size = size ∧
        (∃ chain bins, WellFormed st.core chain bins ∧ HandlesSound st.core chain st.live) ∧
        (∀ op, st.Legal op → ∃ st', st.exec op = some st') ∧
        ∀ order : List Handle, order.Perm st.live → ∃ s' i bins,
          CoreRun.freeAll order st.core = some ((), s') ∧ WellFormed s' [i] bins ∧
            (s'.node i).dataOffset = 0 ∧ (s'.node i).dataSize = size ∧ (s'.node i).used = false := by
  obtain ⟨s₀, i₀, hnew, hinv₀, hsize₀, -⟩ := new_spec hsize hinit hmax
  have hv₀ : Valid size ⟨s₀, []⟩ := ⟨_, hinv₀, hsize₀, [], rfl, by simp [usedRegions], by simp⟩
  refine ⟨s₀, hnew, fun st hrun => ?_⟩
  have hv := hv₀.run hrun
  refine ⟨?_, ?_, fun op hop => ?_, fun order horder => ?_⟩
  · obtain ⟨L, -, hs, -⟩ := hv
    exact hs
  · obtain ⟨L, hinv, -, htracks⟩ := hv
    obtain ⟨bins, hwf⟩ := wellFormed_of_inv hinv
    exact ⟨_, bins, hwf, handlesSound_of_tracks hinv htracks⟩
  · obtain ⟨st', hexec, -⟩ := hv.exec hop
    exact ⟨st', hexec⟩
  · obtain ⟨s', hfree, hv'⟩ := hv.freeAll horder
    obtain ⟨i, hinv'⟩ := hv'.single_region hpos
    obtain ⟨bins, hwf⟩ := wellFormed_of_inv hinv'
    obtain ⟨hoff, hsz, hu⟩ := hinv'.loose.holds _ mem_cons_self
    exact ⟨s', i, bins, hfree, hwf, hoff, hsz, hu⟩

/-- A 64-unit allocator with four node slots, growing to eight, never panics. -/
theorem core_run_sound_64 : ∃ s₀, new 64 4 8 = some s₀ ∧
    ∀ st, Relation.ReflTransGen Step ⟨s₀, []⟩ st →
      ∀ op, st.Legal op → ∃ st', st.exec op = some st' := by
  obtain ⟨s₀, hnew, hrun⟩ := core_run_sound 64 4 8 (by decide) (by decide) (by decide) (by decide)
  exact ⟨s₀, hnew, fun st hst => (hrun st hst).2.2.1⟩

end CoreRun

end QuillCache.Store
