import QuillCache.Store.Alloc.CoreInv

/-!
# `CoreAllocator`: allocating

`allocate_spec`: an allocation never panics and keeps the invariant; it succeeds exactly when a node
handle is left and some free region's bin is at or above the request's rounded-up bin
(`CanAllocate`), and then the used regions gain one region of the bin-rounded size.
`storageReport_spec` reads the same condition off the reported largest free region.
-/

namespace QuillCache.Store

open Lib SmallFloat List

lemma findLowestSetBitAfter_spec (x : BitVec 32) (k : ℕ) :
    (findLowestSetBitAfter x k = unused ∧ ∀ i, k ≤ i → x.getLsbD i = false) ∨
      (findLowestSetBitAfter x k < 32 ∧ k ≤ findLowestSetBitAfter x k ∧
        x.getLsbD (findLowestSetBitAfter x k) = true) := by
  unfold findLowestSetBitAfter
  split_ifs with hk
  · exact .inl ⟨rfl, fun i hi => BitVec.getLsbD_of_ge x i (hk.trans hi)⟩
  · have hbit : ∀ i, (x &&& ~~~((1#32 <<< k) - 1#32)).getLsbD i = true ↔
        k ≤ i ∧ x.getLsbD i = true := by
      intro i
      rw [BitVec.getLsbD_and, BitVec.getLsbD_not, getLsbD_one_shiftLeft_sub_one (by omega)]
      simp only [Bool.and_eq_true, decide_eq_true_eq, Bool.not_eq_true', decide_eq_false_iff_not,
        not_lt]
      exact ⟨fun ⟨hx, _, hi⟩ => ⟨hi, hx⟩, fun ⟨hi, hx⟩ => ⟨hx, BitVec.lt_of_getLsbD hx, hi⟩⟩
    simp only []
    split_ifs with hz
    · refine .inl ⟨rfl, fun i hi => ?_⟩
      by_contra hx
      have := (hbit i).mpr ⟨hi, by simpa using hx⟩
      rw [hz] at this
      simp at this
    · have hset := BitVec.getLsbD_true_ctz_of_ne_zero hz
      obtain ⟨hle, hx⟩ := (hbit _).mp hset
      exact .inr ⟨BitVec.lt_of_getLsbD hx, hle, hx⟩

namespace CoreAllocator

section findBin

variable {s : CoreAllocator} {B : ℕ → List ℕ}

lemma getLsbD_setWidth_leaf (x : BitVec 8) (i : ℕ) :
    (x.setWidth 32).getLsbD i = true ↔ i < 8 ∧ x.getLsbD i = true := by
  rw [BitVec.getLsbD_setWidth]
  simp only [Bool.and_eq_true, decide_eq_true_eq]
  exact ⟨fun ⟨_, hx⟩ => ⟨BitVec.lt_of_getLsbD hx, hx⟩, fun ⟨hi, hx⟩ => ⟨by omega, hx⟩⟩

lemma Bins.leaf_iff (hB : Bins s B) {t l : ℕ} (ht : t < 32) :
    ((s.leaf t).setWidth 32).getLsbD l = true ↔ l < 8 ∧ B (8 * t + l) ≠ [] := by
  rw [getLsbD_setWidth_leaf]
  exact and_congr_right fun hl => hB.bits.leaf_iff t ht l hl

lemma scanLeaf_spec (hB : Bins s B) {t k : ℕ} (ht : t < 32) :
    Wp (scanLeaf t k) (fun lf s' => s' = s ∧
      ((lf = unused ∧ ∀ l < 8, k ≤ l → B (8 * t + l) = []) ∨
        (lf < 8 ∧ k ≤ lf ∧ B (8 * t + lf) ≠ []))) s := by
  simp only [scanLeaf, wp_bind, wp_get]
  split_ifs with hbit
  · simp only [wp_bind, wp_readLeaf, wp_pure]
    refine ⟨by rw [hB.usedBins_length]; exact ht, trivial, ?_⟩
    rcases findLowestSetBitAfter_spec ((s.leaf t).setWidth 32) k with ⟨hu, hnone⟩ | ⟨-, hk, hset⟩
    · refine .inl ⟨hu, fun l hl hkl => ?_⟩
      by_contra hne
      have := hnone l hkl
      rw [(hB.leaf_iff ht).mpr ⟨hl, hne⟩] at this
      cases this
    · exact .inr ⟨((hB.leaf_iff ht).mp hset).1, hk, ((hB.leaf_iff ht).mp hset).2⟩
  · rw [wp_pure]
    refine ⟨rfl, .inl ⟨rfl, fun l hl _ => ?_⟩⟩
    by_contra hne
    exact hbit ((and_bit_ne_zero_iff ht).mpr ((hB.bits.top_iff_exists ht).mpr ⟨l, hl, hne⟩))

lemma findBin_spec (hB : Bins s B) {minBin : ℕ} (hmin : minBin < numLeafBins) :
    Wp (findBin minBin) (fun out s' => s' = s ∧
      ((out = none ∧ ∀ b < numLeafBins, minBin ≤ b → B b = []) ∨
        ∃ t l, out = some (t, l) ∧ t < 32 ∧ l < 8 ∧ minBin ≤ 8 * t + l ∧ B (8 * t + l) ≠ [])) s := by
  simp only [numLeafBins] at hmin ⊢
  simp only [findBin, shiftRight_topBinsIndexShift, and_leafBinsIndexMask, wp_bind, wp_get]
  refine (scanLeaf_spec hB (t := minBin / 8) (k := minBin % 8) (by omega)).mono ?_
  rintro lf s₁ ⟨hs, hor⟩
  rw [hs]
  rcases hor with ⟨rfl, hown⟩ | ⟨hlf, hk, hne⟩
  · rw [if_pos rfl]
    rcases findLowestSetBitAfter_spec s.usedBinsTop (minBin / 8 + 1) with
      ⟨hu, hnone⟩ | ⟨ht, hle, hset⟩
    · rw [if_pos hu, wp_pure]
      refine ⟨rfl, .inl ⟨rfl, fun b hb hle => ?_⟩⟩
      by_cases hb8 : b / 8 = minBin / 8
      · have := hown (b % 8) (by omega) (by omega)
        rwa [show 8 * (minBin / 8) + b % 8 = b by omega] at this
      · by_contra hne
        have := hnone (b / 8) (by omega)
        rw [(hB.bits.top_iff_exists (by omega)).mpr ⟨b % 8, by omega, by
          rwa [Nat.div_add_mod]⟩] at this
        cases this
    · have hu : findLowestSetBitAfter s.usedBinsTop (minBin / 8 + 1) ≠ unused := by
        simp only [unused]
        omega
      rw [if_neg hu]
      simp only [wp_bind, wp_readLeaf, wp_pure]
      refine ⟨by rw [hB.usedBins_length]; exact ht, trivial, .inr ⟨_, _, rfl, ht, ?_⟩⟩
      obtain ⟨l, hl, hne⟩ := (hB.bits.top_iff_exists ht).mp hset
      have hnz : (s.leaf (findLowestSetBitAfter s.usedBinsTop (minBin / 8 + 1))).setWidth 32 ≠ 0 :=
        ne_zero_iff_exists_getLsbD.mpr ⟨l, by omega, (hB.leaf_iff ht).mpr ⟨hl, hne⟩⟩
      obtain ⟨hl8, hne8⟩ := (hB.leaf_iff ht).mp (BitVec.getLsbD_true_ctz_of_ne_zero hnz)
      exact ⟨hl8, by omega, hne8⟩
  · have hu : lf ≠ unused := by
      simp only [unused]
      omega
    rw [if_neg hu, wp_pure]
    exact ⟨rfl, .inr ⟨_, _, rfl, by omega, hlf, by omega, hne⟩⟩

end findBin

section allocate

variable {s : CoreAllocator} {L xs ys : List Region} {c r : Region}

lemma perm_insert {α : Type} (m xs ys : List α) : (m ++ (xs ++ ys)).Perm (xs ++ m ++ ys) := by
  rw [append_assoc]
  exact perm_append_comm_assoc m xs ys

lemma Inv.grow (h : Inv s L) (hcap : s.currentCapacity < s.maxCapacity) : Inv s.grown L := by
  obtain ⟨hstack, hbins, hholds, hfree⟩ := h.loose
  refine ⟨⟨⟨?_, ?_, hcap, hstack.maxCapacity_lt, ?_, ?_⟩, ?_, fun r hr => ?_, hfree⟩, ?_, h.layout,
    h.size_le⟩
  · simp [grown, hstack.nodes_length]
  · simp [grown, hstack.freeNodes_length]
  · exact hstack.freeOffset_le.trans (Nat.le_succ _)
  · have hdrop : (s.freeNodes ++ [s.currentCapacity]).drop s.freeOffset =
        s.freeNodes.drop s.freeOffset ++ [s.currentCapacity] :=
      drop_append_of_le_length (hstack.freeNodes_length ▸ hstack.freeOffset_le)
    change ((s.freeNodes ++ [s.currentCapacity]).drop s.freeOffset ++ _).Perm
      (List.range (s.currentCapacity + 1))
    rw [hdrop, range_succ, append_assoc, singleton_append]
    exact perm_middle.trans ((hstack.perm.cons _).trans (perm_append_singleton _ _).symm)
  · exact hbins.congr rfl rfl rfl (by simp [grown]) fun i _ => by rw [node_grown]
  · exact (hholds r hr).congr (by rw [node_grown])
  · exact h.linked.congr (fun i _ => by simp only [prev, node_grown])
      fun i _ => by simp only [next, node_grown]

/-- The free region `c` was popped off its bin and is now a used one of the given size. -/
structure Popped (s s' : CoreAllocator) (c : Region) (L : List Region) (size : ℕ) : Prop where
  loose : Loose s' ({ c with size, used := true } :: L)
  body_eq : ∀ j ≠ c.slot, j ≠ unused → (s'.node j).body = (s.node j).body
  prev_eq : s'.prev c.slot = s.prev c.slot
  next_eq : s'.next c.slot = s.next c.slot
  freeStorage_eq : s'.freeStorage + c.size = s.freeStorage
  freeOffset_eq : s'.freeOffset = s.freeOffset
  config : SameConfig s s'

lemma popHead_spec {b size : ℕ} (h : Loose s (c :: L)) (hc : c.used = false)
    (hb256 : b < numLeafBins) (hhead : s.bin b = c.slot)
    (hround : uintToFloatRoundDown c.size = b) :
    Wp (popHead (b / 8) (b % 8) c.slot size (s.node c.slot)) (fun _ s' => Popped s s' c L size) s := by
  obtain ⟨B, hB, hF⟩ := h.bins
  have hle := h.stack.length_le
  have hlt : c.slot < s.nodes.length := h.stack.lt (by simp)
  have hcu : c.slot ≠ unused := h.stack.ne_unused (by simp)
  obtain ⟨hoff, hdata, hused⟩ := h.holds c mem_cons_self
  obtain ⟨b', hb'⟩ := (hF c.slot).mp ⟨c, mem_cons_self, hc, rfl⟩
  have hbb : b' = b := by rw [← (hB.mem b' _ hb').2.2, hdata, hround]
  rw [hbb] at hb'
  have hblt : b < s.binIndices.length := hB.binIndices_length ▸ hb256
  obtain ⟨hnext, -⟩ := hB.neighbours hle hb'
  -- the head of a bin has no previous node
  have hprev : s.binPrev c.slot = unused := by
    obtain ⟨k, ks, hk⟩ := exists_cons_of_ne_nil (ne_nil_of_mem hb')
    have hkc : k = c.slot := by rw [← hhead, hB.head_eq, hk]; rfl
    have hlinked : Linked unused s.binPrev s.binNext ([] ++ c.slot :: ks) := by
      rw [← hkc, nil_append, ← hk]
      exact hB.linked b
    exact (hlinked.links hcu).1
  have hfs : s.freeStorage = c.size + freeSize L :=
    h.freeStorage_eq.trans (freeSize_cons_of_free hc)
  obtain ⟨hfresh, -⟩ := nodup_cons.mp h.stack.nodup
  simp only [popHead, shiftLeft_or_eq (Nat.mod_lt b (by norm_num : 8 > 0)), Nat.div_add_mod, wp_bind,
    wp_writeNode]
  refine ⟨hlt, ?_⟩
  set s₁ := s.setNode c.slot { s.node c.slot with dataSize := size, used := true } with hs₁
  refine Wp.mono (unlinkHead_spec (s := s₁) (s.binNext c.slot) hblt fun hne => ?_) ?_
  · rw [hs₁, setNode_nodes_length]
    exact (hB.mem b _ (hnext hne)).1
  rintro _ _ ⟨ns, rfl, hns, hnode⟩
  have hnew : (ns.getD c.slot {}).dataOffset = c.off ∧ (ns.getD c.slot {}).dataSize = size ∧
      (ns.getD c.slot {}).used = true ∧ (ns.getD c.slot {}).neighborPrev = s.prev c.slot ∧
        (ns.getD c.slot {}).neighborNext = s.next c.slot := by
    rw [hnode _ hcu, hs₁, node_setNode s hlt, if_pos rfl, ← hoff]
    split_ifs <;> exact ⟨rfl, rfl, rfl, rfl, rfl⟩
  have hold : ∀ j ≠ c.slot, j ≠ unused → ns.getD j {} =
      if j = s.binNext c.slot then { s.node j with binListPrev := unused } else s.node j := by
    intro j hj hju
    rw [hnode j hju, hs₁, node_setNode s hlt, if_neg hj]
  have hbody : ∀ j ≠ c.slot, j ≠ unused → (ns.getD j {}).body = (s.node j).body := by
    intro j hj hju
    rw [hold j hj hju]
    split_ifs <;> rfl
  simp only [wp_get, wp_subChecked, wp_modify]
  refine ⟨hdata.trans_le ((Nat.le_add_right _ _).trans_eq hfs.symm), ?_⟩
  refine Wp.mono (clearIfEmpty_spec hb256 ?_ ?_ hB.bits) ?_
  · exact (length_set ..).trans hB.binIndices_length
  · exact hB.usedBins_length
  rintro _ _ ⟨u, top, rfl, hu, hbits⟩
  refine ⟨⟨?_, ?_, fun r hr => ?_, ?_⟩, hbody, hnew.2.2.2.1, hnew.2.2.2.2, ?_,
    rfl, ⟨rfl, rfl, rfl⟩⟩
  · exact h.stack.congr (hns.trans (setNode_nodes_length ..)) rfl rfl rfl rfl
  · rw [freeSlots_cons_of_used rfl]
    rw [freeSlots_cons_of_free hc] at hF
    refine hB.freeIn_erase hF (fun hmem => hfresh (mem_slots_of_mem_freeSlots hmem)) hb' ?_
    refine hB.unlink hle hb' (length_set ..) hu (hns.trans (setNode_nodes_length ..))
      (fun k => ?_) (fun j hj hju => ?_) hbits
    · refine (bin_setBin s hblt _ k).trans ?_
      simp only [hprev, and_true]
    · refine (congrArg Node.binPart (hold j hj hju)).trans ?_
      rw [hprev, if_neg (c := j = unused) hju]
      split_ifs <;> rfl
  · rcases mem_cons.mp hr with rfl | hr
    · exact ⟨hnew.1, hnew.2.1, hnew.2.2.1⟩
    · have hslot : r.slot ∈ L.map Region.slot := mem_map_of_mem hr
      exact (h.holds r (mem_cons_of_mem _ hr)).congr (hbody _ (fun heq => hfresh (heq ▸ hslot))
        (h.stack.ne_unused (mem_cons_of_mem _ hslot)))
  · change s.freeStorage - (s.node c.slot).dataSize = _
    rw [freeSize_cons_of_used rfl, hdata, hfs, Nat.add_sub_cancel_left]
  · change s.freeStorage - (s.node c.slot).dataSize + c.size = s.freeStorage
    omega

lemma relinkRemainder_spec {k i n : ℕ} (hk : k < s.nodes.length) (hi : i < s.nodes.length)
    (hki : k ≠ i) (hn : n ≠ unused → n < s.nodes.length ∧ n ≠ i ∧ n ≠ k) :
    Wp (relinkRemainder k i n) (fun _ s' => ∃ P N, Relinked s s' P N ∧
      [k, i, n].IsChain (LinkRel unused P N) ∧
      (∀ j ≠ i, j ≠ n → P j = s.prev j) ∧ (∀ j ≠ i, j ≠ k → N j = s.next j)) s := by
  have hchain : ∀ P N : ℕ → ℕ, P i = k → N i = n → N k = i → (n ≠ unused → P n = i) →
      [k, i, n].IsChain (LinkRel unused P N) := by
    intro P N hPi hNi hNk hPn
    simp only [isChain_cons_cons, isChain_singleton, and_true]
    exact ⟨⟨fun _ => hNk, fun _ => hPi⟩, fun _ => hNi, hPn⟩
  have hre := Relinked.refl s
  unfold relinkRemainder
  split_ifs with hn0
  · obtain ⟨hnlt, hni, -⟩ := hn hn0
    simp only [wp_bind]
    refine hre.wp_prev hnlt fun s₁ h₁ => h₁.wp_prev hi fun s₂ h₂ => h₂.wp_next hi fun s₃ h₃ =>
      h₃.wp_next hk fun s₄ h₄ => ⟨_, _, h₄, hchain _ _ ?_ ?_ ?_ ?_, ?_, ?_⟩
    · simp
    · simp [hki.symm]
    · simp
    · simp [hni]
    · intro j hji hjn
      simp [hji, hjn]
    · intro j hji hjk
      simp [hji, hjk]
  · rw [not_not] at hn0
    simp only [wp_bind]
    refine hre.wp_prev hi fun s₁ h₁ => h₁.wp_next hi fun s₂ h₂ =>
      h₂.wp_next hk fun s₃ h₃ => ⟨_, _, h₃, hchain _ _ ?_ ?_ ?_ ?_, ?_, ?_⟩
    · simp
    · simp [hki.symm]
    · simp
    · exact fun hn1 => absurd hn0 hn1
    · intro j hji hjn
      simp [hji]
    · intro j hji hjk
      simp [hji, hjk]

/-- A request of `size` units can be served: a node handle is left, and a free region's bin is at or
above the request's. -/
def CanAllocate (s : CoreAllocator) (L : List Region) (size : ℕ) : Prop :=
  s.freeOffset < s.maxCapacity ∧
    ∃ r ∈ L, r.used = false ∧ uintToFloatRoundUp size ≤ uintToFloatRoundDown r.size

/-- The post-condition of an allocation that started with `s` and the regions `L`. -/
def Allocated (s : CoreAllocator) (L : List Region) (size : ℕ) (a : OffsetAllocation)
    (s' : CoreAllocator) : Prop :=
  ∃ L', Inv s' L' ∧ s'.size = s.size ∧ s'.maxCapacity = s.maxCapacity ∧
    ((a = .noSpace ∧ L' = L ∧ ¬CanAllocate s L size) ∨
      (CanAllocate s L size ∧ ∃ r, a = ⟨r.off, r.slot⟩ ∧ r.used = true ∧
        r.size = floatToUint (uintToFloatRoundUp size) ∧
        (usedRegions L').Perm (r :: usedRegions L)))

lemma Inv.lastSlot_ne (h : Inv s (xs ++ c :: ys)) (hne : lastSlot xs ≠ unused) :
    lastSlot xs ≠ c.slot ∧ lastSlot xs ∈ (xs ++ ys).map Region.slot := by
  have hmem := getLast?_getD_mem hne
  have hnd := h.slots_nodup
  rw [map_append, map_cons, nodup_append] at hnd
  rw [map_append]
  exact ⟨fun heq => hnd.2.2 _ hmem c.slot (by simp) heq, mem_append_left _ hmem⟩

lemma Inv.headSlot_ne (h : Inv s (xs ++ c :: ys)) (hne : headSlot ys ≠ unused) :
    headSlot ys ≠ c.slot ∧ headSlot ys ∈ (xs ++ ys).map Region.slot := by
  have hmem := head?_getD_mem hne
  have hnd := h.slots_nodup
  rw [map_append, map_cons, nodup_append, nodup_cons] at hnd
  rw [map_append]
  exact ⟨fun heq => hnd.2.1.1 (heq ▸ hmem), mem_append_right _ hmem⟩

lemma replaces_carved {R₁ R₂ : List Region} {i offset size total : ℕ} (hpos : 0 < size)
    (hle : c.off ≤ offset) (hge : offset + size ≤ c.off + c.size)
    (hR₁ : (c.off < offset ∧ ∃ k, R₁ = [⟨k, c.off, offset - c.off, false⟩]) ∨
      (offset ≤ c.off ∧ R₁ = []))
    (hR₂ : (offset + size < c.off + c.size ∧
        ∃ k, R₂ = [⟨k, offset + size, c.off + c.size - (offset + size), false⟩]) ∨
      (c.off + c.size ≤ offset + size ∧ R₂ = []))
    (hxs : ∀ a ∈ xs.getLast?, a.used = true) (hys : ∀ b ∈ ys.head?, b.used = true) :
    Replaces total xs [c] (R₁ ++ ⟨i, offset, size, true⟩ :: R₂) ys := by
  refine ⟨?_, ?_, fun a ha b _ => Or.inl (hxs a ha), fun a _ b hb => Or.inr (hys b hb), ?_⟩
  · rintro a b ⟨ha, hb⟩
    simp only [regionSpans, Spans.tiles_nil] at ha hb
    rcases hR₁ with ⟨h1, k, rfl⟩ | ⟨h1, rfl⟩ <;> rcases hR₂ with ⟨h2, k', rfl⟩ | ⟨h2, rfl⟩ <;>
      simp only [regionSpans, nil_append, cons_append, Spans.tiles_cons,
        Spans.tiles_nil] <;>
      omega
  · rcases hR₁ with ⟨h1, k, rfl⟩ | ⟨h1, rfl⟩ <;> rcases hR₂ with ⟨h2, k', rfl⟩ | ⟨h2, rfl⟩ <;>
      simp [Spans.Coalesced, regionSpans]
  · intro _ r hr
    simp only [mem_append, mem_cons] at hr
    rcases hr with hr | rfl | hr
    · rcases hR₁ with ⟨h1, k, rfl⟩ | ⟨h1, rfl⟩
      · rw [mem_singleton.mp hr]
        exact Nat.sub_pos_of_lt h1
      · simp at hr
    · exact hpos
    · rcases hR₂ with ⟨h2, k, rfl⟩ | ⟨h2, rfl⟩
      · rw [mem_singleton.mp hr]
        exact Nat.sub_pos_of_lt h2
      · simp at hr

lemma usedRegions_carved {R₁ R₂ : List Region} {u : Region} (hc : c.used = false) (hu : u.used = true)
    (hR₁ : ∀ r ∈ R₁, r.used = false) (hR₂ : ∀ r ∈ R₂, r.used = false) :
    (usedRegions (xs ++ (R₁ ++ u :: R₂) ++ ys)).Perm (u :: usedRegions (xs ++ c :: ys)) := by
  have h₁ : R₁.filter Region.used = [] := filter_eq_nil_iff.mpr (by simpa using hR₁)
  have h₂ : R₂.filter Region.used = [] := filter_eq_nil_iff.mpr (by simpa using hR₂)
  simp only [usedRegions, filter_append, filter_cons, hc, hu, h₁, h₂, if_true, nil_append,
    Bool.false_eq_true, if_false]
  exact (perm_insert [_] _ _).symm

section takeHead

variable {s₁ : CoreAllocator} {size : ℕ}

lemma Popped.links (hp : Popped s s₁ c L size) {j : ℕ} (hj : j ≠ unused) :
    s₁.prev j = s.prev j ∧ s₁.next j = s.next j := by
  by_cases hjc : j = c.slot
  · rw [hjc]
    exact ⟨hp.prev_eq, hp.next_eq⟩
  · have hbody := hp.body_eq j hjc hj
    exact ⟨prev_eq_of_body hbody, next_eq_of_body hbody⟩

lemma Popped.body_of_mem (hp : Popped s s₁ c L size) (hr : r ∈ L) :
    (s₁.node r.slot).body = (s.node r.slot).body := by
  have hmem : r.slot ∈ L.map Region.slot := mem_map_of_mem hr
  refine hp.body_eq _ (fun heq => ?_) (hp.loose.stack.ne_unused (mem_cons_of_mem _ hmem))
  exact (nodup_cons.mp hp.loose.stack.nodup).1 (heq ▸ hmem)

lemma Inv.takeWhole (h : Inv s (xs ++ c :: ys)) (hc : c.used = false) (hpos : 0 < c.size)
    (hp : Popped s s₁ c (xs ++ ys) c.size) : Inv s₁ (xs ++ ([] ++ ⟨c.slot, c.off, c.size, true⟩ :: []) ++ ys) := by
  have hsplit : Inv s (xs ++ [c] ++ ys) := by simpa using h
  obtain ⟨hxs, hys⟩ := h.used_of_free hc
  obtain ⟨hlinkl, hlinkr⟩ := h.linkRel
  refine hsplit.replace (replaces_carved hpos le_rfl le_rfl (.inr ⟨le_rfl, rfl⟩) (.inr ⟨le_rfl, rfl⟩) hxs hys)
    (hp.loose.of_perm (perm_insert [_] xs ys)) hp.config.size_eq (fun r hr => hp.body_of_mem hr) (Relinked.refl s₁) ?_
    (fun _ _ _ => rfl) fun _ _ _ => rfl
  simp only [nil_append, map_cons, map_nil, singleton_append, isChain_cons_cons,
    isChain_singleton, and_true]
  exact ⟨hlinkl.congr (fun hn => (hp.links hn).2) fun hn => (hp.links hn).1,
    hlinkr.congr (fun hn => (hp.links hn).2) fun hn => (hp.links hn).1⟩

lemma Inv.takeFront (h : Inv s (xs ++ c :: ys)) (hc : c.used = false) (hroom : s.freeOffset < s.currentCapacity)
    (hpos : 0 < size) (hlt : size < c.size) (hp : Popped s s₁ c (xs ++ ys) size) :
    Wp (do
        let i ← insertNodeIntoBin (c.size - size) (c.off + size)
        relinkRemainder c.slot i (headSlot ys))
      (fun _ s' => ∃ i, Inv s' (xs ++ ([] ++ ⟨c.slot, c.off, size, true⟩ ::
        [⟨i, c.off + size, c.off + c.size - (c.off + size), false⟩]) ++ ys) ∧ SameConfig s s') s₁ := by
  have hfs := freeSize_le_sum (xs ++ c :: ys)
  rw [← h.loose.freeStorage_eq, h.sum_size] at hfs
  have hfs₁ := hp.freeStorage_eq
  have htotal := h.size_lt
  have hcu : c.slot ≠ unused := h.ne_unused (by simp)
  rw [wp_bind]
  refine (insertNodeIntoBin_spec hp.loose ?_ (by omega)).mono ?_
  · rw [hp.freeOffset_eq, hp.config.capacity_eq]
    exact hroom
  rintro i s₂ ⟨hfresh, hl₂, -, hbody₂, -, hcfg₂⟩
  have hslots : ∀ {j}, j ∈ (c :: (xs ++ ys)).map Region.slot → j < s₂.nodes.length ∧ j ≠ i :=
    fun {j} hj => ⟨hl₂.stack.lt (mem_cons_of_mem _ hj), fun heq => hfresh (heq ▸ hj)⟩
  have hother : ∀ {j}, j ∈ (xs ++ ys).map Region.slot → j < s₂.nodes.length ∧ j ≠ i := fun hj =>
    hslots (mem_cons_of_mem _ hj)
  obtain ⟨hclt, hci⟩ := hslots (j := c.slot) (by simp)
  refine (relinkRemainder_spec hclt (hl₂.stack.lt (by simp)) hci fun hn => ?_).mono ?_
  · obtain ⟨hnc, hmem⟩ := h.headSlot_ne hn
    exact ⟨(hother hmem).1, (hother hmem).2, hnc⟩
  rintro _ s₃ ⟨P, N, hre, hchain, hP, hN⟩
  have hlinks₂ : ∀ j ≠ i, j ≠ unused → s₂.prev j = s.prev j ∧ s₂.next j = s.next j :=
    fun j hji hj => ⟨(prev_eq_of_body (hbody₂ j hji hj)).trans (hp.links hj).1,
      (next_eq_of_body (hbody₂ j hji hj)).trans (hp.links hj).2⟩
  have hsplit : Inv s (xs ++ [c] ++ ys) := by simpa using h
  obtain ⟨hxs, hys⟩ := h.used_of_free hc
  have hend : c.off + c.size - (c.off + size) = c.size - size := by omega
  refine ⟨i, hsplit.replace (replaces_carved hpos le_rfl (by omega) (.inr ⟨le_rfl, rfl⟩)
    (.inl ⟨by omega, i, rfl⟩) hxs hys) (hl₂.of_perm ?_) (hp.config.trans hcfg₂).size_eq (fun r hr => ?_) hre ?_
    (fun r hr => ?_) (fun r hr _ => ?_), hp.config.trans (hcfg₂.trans hre.sameConfig)⟩
  · rw [hend]
    exact (List.Perm.swap ..).trans (perm_insert [_, _] xs ys)
  · have hmem : r.slot ∈ (xs ++ ys).map Region.slot := mem_map_of_mem hr
    have hu : r.slot ≠ unused := hp.loose.stack.ne_unused (mem_cons_of_mem _ hmem)
    exact (hbody₂ _ (hother hmem).2 hu).trans (hp.body_of_mem hr)
  · -- the link into the cut region is the old one
    refine isChain_cons_cons.mpr ⟨h.linkRel.1.congr (fun hne => ?_) fun _ => ?_, hchain⟩
    · obtain ⟨hnc, hmem⟩ := h.lastSlot_ne hne
      rw [hN _ (hother hmem).2 hnc, (hlinks₂ _ (hother hmem).2 hne).2]
    · have hch : c.slot ≠ headSlot ys := fun heq =>
        (h.headSlot_ne fun hu => hcu (heq.trans hu)).1 heq.symm
      rw [hP _ hci hch, (hlinks₂ _ hci hcu).1]
  · exact hP _ (hother (mem_map_of_mem hr)).2
  · have hmem : r.slot ∈ (xs ++ ys).map Region.slot := mem_map_of_mem hr
    exact hN _ (hother hmem).2 fun heq => (nodup_cons.mp hp.loose.stack.nodup).1 (heq ▸ hmem)

end takeHead

lemma takeHead_spec {b size : ℕ} (h : Inv s (xs ++ c :: ys)) (hc : c.used = false)
    (hroom : s.freeOffset < s.currentCapacity) (hb256 : b < numLeafBins)
    (hround : uintToFloatRoundDown c.size = b) (hhead : s.bin b = c.slot)
    (hpos : 0 < size) (hle : size ≤ c.size) :
    Wp (takeHead (b / 8) (b % 8) c.slot size) (fun a s' => a = ⟨c.off, c.slot⟩ ∧
      ∃ L', Inv s' L' ∧ SameConfig s s' ∧
        (usedRegions L').Perm (⟨c.slot, c.off, size, true⟩ :: usedRegions (xs ++ c :: ys))) s := by
  have hl : Loose s (c :: (xs ++ ys)) := h.loose.of_perm perm_middle
  obtain ⟨hoff, hdata, -⟩ := h.loose.holds c (by simp)
  have htotal := h.size_lt
  have hbounds := (h.layout.tiles.bounds (r := c) (by simp)).2
  simp only [regionSpans] at hbounds
  have hnext : (s.node c.slot).neighborNext = headSlot ys := h.links.2
  simp only [takeHead, wp_bind, wp_readNode]
  refine ⟨hl.stack.lt (by simp), (popHead_spec hl hc hb256 hhead hround).mono ?_⟩
  rintro _ s₁ hp
  rw [wp_subChecked, hdata, hoff, hnext]
  refine ⟨hle, ?_⟩
  split_ifs with hrem
  · have hfront := h.takeFront hc hroom hpos (by omega) hp
    simp only [wp_bind, wp_addChecked] at hfront ⊢
    refine ⟨by omega, hfront.mono fun i s₂ hrelink => hrelink.mono ?_⟩
    rintro _ s₃ ⟨i, hinv, hcfg⟩
    rw [wp_pure]
    exact ⟨rfl, _, hinv, hcfg, usedRegions_carved hc rfl (by simp) (by simp)⟩
  · have hsz : size = c.size := by omega
    subst hsz
    rw [wp_pure]
    exact ⟨rfl, _, h.takeWhole hc hpos hp, hp.config, usedRegions_carved hc rfl (by simp) (by simp)⟩

lemma Inv.region_size_lt (h : Inv s L) (hr : r ∈ L) : r.size < 2 ^ 32 := by
  have hb := (h.layout.tiles.bounds hr).2
  have := h.size_lt
  simp only [regionSpans] at hb
  omega

lemma Inv.mem_bin {B : ℕ → List ℕ} (h : Inv s L) (hB : Bins s B)
    (hF : ∀ i, i ∈ freeSlots L ↔ ∃ b, i ∈ B b) (hr : r ∈ L) (hru : r.used = false) :
    r.slot ∈ B (uintToFloatRoundDown r.size) := by
  obtain ⟨b, hb⟩ := (hF r.slot).mp ⟨r, hr, hru, rfl⟩
  rw [← (h.loose.holds r hr).2.1, (hB.mem b _ hb).2.2]
  exact hb

lemma Inv.region_of_bin {B : ℕ → List ℕ} {i b : ℕ} (h : Inv s L) (hB : Bins s B)
    (hF : ∀ i, i ∈ freeSlots L ↔ ∃ b, i ∈ B b) (hi : i ∈ B b) :
    ∃ c ∈ L, c.used = false ∧ c.slot = i ∧ uintToFloatRoundDown c.size = b := by
  obtain ⟨c, hcL, hc, hslot⟩ := (hF i).mpr ⟨b, hi⟩
  refine ⟨c, hcL, hc, hslot, ?_⟩
  rw [← (h.loose.holds c hcL).2.1, hslot]
  exact (hB.mem _ _ hi).2.2

lemma serve_spec {size : ℕ} (h : Inv s L) (hpos : 0 < size) (hsize : size ≤ maxBinSize)
    (hroom : s.freeOffset < s.currentCapacity) :
    Wp (serve (uintToFloatRoundUp size)) (Allocated s L size) s := by
  obtain ⟨B, hB, hF⟩ := h.loose.bins
  have hmin : uintToFloatRoundUp size < numLeafBins := (roundUp_lt_240 hsize).trans (by decide)
  have hmax : s.freeOffset < s.maxCapacity := hroom.trans_le h.loose.stack.capacity_le
  simp only [serve, wp_bind]
  refine (findBin_spec hB hmin).mono ?_
  rintro out s₁ ⟨hs, hor⟩
  rw [hs]
  rcases hor with ⟨rfl, hnone⟩ | ⟨t, l, rfl, ht, hl, hge, hne⟩
  · simp only [wp_pure]
    refine ⟨L, h, rfl, rfl, .inl ⟨rfl, rfl, ?_⟩⟩
    rintro ⟨-, r, hr, hru, hle⟩
    have hmem := h.mem_bin hB hF hr hru
    rw [hnone _ (roundDown_lt_numLeafBins (h.region_size_lt hr)) hle] at hmem
    simp at hmem
  · have hb256 : 8 * t + l < numLeafBins := by rw [numLeafBins]; omega
    have hhead : s.bin (8 * t + l) ∈ B (8 * t + l) := by
      rw [hB.head_eq]
      exact head?_getD_mem fun hu =>
        hne ((hB.bin_eq_unused_iff h.loose.stack.length_le).mp ((hB.head_eq _).trans hu))
    obtain ⟨c, hcL, hc, hslot, hround⟩ := h.region_of_bin hB hF hhead
    obtain ⟨xs, ys, rfl⟩ := append_of_mem hcL
    have hreq := floatToUint_roundUp hsize
    have hle : floatToUint (uintToFloatRoundUp size) ≤ c.size := by
      rw [floatToUint_eq_binValue (roundUp_lt_240 hsize)]
      exact le_roundDown_iff.mp (hround ▸ hge)
    simp only [shiftLeft_or_eq hl, wp_bind, wp_readBin, ← hslot]
    refine ⟨hB.binIndices_length ▸ hb256, ?_⟩
    have hspec := takeHead_spec h hc hroom hb256 hround hslot.symm (hpos.trans_le hreq.1) hle
    rw [show (8 * t + l) / 8 = t by omega, show (8 * t + l) % 8 = l by omega] at hspec
    refine hspec.mono ?_
    rintro a s' ⟨rfl, L', hinv, hcfg, hperm⟩
    exact ⟨L', hinv, hcfg.size_eq, hcfg.maxCapacity_eq, .inr ⟨⟨hmax, c, hcL, hc, hround ▸ hge⟩,
      ⟨c.slot, c.off, floatToUint (uintToFloatRoundUp size), true⟩, rfl, rfl, rfl, hperm⟩⟩

/-- **Allocating** never panics and keeps the invariant; it succeeds exactly when `CanAllocate`, and
then adds one used region of the bin-rounded size. -/
theorem allocate_spec {size : ℕ} (h : Inv s L) (hpos : 0 < size) (hsize : size ≤ maxBinSize) :
    Wp (allocate size) (Allocated s L size) s := by
  have hstack := h.loose.stack
  simp only [allocate, wp_bind, wp_get]
  split_ifs with hmax
  · rw [wp_pure]
    exact ⟨L, h, rfl, rfl, .inl ⟨rfl, rfl, fun hc => hc.1.ne hmax⟩⟩
  simp only [wp_bind, wp_get]
  split_ifs with hcap
  · have hlt : s.currentCapacity < s.maxCapacity :=
      lt_of_le_of_ne hstack.capacity_le (hcap ▸ hmax)
    rw [wp_bind, wp_growOne]
    refine ⟨?_, (serve_spec (h.grow hlt) hpos hsize ?_)⟩
    · have := hstack.maxCapacity_lt
      simp only [unused] at this
      omega
    · exact hcap.trans_lt (Nat.lt_succ_self _)
  · exact serve_spec h hpos hsize (lt_of_le_of_ne hstack.freeOffset_le hcap)

lemma Bins.highest {B : ℕ → List ℕ} (hB : Bins s B) (htop : s.usedBinsTop ≠ 0) :
    ∃ t l, s.usedBinsTop.clz.toNat ≤ 31 ∧ 31 - s.usedBinsTop.clz.toNat = t ∧ t < 32 ∧
      ((s.leaf t).setWidth 32).clz.toNat ≤ 31 ∧ 31 - ((s.leaf t).setWidth 32).clz.toNat = l ∧ l < 8 ∧
      B (8 * t + l) ≠ [] ∧ ∀ b < numLeafBins, B b ≠ [] → b ≤ 8 * t + l := by
  obtain ⟨hclz, hset, hmax⟩ := clz_spec (by norm_num) htop
  have ht : 31 - s.usedBinsTop.clz.toNat < 32 := by omega
  have hleaf : (s.leaf (31 - s.usedBinsTop.clz.toNat)).setWidth 32 ≠ 0 := by
    obtain ⟨l, hl, hne⟩ := (hB.bits.top_iff_exists ht).mp hset
    exact ne_zero_iff_exists_getLsbD.mpr ⟨l, by omega, (hB.leaf_iff ht).mpr ⟨hl, hne⟩⟩
  obtain ⟨hclz', hset', hmax'⟩ := clz_spec (by norm_num) hleaf
  obtain ⟨hl8, hne⟩ := (hB.leaf_iff ht).mp hset'
  refine ⟨_, _, hclz, rfl, ht, hclz', rfl, hl8, hne, fun b hb hbne => ?_⟩
  simp only [numLeafBins] at hb
  have hbt : s.usedBinsTop.getLsbD (b / 8) = true :=
    (hB.bits.top_iff_exists (by omega)).mpr ⟨b % 8, by omega, by rwa [Nat.div_add_mod]⟩
  have h1 := hmax _ hbt
  by_cases hcase : b / 8 = 31 - s.usedBinsTop.clz.toNat
  · have hbl : ((s.leaf (31 - s.usedBinsTop.clz.toNat)).setWidth 32).getLsbD (b % 8) = true := by
      rw [hB.leaf_iff ht, ← hcase, Nat.div_add_mod]
      exact ⟨by omega, hbne⟩
    have h2 := hmax' _ hbl
    omega
  · omega

/-- The reported largest free region decides whether a request can be served. -/
theorem storageReport_spec (h : Inv s L) :
    Wp storageReport (fun rep s' => s' = s ∧ rep.largestFreeRegion ≤ s.size ∧
      (∃ k, rep.largestFreeRegion = binValue k) ∧ ∀ size, 0 < size → size ≤ maxBinSize →
        (size ≤ rep.largestFreeRegion ↔ CanAllocate s L size)) s := by
  obtain ⟨B, hB, hF⟩ := h.loose.bins
  simp only [storageReport, wp_bind, wp_get]
  split_ifs with hroom htop
  · obtain ⟨t, l, hclz, ht, ht32, hclz', hl, hl8, hne, hmax⟩ := hB.highest htop
    simp only [wp_bind, wp_subChecked, wp_readLeaf, wp_pure, ht, hl, shiftLeft_or_eq hl8]
    refine ⟨hclz, by rw [hB.usedBins_length]; exact ht32, hclz', trivial, ?_⟩
    obtain ⟨i, is, hi⟩ := exists_cons_of_ne_nil hne
    have himem : i ∈ B (8 * t + l) := by rw [hi]; exact mem_cons_self
    obtain ⟨c, hcL, hc, -, hround⟩ := h.region_of_bin hB hF himem
    rw [floatToUint_eq_binValue (hround ▸ roundDown_lt_240 (h.region_size_lt hcL))]
    refine ⟨?_, ⟨_, rfl⟩, fun size hpos hsize => ?_⟩
    · rw [← hround]
      exact (binValue_roundDown_le _).trans ((Nat.le_add_left _ _).trans
        (h.layout.tiles.bounds hcL).2)
    rw [← roundUp_le_iff]
    refine ⟨fun hle => ⟨hroom, c, hcL, hc, hround ▸ hle⟩, fun ⟨_, r, hr, hru, hle⟩ => hle.trans ?_⟩
    exact hmax _ (roundDown_lt_numLeafBins (h.region_size_lt hr))
      (ne_nil_of_mem (h.mem_bin hB hF hr hru))
  · rw [wp_pure]
    refine ⟨rfl, Nat.zero_le _, ⟨0, rfl⟩, fun size hpos _ =>
      ⟨fun hle => absurd hle (Nat.not_le.mpr hpos), ?_⟩⟩
    rintro ⟨-, r, hr, hru, -⟩
    -- the bin of a free region would set a top bit
    have hb := roundDown_lt_numLeafBins (h.region_size_lt hr)
    simp only [numLeafBins] at hb
    have hbit := (hB.bits.top_iff_exists (t := uintToFloatRoundDown r.size / 8) (by omega)).mpr
      ⟨uintToFloatRoundDown r.size % 8, by omega, by
        rw [Nat.div_add_mod]
        exact ne_nil_of_mem (h.mem_bin hB hF hr hru)⟩
    rw [not_not.mp htop] at hbit
    simp at hbit
  · rw [wp_pure]
    exact ⟨rfl, Nat.zero_le _, ⟨0, rfl⟩, fun size hpos _ => ⟨fun hle => absurd hle (Nat.not_le.mpr hpos),
      fun hc => absurd hc.1 hroom⟩⟩

/-- A request for more than there is of space leaves everything as it was, but for a new slot in the pool. -/
lemma allocate_of_size_lt {size : ℕ} (h : Inv s L) (hsize : size ≤ maxBinSize) (hlt : s.size < size) :
    Wp (allocate size) (fun al s' => al = .noSpace ∧ (s' = s ∨ s' = s.grown)) s := by
  have hstack := h.loose.stack
  have hserve : ∀ s', Inv s' L → s'.size = s.size →
      Wp (serve (uintToFloatRoundUp size)) (fun al s'' => al = .noSpace ∧ s'' = s') s' := by
    intro s' h' hs
    obtain ⟨B, hB, hF⟩ := h'.loose.bins
    simp only [serve, wp_bind]
    refine (findBin_spec hB ((roundUp_lt_240 hsize).trans (by decide))).mono ?_
    rintro out s₁ ⟨rfl, ⟨rfl, -⟩ | ⟨t, l, rfl, -, -, hge, hne⟩⟩
    · simp only [wp_pure, and_self]
    · -- a bin that is large enough would hold a region beyond the size
      obtain ⟨i, hi⟩ := exists_mem_of_ne_nil _ hne
      obtain ⟨c, hcL, -, -, hround⟩ := h'.region_of_bin hB hF hi
      have hfit := (roundUp_le_iff.mp hge).trans (hround ▸ binValue_roundDown_le c.size)
      have hbound := (h'.layout.tiles.bounds hcL).2
      simp only [regionSpans] at hbound
      omega
  simp only [allocate, wp_bind, wp_get]
  split_ifs with hmax
  · rw [wp_pure]
    exact ⟨rfl, .inl rfl⟩
  simp only [wp_bind, wp_get]
  split_ifs with hcap
  · have hroom : s.currentCapacity < s.maxCapacity := lt_of_le_of_ne hstack.capacity_le (hcap ▸ hmax)
    have hunused := hstack.maxCapacity_lt
    simp only [unused] at hunused
    rw [wp_bind, wp_growOne]
    exact ⟨by omega, (hserve _ (h.grow hroom) rfl).mono fun _ _ hres => ⟨hres.1, .inr hres.2⟩⟩
  · exact (hserve s h rfl).mono fun _ _ hres => ⟨hres.1, .inl hres.2⟩

end allocate

end CoreAllocator

end QuillCache.Store
