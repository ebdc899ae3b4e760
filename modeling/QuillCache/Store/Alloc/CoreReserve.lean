import QuillCache.Store.Alloc.CoreAlloc

/-!
# `CoreAllocator`: reserving an exact range

`reserveExact_spec`: reserving `[offset, offset + size)` never panics and keeps the invariant; it
succeeds exactly when the range is inside the memory, meets no used region and the node pool can
still grow to three poppable slots (`CanReserve`), and then adds exactly that used region.
-/

namespace QuillCache.Store

open Lib SmallFloat Function List Option

namespace CoreAllocator

variable {s : CoreAllocator} {L xs ys : List Region} {c r : Region}

/-! ## Growing the pool -/

lemma ensureCapacityLoop_spec {n fuel : ℕ} (h : Inv s L) (hpos : 0 < fuel)
    (hfuel : n < s.currentCapacity - s.freeOffset + fuel) :
    Wp (ensureCapacityLoop n fuel) (fun ok s' => Inv s' L ∧ s'.size = s.size ∧
      s'.maxCapacity = s.maxCapacity ∧ s'.freeOffset = s.freeOffset ∧
      (ok = true ↔ s.freeOffset + n ≤ s.maxCapacity) ∧
      (ok = true → s'.freeOffset + n ≤ s'.currentCapacity)) s := by
  induction fuel generalizing s with
  | zero => exact absurd hpos (lt_irrefl 0)
  | succ fuel ih =>
    have hle := h.loose.stack.freeOffset_le
    have hcap := h.loose.stack.capacity_le
    have hmax := h.loose.stack.maxCapacity_lt
    simp only [ensureCapacityLoop, wp_bind, wp_get, wp_subChecked]
    refine ⟨hle, ?_⟩
    split_ifs with hroom
    · simp only [wp_bind, wp_get]
      split_ifs with hfull
      · rw [wp_pure]
        exact ⟨h, rfl, rfl, rfl, by simp; omega, by simp⟩
      · rw [wp_bind, wp_growOne]
        simp only [unused] at hmax
        refine ⟨by omega, ih (h.grow (by omega)) (by omega) ?_⟩
        change n < s.currentCapacity + 1 - s.freeOffset + fuel
        omega
    · rw [wp_pure]
      exact ⟨h, rfl, rfl, rfl, by simp; omega, fun _ => by omega⟩

lemma ensureCapacity_spec {n : ℕ} (h : Inv s L) :
    Wp (ensureCapacity n) (fun ok s' => Inv s' L ∧ s'.size = s.size ∧
      s'.maxCapacity = s.maxCapacity ∧ s'.freeOffset = s.freeOffset ∧
      (ok = true ↔ s.freeOffset + n ≤ s.maxCapacity) ∧
      (ok = true → s'.freeOffset + n ≤ s'.currentCapacity)) s :=
  ensureCapacityLoop_spec h (Nat.succ_pos n) (by omega)

/-! ## Finding the covering region -/

def Covers (offset stop : ℕ) (n : Node) : Prop :=
  n.dataOffset ≤ offset ∧ stop ≤ n.dataOffset + n.dataSize

lemma covers_spec {offset stop : ℕ} {n : Node} (hn : n.dataOffset + n.dataSize < 2 ^ 32) :
    Wp (covers offset stop n) (fun ok s' => s' = s ∧ (ok = true ↔ Covers offset stop n)) s := by
  unfold covers Covers
  split_ifs with hle
  · simp only [wp_bind, wp_addChecked, wp_pure]
    exact ⟨hn, by simp [hle]⟩
  · rw [wp_pure]
    exact ⟨rfl, by simp [hle]⟩

lemma walkBin_spec {offset stop fuel : ℕ} {pre ks : List ℕ}
    (hlinked : Linked unused s.binPrev s.binNext (pre ++ ks))
    (hks : ∀ i ∈ ks, i ≠ unused ∧ i < s.nodes.length ∧
      (s.node i).dataOffset + (s.node i).dataSize < 2 ^ 32)
    (hfuel : ks.length < fuel) :
    Wp (walkBin offset stop fuel (ks.head?.getD unused)) (fun out s' => s' = s ∧
      ((out = unused ∧ ∀ i ∈ ks, ¬Covers offset stop (s.node i)) ∨
        (out ∈ ks ∧ Covers offset stop (s.node out)))) s := by
  induction ks generalizing pre fuel with
  | nil =>
    obtain ⟨fuel, rfl⟩ := Nat.exists_eq_succ_of_ne_zero (Nat.ne_of_gt hfuel)
    rw [head?_nil, getD_none, walkBin, if_pos rfl, wp_pure]
    exact ⟨rfl, .inl ⟨rfl, by simp⟩⟩
  | cons i ks ih =>
    obtain ⟨fuel, rfl⟩ := Nat.exists_eq_succ_of_ne_zero (Nat.ne_of_gt (by omega : 0 < fuel))
    obtain ⟨hiu, hlt, hsum⟩ := hks i (by simp)
    have hnext : (s.node i).binListNext = ks.head?.getD unused := (hlinked.links hiu).2
    rw [head?_cons, getD_some, walkBin, if_neg hiu]
    simp only [wp_bind, wp_readNode]
    refine ⟨hlt, (covers_spec hsum).mono ?_⟩
    rintro ok s₁ ⟨hs, hok⟩
    rw [hs]
    split_ifs with hcov
    · rw [wp_pure]
      exact ⟨rfl, .inr ⟨by simp, hok.mp hcov⟩⟩
    · rw [hnext]
      have hlinked' : Linked unused s.binPrev s.binNext ((pre ++ [i]) ++ ks) := by
        simpa using hlinked
      refine (ih hlinked' (fun j hj => hks j (by simp [hj])) (by simpa using hfuel)).mono ?_
      rintro out s₂ ⟨hs₂, ⟨hu, hnone⟩ | ⟨hmem, hc⟩⟩
      · refine ⟨hs₂, .inl ⟨hu, fun j hj => ?_⟩⟩
        rcases mem_cons.mp hj with rfl | hj
        · exact fun hc => hcov (hok.mpr hc)
        · exact hnone j hj
      · exact ⟨hs₂, .inr ⟨by simp [hmem], hc⟩⟩

lemma findCovering_spec {offset stop : ℕ} {B : ℕ → List ℕ} (hB : Bins s B)
    (hle : s.nodes.length ≤ unused)
    (hsum : ∀ b, ∀ i ∈ B b, (s.node i).dataOffset + (s.node i).dataSize < 2 ^ 32)
    {bins : List ℕ} (hbins : ∀ b ∈ bins, b < numLeafBins) :
    Wp (findCovering offset stop bins) (fun out s' => s' = s ∧
      ((out = unused ∧ ∀ b ∈ bins, ∀ i ∈ B b, ¬Covers offset stop (s.node i)) ∨
        (out ≠ unused ∧ (∃ b, out ∈ B b) ∧ Covers offset stop (s.node out)))) s := by
  induction bins with
  | nil =>
    rw [findCovering, wp_pure]
    exact ⟨rfl, .inl ⟨rfl, by simp⟩⟩
  | cons b bins ih =>
    have hmem : ∀ i ∈ B b, i ≠ unused ∧ i < s.nodes.length ∧
        (s.node i).dataOffset + (s.node i).dataSize < 2 ^ 32 := fun i hi =>
      ⟨hB.ne_unused hle hi, (hB.mem b i hi).1, hsum b i hi⟩
    -- a bin has no more members than there are nodes
    have hlen : (B b).length < s.nodes.length + 1 := by
      have hsub : B b ⊆ List.range s.nodes.length := fun i hi =>
        mem_range.mpr (hmem i hi).2.1
      have := ((hB.nodup b).subperm hsub).length_le
      rw [length_range] at this
      omega
    simp only [findCovering, wp_bind, wp_readBin, wp_get]
    refine ⟨hB.binIndices_length ▸ hbins b (by simp), ?_⟩
    rw [hB.head_eq]
    have hlinked : Linked unused s.binPrev s.binNext ([] ++ B b) := hB.linked b
    refine (walkBin_spec hlinked hmem hlen).mono ?_
    rintro out s₁ ⟨hs, hor⟩
    rw [hs]
    rcases hor with ⟨rfl, hnone⟩ | ⟨hout, hc⟩
    · rw [if_neg (by simp)]
      refine (ih fun b' hb' => hbins b' (by simp [hb'])).mono ?_
      rintro out s₂ ⟨hs₂, ⟨hu, hnone'⟩ | hfound⟩
      · refine ⟨hs₂, .inl ⟨hu, fun b' hb' => ?_⟩⟩
        rcases mem_cons.mp hb' with rfl | hb'
        · exact hnone
        · exact hnone' b' hb'
      · exact ⟨hs₂, .inr hfound⟩
    · have hu : out ≠ unused := (hmem out hout).1
      rw [if_pos hu, wp_pure]
      exact ⟨rfl, .inr ⟨hu, ⟨b, hout⟩, hc⟩⟩

/-! ## Carving -/

lemma carve_spec {start stop : ℕ} (h : Loose s L) (hroom : s.freeOffset < s.currentCapacity)
    (hsum : s.freeStorage + (stop - start) < 2 ^ 32) :
    Wp (carve start stop) (fun out s' => ∃ R : List Region, out = R.map Region.slot ∧
      ((start < stop ∧ ∃ i, R = [⟨i, start, stop - start, false⟩]) ∨ (stop ≤ start ∧ R = [])) ∧
      Loose s' (R ++ L) ∧ (∀ r ∈ L, (s'.node r.slot).body = (s.node r.slot).body) ∧
      s'.freeOffset = s.freeOffset + R.length ∧ SameConfig s s') s := by
  unfold carve
  split_ifs with hlt
  · simp only [wp_bind, wp_subChecked]
    refine ⟨hlt.le, (insertNodeIntoBin_spec h hroom hsum).mono ?_⟩
    rintro i s' ⟨hfresh, hl, -, hbody, hfo, hcfg⟩
    rw [wp_pure]
    refine ⟨[⟨i, start, stop - start, false⟩], rfl, .inl ⟨hlt, i, rfl⟩, hl, fun r hr => ?_, hfo, hcfg⟩
    have hmem : r.slot ∈ L.map Region.slot := List.mem_map_of_mem hr
    exact hbody _ (fun heq => hfresh (heq ▸ hmem)) (h.stack.ne_unused hmem)
  · rw [wp_pure]
    exact ⟨[], rfl, .inr ⟨not_lt.mp hlt, rfl⟩, h, fun _ _ => rfl, rfl, .refl s⟩

lemma insertUsed_spec {size offset : ℕ} (h : Loose s L) (hroom : s.freeOffset < s.currentCapacity) :
    Wp (insertUsed size offset) (fun i s' =>
      Loose s' (⟨i, offset, size, true⟩ :: L) ∧
        (∀ r ∈ L, (s'.node r.slot).body = (s.node r.slot).body) ∧
        s'.freeOffset = s.freeOffset + 1 ∧ s'.freeStorage = s.freeStorage ∧ SameConfig s s') s := by
  obtain ⟨hpop, hfresh⟩ := h.stack.pop hroom
  have htop : s.top < s.nodes.length := hpop.lt (by simp)
  have hold : ∀ r ∈ L, r.slot ≠ s.top := fun r hr heq =>
    hfresh (heq ▸ List.mem_map_of_mem hr)
  simp only [insertUsed, wp_bind, wp_popFreeNode, wp_writeNode, wp_pure]
  refine ⟨(h.stack.pop_lt hroom).1, (h.stack.pop_lt hroom).2, htop, ⟨?_, ?_, fun r hr => ?_, ?_⟩,
    fun r hr => ?_, rfl, rfl, ⟨rfl, rfl, rfl⟩⟩
  · exact hpop.congr (length_set ..) rfl rfl rfl rfl
  · rw [freeSlots_cons_of_used rfl]
    refine h.bins.congr rfl rfl rfl (length_set ..).ge ?_
    rintro i ⟨r, hr, -, rfl⟩
    exact congrArg Node.binPart ((node_setNode s htop _ r.slot).trans (if_neg (hold r hr)))
  · rcases mem_cons.mp hr with rfl | hr
    · have hnew := (node_setNode s htop { dataOffset := offset, dataSize := size, used := true }
        s.top).trans (if_pos rfl)
      exact ⟨congrArg Node.dataOffset hnew, congrArg Node.dataSize hnew, congrArg Node.used hnew⟩
    · exact (h.holds r hr).congr
        (congrArg Node.body ((node_setNode s htop _ r.slot).trans (if_neg (hold r hr))))
  · rw [freeSize_cons_of_used rfl, ← h.freeStorage_eq]
    rfl
  · exact congrArg Node.body ((node_setNode s htop _ r.slot).trans (if_neg (hold r hr)))

lemma rethread_spec {s₀ : CoreAllocator} {P N : ℕ → ℕ} {p : ℕ} {curs : List ℕ}
    (hre : Relinked s₀ s P N) (hcurs : ∀ i ∈ curs, i < s₀.nodes.length)
    (hp : p ≠ unused → p < s₀.nodes.length) (hu : ∀ i ∈ curs, i ≠ unused)
    (hnd : (p :: curs).Nodup) :
    Wp (rethread p curs) (fun last s' => last = curs.getLast?.getD p ∧
      ∃ P' N', Relinked s₀ s' P' N' ∧ (p :: curs).IsChain (LinkRel unused P' N') ∧
        (∀ j ∉ curs, P' j = P j) ∧ ∀ j ∉ (p :: curs).dropLast, N' j = N j) s := by
  induction curs generalizing s P N p with
  | nil =>
    rw [rethread, wp_pure]
    exact ⟨rfl, P, N, hre, isChain_singleton _, fun _ _ => rfl, fun _ _ => rfl⟩
  | cons cur curs ih =>
    obtain ⟨hpn, hnd'⟩ := nodup_cons.mp hnd
    have hcur := hcurs cur (by simp)
    -- one round: the link from `p` to `cur`, both ways
    have hround : ∀ s₁ N₁, Relinked s₀ s₁ (Function.update P cur p) N₁ →
        (p ≠ unused → N₁ p = cur) → (∀ j ≠ p, N₁ j = N j) →
        Wp (rethread cur curs) (fun last s' => last = (cur :: curs).getLast?.getD p ∧
          ∃ P' N', Relinked s₀ s' P' N' ∧ (p :: cur :: curs).IsChain (LinkRel unused P' N') ∧
            (∀ j ∉ cur :: curs, P' j = P j) ∧
            ∀ j ∉ (p :: cur :: curs).dropLast, N' j = N j) s₁ := by
      intro s₁ N₁ hre₁ hN₁ hN
      refine (ih hre₁ (fun i hi => hcurs i (by simp [hi])) (fun _ => hcur)
        (fun i hi => hu i (by simp [hi])) hnd').mono ?_
      rintro last s' ⟨hlast, P', N', hre', hchain, hP', hN'⟩
      refine ⟨by rw [getLast?_cons, getD_some, hlast], P', N', hre', isChain_cons_cons.mpr ⟨⟨fun hp0 => ?_,
        fun _ => ?_⟩, hchain⟩, fun j hj => ?_, fun j hj => ?_⟩
      · rw [hN' p fun hmem => hpn (dropLast_subset _ hmem)]
        exact hN₁ hp0
      · rw [hP' cur (nodup_cons.mp hnd').1, update_self]
      · rw [mem_cons, not_or] at hj
        rw [hP' j hj.2, update_of_ne hj.1]
      · rw [dropLast_cons_cons, mem_cons, not_or] at hj
        rw [hN' j hj.2, hN j hj.1]
    simp only [rethread, wp_bind]
    refine hre.wp_prev hcur fun s₁ hre₁ => ?_
    split_ifs with hp0
    · rw [wp_bind]
      exact hre₁.wp_next (hp hp0) fun s₂ hre₂ => hround s₂ _ hre₂
        (fun _ => update_self ..) fun j hj => update_of_ne hj ..
    · exact hround s₁ N hre₁ (fun hp1 => absurd hp1 hp0) fun _ _ => rfl

def CanReserve (s : CoreAllocator) (L : List Region) (offset size : ℕ) : Prop :=
  0 < size ∧ offset + size ≤ s.size ∧ s.freeOffset + 3 ≤ s.maxCapacity ∧
    ∀ r ∈ L, r.used = true → RangesDisjoint offset size r.off r.size

lemma Inv.exists_covering_iff (h : Inv s L) (offset : ℕ) {size : ℕ} (hpos : 0 < size) :
    (∃ r ∈ L, r.used = false ∧ r.off ≤ offset ∧ offset + size ≤ r.off + r.size) ↔
      offset + size ≤ s.size ∧ ∀ r ∈ L, r.used = true → RangesDisjoint offset size r.off r.size := by
  constructor
  · rintro ⟨r, hr, hru, hle, hge⟩
    have hb := (h.layout.tiles.bounds hr).2
    simp only [regionSpans] at hb
    exact ⟨by omega, fun u hu huu =>
      h.layout.tiles.disjoint_of_free (T := regionSpans) hr hru hle hge hu huu⟩
  · rintro ⟨hin, hdisj⟩
    exact h.layout.tiles.exists_free_cover h.layout.coalesced (h.layout.pos (by omega))
      (Nat.zero_le _) hpos hin hdisj

lemma closeChain_spec {s₀ : CoreAllocator} {P N : ℕ → ℕ} {p n : ℕ} {curs : List ℕ}
    (hre : Relinked s₀ s P N) (hchain : (p :: curs).IsChain (LinkRel unused P N))
    (hne : curs ≠ []) (hcurs : ∀ i ∈ curs, i < s₀.nodes.length) (hnd : (p :: curs).Nodup)
    (hn : n ≠ unused → n < s₀.nodes.length ∧ n ∉ curs) :
    Wp (closeChain (curs.getLast?.getD p) n) (fun _ s' => ∃ P' N', Relinked s₀ s' P' N' ∧
      (p :: (curs ++ [n])).IsChain (LinkRel unused P' N') ∧
      (∀ j ≠ n, P' j = P j) ∧ ∀ j ∉ curs, N' j = N j) s := by
  have hlast : curs.getLast?.getD p = curs.getLast hne := by
    rw [getLast?_eq_some_getLast hne, getD_some]
  have hlmem : curs.getLast?.getD p ∈ curs := hlast ▸ getLast_mem hne
  obtain ⟨hp, hnd'⟩ := nodup_cons.mp hnd
  have hclose : ∀ P', (∀ j ∈ curs, P' j = P j) → (n ≠ unused → P' n = curs.getLast?.getD p) →
      (p :: (curs ++ [n])).IsChain
        (LinkRel unused P' (Function.update N (curs.getLast?.getD p) n)) := by
    intro P' hP' hP'n
    rw [← cons_append, isChain_append]
    refine ⟨isChain_left_congr hnd' (fun _ => hp) hchain hP' fun i _ _ hi =>
      update_of_ne hi .., isChain_singleton _, ?_⟩
    intro x hx y hy
    rw [getLast?_cons, mem_some_iff] at hx
    rw [head?_cons, mem_some_iff] at hy
    subst hx hy
    exact ⟨fun _ => update_self .., hP'n⟩
  have hN' : ∀ j ∉ curs, Function.update N (curs.getLast?.getD p) n j = N j := fun j hj =>
    update_of_ne (fun heq : j = _ => hj (heq ▸ hlmem)) ..
  simp only [closeChain, wp_bind]
  refine hre.wp_next (hcurs _ hlmem) fun s₁ hre₁ => ?_
  split_ifs with hn0
  · obtain ⟨hnlt, hnc⟩ := hn hn0
    refine hre₁.wp_prev hnlt fun s₂ hre₂ => ⟨_, _, hre₂, hclose _ (fun j hj => ?_)
      (fun _ => update_self ..), fun j hj => update_of_ne hj .., hN'⟩
    exact update_of_ne (fun heq : j = n => hnc (heq ▸ hj)) ..
  · rw [wp_pure]
    exact ⟨_, _, hre₁, hclose _ (fun _ _ => rfl) (fun hn1 => absurd hn1 hn0), fun _ _ => rfl, hN'⟩

lemma carveOut_spec {offset size : ℕ} (h : Inv s (xs ++ c :: ys)) (hc : c.used = false)
    (hpos : 0 < size) (hle : c.off ≤ offset) (hge : offset + size ≤ c.off + c.size)
    (hroom : s.freeOffset + 3 ≤ s.currentCapacity) :
    Wp (carveOut c.slot offset size) (fun a s' => ∃ i, a = ⟨offset, i⟩ ∧
      ∃ L', Inv s' L' ∧ SameConfig s s' ∧
        (usedRegions L').Perm (⟨i, offset, size, true⟩ :: usedRegions (xs ++ c :: ys))) s := by
  have hl : Loose s (c :: (xs ++ ys)) := h.loose.of_perm perm_middle
  obtain ⟨hoff, hdata, -⟩ := h.loose.holds c (by simp)
  have hlt : c.slot < s.nodes.length := hl.stack.lt (by simp)
  have hsum : s.freeStorage ≤ s.size := by
    rw [h.loose.freeStorage_eq, ← h.sum_size]
    exact freeSize_le_sum _
  have hfree : s.freeStorage = c.size + freeSize (xs ++ ys) :=
    hl.freeStorage_eq.trans (freeSize_cons_of_free hc)
  have htotal := h.size_lt
  have hbounds := (h.layout.tiles.bounds (r := c) (by simp)).2
  simp only [regionSpans] at hbounds
  obtain ⟨hprev, hnext⟩ := h.links
  simp only [carveOut, wp_bind, wp_readNode]
  refine ⟨hlt, (removeNodeFromBin_spec hl hc (h.region_size_lt (by simp))).mono ?_⟩
  rintro _ s₁ ⟨hl₁, hbody₁, hfo₁, hcfg₁⟩
  have hfs₁ := hl₁.freeStorage_eq
  have hcap₁ := hcfg₁.capacity_eq
  rw [hoff]
  refine (carve_spec hl₁ (by omega) (by omega)).mono ?_
  rintro _ s₂ ⟨R₁, rfl, hR₁, hl₂, hbody₂, hfo₂, hcfg₂⟩
  have hcap₂ := hcfg₂.capacity_eq
  have hlen₁ : R₁.length ≤ 1 := by rcases hR₁ with ⟨-, k, rfl⟩ | ⟨-, rfl⟩ <;> simp
  refine (insertUsed_spec hl₂ (by omega)).mono ?_
  rintro i s₃ ⟨hl₃, hbody₃, hfo₃, hfs₃, hcfg₃⟩
  have hcap₃ := hcfg₃.capacity_eq
  have hfs₂ := hl₂.freeStorage_eq
  simp only [wp_addChecked, hdata]
  refine ⟨by omega, ?_⟩
  refine (carve_spec hl₃ (by omega) ?_).mono ?_
  · have : freeSize (R₁ ++ (xs ++ ys)) ≤ (offset - c.off) + freeSize (xs ++ ys) := by
      rcases hR₁ with ⟨-, k, rfl⟩ | ⟨-, rfl⟩
      · rw [singleton_append, freeSize_cons_of_free rfl]
      · exact Nat.le_add_left _ _
    omega
  rintro _ s₄ ⟨R₂, rfl, hR₂, hl₄, hbody₄, -, hcfg₄⟩
  have hperm : (R₂ ++ ⟨i, offset, size, true⟩ :: (R₁ ++ (xs ++ ys))).Perm
      (xs ++ (R₁ ++ ⟨i, offset, size, true⟩ :: R₂) ++ ys) := by
    refine List.Perm.trans ?_ (perm_insert (R₁ ++ ⟨i, offset, size, true⟩ :: R₂) xs ys)
    rw [← cons_append, ← append_assoc]
    exact (perm_append_comm.trans perm_middle.symm).append_right _
  have hl₅ := hl₄.of_perm hperm
  set m' := R₁ ++ ⟨i, offset, size, true⟩ :: R₂ with hm'
  have hcurs : R₁.map Region.slot ++ i :: R₂.map Region.slot = m'.map Region.slot := by simp [hm']
  have hslots : ∀ j ∈ (xs ++ m' ++ ys).map Region.slot, j < s₄.nodes.length ∧ j ≠ unused :=
    fun j hj => ⟨hl₅.stack.lt hj, hl₅.stack.ne_unused hj⟩
  have hnd := hl₅.stack.nodup
  simp only [map_append] at hslots hnd
  obtain ⟨hndXM, -, hdisjY⟩ := nodup_append.mp hnd
  obtain ⟨-, hndM, hdisjX⟩ := nodup_append.mp hndXM
  have hM : ∀ j ∈ m'.map Region.slot, j < s₄.nodes.length ∧ j ≠ unused := fun j hj =>
    hslots j (by simp only [mem_append]; tauto)
  have hlastM : lastSlot xs ∉ m'.map Region.slot := fun hmem => by
    have hX := getLast?_getD_mem (hM _ hmem).2
    exact hdisjX _ hX _ hmem rfl
  have hndp : (lastSlot xs :: m'.map Region.slot).Nodup := nodup_cons.mpr ⟨hlastM, hndM⟩
  have hnotM : ∀ r ∈ xs ++ ys, r.slot ∉ m'.map Region.slot := fun r hr hmem => by
    rcases mem_append.mp hr with hr | hr
    · exact hdisjX _ (List.mem_map_of_mem hr) _ hmem rfl
    · exact hdisjY _ (mem_append_right _ hmem) _ (List.mem_map_of_mem hr) rfl
  rw [hcurs, show (s.node c.slot).neighborPrev = lastSlot xs from hprev,
    show (s.node c.slot).neighborNext = headSlot ys from hnext]
  refine (rethread_spec (Relinked.refl s₄) (fun j hj => (hM j hj).1) (fun hne => ?_)
    (fun j hj => (hM j hj).2) hndp).mono ?_
  · exact (hslots _ (by
      simp only [mem_append]
      exact Or.inl (Or.inl (getLast?_getD_mem hne)))).1
  rintro _ s₅ ⟨rfl, P, N, hre, hchain, hP, hN⟩
  refine (closeChain_spec hre hchain (by simp [hm']) (fun j hj => (hM j hj).1) hndp
    fun hne => ?_).mono ?_
  · have hY := head?_getD_mem hne
    refine ⟨(hslots _ (by simp only [mem_append]; exact .inr hY)).1, fun hmem => ?_⟩
    exact hdisjY _ (mem_append_right _ hmem) _ hY rfl
  rintro _ s₆ ⟨P', N', hre', hchain', hP', hN'⟩
  rw [wp_pure]
  have hcfg := hcfg₁.trans (hcfg₂.trans (hcfg₃.trans hcfg₄))
  have hsplit : Inv s (xs ++ [c] ++ ys) := by simpa using h
  obtain ⟨hxs, hys⟩ := h.used_of_free hc
  refine ⟨i, rfl, xs ++ m' ++ ys, ?_, hcfg.trans hre'.sameConfig, ?_⟩
  · refine hsplit.replace (replaces_carved hpos hle hge hR₁ hR₂ hxs hys) hl₅ hcfg.size_eq ?_ hre'
      hchain' ?_ ?_
    · intro r hr
      have hr₁ : r ∈ R₁ ++ (xs ++ ys) := mem_append_right _ hr
      have hu : r.slot ≠ unused := hl₁.stack.ne_unused (List.mem_map_of_mem hr)
      exact (hbody₄ r (mem_cons_of_mem _ hr₁)).trans ((hbody₃ r hr₁).trans
        ((hbody₂ r hr).trans (hbody₁ _ hu)))
    · intro r hr hne
      rw [hP' _ hne, hP _ (hnotM r hr)]
    · intro r hr hne
      rw [hN' _ (hnotM r hr), hN _ fun hmem => ?_]
      rcases mem_cons.mp (dropLast_subset _ hmem) with heq | hmem
      · exact hne heq
      · exact hnotM r hr hmem
  · refine usedRegions_carved hc rfl (fun r hr => ?_) fun r hr => ?_
    · rcases hR₁ with ⟨-, k, rfl⟩ | ⟨-, rfl⟩
      · rw [mem_singleton.mp hr]
      · cases hr
    · rcases hR₂ with ⟨-, k, rfl⟩ | ⟨-, rfl⟩
      · rw [mem_singleton.mp hr]
      · cases hr

/-- **Reserving an exact range** never panics and keeps the invariant; it succeeds exactly when the
range is free and the node pool has room, and then adds exactly that used region. -/
theorem reserveExact_spec (h : Inv s L) (offset size : ℕ) :
    Wp (reserveExact offset size) (fun out s' => ∃ L', Inv s' L' ∧ s'.size = s.size ∧
      s'.maxCapacity = s.maxCapacity ∧
      ((out = none ∧ L' = L ∧ ¬CanReserve s L offset size) ∨
        (CanReserve s L offset size ∧ ∃ i, out = some ⟨offset, i⟩ ∧
          (usedRegions L').Perm (⟨i, offset, size, true⟩ :: usedRegions L)))) s := by
  have htotal := h.size_lt
  unfold reserveExact
  split_ifs with hzero hover
  · rw [wp_pure]
    exact ⟨L, h, rfl, rfl, .inl ⟨rfl, rfl, fun hc => hc.1.ne' hzero⟩⟩
  · rw [wp_pure]
    exact ⟨L, h, rfl, rfl, .inl ⟨rfl, rfl, fun hc => by have := hc.2.1; omega⟩⟩
  have hpos : 0 < size := Nat.pos_of_ne_zero hzero
  simp only [wp_bind]
  refine (ensureCapacity_spec h).mono ?_
  rintro ok s₁ ⟨h₁, hsize₁, hmax₁, hfo₁, hok, hroom⟩
  cases ok with
  | false =>
    simp only [Bool.false_eq_true, false_iff, not_le] at hok
    rw [if_pos rfl, wp_pure]
    exact ⟨L, h₁, hsize₁, hmax₁, .inl ⟨rfl, rfl, fun hc => by have := hc.2.2.1; omega⟩⟩
  | true =>
    simp only [true_iff] at hok
    rw [if_neg (by simp)]
    obtain ⟨B, hB, hF⟩ := h₁.loose.bins
    have hreg : ∀ b, ∀ j ∈ B b, ∃ r ∈ L, r.used = false ∧ r.slot = j := fun b j hj =>
      (hF j).mpr ⟨b, hj⟩
    simp only [wp_bind]
    refine (findCovering_spec hB h₁.loose.stack.length_le (fun b j hj => ?_) ?_).mono ?_
    · obtain ⟨r, hr, -, rfl⟩ := hreg b j hj
      obtain ⟨hro, hrs, -⟩ := h₁.loose.holds r hr
      have := (h₁.layout.tiles.bounds hr).2
      simp only [regionSpans] at this
      omega
    · exact fun b hb => mem_range.mp hb
    rintro out s₂ ⟨hs, hor⟩
    rw [hs]
    have hiff := h₁.exists_covering_iff offset hpos
    rw [hsize₁] at hiff
    rcases hor with ⟨rfl, hnone⟩ | ⟨hout, ⟨b, hb⟩, hcov⟩
    · rw [if_pos rfl, wp_pure]
      refine ⟨L, h₁, hsize₁, hmax₁, .inl ⟨rfl, rfl, fun hc => ?_⟩⟩
      obtain ⟨r, hr, hru, hrle, hrge⟩ := hiff.mpr ⟨hc.2.1, hc.2.2.2⟩
      obtain ⟨hro, hrs, -⟩ := h₁.loose.holds r hr
      refine hnone _ (mem_range.mpr (roundDown_lt_numLeafBins (h₁.region_size_lt hr))) _
        (h₁.mem_bin hB hF hr hru) ⟨?_, ?_⟩
      · rwa [hro]
      · rwa [hro, hrs]
    · rw [if_neg hout, wp_bind]
      obtain ⟨r, hr, hru, rfl⟩ := hreg b out hb
      obtain ⟨hro, hrs, -⟩ := h₁.loose.holds r hr
      rw [Covers, hro, hrs] at hcov
      obtain ⟨hin, hdisj⟩ := hiff.mp ⟨r, hr, hru, hcov⟩
      obtain ⟨xs, ys, rfl⟩ := append_of_mem hr
      refine (carveOut_spec h₁ hru hpos hcov.1 hcov.2 (hroom rfl)).mono ?_
      rintro a s' ⟨i, rfl, L', hinv, hcfg, hperm⟩
      rw [wp_pure]
      exact ⟨L', hinv, hcfg.size_eq.trans hsize₁, hcfg.maxCapacity_eq.trans hmax₁,
        .inr ⟨⟨hpos, hin, hok, hdisj⟩, i, rfl, hperm⟩⟩

end CoreAllocator

end QuillCache.Store
