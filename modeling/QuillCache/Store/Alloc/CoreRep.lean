import QuillCache.Lib.Tiling
import QuillCache.Store.Alloc.CoreBins

/-!
# `CoreAllocator`: regions

A `Region` is what a node says about the memory: its slot, offset, size and whether it is used.

* `Loose s L`: the nodes in use are exactly those of the regions `L` (in any order), the free ones
  are the members of the bins, and `free_storage` is the sum of their sizes;
* `Rep s L`: moreover the neighbour links run through `L` in this order.

`insertNodeIntoBin_spec` and `removeNodeFromBin_spec` add and remove one free region of a `Loose`
state; neither touches a neighbour link.
-/

namespace QuillCache.Store

open Lib SmallFloat List

structure Region where
  slot : ℕ
  off : ℕ
  size : ℕ
  used : Bool
  deriving DecidableEq

def freeSlots (L : List Region) : Set ℕ := { i | ∃ r ∈ L, r.used = false ∧ r.slot = i }

def freeSize (L : List Region) : ℕ := ((L.filter fun r => !r.used).map Region.size).sum

section regions

variable {L L' : List Region} {r : Region}

lemma freeSlots_cons_of_free (hr : r.used = false) :
    freeSlots (r :: L) = insert r.slot (freeSlots L) := by
  ext i
  simp only [freeSlots, mem_cons, Set.mem_ofPred_eq, Set.mem_insert_iff, or_and_right,
    exists_or, exists_eq_left, hr, true_and]
  rw [eq_comm]

lemma freeSlots_cons_of_used (hr : r.used = true) : freeSlots (r :: L) = freeSlots L := by
  ext i
  simp [freeSlots, hr]

lemma freeSlots_perm (h : L.Perm L') : freeSlots L = freeSlots L' := by
  ext i
  simp [freeSlots, h.mem_iff]

lemma mem_slots_of_mem_freeSlots {i : ℕ} (h : i ∈ freeSlots L) : i ∈ L.map Region.slot := by
  obtain ⟨r, hr, -, rfl⟩ := h
  exact mem_map_of_mem hr

lemma freeSize_cons_of_free (hr : r.used = false) : freeSize (r :: L) = r.size + freeSize L := by
  simp [freeSize, hr]

lemma freeSize_cons_of_used (hr : r.used = true) : freeSize (r :: L) = freeSize L := by
  simp [freeSize, hr]

lemma freeSize_perm (h : L.Perm L') : freeSize L = freeSize L' :=
  ((h.filter _).map _).sum_eq

lemma freeSize_le_sum (L : List Region) : freeSize L ≤ (L.map Region.size).sum :=
  (List.Sublist.map _ filter_sublist).sum_le_sum fun _ _ => Nat.zero_le _

end regions

namespace CoreAllocator

/-! ## The steps of the bin operations -/

section steps

variable {s : CoreAllocator}

lemma shiftRight_topBinsIndexShift (b : ℕ) : b >>> topBinsIndexShift = b / 8 := by
  rw [topBinsIndexShift, Nat.shiftRight_eq_div_pow]

lemma and_leafBinsIndexMask (b : ℕ) : b &&& leafBinsIndexMask = b % 8 :=
  Nat.and_two_pow_sub_one_eq_mod b 3

lemma shiftLeft_or_eq {t l : ℕ} (hl : l < 8) : t <<< topBinsIndexShift ||| l = 8 * t + l := by
  rw [topBinsIndexShift, ← Nat.shiftLeft_add_eq_or_of_lt (by simpa using hl), Nat.shiftLeft_eq]
  omega

lemma markIfEmpty_spec {P : ℕ → ℕ → Prop} {b : ℕ} (hb : b < numLeafBins)
    (hbl : s.binIndices.length = numLeafBins) (hul : s.usedBins.length = numTopBins)
    (h : TwoLevel s.leaf s.usedBinsTop P) (hP : s.bin b ≠ unused → P (b / 8) (b % 8)) :
    Wp (markIfEmpty b (b / 8) (b % 8)) (fun _ s' => ∃ u t,
      s' = { s with usedBins := u, usedBinsTop := t } ∧ u.length = s.usedBins.length ∧
        TwoLevel s'.leaf t fun x l => (x = b / 8 ∧ l = b % 8) ∨ P x l) s := by
  have hb' : b < 256 := hb
  have ht : b / 8 < s.usedBins.length := by rw [hul, numTopBins]; omega
  simp only [markIfEmpty, wp_bind, wp_readBin]
  refine ⟨by rw [hbl]; exact hb, ?_⟩
  split_ifs with hempty
  · simp only [wp_bind, wp_readLeaf, wp_writeLeaf, wp_modify]
    refine ⟨ht, ht, _, _, rfl, by simp [setLeaf], ?_⟩
    exact h.insert (by omega) (by omega) fun x => leaf_setLeaf s ht _ x
  · rw [wp_pure]
    refine ⟨s.usedBins, s.usedBinsTop, rfl, rfl, h.congr fun x _ l _ => ?_⟩
    refine ⟨.inr, fun hor => hor.elim (fun hxl => ?_) id⟩
    rw [hxl.1, hxl.2]
    exact hP hempty

lemma clearIfEmpty_spec {P : ℕ → ℕ → Prop} {b : ℕ} (hb : b < numLeafBins)
    (hbl : s.binIndices.length = numLeafBins) (hul : s.usedBins.length = numTopBins)
    (h : TwoLevel s.leaf s.usedBinsTop P) :
    Wp (clearIfEmpty b (b / 8) (b % 8)) (fun _ s' => ∃ u t,
      s' = { s with usedBins := u, usedBinsTop := t } ∧ u.length = s.usedBins.length ∧
        TwoLevel s'.leaf t fun x l => ¬(s.bin b = unused ∧ x = b / 8 ∧ l = b % 8) ∧ P x l) s := by
  have hb' : b < 256 := hb
  have ht : b / 8 < s.usedBins.length := by rw [hul, numTopBins]; omega
  simp only [clearIfEmpty, wp_bind, wp_readBin]
  refine ⟨by rw [hbl]; exact hb, ?_⟩
  split_ifs with hempty
  · simp only [wp_bind, wp_readLeaf, wp_writeLeaf, hempty, true_and]
    refine ⟨ht, ht, by simpa using ht, ?_⟩
    have herase := h.erase (t := b / 8) (l := b % 8) (by omega) (by omega)
      (fun x => leaf_setLeaf s ht (s.leaf (b / 8) &&& ~~~(1#8 <<< (b % 8))) x) rfl
    split_ifs with hzero
    · rw [wp_modify]
      rw [if_pos hzero] at herase
      exact ⟨_, _, rfl, by simp [setLeaf], herase⟩
    · rw [wp_pure]
      rw [if_neg hzero] at herase
      exact ⟨_, _, rfl, by simp, herase⟩
  · rw [wp_pure]
    exact ⟨s.usedBins, s.usedBinsTop, rfl, rfl, h.congr fun x _ l _ => by simp [hempty]⟩

lemma linkFront_spec {b topNode i : ℕ} {n : Node} (hb : b < s.binIndices.length)
    (hi : i < s.nodes.length) (htop : topNode ≠ unused → topNode < s.nodes.length ∧ topNode ≠ i) :
    Wp (linkFront b topNode i n) (fun _ s' => ∃ ns,
      s' = { s with nodes := ns, binIndices := s.binIndices.set b i } ∧
        ns.length = s.nodes.length ∧ ∀ j, j ≠ unused → ns.getD j {} =
          if j = i then n else if j = topNode then { s.node j with binListPrev := i }
          else s.node j) s := by
  simp only [linkFront, wp_bind, wp_writeNode]
  refine ⟨hi, ?_⟩
  split_ifs with hunused
  · simp only [wp_bind, wp_writeNode, wp_writeBin]
    obtain ⟨hlt, hne⟩ := htop hunused
    refine ⟨by simpa using hlt, hb, _, rfl, by simp [setNode], fun j hj => ?_⟩
    change ((s.setNode i n).setNode topNode _).node j = _
    rw [node_setNode _ (by simpa using hlt), node_setNode _ hi, node_setNode _ hi]
    by_cases hji : j = i
    · rw [if_pos hji, if_pos hji, if_neg (by rw [hji]; exact Ne.symm hne)]
    · simp only [hji, if_false]
      split_ifs with hjt
      · rw [hjt]
      · rfl
  · rw [not_not] at hunused
    rw [wp_writeBin]
    refine ⟨hb, _, rfl, by simp [setNode], fun j hj => ?_⟩
    change (s.setNode i n).node j = _
    rw [node_setNode _ hi, if_neg (c := j = topNode) (by rw [hunused]; exact hj)]

lemma unlinkHead_spec {b : ℕ} (next : ℕ) (hb : b < s.binIndices.length)
    (hnext : next ≠ unused → next < s.nodes.length) :
    Wp (unlinkHead b next) (fun _ s' => ∃ ns,
      s' = { s with nodes := ns, binIndices := s.binIndices.set b next } ∧
        ns.length = s.nodes.length ∧ ∀ j, j ≠ unused → ns.getD j {} =
          if j = next then { s.node j with binListPrev := unused } else s.node j) s := by
  simp only [unlinkHead, wp_bind, wp_writeBin]
  refine ⟨hb, ?_⟩
  split_ifs with hunused
  · simp only [wp_writeNode]
    have hlt := hnext hunused
    refine ⟨hlt, _, rfl, by simp [setBin], fun j _ => ?_⟩
    change (s.setNode next _).node j = _
    rw [node_setNode _ hlt]
    split_ifs with hj
    · rw [hj]
      rfl
    · rfl
  · rw [not_not] at hunused
    rw [wp_pure]
    refine ⟨s.nodes, rfl, rfl, fun j hj => ?_⟩
    rw [if_neg (by rw [hunused]; exact hj)]
    rfl

lemma unlinkInner_spec {prev next : ℕ} (hprev : prev < s.nodes.length)
    (hnext : next ≠ unused → next < s.nodes.length) (hne : prev ≠ next) :
    Wp (unlinkInner prev next) (fun _ s' => ∃ ns,
      s' = { s with nodes := ns } ∧ ns.length = s.nodes.length ∧ ∀ j, j ≠ unused → ns.getD j {} =
        if j = next then { s.node j with binListPrev := prev }
        else if j = prev then { s.node j with binListNext := next } else s.node j) s := by
  simp only [unlinkInner, wp_bind, wp_writeNode]
  refine ⟨hprev, ?_⟩
  split_ifs with hunused
  · simp only [wp_writeNode]
    have hlt := hnext hunused
    refine ⟨by simpa using hlt, _, rfl, by simp [setNode], fun j hj => ?_⟩
    change ((s.setNode prev _).setNode next _).node j = _
    rw [node_setNode _ (by simpa using hlt), node_setNode _ hprev, node_setNode _ hprev]
    by_cases hjn : j = next
    · simp only [hjn, if_true, if_neg (Ne.symm hne)]
    · simp only [hjn, if_false]
      split_ifs with hjp
      · rw [hjp]
      · rfl
  · rw [not_not] at hunused
    rw [wp_pure]
    refine ⟨_, rfl, by simp, fun j hj => ?_⟩
    change (s.setNode prev _).node j = _
    rw [node_setNode _ hprev, if_neg (c := j = next) (by rw [hunused]; exact hj)]
    split_ifs with hjp
    · rw [hjp]
    · rfl

end steps

/-! ## Loose states -/

def Holds (s : CoreAllocator) (r : Region) : Prop :=
  (s.node r.slot).dataOffset = r.off ∧ (s.node r.slot).dataSize = r.size ∧
    (s.node r.slot).used = r.used

/-- The nodes in use are those of the regions `L`, in any order. -/
structure Loose (s : CoreAllocator) (L : List Region) : Prop where
  stack : Stack s (L.map Region.slot)
  bins : FreeIn s (freeSlots L)
  holds : ∀ r ∈ L, Holds s r
  freeStorage_eq : s.freeStorage = freeSize L

def prev (s : CoreAllocator) (i : ℕ) : ℕ := (s.node i).neighborPrev

def next (s : CoreAllocator) (i : ℕ) : ℕ := (s.node i).neighborNext

structure SameConfig (s s' : CoreAllocator) : Prop where
  size_eq : s'.size = s.size
  capacity_eq : s'.currentCapacity = s.currentCapacity
  maxCapacity_eq : s'.maxCapacity = s.maxCapacity

lemma SameConfig.refl (s : CoreAllocator) : SameConfig s s := ⟨rfl, rfl, rfl⟩

lemma SameConfig.trans {s₁ s₂ s₃ : CoreAllocator} (h : SameConfig s₁ s₂) (h' : SameConfig s₂ s₃) :
    SameConfig s₁ s₃ :=
  ⟨h'.1.trans h.1, h'.2.trans h.2, h'.3.trans h.3⟩

section loose

variable {s : CoreAllocator} {L L' : List Region} {r : Region}

lemma Loose.of_perm (h : Loose s L) (hL : L.Perm L') : Loose s L' where
  stack := h.stack.of_perm (hL.map _)
  bins := freeSlots_perm hL ▸ h.bins
  holds r hr := h.holds r (hL.mem_iff.mpr hr)
  freeStorage_eq := h.freeStorage_eq.trans (freeSize_perm hL)

lemma Loose.length_eq {s' : CoreAllocator} (h : Loose s L) (h' : Loose s' L')
    (hcfg : SameConfig s s') : s'.nodes.length = s.nodes.length := by
  rw [h'.stack.nodes_length, h.stack.nodes_length, hcfg.capacity_eq]

lemma Holds.congr {s' : CoreAllocator} (h : Holds s r)
    (hbody : (s'.node r.slot).body = (s.node r.slot).body) : Holds s' r := by
  obtain ⟨hoff, hsize, -, -, hused⟩ := Node.body_eq_iff.mp hbody
  exact ⟨hoff.trans h.1, hsize.trans h.2.1, hused.trans h.2.2⟩

lemma roundDown_lt_numLeafBins {size : ℕ} (h : size < 2 ^ 32) :
    uintToFloatRoundDown size < numLeafBins := (roundDown_lt_240 h).trans (by decide)

lemma insertNodeIntoBin_spec {size off : ℕ} (h : Loose s L)
    (hroom : s.freeOffset < s.currentCapacity) (hsum : s.freeStorage + size < 2 ^ 32) :
    Wp (insertNodeIntoBin size off) (fun i s' =>
      i ∉ L.map Region.slot ∧ Loose s' (⟨i, off, size, false⟩ :: L) ∧
        (s'.node i).body = { dataOffset := off, dataSize := size } ∧
        (∀ j ≠ i, j ≠ unused → (s'.node j).body = (s.node j).body) ∧
        s'.freeOffset = s.freeOffset + 1 ∧ SameConfig s s') s := by
  obtain ⟨B, hB, hF⟩ := h.bins
  have hle := h.stack.length_le
  have hb : uintToFloatRoundDown size < numLeafBins := roundDown_lt_numLeafBins (by omega)
  set b := uintToFloatRoundDown size with hbdef
  obtain ⟨hpop, hfresh⟩ := h.stack.pop hroom
  have htop : s.top < s.nodes.length := hpop.lt (by simp)
  have hfreshB : ∀ c, s.top ∉ B c := fun c hc =>
    hfresh (mem_slots_of_mem_freeSlots ((hF _).mpr ⟨c, hc⟩))
  have hhead : s.bin b ≠ unused → s.bin b ∈ B b := fun hne => by
    rw [hB.head_eq] at hne ⊢
    exact head?_getD_mem hne
  have hP : s.bin b ≠ unused → B (8 * (b / 8) + b % 8) ≠ [] := fun hne => by
    rw [Nat.div_add_mod]
    exact ne_nil_of_mem (hhead hne)
  simp only [insertNodeIntoBin, shiftRight_topBinsIndexShift, and_leafBinsIndexMask, ← hbdef]
  refine Wp.call (markIfEmpty_spec hb hB.binIndices_length hB.usedBins_length hB.bits hP) ?_
  rintro _ _ ⟨u, t, rfl, hu, hbits⟩
  simp only [wp_bind, wp_readBin, wp_popFreeNode, wp_get, wp_addChecked, wp_modify, wp_pure]
  refine ⟨by rw [hB.binIndices_length]; exact hb, (h.stack.pop_lt hroom).1,
    (h.stack.pop_lt hroom).2, ?_⟩
  refine Wp.mono (linkFront_spec ?_ htop fun hne => ?_) ?_
  · exact hB.binIndices_length ▸ hb
  · exact ⟨(hB.mem b _ (hhead hne)).1, fun heq => hfreshB b (heq ▸ hhead hne)⟩
  rintro _ _ ⟨ns, rfl, hns, hnode⟩
  have hnew : ns.getD s.top {} = { dataOffset := off, dataSize := size, binListNext := s.bin b } :=
    (hnode s.top (htop.trans_le hle).ne).trans (if_pos rfl)
  have hold : ∀ j ≠ s.top, j ≠ unused → ns.getD j {} =
      if j = s.bin b then { s.node j with binListPrev := s.top } else s.node j :=
    fun j hj hju => (hnode j hju).trans (if_neg hj)
  have hbody : ∀ j ≠ s.top, j ≠ unused → (ns.getD j {}).body = (s.node j).body := by
    intro j hj hju
    rw [hold j hj hju]
    split_ifs <;> rfl
  refine ⟨hsum, hfresh, ⟨?_, ?_, ?_, ?_⟩, congrArg Node.body hnew, hbody, rfl, ⟨rfl, rfl, rfl⟩⟩
  · exact hpop.congr hns rfl rfl rfl rfl
  · refine ⟨Function.update B b (s.top :: B b), hB.cons hle htop hfreshB (length_set ..) hu hns
      (bin_setBin s (hB.binIndices_length ▸ hb) s.top) (congrArg Node.binPart hnew) hbdef.symm
      (fun j hj hju => (congrArg Node.binPart (hold j hj hju)).trans ?_) hbits, ?_⟩
    · split_ifs <;> rfl
    · intro i
      rw [freeSlots_cons_of_free rfl, Set.mem_insert_iff, hF, exists_mem_update_iff, mem_cons,
        or_assoc]
      refine or_congr_right ⟨fun ⟨c, hc⟩ => ?_, fun hor => ?_⟩
      · by_cases hcb : c = b
        · exact Or.inl (hcb ▸ hc)
        · exact .inr ⟨c, hcb, hc⟩
      · rcases hor with hb | ⟨c, -, hc⟩
        exacts [⟨b, hb⟩, ⟨c, hc⟩]
  · intro r hr
    rcases mem_cons.mp hr with rfl | hr
    · exact ⟨congrArg Node.dataOffset hnew, congrArg Node.dataSize hnew, congrArg Node.used hnew⟩
    · have hslot : r.slot ∈ L.map Region.slot := mem_map_of_mem hr
      exact (h.holds r hr).congr
        (hbody r.slot (fun heq => hfresh (heq ▸ hslot)) (h.stack.ne_unused hslot))
  · change s.freeStorage + size = _
    rw [freeSize_cons_of_free rfl, h.freeStorage_eq, Nat.add_comm]

lemma unlinkNode_spec {B : ℕ → List ℕ} (hB : Bins s B) (hle : s.nodes.length ≤ unused) {b i : ℕ}
    (hi : i ∈ B b) (hb : b < numLeafBins) :
    Wp (unlinkNode (s.node i)) (fun _ s' => ∃ ns bi u t,
      s' = { s with nodes := ns, binIndices := bi, usedBins := u, usedBinsTop := t } ∧
        ns.length = s.nodes.length ∧ Bins s' (Function.update B b ((B b).erase i)) ∧
        ∀ j, j ≠ unused → (ns.getD j {}).body = (s.node j).body) s := by
  have hround : uintToFloatRoundDown (s.node i).dataSize = b := (hB.mem b i hi).2.2
  obtain ⟨hnext, hprev⟩ := hB.neighbours hle hi
  have hnext_lt : s.binNext i ≠ unused → s.binNext i < s.nodes.length :=
    fun hne => (hB.mem b _ (hnext hne)).1
  simp only [unlinkNode, hround, shiftRight_topBinsIndexShift, and_leafBinsIndexMask]
  split_ifs with hp
  · obtain ⟨hmem, hne⟩ := hprev hp
    refine (unlinkInner_spec (hB.mem b _ hmem).1 hnext_lt hne).mono ?_
    rintro _ _ ⟨ns, rfl, hns, hnode⟩
    refine ⟨ns, s.binIndices, s.usedBins, s.usedBinsTop, rfl, hns, ?_, fun j hj => ?_⟩
    · refine hB.unlink hle hi rfl rfl hns (fun c => ?_) (fun j _ hj => ?_) ?_
      · exact (if_neg fun hc => hp hc.2).symm
      · refine (congrArg Node.binPart (hnode j hj)).trans ?_
        by_cases hjn : j = s.binNext i
        · have hjp : j ≠ s.binPrev i := fun heq => hne (heq ▸ hjn)
          rw [if_pos hjn, if_pos hjn, if_neg hjp]
          rfl
        · rw [if_neg hjn, if_neg hjn]
          split_ifs <;> rfl
      · refine hB.bits.congr fun x _ l _ => (and_iff_right fun hc => ?_).symm
        exact ne_nil_of_mem hi ((hB.bin_eq_unused_iff hle).mp hc.1)
    · rw [hnode j hj]
      split_ifs <;> rfl
  · rw [not_not] at hp
    refine Wp.call (unlinkHead_spec _ (hB.binIndices_length ▸ hb) hnext_lt) ?_
    rintro _ _ ⟨ns, rfl, hns, hnode⟩
    refine Wp.mono (clearIfEmpty_spec hb ?_ hB.usedBins_length hB.bits) ?_
    · exact (length_set ..).trans hB.binIndices_length
    rintro _ _ ⟨u, t, rfl, hu, hbits⟩
    refine ⟨ns, _, u, t, rfl, hns, ?_, fun j hj => ?_⟩
    · refine hB.unlink hle hi (length_set ..) hu hns (fun c => ?_) (fun j _ hj => ?_) hbits
      · refine (bin_setBin s (hB.binIndices_length ▸ hb) _ c).trans ?_
        simp only [show s.binPrev i = unused from hp, and_true]
        rfl
      · refine (congrArg Node.binPart (hnode j hj)).trans ?_
        rw [if_neg (c := j = s.binPrev i) (fun heq => hj (heq.trans hp)), show s.binPrev i = unused from hp]
        split_ifs with hjn hjn' hjn'
        · rfl
        · exact absurd hjn hjn'
        · exact absurd hjn' hjn
        · rfl
    · rw [hnode j hj]
      split_ifs <;> rfl

lemma removeNodeFromBin_spec (h : Loose s (r :: L)) (hr : r.used = false)
    (hsize : r.size < 2 ^ 32) :
    Wp (removeNodeFromBin r.slot) (fun _ s' => Loose s' L ∧
      (∀ j, j ≠ unused → (s'.node j).body = (s.node j).body) ∧
        s'.freeOffset + 1 = s.freeOffset ∧ SameConfig s s') s := by
  obtain ⟨B, hB, hF⟩ := h.bins
  have hle := h.stack.length_le
  have hlt : r.slot < s.nodes.length := h.stack.lt (by simp)
  obtain ⟨hoff, hdata, hused⟩ := h.holds r mem_cons_self
  obtain ⟨b, hb⟩ := (hF r.slot).mp ⟨r, mem_cons_self, hr, rfl⟩
  have hround : uintToFloatRoundDown r.size = b := hdata ▸ (hB.mem b _ hb).2.2
  obtain ⟨hpos, hidx, hpush⟩ := h.stack.push
  simp only [removeNodeFromBin, wp_bind, wp_readNode]
  refine ⟨hlt, (unlinkNode_spec hB hle hb (hround ▸ roundDown_lt_numLeafBins hsize)).mono ?_⟩
  rintro _ _ ⟨ns, bi, u, t, rfl, hns, hbins, hbody⟩
  have hsz : (ns.getD r.slot {}).dataSize = r.size :=
    (Node.body_eq_iff.mp (hbody r.slot (hlt.trans_le hle).ne)).2.1.trans hdata
  have hfs : s.freeStorage = r.size + freeSize L :=
    h.freeStorage_eq.trans (freeSize_cons_of_free hr)
  obtain ⟨hfresh, -⟩ := nodup_cons.mp h.stack.nodup
  simp only [wp_pushFreeNode, wp_get]
  refine ⟨hpos, hidx, hlt.trans_eq hns.symm, ?_⟩
  rw [wp_subChecked, wp_modify]
  refine ⟨hsz.trans_le ((Nat.le_add_right _ _).trans_eq hfs.symm), ⟨?_, ?_, ?_, ?_⟩, hbody, Nat.sub_add_cancel hpos,
    ⟨rfl, rfl, rfl⟩⟩
  · exact hpush.congr hns rfl rfl rfl rfl
  · rw [freeSlots_cons_of_free hr] at hF
    exact hB.freeIn_erase hF (fun hmem => hfresh (mem_slots_of_mem_freeSlots hmem)) hb
      (hbins.congr rfl rfl rfl le_rfl fun _ _ _ => rfl)
  · intro r' hr'
    have hslot : r'.slot ∈ (r :: L).map Region.slot := mem_map_of_mem (by simp [hr'])
    exact (h.holds r' (mem_cons_of_mem _ hr')).congr (hbody _ (h.stack.ne_unused hslot))
  · change s.freeStorage - (ns.getD r.slot {}).dataSize = freeSize L
    rw [hsz, hfs, Nat.add_sub_cancel_left]

end loose

end CoreAllocator

end QuillCache.Store
