import QuillCache.Lib.Bits
import QuillCache.Lib.Links
import QuillCache.Store.Alloc.Core

/-!
# `CoreAllocator`: the free-node stack and the bin lists

The parts of the allocator's invariant that do not look at the physical order of the regions:

* `Stack s U`: the free-node stack from `free_offset` on holds exactly the slots not in `U`;
* `Bins s B`: for every bin `b`, the list `B b` is threaded through the bin links from
  `bin_indices[b]`, its members have a size that rounds down to `b`, and the two bitmap levels
  have a bit set exactly for the non-empty bins;
* `FreeIn s F`: the bin lists hold exactly the slots of `F`.

The two bin operations are specified against these (`insertNodeIntoBin_spec`,
`removeNodeFromBin_spec`); what they leave alone is `Node.body`, a node without its bin links.
-/

namespace QuillCache.Store

open Lib SmallFloat Function List

def Node.body (n : Node) : Node := { n with binListPrev := unused, binListNext := unused }

lemma Node.body_eq_iff {n m : Node} :
    n.body = m.body ↔ n.dataOffset = m.dataOffset ∧ n.dataSize = m.dataSize ∧
      n.neighborPrev = m.neighborPrev ∧ n.neighborNext = m.neighborNext ∧ n.used = m.used := by
  simp [Node.body]

def Node.binPart (n : Node) : ℕ × ℕ × Bool × ℕ :=
  (n.binListPrev, n.binListNext, n.used, n.dataSize)

lemma Node.binPart_eq_iff {n m : Node} :
    n.binPart = m.binPart ↔ n.binListPrev = m.binListPrev ∧ n.binListNext = m.binListNext ∧
      n.used = m.used ∧ n.dataSize = m.dataSize := by
  simp [Node.binPart]

namespace CoreAllocator

/-! ## Reading the setters -/

section setters

variable (s : CoreAllocator)

@[simp] lemma setNode_nodes_length (i : ℕ) (n : Node) :
    (s.setNode i n).nodes.length = s.nodes.length := by simp [setNode]

lemma node_setNode {i : ℕ} (h : i < s.nodes.length) (n : Node) (j : ℕ) :
    (s.setNode i n).node j = if j = i then n else s.node j := by
  simp only [node, setNode, getD_eq_getElem?_getD, getElem?_set]
  by_cases hj : j = i
  · simp [hj, h]
  · simp [hj, Ne.symm hj]

lemma bin_setBin {b : ℕ} (h : b < s.binIndices.length) (v c : ℕ) :
    (s.setBin b v).bin c = if c = b then v else s.bin c := by
  simp only [bin, setBin, getD_eq_getElem?_getD, getElem?_set]
  by_cases hc : c = b
  · simp [hc, h]
  · simp [hc, Ne.symm hc]

@[simp] lemma setLeaf_usedBins_length (t : ℕ) (v : BitVec 8) :
    (s.setLeaf t v).usedBins.length = s.usedBins.length := by simp [setLeaf]

lemma leaf_setLeaf {t : ℕ} (h : t < s.usedBins.length) (v : BitVec 8) (u : ℕ) :
    (s.setLeaf t v).leaf u = if u = t then v else s.leaf u := by
  simp only [leaf, setLeaf, getD_eq_getElem?_getD, getElem?_set]
  by_cases hu : u = t
  · simp [hu, h]
  · simp [hu, Ne.symm hu]

lemma node_grown (i : ℕ) : s.grown.node i = s.node i := by
  simp only [node, grown, getD_eq_getElem?_getD, getElem?_append]
  split_ifs with h
  · rfl
  · rw [getElem?_eq_none (by omega : s.nodes.length ≤ i)]
    by_cases hi : i - s.nodes.length = 0
    · simp [hi]
    · rw [getElem?_eq_none (by simp; omega)]

end setters

/-! ## Weakest preconditions of the accessors -/

section wp

variable {s : CoreAllocator}

lemma wp_readNode {i : ℕ} {Q : Node → CoreAllocator → Prop} :
    Wp (readNode i) Q s ↔ i < s.nodes.length ∧ Q (s.node i) s := wp_guarded rfl

variable {Q : Unit → CoreAllocator → Prop}

lemma wp_writeNode {i : ℕ} {f : Node → Node} :
    Wp (writeNode i f) Q s ↔ i < s.nodes.length ∧ Q () (s.setNode i (f (s.node i))) :=
  wp_guarded rfl

lemma wp_readBin {b : ℕ} {Q : ℕ → CoreAllocator → Prop} :
    Wp (readBin b) Q s ↔ b < s.binIndices.length ∧ Q (s.bin b) s := wp_guarded rfl

lemma wp_writeBin {b v : ℕ} :
    Wp (writeBin b v) Q s ↔ b < s.binIndices.length ∧ Q () (s.setBin b v) := wp_guarded rfl

lemma wp_readLeaf {t : ℕ} {Q : BitVec 8 → CoreAllocator → Prop} :
    Wp (readLeaf t) Q s ↔ t < s.usedBins.length ∧ Q (s.leaf t) s := wp_guarded rfl

lemma wp_writeLeaf {t : ℕ} {v : BitVec 8} :
    Wp (writeLeaf t v) Q s ↔ t < s.usedBins.length ∧ Q () (s.setLeaf t v) := wp_guarded rfl

lemma wp_readFreeNode {k : ℕ} {Q : ℕ → CoreAllocator → Prop} :
    Wp (readFreeNode k) Q s ↔ k < s.freeNodes.length ∧ Q (s.freeNodes.getD k 0) s := wp_guarded rfl

lemma wp_writeFreeNode {k v : ℕ} : Wp (writeFreeNode k v) Q s ↔ k < s.freeNodes.length ∧ Q () (s.setFreeNode k v) :=
  wp_guarded rfl

lemma wp_growOne : Wp growOne Q s ↔ s.currentCapacity + 1 < 2 ^ 32 ∧ Q () s.grown := by
  simp only [growOne, wp_bind, wp_get, wp_addChecked, wp_modify]

end wp

/-! ## The free-node stack -/

/-- The free-node stack from `free_offset` on holds exactly the slots that are not in `U`. -/
@[mk_iff]
structure Stack (s : CoreAllocator) (U : List ℕ) : Prop where
  nodes_length : s.nodes.length = s.currentCapacity
  freeNodes_length : s.freeNodes.length = s.currentCapacity
  capacity_le : s.currentCapacity ≤ s.maxCapacity
  maxCapacity_lt : s.maxCapacity < unused
  freeOffset_le : s.freeOffset ≤ s.currentCapacity
  perm : (s.freeNodes.drop s.freeOffset ++ U).Perm (List.range s.currentCapacity)

section stack

variable {s : CoreAllocator} {U U' : List ℕ}

lemma Stack.of_perm (h : Stack s U) (hU : U.Perm U') : Stack s U' :=
  { h with perm := (hU.symm.append_left _).trans h.perm }

lemma Stack.length_eq (h : Stack s U) : U.length = s.freeOffset := by
  have hlen := h.perm.length_eq
  have hle := h.freeOffset_le
  simp only [length_append, length_drop, h.freeNodes_length, length_range] at hlen
  omega

lemma Stack.nodup (h : Stack s U) : U.Nodup :=
  (nodup_append.mp (h.perm.nodup_iff.mpr nodup_range)).2.1

lemma Stack.lt (h : Stack s U) {i : ℕ} (hi : i ∈ U) : i < s.nodes.length := by
  rw [h.nodes_length]
  exact mem_range.mp (h.perm.mem_iff.mp (mem_append_right _ hi))

lemma Stack.length_le (h : Stack s U) : s.nodes.length ≤ unused := by
  have h1 := h.nodes_length
  have h2 := h.capacity_le
  have h3 := h.maxCapacity_lt
  omega

lemma Stack.ne_unused (h : Stack s U) {i : ℕ} (hi : i ∈ U) : i ≠ unused :=
  ((h.lt hi).trans_le h.length_le).ne

lemma Stack.congr {s' : CoreAllocator} (h : Stack s U) (hn : s'.nodes.length = s.nodes.length)
    (hf : s'.freeNodes = s.freeNodes) (hc : s'.currentCapacity = s.currentCapacity)
    (hm : s'.maxCapacity = s.maxCapacity) (ho : s'.freeOffset = s.freeOffset) : Stack s' U := by
  rw [stack_iff] at h ⊢
  rwa [hn, hf, hc, hm, ho]

def top (s : CoreAllocator) : ℕ := s.freeNodes.getD s.freeOffset 0

lemma wp_popFreeNode {Q : ℕ → CoreAllocator → Prop} :
    Wp popFreeNode Q s ↔ s.freeOffset < s.freeNodes.length ∧ s.freeOffset + 1 < 2 ^ 32 ∧
      Q s.top (s.setFreeOffset (s.freeOffset + 1)) := by
  simp only [popFreeNode, wp_bind, wp_get, wp_readFreeNode, wp_addChecked, wp_modify, wp_pure, top]

lemma wp_pushFreeNode {i : ℕ} {Q : Unit → CoreAllocator → Prop} :
    Wp (pushFreeNode i) Q s ↔ 1 ≤ s.freeOffset ∧ s.freeOffset - 1 < s.freeNodes.length ∧
      Q () ((s.setFreeOffset (s.freeOffset - 1)).setFreeNode (s.freeOffset - 1) i) := by
  simp only [pushFreeNode, wp_bind, wp_get, wp_subChecked, wp_modify, wp_writeFreeNode]
  rfl

lemma Stack.pop_lt (h : Stack s U) (hroom : s.freeOffset < s.currentCapacity) :
    s.freeOffset < s.freeNodes.length ∧ s.freeOffset + 1 < 2 ^ 32 := by
  have h1 := h.freeNodes_length
  have h2 := h.capacity_le
  have h3 := h.maxCapacity_lt
  simp only [unused] at h3
  omega

lemma Stack.pop (h : Stack s U) (hroom : s.freeOffset < s.currentCapacity) :
    Stack (s.setFreeOffset (s.freeOffset + 1)) (s.top :: U) ∧ s.top ∉ U := by
  have hlt : s.freeOffset < s.freeNodes.length := by rw [h.freeNodes_length]; exact hroom
  have htop : s.top = s.freeNodes[s.freeOffset] := getD_eq_getElem _ _ hlt
  have hdrop : s.freeNodes.drop s.freeOffset = s.top :: s.freeNodes.drop (s.freeOffset + 1) := by
    rw [htop, drop_eq_getElem_cons hlt]
  have hperm := h.perm
  rw [hdrop] at hperm
  have hnd := hperm.nodup_iff.mpr nodup_range
  refine ⟨{ h with freeOffset_le := hroom, perm := perm_middle.trans hperm }, fun hmem => ?_⟩
  exact (nodup_cons.mp hnd).1 (mem_append_right _ hmem)

lemma Stack.push {i : ℕ} (h : Stack s (i :: U)) :
    0 < s.freeOffset ∧ s.freeOffset - 1 < s.freeNodes.length ∧
      Stack ((s.setFreeOffset (s.freeOffset - 1)).setFreeNode (s.freeOffset - 1) i) U := by
  have hlen := h.length_eq
  have hle := h.freeOffset_le
  have hfl := h.freeNodes_length
  simp only [length_cons] at hlen
  have hlt : s.freeOffset - 1 < s.freeNodes.length := by omega
  have hdrop : (s.freeNodes.set (s.freeOffset - 1) i).drop (s.freeOffset - 1) =
      i :: s.freeNodes.drop s.freeOffset := by
    rw [drop_set, if_neg (lt_irrefl _), Nat.sub_self, drop_eq_getElem_cons hlt,
      set_cons_zero, Nat.sub_add_cancel (by omega)]
  refine ⟨by omega, hlt, ?_⟩
  refine { h with freeNodes_length := ?_, freeOffset_le := ?_, perm := ?_ }
  · simp [setFreeNode, setFreeOffset, hfl]
  · simp only [setFreeNode, setFreeOffset]
    omega
  · simp only [setFreeNode, setFreeOffset]
    rw [hdrop]
    exact perm_middle.symm.trans h.perm

end stack

/-! ## The bin lists -/

def binPrev (s : CoreAllocator) (i : ℕ) : ℕ := (s.node i).binListPrev

def binNext (s : CoreAllocator) (i : ℕ) : ℕ := (s.node i).binListNext

/-- The bin lists are `B`: list `B b` is threaded from `bin_indices[b]`, its members are free nodes of
a size that rounds down to `b`, and both bitmap levels mark the non-empty bins. -/
structure Bins (s : CoreAllocator) (B : ℕ → List ℕ) : Prop where
  binIndices_length : s.binIndices.length = numLeafBins
  usedBins_length : s.usedBins.length = numTopBins
  head_eq : ∀ b, s.bin b = (B b).head?.getD unused
  linked : ∀ b, Linked unused s.binPrev s.binNext (B b)
  nodup : ∀ b, (B b).Nodup
  mem : ∀ b, ∀ i ∈ B b, i < s.nodes.length ∧ (s.node i).used = false ∧
    uintToFloatRoundDown (s.node i).dataSize = b
  bits : TwoLevel s.leaf s.usedBinsTop fun t l => B (8 * t + l) ≠ []

/-- The bin lists hold exactly the slots of `F`. -/
def FreeIn (s : CoreAllocator) (F : Set ℕ) : Prop :=
  ∃ B, Bins s B ∧ ∀ i, i ∈ F ↔ ∃ b, i ∈ B b

section bins

variable {s s' : CoreAllocator} {B : ℕ → List ℕ} {F : Set ℕ}

lemma Bins.congr (h : Bins s B) (hb : s'.binIndices = s.binIndices) (hu : s'.usedBins = s.usedBins)
    (ht : s'.usedBinsTop = s.usedBinsTop) (hl : s.nodes.length ≤ s'.nodes.length)
    (hn : ∀ b, ∀ i ∈ B b, (s'.node i).binPart = (s.node i).binPart) : Bins s' B := by
  have hbin : ∀ b, s'.bin b = s.bin b := fun b => by simp only [bin, hb]
  have hleaf : s'.leaf = s.leaf := by funext t; simp only [leaf, hu]
  simp only [Node.binPart_eq_iff] at hn
  refine ⟨by rw [hb, h.binIndices_length], by rw [hu, h.usedBins_length],
    fun b => by rw [hbin, h.head_eq], fun b => ?_, h.nodup, fun b i hi => ?_, ?_⟩
  · exact (h.linked b).congr (fun i hi => (hn b i hi).1) fun i hi => (hn b i hi).2.1
  · rw [(hn b i hi).2.2.1, (hn b i hi).2.2.2]
    exact ⟨(h.mem b i hi).1.trans_le hl, (h.mem b i hi).2⟩
  · rw [hleaf, ht]
    exact h.bits

lemma FreeIn.congr (h : FreeIn s F) (hb : s'.binIndices = s.binIndices)
    (hu : s'.usedBins = s.usedBins) (ht : s'.usedBinsTop = s.usedBinsTop)
    (hl : s.nodes.length ≤ s'.nodes.length)
    (hn : ∀ i ∈ F, (s'.node i).binPart = (s.node i).binPart) : FreeIn s' F := by
  obtain ⟨B, hB, hF⟩ := h
  exact ⟨B, hB.congr hb hu ht hl fun b i hi => hn i ((hF i).mpr ⟨b, hi⟩), hF⟩

lemma Bins.replace (h : Bins s B) {b : ℕ} {l : List ℕ}
    (hbl : s'.binIndices.length = s.binIndices.length)
    (hul : s'.usedBins.length = s.usedBins.length)
    (hnl : s'.nodes.length = s.nodes.length)
    (hhead : ∀ c, s'.bin c = if c = b then l.head?.getD unused else s.bin c)
    (hlinked : Linked unused s'.binPrev s'.binNext l) (hnodup : l.Nodup)
    (hmem : ∀ i ∈ l, i < s.nodes.length ∧ (s'.node i).used = false ∧
      uintToFloatRoundDown (s'.node i).dataSize = b)
    (hsame : ∀ c ≠ b, ∀ i ∈ B c, (s'.node i).binPart = (s.node i).binPart)
    (hbits : TwoLevel s'.leaf s'.usedBinsTop fun t k => Function.update B b l (8 * t + k) ≠ []) :
    Bins s' (Function.update B b l) := by
  simp only [Node.binPart_eq_iff] at hsame
  refine ⟨hbl.trans h.binIndices_length, hul.trans h.usedBins_length, fun c => ?_, fun c => ?_,
    fun c => ?_, fun c => ?_, hbits⟩
  all_goals by_cases hc : c = b
  · rw [hhead, if_pos hc, hc, update_self]
  · rw [hhead, if_neg hc, update_of_ne hc, h.head_eq]
  · rw [hc, update_self]
    exact hlinked
  · rw [update_of_ne hc]
    exact (h.linked c).congr (fun i hi => (hsame c hc i hi).1) fun i hi => (hsame c hc i hi).2.1
  · rw [hc, update_self]
    exact hnodup
  · rw [update_of_ne hc]
    exact h.nodup c
  · rw [hc, update_self, hnl]
    exact hmem
  · rw [update_of_ne hc, hnl]
    intro i hi
    rw [(hsame c hc i hi).2.2.1, (hsame c hc i hi).2.2.2]
    exact h.mem c i hi

lemma Bins.ne_unused (h : Bins s B) (hle : s.nodes.length ≤ unused) {b i : ℕ} (hi : i ∈ B b) :
    i ≠ unused := ((h.mem b i hi).1.trans_le hle).ne

lemma Bins.bin_eq_unused_iff (h : Bins s B) (hle : s.nodes.length ≤ unused) {b : ℕ} :
    s.bin b = unused ↔ B b = [] := by
  rw [h.head_eq]
  cases hB : B b with
  | nil => simp
  | cons i l => simpa using h.ne_unused hle (b := b) (i := i) (by simp [hB])

lemma exists_mem_update_iff {b i : ℕ} {l : List ℕ} :
    (∃ c, i ∈ Function.update B b l c) ↔ i ∈ l ∨ ∃ c, c ≠ b ∧ i ∈ B c := by
  constructor
  · rintro ⟨c, hc⟩
    by_cases hcb : c = b
    · left
      rwa [hcb, update_self] at hc
    · right
      rw [update_of_ne hcb] at hc
      exact ⟨c, hcb, hc⟩
  · rintro (hl | ⟨c, hcb, hc⟩)
    · exact ⟨b, by rwa [update_self]⟩
    · exact ⟨c, by rwa [update_of_ne hcb]⟩

lemma eq_div_mod_iff {b t l : ℕ} (hl : l < 8) : 8 * t + l = b ↔ t = b / 8 ∧ l = b % 8 := by omega

lemma Bins.cons (h : Bins s B) (hle : s.nodes.length ≤ unused) {b i size : ℕ}
    (hi : i < s.nodes.length) (hfresh : ∀ c, i ∉ B c)
    (hbl : s'.binIndices.length = s.binIndices.length)
    (hul : s'.usedBins.length = s.usedBins.length)
    (hnl : s'.nodes.length = s.nodes.length)
    (hhead : ∀ c, s'.bin c = if c = b then i else s.bin c)
    (hnew : (s'.node i).binPart = (unused, s.bin b, false, size))
    (hsize : uintToFloatRoundDown size = b)
    (hold : ∀ j ≠ i, j ≠ unused → (s'.node j).binPart =
      (if j = s.bin b then i else s.binPrev j, s.binNext j, (s.node j).used, (s.node j).dataSize))
    (hbits : TwoLevel s'.leaf s'.usedBinsTop fun t l =>
      (t = b / 8 ∧ l = b % 8) ∨ B (8 * t + l) ≠ []) :
    Bins s' (Function.update B b (i :: B b)) := by
  have hne : ∀ c, ∀ j ∈ B c, j ≠ i ∧ j ≠ unused := fun c j hj =>
    ⟨fun hji => hfresh c (hji ▸ hj), h.ne_unused hle hj⟩
  have hi0 : i ≠ unused := (hi.trans_le hle).ne
  simp only [Node.binPart, Prod.mk.injEq] at hnew hold
  obtain ⟨hprev, hnext, hused, hdata⟩ := hnew
  refine h.replace hbl hul hnl (fun c => by simp [hhead]) ?_ ?_ ?_ ?_ ?_
  · -- the new node is spliced in before the old head
    change Linked unused s'.binPrev s'.binNext ([] ++ [i] ++ B b)
    refine Linked.splice [] [] (B b) [i] (h.linked b) nodup_nil (h.nodup b) (by simp) (by simp)
      (fun j hj => ?_) (fun j hj hhd => ?_) ?_
    · exact (hold j (hne b j hj).1 (hne b j hj).2).2.1
    · have := (hold j (hne b j hj).1 (hne b j hj).2).1
      rwa [if_neg (by rw [h.head_eq]; exact hhd)] at this
    · simp only [getLast?_nil, Option.getD_none, singleton_append, isChain_cons_cons,
        isChain_singleton, and_true, LinkRel]
      refine ⟨⟨by simp, fun _ => hprev⟩, fun _ => hnext.trans (h.head_eq b), fun hhd => ?_⟩
      cases hB : B b with
      | nil => simp [hB] at hhd
      | cons j l =>
        have hj : j ∈ B b := by simp [hB]
        have := (hold j (hne b j hj).1 (hne b j hj).2).1
        rw [if_pos (by simp [h.head_eq, hB])] at this
        simpa [binPrev] using this
  · exact nodup_cons.mpr ⟨hfresh b, h.nodup b⟩
  · intro j hj
    rcases mem_cons.mp hj with rfl | hj
    · exact ⟨hi, hused, by rw [hdata, hsize]⟩
    · rw [(hold j (hne b j hj).1 (hne b j hj).2).2.2.1, (hold j (hne b j hj).1 (hne b j hj).2).2.2.2]
      exact h.mem b j hj
  · intro c hc j hj
    rw [Node.binPart_eq_iff]
    have hjo := hold j (hne c j hj).1 (hne c j hj).2
    -- the old head is in bin `b`, not in `c`
    rw [if_neg ?_] at hjo
    · exact hjo
    · rintro rfl
      cases hB : B b with
      | nil => exact (hne c _ hj).2 ((h.bin_eq_unused_iff hle).mpr hB)
      | cons k l =>
        have hk : s.bin b ∈ B b := by simp [h.head_eq, hB]
        exact hc ((h.mem c _ hj).2.2.symm.trans (h.mem b _ hk).2.2)
  · refine hbits.congr fun t _ l hl => ?_
    by_cases hc : 8 * t + l = b
    · have htl := (eq_div_mod_iff hl).mp hc
      rw [hc, update_self]
      simp [htl]
    · simp only [update_of_ne hc, (eq_div_mod_iff hl).not.mp hc, false_or]

lemma Bins.neighbours (h : Bins s B) (hle : s.nodes.length ≤ unused) {b i : ℕ} (hi : i ∈ B b) :
    (s.binNext i ≠ unused → s.binNext i ∈ B b) ∧
      (s.binPrev i ≠ unused → s.binPrev i ∈ B b ∧ s.binPrev i ≠ s.binNext i) := by
  obtain ⟨xs, ys, hB⟩ := append_of_mem hi
  have hnd := h.nodup b
  have hlinked := h.linked b
  rw [hB] at hnd hlinked
  obtain ⟨hprev, hnext⟩ := hlinked.links (h.ne_unused hle hi)
  change s.binPrev i = _ at hprev
  change s.binNext i = _ at hnext
  rw [hB, hprev, hnext]
  refine ⟨fun hn => ?_, fun hp => ?_⟩
  · exact mem_append_right _ (mem_cons_of_mem _ (head?_getD_mem hn))
  · have hmem := getLast?_getD_mem hp
    refine ⟨mem_append_left _ hmem, fun heq => ?_⟩
    have hmem' := head?_getD_mem (heq ▸ hp)
    exact (nodup_append.mp hnd).2.2 _ hmem _ (mem_cons_of_mem _ hmem') heq

lemma Bins.unlink (h : Bins s B) (hle : s.nodes.length ≤ unused) {b i : ℕ} (hi : i ∈ B b)
    (hbl : s'.binIndices.length = s.binIndices.length)
    (hul : s'.usedBins.length = s.usedBins.length)
    (hnl : s'.nodes.length = s.nodes.length)
    (hhead : ∀ c, s'.bin c = if c = b ∧ s.binPrev i = unused then s.binNext i else s.bin c)
    (hold : ∀ j ≠ i, j ≠ unused → (s'.node j).binPart =
      (if j = s.binNext i then s.binPrev i else s.binPrev j,
        if j = s.binPrev i then s.binNext i else s.binNext j, (s.node j).used, (s.node j).dataSize))
    (hbits : TwoLevel s'.leaf s'.usedBinsTop fun t l =>
      ¬(s'.bin b = unused ∧ t = b / 8 ∧ l = b % 8) ∧ B (8 * t + l) ≠ []) :
    Bins s' (Function.update B b ((B b).erase i)) := by
  obtain ⟨xs, ys, hB⟩ := append_of_mem hi
  have hnd := h.nodup b
  have hlinked := h.linked b
  rw [hB] at hnd hlinked
  obtain ⟨hxs, hiys, hdisj⟩ := nodup_append.mp hnd
  obtain ⟨hi_ys, hys⟩ := nodup_cons.mp hiys
  have hi_xs : i ∉ xs := fun hmem => hdisj i hmem i (by simp) rfl
  have herase : (B b).erase i = xs ++ ys := by
    rw [hB, erase_append_right _ hi_xs, erase_cons_head]
  obtain ⟨hprev, hnext⟩ := hlinked.links (h.ne_unused hle hi)
  change s.binPrev i = _ at hprev
  change s.binNext i = _ at hnext
  have hmemB : ∀ {j}, j ∈ xs ++ ys → j ∈ B b := fun {j} hj => by
    rw [hB]
    rcases mem_append.mp hj with hj | hj <;> simp [hj]
  have hne : ∀ j ∈ xs ++ ys, j ≠ i ∧ j ≠ unused := fun j hj =>
    ⟨fun hji => (mem_append.mp (hji ▸ hj)).elim hi_xs hi_ys, h.ne_unused hle (hmemB hj)⟩
  simp only [Node.binPart, Prod.mk.injEq] at hold
  have hhead' : ∀ c, s'.bin c = if c = b then (xs ++ ys).head?.getD unused else s.bin c := by
    intro c
    by_cases hc : c = b
    · subst hc
      cases xs with
      | nil => simp [hhead, hprev, hnext]
      | cons x xs =>
        have hlast : s.binPrev i ≠ unused := by
          rw [hprev, getLast?_eq_some_getLast (by simp), Option.getD_some]
          exact (hne _ (mem_append_left _ (getLast_mem _))).2
        simp [hhead, hlast, h.head_eq, hB]
    · simp [hhead, hc]
  -- the two neighbours of `i` are members of the other side, or the sentinel
  have hnext_xs : ∀ j ∈ xs, j ≠ s.binNext i := by
    rintro j hj rfl
    have hmem := head?_getD_mem (hnext ▸ (hne _ (mem_append_left _ hj)).2)
    exact hdisj _ hj _ (mem_cons_of_mem _ hmem) hnext
  have hprev_ys : ∀ j ∈ ys, j ≠ s.binPrev i := by
    rintro j hj rfl
    have hmem := getLast?_getD_mem (hprev ▸ (hne _ (mem_append_right _ hj)).2)
    exact hdisj _ hmem _ (mem_cons_of_mem _ hj) hprev.symm
  rw [herase]
  refine h.replace hbl hul hnl hhead' ?_ ?_ ?_ ?_ ?_
  · rw [← append_nil xs]
    refine Linked.splice xs [i] ys [] (by simpa using hlinked) hxs hys
      (fun j hj => ?_) (fun j hj hlast => ?_) (fun j hj => ?_) (fun j hj hhd => ?_) ?_
    · have hjo := (hold j (hne j (by simp [hj])).1 (hne j (by simp [hj])).2).1
      rwa [if_neg (hnext_xs j hj)] at hjo
    · have hjo := (hold j (hne j (by simp [hj])).1 (hne j (by simp [hj])).2).2.1
      rwa [if_neg (hprev ▸ hlast)] at hjo
    · have hjo := (hold j (hne j (by simp [hj])).1 (hne j (by simp [hj])).2).2.1
      rwa [if_neg (hprev_ys j hj)] at hjo
    · have hjo := (hold j (hne j (by simp [hj])).1 (hne j (by simp [hj])).2).1
      rwa [if_neg (hnext ▸ hhd)] at hjo
    · rw [← hprev, ← hnext, nil_append]
      simp only [isChain_cons_cons, isChain_singleton, and_true, LinkRel]
      refine ⟨fun hp => ?_, fun hn => ?_⟩
      · have hmem : s.binPrev i ∈ xs := hprev ▸ getLast?_getD_mem (hprev ▸ hp)
        have hjo := (hold _ (hne _ (by simp [hmem])).1 hp).2.1
        rwa [if_pos rfl] at hjo
      · have hmem : s.binNext i ∈ ys := hnext ▸ head?_getD_mem (hnext ▸ hn)
        have hjo := (hold _ (hne _ (by simp [hmem])).1 hn).1
        rwa [if_pos rfl] at hjo
  · exact hnd.sublist (by simp)
  · intro j hj
    have hjo := hold j (hne j hj).1 (hne j hj).2
    rw [hjo.2.2.1, hjo.2.2.2]
    exact h.mem b j (hmemB hj)
  · intro c hc j hj
    have hout : ∀ k ∈ B b, j ≠ k := by
      rintro k hk rfl
      exact hc ((h.mem c _ hj).2.2.symm.trans (h.mem b _ hk).2.2)
    have hju := h.ne_unused hle hj
    have hjo := hold j (hout i hi) hju
    rw [if_neg ?_, if_neg ?_] at hjo
    · exact (Node.binPart_eq_iff).mpr hjo
    · rintro rfl
      exact hout _ (hmemB (mem_append_left _ (getLast?_getD_mem (hprev ▸ hju)))) hprev
    · rintro rfl
      exact hout _ (hmemB (mem_append_right _ (head?_getD_mem (hnext ▸ hju)))) hnext
  · refine hbits.congr fun t _ l hl => ?_
    by_cases hc : 8 * t + l = b
    · have htl := (eq_div_mod_iff hl).mp hc
      have hempty : s'.bin b = unused ↔ xs ++ ys = [] := by
        rw [hhead', if_pos rfl]
        cases hxy : xs ++ ys with
        | nil => simp
        | cons j l => simpa using (hne j (by simp [hxy])).2
      rw [hc, update_self, hempty]
      simp [htl, hB]
    · simp [hc, (eq_div_mod_iff hl).not.mp hc]

lemma Bins.freeIn_erase (h : Bins s B) {b i : ℕ} (hF : ∀ j, j ∈ insert i F ↔ ∃ c, j ∈ B c)
    (hi : i ∉ F) (hb : i ∈ B b) (h' : Bins s' (Function.update B b ((B b).erase i))) :
    FreeIn s' F := by
  refine ⟨_, h', fun j => ?_⟩
  have hFj := hF j
  rw [Set.mem_insert_iff] at hFj
  rw [exists_mem_update_iff, (h.nodup b).mem_erase_iff]
  constructor
  · intro hj
    have hne : j ≠ i := fun heq => hi (heq ▸ hj)
    obtain ⟨c, hc⟩ := hFj.mp (.inr hj)
    by_cases hcb : c = b
    · exact .inl ⟨hne, hcb ▸ hc⟩
    · exact .inr ⟨c, hcb, hc⟩
  · rintro (⟨hne, hj⟩ | ⟨c, hcb, hc⟩)
    · exact (hFj.mpr ⟨b, hj⟩).resolve_left hne
    · -- a member of another bin has another size
      refine (hFj.mpr ⟨c, hc⟩).resolve_left fun heq => hcb ?_
      rw [← (h.mem c j hc).2.2, heq, (h.mem b i hb).2.2]

end bins

end CoreAllocator

end QuillCache.Store
