import QuillCache.Store.Alloc.CoreRep

/-!
# `CoreAllocator`: the invariant

* `Relinked s s' P N`: `s'` is `s` with its neighbour links replaced by `P` and `N`;
* `Layout size L`: the regions `L` tile `[0, size)`, no two neighbours are both free, none is empty;
* `Inv s L`: the nodes of `s`, in neighbour order, are the regions `L`, which lay out `[0, size)`.

`free_spec`: freeing a used region merges it with its free neighbours and keeps the invariant.
-/

namespace QuillCache.Store

open Lib SmallFloat Function List

def regionSpans : Spans Region where
  start := Region.off
  len := Region.size
  used := Region.used

/-- The regions tile `[0, size)`, coalesced and, unless `size` is zero, non-empty. -/
structure Layout (size : ℕ) (L : List Region) : Prop where
  tiles : regionSpans.Tiles 0 size L
  coalesced : regionSpans.Coalesced L
  pos : 0 < size → ∀ r ∈ L, 0 < r.size

/-- The run `m'` can stand where `m` stands: it covers the same range, and no two free regions become
neighbours. -/
structure Replaces (size : ℕ) (xs m m' ys : List Region) : Prop where
  tiles : ∀ a b, regionSpans.Tiles a b m → regionSpans.Tiles a b m'
  coalesced : regionSpans.Coalesced m'
  left : ∀ a ∈ xs.getLast?, ∀ b ∈ (m' ++ ys).head?, a.used = true ∨ b.used = true
  right : ∀ a ∈ m'.getLast?, ∀ b ∈ ys.head?, a.used = true ∨ b.used = true
  pos : 0 < size → ∀ r ∈ m', 0 < r.size

lemma Layout.replace {size : ℕ} {xs m m' ys : List Region} (h : Layout size (xs ++ m ++ ys))
    (hm : Replaces size xs m m' ys) : Layout size (xs ++ m' ++ ys) := by
  obtain ⟨ht, hc, hp⟩ := h
  refine ⟨?_, hc.splice hm.coalesced hm.left hm.right, fun hs r hr => ?_⟩
  · rw [Spans.tiles_split] at ht ⊢
    obtain ⟨a, b, hxs, hmid, hys⟩ := ht
    exact ⟨a, b, hxs, hm.tiles a b hmid, hys⟩
  · simp only [mem_append] at hr
    rcases hr with (hr | hr) | hr
    · exact hp hs r (by simp [hr])
    · exact hm.pos hs r hr
    · exact hp hs r (by simp [hr])

namespace CoreAllocator

/-! ## Relinking -/

/-- The neighbour links are replaced by `P` and `N`, and nothing else changes. -/
structure Relinked (s s' : CoreAllocator) (P N : ℕ → ℕ) : Prop where
  frame : ∃ ns, s' = { s with nodes := ns } ∧ ns.length = s.nodes.length
  node_eq : ∀ j, j ≠ unused →
    s'.node j = { s.node j with neighborPrev := P j, neighborNext := N j }

section relinked

variable {s s' : CoreAllocator} {P N : ℕ → ℕ} {L : List Region}

lemma Relinked.refl (s : CoreAllocator) : Relinked s s s.prev s.next :=
  ⟨⟨s.nodes, rfl, rfl⟩, fun _ _ => rfl⟩

lemma Relinked.length_eq (h : Relinked s s' P N) : s'.nodes.length = s.nodes.length := by
  obtain ⟨ns, rfl, hns⟩ := h.frame
  exact hns

lemma Relinked.sameConfig (h : Relinked s s' P N) : SameConfig s s' := by
  obtain ⟨ns, rfl, -⟩ := h.frame
  exact ⟨rfl, rfl, rfl⟩

lemma Relinked.prev_eq (h : Relinked s s' P N) {j : ℕ} (hj : j ≠ unused) : s'.prev j = P j :=
  congrArg Node.neighborPrev (h.node_eq j hj)

lemma Relinked.next_eq (h : Relinked s s' P N) {j : ℕ} (hj : j ≠ unused) : s'.next j = N j :=
  congrArg Node.neighborNext (h.node_eq j hj)

lemma Relinked.body_eq (h : Relinked s s' P N) {j : ℕ} (hj : j ≠ unused) (hp : P j = s.prev j)
    (hn : N j = s.next j) : (s'.node j).body = (s.node j).body := by
  rw [h.node_eq j hj, hp, hn]
  rfl

lemma Relinked.setPrev (h : Relinked s s' P N) {i : ℕ} (hi : i < s.nodes.length) (v : ℕ) :
    Relinked s (s'.setNode i { s'.node i with neighborPrev := v }) (Function.update P i v) N := by
  have hi' : i < s'.nodes.length := h.length_eq.symm ▸ hi
  obtain ⟨ns, hs', hns⟩ := h.frame
  refine ⟨⟨_, by rw [hs']; rfl, by simp [hns]⟩, fun j hj => ?_⟩
  rw [node_setNode _ hi', h.node_eq j hj]
  split_ifs with hji
  · subst hji
    rw [h.node_eq j hj, update_self]
  · rw [update_of_ne hji]

lemma Relinked.setNext (h : Relinked s s' P N) {i : ℕ} (hi : i < s.nodes.length) (v : ℕ) :
    Relinked s (s'.setNode i { s'.node i with neighborNext := v }) P (Function.update N i v) := by
  have hi' : i < s'.nodes.length := h.length_eq.symm ▸ hi
  obtain ⟨ns, hs', hns⟩ := h.frame
  refine ⟨⟨_, by rw [hs']; rfl, by simp [hns]⟩, fun j hj => ?_⟩
  rw [node_setNode _ hi', h.node_eq j hj]
  split_ifs with hji
  · subst hji
    rw [h.node_eq j hj, update_self]
  · rw [update_of_ne hji]

lemma Relinked.isChain (h : Relinked s s' P N) {l : List ℕ}
    (hl : l.IsChain (LinkRel unused P N)) : l.IsChain (LinkRel unused s'.prev s'.next) :=
  hl.imp fun _ _ hab => ⟨fun ha => (h.next_eq ha).trans (hab.1 ha),
    fun hb => (h.prev_eq hb).trans (hab.2 hb)⟩

lemma Relinked.wp_prev (h : Relinked s s' P N) {i v : ℕ} (hi : i < s.nodes.length)
    {Q : Unit → CoreAllocator → Prop}
    (hQ : ∀ s₂, Relinked s s₂ (Function.update P i v) N → Q () s₂) :
    Wp (writeNode i fun n => { n with neighborPrev := v }) Q s' :=
  wp_writeNode.mpr ⟨h.length_eq.symm ▸ hi, hQ _ (h.setPrev hi v)⟩

lemma Relinked.wp_next (h : Relinked s s' P N) {i v : ℕ} (hi : i < s.nodes.length)
    {Q : Unit → CoreAllocator → Prop}
    (hQ : ∀ s₂, Relinked s s₂ P (Function.update N i v) → Q () s₂) :
    Wp (writeNode i fun n => { n with neighborNext := v }) Q s' :=
  wp_writeNode.mpr ⟨h.length_eq.symm ▸ hi, hQ _ (h.setNext hi v)⟩

lemma Relinked.loose (h : Relinked s s' P N) (hl : Loose s L) : Loose s' L := by
  have hne : ∀ r ∈ L, r.slot ≠ unused := fun r hr => hl.stack.ne_unused (mem_map_of_mem hr)
  obtain ⟨ns, rfl, hns⟩ := h.frame
  refine ⟨hl.stack.congr hns rfl rfl rfl rfl, hl.bins.congr rfl rfl rfl hns.ge ?_, fun r hr => ?_,
    hl.freeStorage_eq⟩
  · rintro i ⟨r, hr, -, rfl⟩
    rw [h.node_eq _ (hne r hr)]
    rfl
  · have hrn := h.node_eq _ (hne r hr)
    unfold Holds
    rw [hrn]
    exact hl.holds r hr

end relinked

/-! ## The invariant -/

def lastSlot (L : List Region) : ℕ := (L.map Region.slot).getLast?.getD unused

def headSlot (L : List Region) : ℕ := (L.map Region.slot).head?.getD unused

/-- The invariant of the allocator: its nodes, in neighbour order, are the regions `L`. -/
structure Inv (s : CoreAllocator) (L : List Region) : Prop where
  loose : Loose s L
  linked : Linked unused s.prev s.next (L.map Region.slot)
  layout : Layout s.size L
  size_le : s.size ≤ maxBinSize

section inv

variable {s s' : CoreAllocator} {L xs ys m : List Region} {r : Region}

lemma prev_eq_of_body {j : ℕ} (h : (s'.node j).body = (s.node j).body) : s'.prev j = s.prev j :=
  (Node.body_eq_iff.mp h).2.2.1

lemma next_eq_of_body {j : ℕ} (h : (s'.node j).body = (s.node j).body) : s'.next j = s.next j :=
  (Node.body_eq_iff.mp h).2.2.2.1

lemma lastSlot_concat (xs : List Region) (r : Region) : lastSlot (xs ++ [r]) = r.slot := by
  simp [lastSlot]

lemma headSlot_cons (r : Region) (ys : List Region) : headSlot (r :: ys) = r.slot := by
  simp [headSlot]

lemma Inv.ne_unused (h : Inv s L) (hr : r ∈ L) : r.slot ≠ unused :=
  h.loose.stack.ne_unused (mem_map_of_mem hr)

lemma Inv.slots_nodup (h : Inv s L) : (L.map Region.slot).Nodup := h.loose.stack.nodup

lemma Inv.links (h : Inv s (xs ++ r :: ys)) :
    s.prev r.slot = lastSlot xs ∧ s.next r.slot = headSlot ys := by
  have hl := h.linked
  rw [map_append, map_cons] at hl
  exact hl.links (h.ne_unused (by simp))

lemma Inv.size_lt (h : Inv s L) : s.size < 2 ^ 32 := by
  have := h.size_le
  simp only [maxBinSize] at this
  omega

lemma Inv.linkRel (h : Inv s (xs ++ r :: ys)) :
    LinkRel unused s.prev s.next (lastSlot xs) r.slot ∧
      LinkRel unused s.prev s.next r.slot (headSlot ys) := by
  have hl : Linked unused s.prev s.next (xs.map Region.slot ++ [r.slot] ++ ys.map Region.slot) := by
    simpa using h.linked
  obtain ⟨-, hmid, -⟩ := linked_split.mp hl
  simp only [singleton_append, isChain_cons_cons, isChain_singleton, and_true] at hmid
  exact hmid

lemma Inv.sum_size (h : Inv s L) : (L.map Region.size).sum = s.size := by
  have := h.layout.tiles.sum_len
  rw [Nat.zero_add] at this
  exact this

lemma Inv.used_of_free (h : Inv s (xs ++ r :: ys)) (hr : r.used = false) :
    (∀ a ∈ xs.getLast?, a.used = true) ∧ ∀ b ∈ ys.head?, b.used = true := by
  have hc := h.layout.coalesced
  unfold Spans.Coalesced at hc
  rw [isChain_append] at hc
  obtain ⟨-, hys, hxs⟩ := hc
  refine ⟨fun a ha => ?_, fun b hb => ?_⟩
  · have := hxs a ha r (by simp)
    simpa [regionSpans, hr] using this
  · cases ys with
    | nil => simp at hb
    | cons q ys =>
      have := (isChain_cons_cons.mp hys).1
      simp only [head?_cons, Option.mem_def, Option.some.injEq] at hb
      simpa [regionSpans, hr, ← hb] using this

/-- **Replacing a run of neighbouring regions.** The nodes of the new run are in place in `s₁`, whose
other neighbour links are those of `s`; relinking changes them only at the cut. -/
lemma Inv.replace {m' : List Region} {s₁ : CoreAllocator} {P N : ℕ → ℕ}
    (h : Inv s (xs ++ m ++ ys)) (hm : Replaces s.size xs m m' ys) (hl : Loose s₁ (xs ++ m' ++ ys))
    (hsize : s₁.size = s.size)
    (hbody : ∀ r ∈ xs ++ ys, (s₁.node r.slot).body = (s.node r.slot).body)
    (hre : Relinked s₁ s' P N)
    (hchain : (lastSlot xs :: (m'.map Region.slot ++ [headSlot ys])).IsChain (LinkRel unused P N))
    (hP : ∀ r ∈ xs ++ ys, r.slot ≠ headSlot ys → P r.slot = s₁.prev r.slot)
    (hN : ∀ r ∈ xs ++ ys, r.slot ≠ lastSlot xs → N r.slot = s₁.next r.slot) :
    Inv s' (xs ++ m' ++ ys) := by
  have hnd := h.slots_nodup
  have hlinked := h.linked
  simp only [map_append] at hnd hlinked
  obtain ⟨hxm, hys, hdisj⟩ := nodup_append.mp hnd
  have hne : ∀ r ∈ xs ++ ys, r.slot ≠ unused := fun r hr =>
    h.ne_unused (by simp only [mem_append] at hr ⊢; tauto)
  -- the first region after the cut is not before it, and the last one before it is not after it
  have hhead : ∀ r ∈ xs, r.slot ≠ headSlot ys := fun r hr heq =>
    hdisj r.slot (mem_append_left _ (mem_map_of_mem hr)) _
      (head?_getD_mem fun hu => hne r (by simp [hr]) (heq.trans hu)) heq
  have hlast : ∀ r ∈ ys, r.slot ≠ lastSlot xs := fun r hr heq =>
    hdisj _ (mem_append_left _ (getLast?_getD_mem fun hu => hne r (by simp [hr]) (heq.trans hu)))
      r.slot (mem_map_of_mem hr) heq.symm
  have hprev : ∀ r ∈ xs ++ ys, r.slot ≠ headSlot ys → s'.prev r.slot = s.prev r.slot :=
    fun r hr hh => by rw [hre.prev_eq (hne r hr), hP r hr hh, prev_eq_of_body (hbody r hr)]
  have hnext : ∀ r ∈ xs ++ ys, r.slot ≠ lastSlot xs → s'.next r.slot = s.next r.slot :=
    fun r hr hh => by rw [hre.next_eq (hne r hr), hN r hr hh, next_eq_of_body (hbody r hr)]
  have hsize' : s'.size = s.size := hre.sameConfig.size_eq.trans hsize
  refine ⟨hre.loose hl, ?_, hsize' ▸ h.layout.replace hm, hsize' ▸ h.size_le⟩
  simp only [map_append]
  refine hlinked.splice _ _ _ _ (nodup_append.mp hxm).1 hys ?_ ?_ ?_ ?_ (hre.isChain hchain)
  all_goals simp only [forall_mem_map]
  · exact fun r hr => hprev r (by simp [hr]) (hhead r hr)
  · exact fun r hr => hnext r (by simp [hr])
  · exact fun r hr => hnext r (by simp [hr]) (hlast r hr)
  · exact fun r hr => hprev r (by simp [hr])

end inv

/-! ## Freeing -/

section free

variable {s s' : CoreAllocator} {L xs ys : List Region} {r : Region}

lemma mergePrev_spec (hl : Loose s (r :: (xs ++ ys))) (hprev : s.prev r.slot = lastSlot xs)
    (hlast : ∀ zs p, xs = zs ++ [p] → s.prev p.slot = lastSlot zs ∧ r.size + p.size < 2 ^ 32 ∧
      (p.used = false → ∀ a ∈ zs.getLast?, a.used = true)) :
    Wp (mergePrev r.slot r.off r.size) (fun out s' => ∃ zs pre, xs = zs ++ pre ∧
      (∀ p ∈ pre, p.used = false) ∧ (∀ a ∈ zs.getLast?, a.used = true) ∧
      out = ((pre.head?.getD r).off, r.size + (pre.map Region.size).sum) ∧
      Loose s' (r :: (zs ++ ys)) ∧ s'.prev r.slot = lastSlot zs ∧ s'.next r.slot = s.next r.slot ∧
      (∀ j ≠ r.slot, j ≠ unused → (s'.node j).body = (s.node j).body) ∧ SameConfig s s') s := by
  have hr : r.slot < s.nodes.length := hl.stack.lt (by simp)
  have hru : r.slot ≠ unused := hl.stack.ne_unused (by simp)
  simp only [mergePrev, wp_bind, wp_readNode]
  refine ⟨hr, ?_⟩
  rcases eq_nil_or_concat' xs with rfl | ⟨zs, p, rfl⟩
  · rw [if_pos (show (s.node r.slot).neighborPrev = unused from hprev), wp_pure]
    exact ⟨[], [], rfl, by simp, by simp, rfl, hl, hprev, rfl, fun _ _ _ => rfl, .refl s⟩
  · have hp : s.prev r.slot = p.slot := hprev.trans (lastSlot_concat zs p)
    have hmem : p.slot ∈ (r :: (zs ++ [p] ++ ys)).map Region.slot := by simp
    obtain ⟨hoff, hsize, hused⟩ := hl.holds p (by simp)
    obtain ⟨hpp, hlt, hco⟩ := hlast zs p rfl
    rw [if_neg (show ¬(s.node r.slot).neighborPrev = unused from
      fun hu => hl.stack.ne_unused hmem (hp.symm.trans hu)),
      show (s.node r.slot).neighborPrev = p.slot from hp]
    simp only [wp_bind, wp_readNode, hused]
    refine ⟨hl.stack.lt hmem, ?_⟩
    split_ifs with hpu
    · rw [wp_pure]
      refine ⟨zs ++ [p], [], by simp, by simp, ?_, rfl, hl, hprev, rfl, fun _ _ _ => rfl, .refl s⟩
      simpa using hpu
    · rw [Bool.not_eq_true] at hpu
      simp only [wp_bind, wp_addChecked, hsize, hoff]
      refine ⟨hlt, ?_⟩
      have hperm : (r :: (zs ++ [p] ++ ys)).Perm (p :: r :: (zs ++ ys)) := by
        rw [append_assoc, singleton_append]
        exact (perm_middle.cons r).trans (List.Perm.swap ..)
      refine Wp.mono (removeNodeFromBin_spec (hl.of_perm hperm) hpu (by omega)) ?_
      rintro _ s₁ ⟨hl₁, hbody, -, hcfg⟩
      have hr₁ : r.slot < s₁.nodes.length := hl₁.stack.lt (by simp)
      have hre := (Relinked.refl s₁).setPrev hr₁ (s₁.prev p.slot)
      have hpne : p.slot ≠ unused := hl.stack.ne_unused hmem
      simp only [wp_readNode, wp_writeNode, wp_pure]
      refine ⟨?_, hr₁, zs, [p], rfl, by simpa using hpu, hco hpu, by simp, hre.loose hl₁, ?_, ?_, ?_,
        hcfg.trans hre.sameConfig⟩
      · rw [hl.length_eq hl₁ hcfg]
        exact hl.stack.lt hmem
      · refine (hre.prev_eq hru).trans ?_
        rw [update_self, prev_eq_of_body (hbody _ hpne), hpp]
      · refine (hre.next_eq hru).trans ?_
        rw [next_eq_of_body (hbody _ hru)]
      · intro j hj hju
        exact (hre.body_eq hju (update_of_ne hj _ _) rfl).trans (hbody j hju)

lemma mergeNext_spec {size : ℕ} (hl : Loose s (r :: (xs ++ ys))) (hnext : s.next r.slot = headSlot ys)
    (hhead : ∀ q zs, ys = q :: zs → s.next q.slot = headSlot zs ∧ size + q.size < 2 ^ 32 ∧
      (q.used = false → ∀ b ∈ zs.head?, b.used = true)) :
    Wp (mergeNext r.slot size) (fun out s' => ∃ post zs, ys = post ++ zs ∧
      (∀ q ∈ post, q.used = false) ∧ (∀ b ∈ zs.head?, b.used = true) ∧
      out = size + (post.map Region.size).sum ∧
      Loose s' (r :: (xs ++ zs)) ∧ s'.next r.slot = headSlot zs ∧ s'.prev r.slot = s.prev r.slot ∧
      (∀ j ≠ r.slot, j ≠ unused → (s'.node j).body = (s.node j).body) ∧ SameConfig s s') s := by
  have hr : r.slot < s.nodes.length := hl.stack.lt (by simp)
  have hru : r.slot ≠ unused := hl.stack.ne_unused (by simp)
  simp only [mergeNext, wp_bind, wp_readNode]
  refine ⟨hr, ?_⟩
  cases ys with
  | nil =>
    rw [if_pos (show (s.node r.slot).neighborNext = unused from hnext), wp_pure]
    exact ⟨[], [], rfl, by simp, by simp, rfl, hl, hnext, rfl, fun _ _ _ => rfl, .refl s⟩
  | cons q zs =>
    have hq : s.next r.slot = q.slot := hnext.trans (headSlot_cons q zs)
    have hmem : q.slot ∈ (r :: (xs ++ q :: zs)).map Region.slot := by simp
    obtain ⟨-, hsize, hused⟩ := hl.holds q (by simp)
    obtain ⟨hqq, hlt, hco⟩ := hhead q zs rfl
    rw [if_neg (show ¬(s.node r.slot).neighborNext = unused from
      fun hu => hl.stack.ne_unused hmem (hq.symm.trans hu)),
      show (s.node r.slot).neighborNext = q.slot from hq]
    simp only [wp_bind, wp_readNode, hused]
    refine ⟨hl.stack.lt hmem, ?_⟩
    split_ifs with hqu
    · rw [wp_pure]
      refine ⟨[], q :: zs, rfl, by simp, ?_, rfl, hl, hnext, rfl, fun _ _ _ => rfl, .refl s⟩
      simpa using hqu
    · rw [Bool.not_eq_true] at hqu
      simp only [wp_bind, wp_addChecked, hsize]
      refine ⟨hlt, ?_⟩
      have hperm : (r :: (xs ++ q :: zs)).Perm (q :: r :: (xs ++ zs)) :=
        (perm_middle.cons r).trans (List.Perm.swap ..)
      refine Wp.mono (removeNodeFromBin_spec (hl.of_perm hperm) hqu (by omega)) ?_
      rintro _ s₁ ⟨hl₁, hbody, -, hcfg⟩
      have hr₁ : r.slot < s₁.nodes.length := hl₁.stack.lt (by simp)
      have hre := (Relinked.refl s₁).setNext hr₁ (s₁.next q.slot)
      have hqne : q.slot ≠ unused := hl.stack.ne_unused hmem
      simp only [wp_readNode, wp_writeNode, wp_pure]
      refine ⟨?_, hr₁, [q], zs, rfl, by simpa using hqu, hco hqu, by simp, hre.loose hl₁, ?_, ?_, ?_,
        hcfg.trans hre.sameConfig⟩
      · rw [hl.length_eq hl₁ hcfg]
        exact hl.stack.lt hmem
      · refine (hre.next_eq hru).trans ?_
        rw [update_self, next_eq_of_body (hbody _ hqne), hqq]
      · refine (hre.prev_eq hru).trans ?_
        rw [prev_eq_of_body (hbody _ hru)]
      · intro j hj hju
        exact (hre.body_eq hju rfl (update_of_ne hj _ _)).trans (hbody j hju)

lemma relinkCombined_spec {i p n : ℕ} (hi : i < s.nodes.length)
    (hp : p ≠ unused → p < s.nodes.length ∧ p ≠ i) (hn : n ≠ unused → n < s.nodes.length ∧ n ≠ i)
    (hprev : s.prev i = unused) (hnext : s.next i = unused) :
    Wp (relinkCombined i p n) (fun _ s' => ∃ P N, Relinked s s' P N ∧
      [p, i, n].IsChain (LinkRel unused P N) ∧
      (∀ j ≠ i, j ≠ n → P j = s.prev j) ∧ (∀ j ≠ i, j ≠ p → N j = s.next j)) s := by
  have hchain : ∀ P N : ℕ → ℕ, P i = p → N i = n → (p ≠ unused → N p = i) →
      (n ≠ unused → P n = i) → [p, i, n].IsChain (LinkRel unused P N) := by
    intro P N hPi hNi hNp hPn
    simp only [isChain_cons_cons, isChain_singleton, and_true]
    exact ⟨⟨hNp, fun _ => hPi⟩, fun _ => hNi, hPn⟩
  have hre := Relinked.refl s
  unfold relinkCombined
  split_ifs with hp0 hn0 hn0
  · obtain ⟨hplt, hpi⟩ := hp hp0
    obtain ⟨hnlt, hni⟩ := hn hn0
    simp only [wp_bind]
    refine hre.wp_next hi fun s₁ h₁ => h₁.wp_prev hnlt fun s₂ h₂ => h₂.wp_prev hi fun s₃ h₃ =>
      h₃.wp_next hplt fun s₄ h₄ => ⟨_, _, h₄, hchain _ _ ?_ ?_ ?_ ?_, ?_, ?_⟩
    · simp
    · simp [hpi.symm]
    · simp
    · simp [hni]
    · intro j hji hjn
      simp [hji, hjn]
    · intro j hji hjp
      simp [hji, hjp]
  · rw [not_not] at hn0
    obtain ⟨hplt, hpi⟩ := hp hp0
    simp only [wp_bind]
    refine hre.wp_prev hi fun s₁ h₁ => h₁.wp_next hplt fun s₂ h₂ =>
      ⟨_, _, h₂, hchain _ _ ?_ ?_ ?_ ?_, ?_, ?_⟩
    · simp
    · simp [hpi.symm, hnext, hn0]
    · simp
    · exact fun hn1 => absurd hn0 hn1
    · intro j hji hjn
      simp [hji]
    · intro j hji hjp
      simp [hjp]
  · rw [not_not] at hp0
    obtain ⟨hnlt, hni⟩ := hn hn0
    simp only [wp_bind]
    refine hre.wp_next hi fun s₁ h₁ => h₁.wp_prev hnlt fun s₂ h₂ =>
      wp_pure.mpr ⟨_, _, h₂, hchain _ _ ?_ ?_ ?_ ?_, ?_, ?_⟩
    · simp [hni.symm, hprev, hp0]
    · simp
    · exact fun hp1 => absurd hp0 hp1
    · simp
    · intro j hji hjn
      simp [hjn]
    · intro j hji hjp
      simp [hji]
  · rw [not_not] at hn0 hp0
    rw [wp_pure]
    refine ⟨_, _, hre, hchain _ _ (hprev.trans hp0.symm) (hnext.trans hn0.symm) ?_ ?_, ?_, ?_⟩
    · exact fun hp1 => absurd hp0 hp1
    · exact fun hn1 => absurd hn0 hn1
    · exact fun _ _ _ => rfl
    · exact fun _ _ _ => rfl

lemma Loose.pushUsed (h : Loose s (r :: L)) (hr : r.used = true) :
    1 ≤ s.freeOffset ∧ s.freeOffset - 1 < s.freeNodes.length ∧
      Loose ((s.setFreeOffset (s.freeOffset - 1)).setFreeNode (s.freeOffset - 1) r.slot) L := by
  obtain ⟨hpos, hidx, hpush⟩ := h.stack.push
  refine ⟨hpos, hidx, hpush, ?_, fun r' hr' => h.holds r' (mem_cons_of_mem _ hr'), ?_⟩
  · rw [← freeSlots_cons_of_used hr]
    exact h.bins.congr rfl rfl rfl le_rfl fun _ _ => rfl
  · exact h.freeStorage_eq.trans (freeSize_cons_of_used hr)

def usedRegions (L : List Region) : List Region := L.filter Region.used

/-- **Freeing a live region** never panics, keeps the invariant and removes exactly that region. -/
theorem free_spec (h : Inv s L) (hr : r ∈ L) (hused : r.used = true) (o : ℕ) :
    Wp (free ⟨o, r.slot⟩) (fun _ s' => ∃ L', Inv s' L' ∧
      (usedRegions L).Perm (r :: usedRegions L') ∧ SameConfig s s') s := by
  obtain ⟨xs, ys, rfl⟩ := append_of_mem hr
  have hru := h.ne_unused hr
  have hnd := h.slots_nodup
  have hlt : r.slot < s.nodes.length := h.loose.stack.lt (mem_map_of_mem hr)
  obtain ⟨hoff, hsize, hru'⟩ := h.loose.holds r hr
  obtain ⟨hprev, hnext⟩ := h.links
  have hl : Loose s (r :: (xs ++ ys)) := h.loose.of_perm perm_middle
  simp only [free, wp_bind, wp_check, wp_get]
  refine ⟨hru, ?_⟩
  rw [if_neg (by rintro hnil; simp [hnil] at hlt)]
  simp only [wp_bind, wp_readNode, wp_check, hru', hused, true_and, hoff, hsize]
  refine ⟨hlt, hlt, hlt, ?_⟩
  have hsum := h.sum_size
  have htotal := h.size_lt
  simp only [map_append, map_cons, sum_append, sum_cons] at hsum
  refine Wp.mono (mergePrev_spec hl hprev fun zs p hzs => ?_) ?_
  · subst hzs
    have h' : Inv s (zs ++ p :: (r :: ys)) := by simpa using h
    simp only [map_append, map_cons, sum_append, sum_cons] at hsum
    exact ⟨h'.links.1, by omega, fun hp => (h'.used_of_free hp).1⟩
  rintro ⟨off, size⟩ s₁ ⟨zs, pre, rfl, hpre, hzs, heq, hl₁, hprev₁, hnext₁, hbody₁, hcfg₁⟩
  obtain ⟨rfl, rfl⟩ := Prod.mk.inj heq
  simp only [map_append, sum_append] at hsum
  simp only []
  refine Wp.mono (mergeNext_spec hl₁ (hnext₁.trans hnext) fun q ws hws => ?_) ?_
  · subst hws
    have h' : Inv s ((zs ++ pre ++ [r]) ++ q :: ws) := by simpa using h
    simp only [map_cons, sum_cons] at hsum
    have hq : q.slot ≠ r.slot := by
      have := h'.slots_nodup
      simp only [map_append, map_cons, nodup_append] at this
      exact fun heq => this.2.2 r.slot (by simp) q.slot (by simp) heq.symm
    refine ⟨?_, by omega, fun hq => (h'.used_of_free hq).2⟩
    rw [next_eq_of_body (hbody₁ _ hq (h'.ne_unused (by simp))), h'.links.2]
  rintro _ s₂ ⟨post, ws, rfl, hpost, hws, rfl, hl₂, hnext₂, hprev₂, hbody₂, hcfg₂⟩
  obtain ⟨hpos, hidx, hl₃⟩ := hl₂.pushUsed hused
  have hlt₂ : r.slot < s₂.nodes.length := hl₂.stack.lt (by simp)
  have hcap₂ := hl₂.stack.freeOffset_le
  simp only [wp_pushFreeNode]
  refine ⟨hlt₂, hlt₂, hpos, hidx, ?_⟩
  refine Wp.mono (insertNodeIntoBin_spec hl₃ ?_ ?_) ?_
  · change s₂.freeOffset - 1 < s₂.currentCapacity
    omega
  · have hfree := freeSize_le_sum (zs ++ ws)
    rw [hl₃.freeStorage_eq]
    simp only [map_append, sum_append] at hsum hfree
    omega
  rintro i s₄ ⟨hfresh, hl₄, hbodyi, hbody₄, -, hcfg₄⟩
  have hslots : ∀ {j}, j ∈ (zs ++ ws).map Region.slot → j < s₄.nodes.length ∧ j ≠ i :=
    fun {j} hj => ⟨hl₄.stack.lt (mem_cons_of_mem _ hj), fun heq => hfresh (heq ▸ hj)⟩
  have hlast : lastSlot zs ≠ unused → lastSlot zs ∈ (zs ++ ws).map Region.slot := fun hne => by
    rw [map_append]
    exact mem_append_left _ (getLast?_getD_mem hne)
  have hhead : headSlot ws ≠ unused → headSlot ws ∈ (zs ++ ws).map Region.slot := fun hne => by
    rw [map_append]
    exact mem_append_right _ (head?_getD_mem hne)
  have hprevi : s₄.prev i = unused := congrArg Node.neighborPrev hbodyi
  have hnexti : s₄.next i = unused := congrArg Node.neighborNext hbodyi
  rw [show (s₂.node r.slot).neighborPrev = lastSlot zs from hprev₂.trans hprev₁,
    show (s₂.node r.slot).neighborNext = headSlot ws from hnext₂]
  refine Wp.mono (relinkCombined_spec (hl₄.stack.lt (by simp)) (fun hne => hslots (hlast hne))
    (fun hne => hslots (hhead hne)) hprevi hnexti) ?_
  rintro _ s₅ ⟨P, N, hre, hchain, hP, hN⟩
  have hcfg₄' : SameConfig s₂ s₄ := ⟨hcfg₄.1, hcfg₄.2, hcfg₄.3⟩
  have hcfg := hcfg₁.trans (hcfg₂.trans hcfg₄')
  have hsplit : Inv s (zs ++ (pre ++ r :: post) ++ ws) := by simpa using h
  refine ⟨zs ++ [⟨i, (pre.head?.getD r).off, r.size + (pre.map Region.size).sum +
    (post.map Region.size).sum, false⟩] ++ ws, ?_, ?_, hcfg.trans hre.sameConfig⟩
  · refine hsplit.replace ⟨fun a b ht => ?_, isChain_singleton _, ?_, ?_, ?_⟩
      (hl₄.of_perm ?_) hcfg.size_eq ?_ hre hchain ?_ ?_
    · have hb := ht.sum_len
      simp only [regionSpans, map_append, map_cons, sum_append, sum_cons] at hb
      have ha : (pre.head?.getD r).off = a := by
        cases pre with
        | nil => exact ht.1
        | cons p pre => exact ht.1
      exact ⟨ha, by simp only [regionSpans, Spans.tiles_nil]; omega⟩
    · exact fun a ha b _ => Or.inl (hzs a ha)
    · exact fun a _ b hb => Or.inr (hws b hb)
    · intro hs r' hr'
      have := h.layout.pos hs r hr
      rw [mem_singleton.mp hr']
      dsimp only
      omega
    · rw [append_assoc, singleton_append]
      exact perm_middle.symm
    · intro r' hr'
      have hmem : r'.slot ∈ (zs ++ ws).map Region.slot := mem_map_of_mem hr'
      have hu : r'.slot ≠ unused := hl₄.stack.ne_unused (mem_cons_of_mem _ hmem)
      have hrne : r'.slot ≠ r.slot := fun heq =>
        (nodup_cons.mp hl₂.stack.nodup).1 (heq ▸ hmem)
      exact (hbody₄ _ (hslots hmem).2 hu).trans ((hbody₂ _ hrne hu).trans (hbody₁ _ hrne hu))
    · exact fun r' hr' => hP _ (hslots (mem_map_of_mem hr')).2
    · exact fun r' hr' => hN _ (hslots (mem_map_of_mem hr')).2
  · have hpre' : pre.filter Region.used = [] := filter_eq_nil_iff.mpr (by simpa using hpre)
    have hpost' : post.filter Region.used = [] := filter_eq_nil_iff.mpr (by simpa using hpost)
    simp only [usedRegions, filter_append, hpre', hpost', filter_cons, hused, if_true,
      append_nil, nil_append, filter_nil, Bool.false_eq_true, if_false]
    exact perm_middle

end free

end CoreAllocator

end QuillCache.Store
