import QuillCache.Store.Alloc.BufferSpec
import QuillCache.Store.Segments

/-!
# The fleet of segment allocators: what freeing and placing do

A *fleet* is the list of mounted segment allocators; `liveBuffers` is the multiset of all buffers they
have handed out. In a fleet with distinct names (`FleetOk`)

* freeing a live buffer reaches the allocator that issued it (`freeBuffer_spec`, `freeEach_spec`);
* a strategy either takes nothing, or takes one buffer on each of `replicaNum` different segments
  (`AllocationStrategy.allocate_spec`): it never fails half-way. Whether it takes anything is decided by the
  free regions that the segments report, whatever their names (`AllocationStrategy.allocate_exact`).
-/

namespace QuillCache.Store

open Lib List Multiset Option

def liveBuffers (as : List OffsetBufferAllocator) : Multiset AllocatedBuffer :=
  (as.map OffsetBufferAllocator.buffers).sum

/-- The mounted allocators are in order and have distinct names. -/
structure FleetOk (exact : Prop) (as : List OffsetBufferAllocator) : Prop where
  valid : ∀ a ∈ as, a.Valid exact
  names_nodup : (as.map OffsetBufferAllocator.segmentName).Nodup

abbrev SameFleet : List OffsetBufferAllocator → List OffsetBufferAllocator → Prop :=
  List.Forall₂ OffsetBufferAllocator.Same

section fleet

variable {exact : Prop} {as as' : List OffsetBufferAllocator} {a a' : OffsetBufferAllocator}
  {x y : AllocatedBuffer} {i : ℕ}

lemma SameFleet.refl (as : List OffsetBufferAllocator) : SameFleet as as :=
  forall₂_same.mpr fun a _ => .refl a

lemma SameFleet.trans {as'' : List OffsetBufferAllocator} (h : SameFleet as as')
    (h' : SameFleet as' as'') : SameFleet as as'' := by
  induction h generalizing as'' with
  | nil => exact h'
  | cons hab _ ih =>
    cases h' with
    | cons hbc hrest => exact .cons (hab.trans hbc) (ih hrest)

lemma SameFleet.names_eq (h : SameFleet as as') :
    as'.map OffsetBufferAllocator.segmentName = as.map OffsetBufferAllocator.segmentName := by
  induction h with
  | nil => rfl
  | cons hab _ ih => simp only [List.map_cons, hab.segmentName_eq, ih]

lemma SameFleet.capacities_eq (h : SameFleet as as') :
    as'.map (fun a => a.inner.capacity) = as.map fun a => a.inner.capacity := by
  induction h with
  | nil => rfl
  | cons hab _ ih => simp only [List.map_cons, hab.capacity_eq, ih]

lemma exists_left_of_forall₂ {A B : Type} {R : A → B → Prop} {l : List A} {l' : List B} {y : B}
    (h : List.Forall₂ R l l') (hy : y ∈ l') : ∃ x ∈ l, R x y := by
  induction h with
  | nil => cases hy
  | @cons x x' _ _ hxx _ ih =>
    rcases List.mem_cons.mp hy with rfl | hy
    · exact ⟨x, List.mem_cons_self, hxx⟩
    · obtain ⟨z, hz, hzy⟩ := ih hy
      exact ⟨z, List.mem_cons_of_mem _ hz, hzy⟩

lemma exists_right_of_forall₂ {A B : Type} {R : A → B → Prop} {l : List A} {l' : List B} {x : A}
    (h : List.Forall₂ R l l') (hx : x ∈ l) : ∃ y ∈ l', R x y :=
  exists_left_of_forall₂ h.flip hx

lemma SameFleet.exists_same (h : SameFleet as as') (ha : a' ∈ as') : ∃ a ∈ as, a.Same a' :=
  exists_left_of_forall₂ h ha

lemma mem_liveBuffers : x ∈ liveBuffers as ↔ ∃ a ∈ as, x ∈ a.buffers := by
  induction as with
  | nil => simp [liveBuffers]
  | cons a as ih =>
    simp only [liveBuffers, List.map_cons, List.sum_cons, mem_add] at ih ⊢
    simp [ih]

lemma liveBuffers_append (as₁ as₂ : List OffsetBufferAllocator) :
    liveBuffers (as₁ ++ as₂) = liveBuffers as₁ + liveBuffers as₂ := by
  simp [liveBuffers]

lemma liveBuffers_cons (a : OffsetBufferAllocator) (as : List OffsetBufferAllocator) :
    liveBuffers (a :: as) = a.buffers + liveBuffers as := by
  simp [liveBuffers]

lemma FleetOk.eq_of_name (h : FleetOk exact as) (ha : a ∈ as) (ha' : a' ∈ as)
    (hname : a.segmentName = a'.segmentName) : a = a' :=
  List.inj_on_of_nodup_map h.names_nodup ha ha' hname

lemma FleetOk.weaken (h : FleetOk exact as) : FleetOk False as :=
  ⟨fun a ha => (h.valid a ha).weaken, h.names_nodup⟩

lemma FleetOk.bounds (h : FleetOk exact as) (hx : x ∈ liveBuffers as) :
    ∃ a ∈ as, a.segmentName = x.segmentName ∧ 0 < x.size ∧ x.offset + x.size ≤ a.inner.capacity := by
  obtain ⟨a, ha, hxa⟩ := mem_liveBuffers.mp hx
  obtain ⟨hpos, hle⟩ := (h.valid a ha).bounds hxa
  exact ⟨a, ha, (OffsetBufferAllocator.segmentName_of_mem hxa).symm, hpos, hle⟩

lemma FleetOk.disjoint (h : FleetOk exact as) (hx : x ∈ liveBuffers as) (hy : y ∈ liveBuffers as)
    (hxy : x ≠ y) (hname : x.segmentName = y.segmentName) :
    RangesDisjoint x.offset x.size y.offset y.size := by
  obtain ⟨a, ha, hxa⟩ := mem_liveBuffers.mp hx
  obtain ⟨c, hc, hyc⟩ := mem_liveBuffers.mp hy
  have hac : a = c := by
    refine h.eq_of_name ha hc ?_
    rw [← OffsetBufferAllocator.segmentName_of_mem hxa, hname,
      OffsetBufferAllocator.segmentName_of_mem hyc]
  subst hac
  exact (h.valid a ha).disjoint hxa hyc hxy

lemma FleetOk.liveBuffers_nodup (h : FleetOk exact as) : (liveBuffers as).Nodup := by
  obtain ⟨-, hnames⟩ := h
  induction as with
  | nil => simp [liveBuffers]
  | cons a as ih =>
    rw [List.map_cons, List.nodup_cons] at hnames
    rw [liveBuffers_cons, nodup_add]
    refine ⟨a.buffers_nodup, ih hnames.2, Multiset.disjoint_left.mpr fun {x} hx hx' => ?_⟩
    obtain ⟨c, hc, hxc⟩ := mem_liveBuffers.mp hx'
    refine hnames.1 (List.mem_map.mpr ⟨c, hc, ?_⟩)
    rw [← OffsetBufferAllocator.segmentName_of_mem hxc, OffsetBufferAllocator.segmentName_of_mem hx]

lemma FleetOk.sum_allocated (h : FleetOk exact as) :
    (as.map fun a => a.inner.allocatedSize).sum =
      ((liveBuffers as).map AllocatedBuffer.size).sum := by
  obtain ⟨hvalid, -⟩ := h
  induction as with
  | nil => simp [liveBuffers]
  | cons a as ih =>
    rw [liveBuffers_cons, Multiset.map_add, sum_add, List.map_cons, List.sum_cons,
      ih fun c hc => hvalid c (List.mem_cons_of_mem _ hc),
      (hvalid a List.mem_cons_self).allocated_eq]

lemma FleetOk.sum_allocated_le (h : FleetOk exact as) :
    (as.map fun a => a.inner.allocatedSize).sum ≤ (as.map fun a => a.inner.capacity).sum :=
  sum_le_sum fun a ha => (h.valid a ha).allocated_le

lemma FleetOk.buffers_eq (h : FleetOk exact as) (ha : a ∈ as) :
    a.buffers = (liveBuffers as).filter fun b => b.segmentName = a.segmentName := by
  obtain ⟨-, hnames⟩ := h
  induction as with
  | nil => cases ha
  | cons c as ih =>
    rw [List.map_cons, List.nodup_cons] at hnames
    rw [liveBuffers_cons, filter_add]
    rcases List.mem_cons.mp ha with rfl | ha
    · have hself : a.buffers.filter (fun b => b.segmentName = a.segmentName) = a.buffers :=
        Multiset.filter_eq_self.mpr fun b hb => OffsetBufferAllocator.segmentName_of_mem hb
      have hothers : (liveBuffers as).filter (fun b => b.segmentName = a.segmentName) = 0 := by
        refine filter_eq_nil.mpr fun b hb hname => hnames.1 ?_
        obtain ⟨c, hc, hbc⟩ := mem_liveBuffers.mp hb
        exact List.mem_map.mpr ⟨c, hc, (OffsetBufferAllocator.segmentName_of_mem hbc).symm.trans hname⟩
      rw [hself, hothers, add_zero]
    · have hnone : c.buffers.filter (fun b => b.segmentName = a.segmentName) = 0 := by
        refine filter_eq_nil.mpr fun b hb hname => hnames.1 ?_
        exact List.mem_map.mpr ⟨a, ha, hname.symm.trans (OffsetBufferAllocator.segmentName_of_mem hb)⟩
      rw [hnone, zero_add]
      exact ih ha hnames.2

lemma FleetOk.allocatedSizes_eq (h : FleetOk exact as) :
    as.map (fun a => a.inner.allocatedSize) = (as.map OffsetBufferAllocator.segmentName).map fun name =>
      (((liveBuffers as).filter fun b => b.segmentName = name).map AllocatedBuffer.size).sum := by
  rw [List.map_map]
  refine map_congr_left fun a ha => ?_
  rw [(h.valid a ha).allocated_eq, h.buffers_eq ha]
  rfl

/-! ### One allocator of the fleet -/

lemma onAllocator_spec {A α : Type} {m : Exec A α} {Q : α → A → Prop} {l : List A} {c : A}
    (hi : l[i]? = some c) (hm : Wp m Q c) :
    Wp (onAllocator i m) (fun r l' => ∃ c', Q r c' ∧ l' = l.set i c') l := by
  obtain ⟨r, c', hrun, hq⟩ := hm
  exact ⟨r, l.set i c', by simp [onAllocator, hi, hrun], c', hq, rfl⟩

lemma liveBuffers_set (hi : as[i]? = some a) :
    liveBuffers (as.set i a') + a.buffers = liveBuffers as + a'.buffers := by
  induction as generalizing i with
  | nil => simp at hi
  | cons c as ih =>
    cases i with
    | zero =>
      cases hi
      simp only [set_cons_zero, liveBuffers_cons]
      abel
    | succ i =>
      have h := ih (i := i) (by simpa using hi)
      simp only [set_cons_succ, liveBuffers_cons]
      rw [Multiset.add_assoc, h, Multiset.add_assoc]

lemma sameFleet_set (hi : as[i]? = some a) (hsame : a.Same a') : SameFleet as (as.set i a') := by
  induction as generalizing i with
  | nil => simp at hi
  | cons c as ih =>
    cases i with
    | zero =>
      cases hi
      exact .cons hsame (SameFleet.refl as)
    | succ i => exact .cons (.refl c) (ih (by simpa using hi))

lemma valid_set (h : ∀ a ∈ as, a.Valid exact) (hvalid : a'.Valid exact) : ∀ a ∈ as.set i a', a.Valid exact := by
  intro c hc
  rcases mem_or_eq_of_mem_set hc with hc | rfl
  · exact h c hc
  · exact hvalid

lemma FleetOk.set (h : FleetOk exact as) (hi : as[i]? = some a) (hvalid : a'.Valid exact)
    (hsame : a.Same a') : FleetOk exact (as.set i a') := by
  refine ⟨valid_set h.valid hvalid, ?_⟩
  rw [(sameFleet_set hi hsame).names_eq]
  exact h.names_nodup

/-! ### Freeing -/

lemma FleetOk.findIdx?_name (h : FleetOk exact as) (ha : a ∈ as) :
    ∃ i, (as.findIdx? fun c => BufferAllocator.segmentName c = a.segmentName) = some i ∧ as[i]? = some a := by
  obtain ⟨i, hi⟩ : ∃ i, (as.findIdx? fun c => BufferAllocator.segmentName c = a.segmentName) = some i := by
    rw [← isSome_iff_exists, findIdx?_isSome, List.any_eq_true]
    exact ⟨a, ha, decide_eq_true rfl⟩
  obtain ⟨hlt, hp, -⟩ := findIdx?_eq_some_iff_getElem.mp hi
  have heq : as[i] = a := h.eq_of_name (getElem_mem hlt) ha (of_decide_eq_true hp)
  exact ⟨i, hi, by rw [getElem?_eq_getElem hlt, heq]⟩

/-- Freeing a live buffer takes it off the ledger of the allocator that issued it. -/
theorem freeBuffer_spec {rest : Multiset AllocatedBuffer} (h : FleetOk exact as)
    (hx : liveBuffers as = x ::ₘ rest) :
    Wp (SegmentState.freeBuffer x) (fun _ as' => FleetOk exact as' ∧ SameFleet as as' ∧
      liveBuffers as' = rest) as := by
  have hmem : x ∈ liveBuffers as := hx ▸ Multiset.mem_cons_self _ _
  obtain ⟨a, ha, hxa⟩ := mem_liveBuffers.mp hmem
  have hname := OffsetBufferAllocator.segmentName_of_mem hxa
  -- the first allocator of that name is the one that issued the buffer
  obtain ⟨i, hfind, hi⟩ := h.findIdx?_name ha
  rw [← hname] at hfind
  obtain ⟨r, hr⟩ := exists_cons_of_mem hxa
  have hspec := onAllocator_spec hi (OffsetBufferAllocator.deallocate_spec (h.valid a ha) hr)
  obtain ⟨_, as', hrun, a', ⟨hvalid, hsame, hbufs⟩, rfl⟩ := hspec
  refine ⟨(), as.set i a', ?_, h.set hi hvalid hsame, sameFleet_set hi hsame, ?_⟩
  · simp only [SegmentState.freeBuffer, hfind]
    exact hrun
  · have hset : liveBuffers (as.set i a') + a.buffers = _ := liveBuffers_set hi
    rw [hr, hbufs, hx, add_cons, cons_add, Multiset.cons_inj_right] at hset
    exact add_right_cancel hset

def replicaBuffers (rs : List Replica) : Multiset AllocatedBuffer :=
  (rs.filterMap fun r => r.data.buffer? : List AllocatedBuffer)

/-- Freeing a list of replicas takes exactly their buffers off the ledgers. -/
theorem freeEach_spec {rs : List Replica} {rest : Multiset AllocatedBuffer} (h : FleetOk exact as)
    (hlive : liveBuffers as = replicaBuffers rs + rest) :
    Wp (SegmentState.freeEach rs) (fun _ as' => FleetOk exact as' ∧ SameFleet as as' ∧
      liveBuffers as' = rest) as := by
  induction rs generalizing as with
  | nil =>
    rw [SegmentState.freeEach, wp_pure]
    exact ⟨h, SameFleet.refl as, by simpa [replicaBuffers] using hlive⟩
  | cons r rs ih =>
    rw [SegmentState.freeEach]
    cases hdata : r.data with
    | disk path n =>
      refine wp_bind.mpr (wp_pure.mpr (ih h ?_))
      simpa [replicaBuffers, hdata, ReplicaData.buffer?] using hlive
    | memory b =>
      have hcons : liveBuffers as = b ::ₘ (replicaBuffers rs + rest) := by
        simpa [replicaBuffers, hdata, ReplicaData.buffer?, ← cons_coe] using hlive
      refine Wp.call (freeBuffer_spec h hcons) ?_
      rintro _ as₁ ⟨hok, hsame, hlive₁⟩
      refine (ih hok hlive₁).mono ?_
      rintro _ as₂ ⟨hok₂, hsame₂, hlive₂⟩
      exact ⟨hok₂, hsame.trans hsame₂, hlive₂⟩

lemma freeBuffer_valid (h : ∀ a ∈ as, a.Valid exact) (x : AllocatedBuffer) :
    Wp (SegmentState.freeBuffer x) (fun _ as' => (∀ a ∈ as', a.Valid exact) ∧ SameFleet as as') as := by
  cases hfind : as.findIdx? fun a => BufferAllocator.segmentName a = x.segmentName with
  | none => exact ⟨(), as, by simp only [SegmentState.freeBuffer, hfind], h, SameFleet.refl as⟩
  | some i =>
    obtain ⟨hi, -⟩ := findIdx?_eq_some_iff_getElem.mp hfind
    have ha : as[i]? = some as[i] := getElem?_eq_getElem hi
    have hspec := onAllocator_spec ha (OffsetBufferAllocator.deallocate_valid (h _ (getElem_mem hi)) x)
    obtain ⟨_, as', hrun, a', ⟨hvalid, hsame⟩, rfl⟩ := hspec
    refine ⟨(), as.set i a', ?_, valid_set h hvalid, sameFleet_set ha hsame⟩
    simp only [SegmentState.freeBuffer, hfind]
    exact hrun

lemma freeEach_valid {rs : List Replica} (h : ∀ a ∈ as, a.Valid exact) :
    Wp (SegmentState.freeEach rs) (fun _ as' => (∀ a ∈ as', a.Valid exact) ∧ SameFleet as as') as := by
  induction rs generalizing as with
  | nil =>
    rw [SegmentState.freeEach, wp_pure]
    exact ⟨h, SameFleet.refl as⟩
  | cons r rs ih =>
    rw [SegmentState.freeEach]
    cases r.data with
    | disk path n => exact wp_bind.mpr (wp_pure.mpr (ih h))
    | memory b =>
      refine Wp.call (freeBuffer_valid h b) ?_
      rintro _ as₁ ⟨hvalid, hsame⟩
      refine (ih hvalid).mono ?_
      rintro _ as₂ ⟨hvalid₂, hsame₂⟩
      exact ⟨hvalid₂, hsame.trans hsame₂⟩

/-! ### Placing -/

/-- The segments that `is` lists exist and admit a request of `size`. -/
def Admit (as : List OffsetBufferAllocator) (size : ℕ) (is : List ℕ) : Prop :=
  is.Nodup ∧ ∀ i ∈ is, ∃ a n, as[i]? = some a ∧
    BufferAllocator.largestFreeRegion a = some n ∧ size ≤ n

/-- Whether a segment reports a free region of `size` bytes and is not excluded. -/
def offers (size : ℕ) (excluded : List String) (a : OffsetBufferAllocator) : Bool :=
  (BufferAllocator.largestFreeRegion a).any (fun n => decide (size ≤ n)) && decide (a.segmentName ∉ excluded)

lemma offers_iff {size : ℕ} {excluded : List String} :
    offers size excluded a = true ↔
      (∃ n, BufferAllocator.largestFreeRegion a = some n ∧ size ≤ n) ∧ a.segmentName ∉ excluded := by
  simp [offers, Option.any_eq_true]

lemma candidatesAmong_eq (hvalid : ∀ a ∈ as, a.Valid exact) (size : ℕ) (excluded : List String) {is : List ℕ}
    (his : ∀ i ∈ is, i < as.length) :
    candidatesAmong as size excluded is = some (is.filter fun i => as[i]?.any (offers size excluded)) := by
  induction is with
  | nil => rfl
  | cons i is ih =>
    have hjs := ih fun j hj => his j (List.mem_cons_of_mem _ hj)
    obtain ⟨a, hi⟩ : ∃ a, as[i]? = some a :=
      ⟨_, getElem?_eq_getElem (his i List.mem_cons_self)⟩
    obtain ⟨n, hn⟩ := (hvalid _ (mem_of_getElem? hi)).exists_largestFreeRegion
    have hiff : (size ≤ n ∧ BufferAllocator.segmentName a ∉ excluded) ↔ offers size excluded a = true := by
      rw [offers_iff, hn]
      exact and_congr_left fun _ => ⟨fun h => ⟨n, rfl, h⟩, fun ⟨m, hm, h⟩ => Option.some.inj hm ▸ h⟩
    simp only [candidatesAmong, hi, hn, hjs, bind_eq_bind, bind_some, hiff, List.filter_cons,
      any_some]
    rfl

lemma candidates_eq (hvalid : ∀ a ∈ as, a.Valid exact) (size : ℕ) (excluded : List String) :
    candidates as size excluded =
      some ((List.range as.length).filter fun i => as[i]?.any (offers size excluded)) :=
  candidatesAmong_eq hvalid size excluded fun _ hi => List.mem_range.mp hi

lemma length_candidates (as : List OffsetBufferAllocator) (size : ℕ) (excluded : List String) :
    ((List.range as.length).filter fun i => as[i]?.any (offers size excluded)).length =
      as.countP (offers size excluded) := by
  have hmap : (List.range as.length).map (fun i => as[i]?) = as.map some := by
    refine ext_getElem (by simp) fun i hi _ => ?_
    simp only [length_map, length_range] at hi
    simp [hi]
  have hcount := congrArg (List.countP fun o => o.any (offers size excluded)) hmap
  rw [List.countP_map, List.countP_map] at hcount
  rw [← countP_eq_length_filter]
  exact hcount

lemma candidates_admit (as : List OffsetBufferAllocator) (size : ℕ) (excluded : List String) :
    Admit as size ((List.range as.length).filter fun i => as[i]?.any (offers size excluded)) := by
  refine ⟨List.nodup_range.filter _, fun i hi => ?_⟩
  obtain ⟨a, ha, hoffers⟩ := (Option.any_eq_true _ _).mp (List.mem_filter.mp hi).2
  obtain ⟨⟨n, hn, hle⟩, -⟩ := offers_iff.mp hoffers
  exact ⟨a, n, ha, hn, hle⟩

lemma Admit.of_perm {is js : List ℕ} {size : ℕ} (h : Admit as size is) (hp : js.Perm is) :
    Admit as size js :=
  ⟨hp.nodup_iff.mpr h.1, fun i hi => h.2 i (hp.mem_iff.mp hi)⟩

lemma Admit.sublist {is js : List ℕ} {size : ℕ} (h : Admit as size is) (hs : js.Sublist is) :
    Admit as size js :=
  ⟨hs.nodup h.1, fun i hi => h.2 i (hs.subset hi)⟩

lemma order_perm (strategy : AllocationStrategy) (as : List OffsetBufferAllocator)
    (preferred : Option SegmentName) (is : List ℕ) :
    (strategy.order as preferred is).Perm is := by
  have hpref : ∀ js, (preferredFirst as preferred js).Perm js := by
    intro js
    cases preferred with
    | none => exact .refl js
    | some pref => exact perm_insertionSort _ js
  cases strategy with
  | random => exact hpref is
  | freeRatioFirst => exact (hpref _).trans (perm_insertionSort _ is)

structure Placed (as as' : List OffsetBufferAllocator) (size : ℕ) (bs : List AllocatedBuffer) :
    Prop where
  ok : FleetOk False as'
  same : SameFleet as as'
  live_eq : liveBuffers as' = bs + liveBuffers as
  size_eq : ∀ b ∈ bs, b.size = size
  names_nodup : (bs.map AllocatedBuffer.segmentName).Nodup

lemma Admit.names_nodup {is : List ℕ} {size : ℕ} (hroom : Admit as size is) (h : FleetOk exact as) :
    (is.map fun i => as[i]?.map OffsetBufferAllocator.segmentName).Nodup := by
  refine List.Nodup.map_on (fun i hi j hj hij => ?_) hroom.1
  obtain ⟨a, -, ha, -⟩ := hroom.2 i hi
  obtain ⟨c, -, hc, -⟩ := hroom.2 j hj
  obtain ⟨hil, rfl⟩ := List.getElem?_eq_some_iff.mp ha
  obtain ⟨hjl, rfl⟩ := List.getElem?_eq_some_iff.mp hc
  rw [ha, hc, map_some, map_some, some_inj] at hij
  have hnd := h.names_nodup
  rw [nodup_iff_injective_get] at hnd
  have hget := @hnd ⟨i, by simpa using hil⟩ ⟨j, by simpa using hjl⟩ (by simpa using hij)
  exact congrArg Fin.val hget

lemma placeLoop_spec {size : ℕ} (hpos : 0 < size) {is : List ℕ} (h : ∀ a ∈ as, a.Valid False)
    (hroom : Admit as size is) :
    Wp (placeLoop size is) (fun r as' => ∃ bs, r = .ok bs ∧ (∀ a ∈ as', a.Valid False) ∧ SameFleet as as' ∧
      liveBuffers as' = bs + liveBuffers as ∧ (∀ b ∈ bs, b.size = size) ∧
      bs.map (fun b => some b.segmentName) =
        is.map fun i => as[i]?.map OffsetBufferAllocator.segmentName) as := by
  induction is generalizing as with
  | nil =>
    rw [placeLoop, wp_pure]
    exact ⟨[], rfl, h, SameFleet.refl as, by simp, by simp, rfl⟩
  | cons i is ih =>
    obtain ⟨hnd, hfit⟩ := hroom
    obtain ⟨hi, hnd⟩ := List.nodup_cons.mp hnd
    obtain ⟨a, n, ha, hn, hle⟩ := hfit i List.mem_cons_self
    have hvalid := h a (mem_of_getElem? ha)
    rw [placeLoop]
    refine Wp.call (onAllocator_spec ha (OffsetBufferAllocator.allocate_spec hvalid hn hle)) ?_
    rintro _ _ ⟨a', ⟨hvalid', hsame, ⟨hzero, -⟩ | ⟨-, b, rfl, hbname, hbsize, hbufs⟩⟩, rfl⟩
    · exact absurd hzero hpos.ne'
    -- the other segments have not changed
    have hother : ∀ j ∈ is, (as.set i a')[j]? = as[j]? := by
      intro j hj
      refine getElem?_set_ne ?_
      rintro rfl
      exact hi hj
    have hroom' : Admit (as.set i a') size is := by
      refine ⟨hnd, fun j hj => ?_⟩
      rw [hother j hj]
      exact hfit j (List.mem_cons_of_mem _ hj)
    refine Wp.call (ih (valid_set h hvalid') hroom') ?_
    rintro _ as₂ ⟨bs, rfl, hok, hsf, hlive, hsizes, hnames⟩
    have hstep : liveBuffers (as.set i a') = b ::ₘ liveBuffers as := by
      have hset : liveBuffers (as.set i a') + a.buffers = _ := liveBuffers_set ha
      rw [hbufs, add_cons, ← cons_add] at hset
      exact add_right_cancel hset
    rw [wp_pure]
    refine ⟨b :: bs, rfl, hok, (sameFleet_set ha hsame).trans hsf, ?_, ?_, ?_⟩
    · rw [hlive, hstep, ← cons_coe, add_cons, cons_add]
    · intro c hc
      rcases List.mem_cons.mp hc with rfl | hc
      · exact hbsize
      · exact hsizes c hc
    · rw [List.map_cons, List.map_cons, hnames, ha, hbname]
      refine congrArg₂ _ rfl (map_congr_left fun j hj => ?_)
      rw [hother j hj]

lemma placeLoop_zero {is : List ℕ} (hroom : Admit as 0 is) (hne : is ≠ []) :
    placeLoop 0 is as = some (.error .noAvailableSegment, as) := by
  obtain ⟨i, is, rfl⟩ := exists_cons_of_ne_nil hne
  obtain ⟨a, -, ha, -⟩ := hroom.2 i List.mem_cons_self
  obtain ⟨hi, rfl⟩ := List.getElem?_eq_some_iff.mp ha
  have hask : onAllocator i (BufferAllocator.allocate 0) as = some (none, as) := by
    rw [onAllocator, ha]
    exact congrArg (fun l => some (none, l)) (set_getElem_self hi)
  exact bind_eq_some.mpr ⟨none, as, hask, rfl⟩

def Fits (as : List OffsetBufferAllocator) (size replicaNum : ℕ) : Prop :=
  0 < size ∧ ((candidates as size []).any fun is => replicaNum ≤ is.length) = true

instance (as : List OffsetBufferAllocator) (size replicaNum : ℕ) : Decidable (Fits as size replicaNum) :=
  inferInstanceAs (Decidable (_ ∧ _))

lemma fits_iff (hvalid : ∀ a ∈ as, a.Valid exact) {size replicaNum : ℕ} :
    Fits as size replicaNum ↔ 0 < size ∧ replicaNum ≤ as.countP (offers size []) := by
  rw [Fits, candidates_eq hvalid, any_some, decide_eq_true_iff, length_candidates]

/-- **A placement is exact**: it succeeds exactly when enough segments offer the size, with one buffer of
that size on each of `replicaNum` segments; otherwise it takes nothing. -/
theorem AllocationStrategy.allocate_exact (strategy : AllocationStrategy) (size replicaNum : ℕ)
    (preferred : Option SegmentName) (excluded : List String) (hvalid : ∀ a ∈ as, a.Valid False) :
    Wp (strategy.allocate size replicaNum preferred excluded) (fun r as' =>
      (∃ bs is, r = .ok bs ∧ replicaNum ≤ as.countP (offers size excluded) ∧ bs.length = replicaNum ∧
        (∀ a ∈ as', a.Valid False) ∧ SameFleet as as' ∧ liveBuffers as' = bs + liveBuffers as ∧
        (∀ b ∈ bs, b.size = size) ∧ Admit as size is ∧ bs.map (fun b => some b.segmentName) =
          is.map fun i => as[i]?.map OffsetBufferAllocator.segmentName) ∨
      (r = .error .noAvailableSegment ∧ ¬(0 < size ∧ replicaNum ≤ as.countP (offers size excluded)) ∧
        as' = as)) as := by
  have hjs := candidates_eq hvalid size excluded
  have hroom := candidates_admit as size excluded
  have hcount := length_candidates as size excluded
  set js := (List.range as.length).filter fun i => as[i]?.any (offers size excluded)
  have hperm := order_perm strategy as preferred js
  set is := strategy.order as preferred js with his
  suffices hplace : Wp (place is size replicaNum) _ as by
    obtain ⟨r, as', hrun, hpost⟩ := hplace
    exact ⟨r, as', by simp only [AllocationStrategy.allocate, hjs]; exact hrun, hpost⟩
  rw [place]
  split_ifs with hfew
  · rw [wp_pure]
    refine .inr ⟨rfl, fun hmany => ?_, rfl⟩
    rw [hperm.length_eq, hcount] at hfew
    exact absurd hfew (not_lt.mpr hmany.2)
  have henough : replicaNum ≤ as.countP (offers size excluded) := by
    rw [← hcount, ← hperm.length_eq]
    exact not_lt.mp hfew
  have htake := (hroom.of_perm hperm).sublist (take_sublist replicaNum is)
  have hlen : (is.take replicaNum).length = replicaNum := by
    rw [length_take]
    omega
  rcases Nat.eq_zero_or_pos size with rfl | hpos
  · by_cases hnil : is.take replicaNum = []
    · rw [hnil] at hlen htake ⊢
      rw [placeLoop, wp_pure]
      exact .inl ⟨[], [], rfl, henough, hlen, hvalid, SameFleet.refl as, by simp, by simp, htake, rfl⟩
    · exact ⟨_, _, placeLoop_zero htake hnil, .inr ⟨rfl, fun hmany => hmany.1.ne' rfl, rfl⟩⟩
  · refine (placeLoop_spec hpos hvalid htake).mono ?_
    rintro _ as' ⟨bs, rfl, hok, hsf, hlive, hsizes, hbnames⟩
    refine .inl ⟨bs, _, rfl, henough, ?_, hok, hsf, hlive, hsizes, htake, hbnames⟩
    rw [← hlen, ← length_map (fun b : AllocatedBuffer => some b.segmentName), hbnames, length_map]

/-- **A strategy never fails half-way**: it takes one buffer of the asked size on each of
`replicaNum` different segments, or takes nothing; the latter only if too few segments fit. -/
theorem AllocationStrategy.allocate_spec (strategy : AllocationStrategy) (size replicaNum : ℕ)
    (preferred : Option SegmentName) (h : FleetOk False as) :
    Wp (strategy.allocate size replicaNum preferred []) (fun r as' =>
      (∃ bs, r = .ok bs ∧ bs.length = replicaNum ∧ Placed as as' size bs) ∨
      (r = .error .noAvailableSegment ∧ ¬Fits as size replicaNum ∧ as' = as)) as := by
  refine (strategy.allocate_exact size replicaNum preferred [] h.valid).mono ?_
  rintro r as' (⟨bs, is, rfl, -, hlen, hvalid', hsf, hlive, hsizes, hadmits, hbnames⟩ | ⟨rfl, hno, rfl⟩)
  · have hnames := hadmits.names_nodup h
    rw [← hbnames] at hnames
    refine .inl ⟨bs, rfl, hlen, ⟨hvalid', hsf.names_eq ▸ h.names_nodup⟩, hsf, hlive, hsizes, ?_⟩
    exact List.Nodup.of_map some (by simpa [Function.comp_def] using hnames)
  · exact .inr ⟨rfl, fun hfits => hno ((fits_iff h.valid).mp hfits), rfl⟩

end fleet

end QuillCache.Store
