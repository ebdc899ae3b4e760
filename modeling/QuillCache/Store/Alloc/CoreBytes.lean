import QuillCache.Store.Alloc.CoreRun

/-!
# `CoreAllocator`: which bytes are used

`ByteIs u x` reads the state of the byte `x` off the nodes that are not on the free-node stack, and `freeRegions`
the free ones among them. The free regions are the maximal runs of free bytes, whatever the nodes are called, so
they depend on the used bytes alone. An exact reservation succeeds exactly when its range is inside the memory
and free, and then changes the state of that range and of nothing else; reservations therefore commute
(`reserveExact_bytes`).
-/

namespace QuillCache.Store

open Lib SmallFloat List

namespace CoreAllocator

variable {s s' : CoreAllocator} {L L' : List Region} {u : Bool} {x offset size : ℕ}

/-- The slot holds a node: it is in the pool and not on the free-node stack. -/
def HoldsNode (s : CoreAllocator) (i : ℕ) : Prop := i < s.currentCapacity ∧ i ∉ s.freeNodes.drop s.freeOffset

/-- The byte `x` lies in a node whose used flag is `u`. -/
def ByteIs (s : CoreAllocator) (u : Bool) (x : ℕ) : Prop :=
  ∃ i, s.HoldsNode i ∧ (s.node i).used = u ∧ (s.node i).dataOffset ≤ x ∧
    x < (s.node i).dataOffset + (s.node i).dataSize

def freeRegions (s : CoreAllocator) : Set (ℕ × ℕ) :=
  { p | ∃ i, s.HoldsNode i ∧ (s.node i).used = false ∧ (s.node i).dataOffset = p.1 ∧ (s.node i).dataSize = p.2 }

def reserveAll : List (ℕ × ℕ) → Exec CoreAllocator (List (Option OffsetAllocation))
  | [] => return []
  | p :: ps => do
    let out ← reserveExact p.1 p.2
    let outs ← reserveAll ps
    return out :: outs

/-! ### The bytes of the regions -/

lemma Inv.holdsNode_iff (h : Inv s L) (i : ℕ) : s.HoldsNode i ↔ i ∈ L.map Region.slot := by
  obtain ⟨bins, hwf⟩ := CoreRun.wellFormed_of_inv h
  constructor
  · rintro ⟨hlt, hout⟩
    by_contra hno
    exact hout ((hwf.mem_stack i).mpr ⟨hlt, hno⟩)
  · intro hi
    exact ⟨hwf.pool.2 i hi, fun hout => ((hwf.mem_stack i).mp hout).2 hi⟩

lemma Inv.exists_node_iff (h : Inv s L) (P : ℕ → ℕ → Bool → Prop) :
    (∃ i, s.HoldsNode i ∧ P (s.node i).dataOffset (s.node i).dataSize (s.node i).used) ↔
      ∃ r ∈ L, P r.off r.size r.used := by
  constructor
  · rintro ⟨i, hi, hP⟩
    obtain ⟨r, hr, rfl⟩ := mem_map.mp ((h.holdsNode_iff i).mp hi)
    obtain ⟨ho, hs, hu⟩ := h.loose.holds r hr
    exact ⟨r, hr, ho ▸ hs ▸ hu ▸ hP⟩
  · rintro ⟨r, hr, hP⟩
    obtain ⟨ho, hs, hu⟩ := h.loose.holds r hr
    refine ⟨r.slot, (h.holdsNode_iff _).mpr (mem_map_of_mem hr), ?_⟩
    rwa [ho, hs, hu]

lemma Inv.byteIs_iff (h : Inv s L) : s.ByteIs u x ↔ regionSpans.At L u x :=
  h.exists_node_iff fun off size used => used = u ∧ off ≤ x ∧ x < off + size

lemma Inv.byteIs_false_iff (h : Inv s L) : s.ByteIs false x ↔ x < s.size ∧ ¬s.ByteIs true x := by
  rw [h.byteIs_iff, h.byteIs_iff, h.layout.tiles.at_false_iff]
  exact and_congr_left' (and_iff_right (Nat.zero_le x))

lemma Inv.mem_freeRegions_iff (h : Inv s L) (hpos : 0 < s.size) (p : ℕ × ℕ) :
    p ∈ s.freeRegions ↔ Spans.MaximalRun (s.ByteIs false) p.1 p.2 := by
  have hbytes : s.ByteIs false = regionSpans.At L false := funext fun y => propext h.byteIs_iff
  rw [hbytes, ← h.layout.tiles.free_span_iff h.layout.coalesced (h.layout.pos hpos)]
  exact h.exists_node_iff fun off size used => used = false ∧ off = p.1 ∧ size = p.2

lemma freeRegions_eq (h : Inv s L) (h' : Inv s' L') (hpos : 0 < s.size) (hsize : s'.size = s.size)
    (hused : ∀ y, s'.ByteIs true y ↔ s.ByteIs true y) : s'.freeRegions = s.freeRegions := by
  have hfree : s'.ByteIs false = s.ByteIs false := by
    funext y
    rw [h.byteIs_false_iff, h'.byteIs_false_iff, hsize, hused]
  ext p
  rw [h.mem_freeRegions_iff hpos, h'.mem_freeRegions_iff (hsize ▸ hpos), hfree]

/-! ### Reserving -/

lemma Inv.byteIs_true_iff (h : Inv s L) (h' : Inv s' L') {i : ℕ}
    (hperm : (usedRegions L').Perm (⟨i, offset, size, true⟩ :: usedRegions L)) :
    s'.ByteIs true x ↔ s.ByteIs true x ∨ (offset ≤ x ∧ x < offset + size) := by
  have hat : ∀ l : List Region, regionSpans.At l true x ↔ ∃ r ∈ usedRegions l, r.off ≤ x ∧ x < r.off + r.size := by
    intro l
    simp only [Spans.At, usedRegions, mem_filter, regionSpans, and_assoc]
  rw [h'.byteIs_iff, h.byteIs_iff, hat, hat]
  simp only [hperm.mem_iff, mem_cons, exists_eq_or_imp]
  exact or_comm

lemma Inv.canReserve_iff (h : Inv s L) (hpos : 0 < size) (hroom : s.freeOffset + 3 ≤ s.maxCapacity) :
    CanReserve s L offset size ↔
      offset + size ≤ s.size ∧ ∀ y, offset ≤ y → y < offset + size → s.ByteIs false y := by
  unfold CanReserve
  constructor
  · rintro ⟨-, hin, -, hdisj⟩
    refine ⟨hin, fun y hle hlt => h.byteIs_false_iff.mpr ⟨by omega, fun hused => ?_⟩⟩
    obtain ⟨r, hr, hru, hry, hry'⟩ := h.byteIs_iff.mp hused
    have := hdisj r hr hru
    unfold RangesDisjoint at this
    simp only [regionSpans] at hry hry'
    omega
  · rintro ⟨hin, hfree⟩
    refine ⟨hpos, hin, hroom, ?_⟩
    refine (Spans.disjoint_iff_not_at (T := regionSpans) (h.layout.pos (by omega)) hpos).mpr fun y hle hlt hat => ?_
    exact (h.byteIs_false_iff.mp (hfree y hle hlt)).2 (h.byteIs_iff.mpr hat)

lemma Inv.freeOffset_le (h : Inv s L) : s.freeOffset ≤ 2 * (usedRegions L).length + 1 := by
  have hlen := h.layout.coalesced.length_le
  rw [countP_eq_length_filter] at hlen
  rw [← h.loose.stack.length_eq, length_map]
  exact hlen

/-- **Reserving free, disjoint ranges**: with enough nodes in the pool all of them are granted, and exactly their
bytes become used. -/
lemma reserveAll_spec {ps : List (ℕ × ℕ)} (h : Inv s L)
    (hroom : 2 * ((usedRegions L).length + ps.length) + 2 ≤ s.maxCapacity)
    (hin : ∀ p ∈ ps, 0 < p.2 ∧ p.1 + p.2 ≤ s.size)
    (hdisj : ps.Pairwise fun p q => RangesDisjoint p.1 p.2 q.1 q.2)
    (hfree : ∀ p ∈ ps, ∀ y, p.1 ≤ y → y < p.1 + p.2 → s.ByteIs false y) :
    Wp (reserveAll ps) (fun outs s' => (∀ out ∈ outs, out.isSome = true) ∧ outs.length = ps.length ∧
      s'.size = s.size ∧ (∃ L', Inv s' L') ∧
      ∀ y, s'.ByteIs true y ↔ s.ByteIs true y ∨ ∃ p ∈ ps, p.1 ≤ y ∧ y < p.1 + p.2) s := by
  -- the invariant of the loop: the ranges still to come are free
  induction ps generalizing s L with
  | nil => exact wp_pure.mpr ⟨by simp, rfl, rfl, ⟨L, h⟩, by simp⟩
  | cons p ps ih =>
    obtain ⟨hhead, htail⟩ := pairwise_cons.mp hdisj
    obtain ⟨hpos, hle⟩ := hin p mem_cons_self
    have hroom' : s.freeOffset + 3 ≤ s.maxCapacity := by
      have hused := h.freeOffset_le
      simp only [length_cons] at hroom
      omega
    have hcan := (h.canReserve_iff hpos hroom').mpr ⟨hle, hfree p mem_cons_self⟩
    rw [reserveAll, wp_bind]
    refine (reserveExact_spec h p.1 p.2).mono ?_
    rintro out s₁ ⟨L₁, hinv₁, hsize₁, hmax₁, ⟨-, -, hno⟩ | ⟨-, i, rfl, hperm⟩⟩
    · exact absurd hcan hno
    have hbytes : ∀ y, s₁.ByteIs true y ↔ s.ByteIs true y ∨ (p.1 ≤ y ∧ y < p.1 + p.2) :=
      fun y => h.byteIs_true_iff hinv₁ hperm
    have hroom₁ : 2 * ((usedRegions L₁).length + ps.length) + 2 ≤ s₁.maxCapacity := by
      have hlen := hperm.length_eq
      simp only [length_cons] at hlen hroom
      omega
    have hfree₁ : ∀ q ∈ ps, ∀ y, q.1 ≤ y → y < q.1 + q.2 → s₁.ByteIs false y := by
      intro q hq y hle hlt
      obtain ⟨hlt', hno⟩ := h.byteIs_false_iff.mp (hfree q (mem_cons_of_mem _ hq) y hle hlt)
      refine hinv₁.byteIs_false_iff.mpr ⟨hsize₁ ▸ hlt', fun hused => ?_⟩
      have hmeet := ((hbytes y).mp hused).resolve_left hno
      have := hhead q hq
      unfold RangesDisjoint at this
      omega
    rw [wp_bind]
    refine (ih hinv₁ hroom₁ (fun q hq => hsize₁ ▸ hin q (mem_cons_of_mem _ hq)) htail hfree₁).mono ?_
    rintro outs s' ⟨hsome, hlen, hsize', hinv', hused⟩
    refine wp_pure.mpr ⟨?_, by simp [hlen], hsize'.trans hsize₁, hinv', fun y => ?_⟩
    · rintro out (- | ⟨-, hout⟩)
      · rfl
      · exact hsome out hout
    · rw [hused, hbytes, exists_mem_cons_iff, or_assoc]

end CoreAllocator

namespace CoreRun

open CoreAllocator

/-- **Exact reservations.** In every state that a run reaches, with four node slots left up to the cap, reserving
a non-empty range returns; it succeeds exactly when the range is inside the memory and free, and then exactly its
bytes become used; otherwise no byte changes. From a fresh allocator, non-empty disjoint ranges inside the
memory, with two node slots for each and two more, can be reserved in every order, and every order gives the
same free regions. -/
theorem reserveExact_bytes (size initCapacity maxCapacity : ℕ) (hsize : size ≤ maxBinSize)
    (hinit : 0 < initCapacity) (hmax : max initCapacity maxCapacity < unused) :
    ∃ s₀, new size initCapacity maxCapacity = some s₀ ∧
      (∀ st, Relation.ReflTransGen Step ⟨s₀, []⟩ st → st.core.freeOffset + 4 ≤ st.core.maxCapacity →
        ∀ offset n, 0 < n → ∃ out s', reserveExact offset n st.core = some (out, s') ∧
          (out.isSome = true ↔
            offset + n ≤ size ∧ ∀ x, offset ≤ x → x < offset + n → st.core.ByteIs false x) ∧
          (out.isSome = true → ∀ x,
            (s'.ByteIs true x ↔ st.core.ByteIs true x ∨ (offset ≤ x ∧ x < offset + n)) ∧
            (s'.ByteIs false x ↔ st.core.ByteIs false x ∧ ¬(offset ≤ x ∧ x < offset + n))) ∧
          (out.isSome = false → ∀ u x, s'.ByteIs u x ↔ st.core.ByteIs u x)) ∧
      ∀ ranges : List (ℕ × ℕ), (∀ p ∈ ranges, 0 < p.2 ∧ p.1 + p.2 ≤ size) →
        (ranges.Pairwise fun p q => RangesDisjoint p.1 p.2 q.1 q.2) →
        2 * ranges.length + 2 ≤ max initCapacity maxCapacity →
        ∃ regions, ∀ order : List (ℕ × ℕ), order.Perm ranges →
          ∃ outs s', reserveAll order s₀ = some (outs, s') ∧ outs.length = order.length ∧
            (∀ out ∈ outs, out.isSome = true) ∧ s'.freeRegions = regions := by
  obtain ⟨s₀, i₀, hnew, hinv₀, hsize₀, hmax₀⟩ := new_spec hsize hinit hmax
  refine ⟨s₀, hnew, fun st hrun hroom offset n hn => ?_, fun ranges hin hdisj hroom => ?_⟩
  · have hv₀ : Valid size ⟨s₀, []⟩ := ⟨_, hinv₀, hsize₀, [], rfl, by simp [usedRegions], by simp⟩
    obtain ⟨L, hinv, hsz, -⟩ := hv₀.run hrun
    obtain ⟨out, s', hres, L', hinv', hsize', -, hor⟩ := reserveExact_spec hinv offset n
    have hiff : CanReserve st.core L offset n ↔ _ := hinv.canReserve_iff hn (by omega)
    rw [hsz] at hiff
    refine ⟨out, s', hres, ?_⟩
    rcases hor with ⟨rfl, rfl, hno⟩ | ⟨hcan, i, rfl, hperm⟩
    · refine ⟨iff_of_false (by simp) (mt hiff.mpr hno), by simp, fun _ u x => ?_⟩
      rw [hinv.byteIs_iff, hinv'.byteIs_iff]
    · refine ⟨iff_of_true rfl (hiff.mp hcan), fun _ x => ?_, by simp⟩
      have hused := hinv.byteIs_true_iff (x := x) hinv' hperm
      refine ⟨hused, ?_⟩
      rw [hinv'.byteIs_false_iff, hinv.byteIs_false_iff, hused, hsize', not_or, and_assoc]
  -- no byte of a fresh allocator is used, so every order uses the bytes of the ranges
  have hfresh : ∀ y, ¬s₀.ByteIs true y := by
    intro y hy
    obtain ⟨r, hr, hru, -⟩ := hinv₀.byteIs_iff.mp hy
    rw [mem_singleton.mp hr] at hru
    cases hru
  have hall : ∀ order : List (ℕ × ℕ), order.Perm ranges → Wp (reserveAll order) _ s₀ := fun order horder =>
    reserveAll_spec hinv₀ (by rw [horder.length_eq, hmax₀]; simpa [usedRegions] using hroom)
      (fun p hp => hsize₀ ▸ hin p (horder.mem_iff.mp hp)) (horder.symm.pairwise hdisj fun h => RangesDisjoint.symm h)
      fun p hp y _ hlt => hinv₀.byteIs_false_iff.mpr
        ⟨by have := (hin p (horder.mem_iff.mp hp)).2; omega, hfresh y⟩
  rcases Nat.eq_zero_or_pos size with rfl | hpos
  · have hnil : ranges = [] := eq_nil_iff_forall_not_mem.mpr fun p hp => by
      have := hin p hp
      omega
    refine ⟨s₀.freeRegions, fun order horder => ?_⟩
    rw [hnil, perm_nil] at horder
    subst horder
    exact ⟨[], s₀, rfl, rfl, by simp, rfl⟩
  obtain ⟨outs₁, s₁, -, -, -, hsize₁, ⟨L₁, hinv₁⟩, hused₁⟩ := hall ranges (.refl _)
  refine ⟨s₁.freeRegions, fun order horder => ?_⟩
  obtain ⟨outs, s', hrun, hsome, hlen, hsize', ⟨L', hinv'⟩, hused'⟩ := hall order horder
  refine ⟨outs, s', hrun, hlen, hsome, ?_⟩
  refine freeRegions_eq hinv₁ hinv' (by rw [hsize₁, hsize₀]; exact hpos) (hsize'.trans hsize₁.symm) fun y => ?_
  rw [hused', hused₁]
  simp only [horder.mem_iff]

/-- Two ranges of a 64-unit allocator with room for eight nodes. -/
theorem reserveExact_bytes_64 : ∃ s₀ regions, new 64 4 8 = some s₀ ∧
    ∀ order : List (ℕ × ℕ), order.Perm [(8, 8), (32, 16)] →
      ∃ outs s', reserveAll order s₀ = some (outs, s') ∧ outs.length = order.length ∧
        (∀ out ∈ outs, out.isSome = true) ∧ s'.freeRegions = regions := by
  obtain ⟨s₀, hnew, -, horders⟩ := reserveExact_bytes 64 4 8 (by decide) (by decide) (by decide)
  obtain ⟨regions, hall⟩ := horders [(8, 8), (32, 16)] (by decide) (by decide) (by decide)
  exact ⟨s₀, regions, hnew, hall⟩

end CoreRun

end QuillCache.Store
