import Mathlib

/-!
# Tilings of an interval by free and used spans

A list of spans tiles `[lo, hi)` when each span starts where the one before it ends. It is
*coalesced* when no two neighbouring spans are both free. A coalesced tiling is the canonical
picture of an allocator's memory: its free spans are the maximal gaps between the used ones.

* `Tiles.pairwise`, `Tiles.bounds`: the spans are ordered, disjoint and inside the interval;
* `Tiles.exists_free_cover`: a non-empty range that meets no used span lies inside one free span;
* `Tiles.disjoint_of_free`: conversely a range inside a free span meets no used span;
* `Coalesced.length_le`: a coalesced tiling with `k` used spans has at most `2k + 1` spans;
* `Tiles.free_span_iff`: its free spans are the maximal runs of free positions.
-/

namespace QuillCache.Lib

open List

/-- How to read a span of type `α`: where it starts, how long it is, and whether it is used. -/
structure Spans (α : Type) where
  start : α → ℕ
  len : α → ℕ
  used : α → Bool

/-- The ranges `[a, a + n)` and `[b, b + m)` have no common position. -/
def RangesDisjoint (a n b m : ℕ) : Prop := a + n ≤ b ∨ b + m ≤ a

instance (a n b m : ℕ) : Decidable (RangesDisjoint a n b m) := inferInstanceAs (Decidable (_ ∨ _))

lemma RangesDisjoint.symm {a n b m : ℕ} (h : RangesDisjoint a n b m) : RangesDisjoint b m a n :=
  Or.symm h

namespace Spans

variable {α : Type} (T : Spans α)

def Tiles : ℕ → ℕ → List α → Prop
  | lo, hi, [] => lo = hi
  | lo, hi, r :: l => T.start r = lo ∧ Tiles (lo + T.len r) hi l

/-- No two neighbouring spans are both free. -/
def Coalesced (l : List α) : Prop := l.IsChain fun a b => T.used a = true ∨ T.used b = true

variable {T}

variable {l : List α}

@[simp] lemma tiles_nil : T.Tiles lo hi [] ↔ lo = hi := Iff.rfl

@[simp] lemma tiles_cons {r : α} :
    T.Tiles lo hi (r :: l) ↔ T.start r = lo ∧ T.Tiles (lo + T.len r) hi l := Iff.rfl

lemma tiles_append {l₁ l₂ : List α} : T.Tiles lo hi (l₁ ++ l₂) ↔ ∃ mid, T.Tiles lo mid l₁ ∧ T.Tiles mid hi l₂ := by
  induction l₁ generalizing lo with
  | nil => simp
  | cons r l₁ ih => simp [ih, and_assoc]

lemma tiles_split {xs m ys : List α} :
    T.Tiles lo hi (xs ++ m ++ ys) ↔
      ∃ a b, T.Tiles lo a xs ∧ T.Tiles a b m ∧ T.Tiles b hi ys := by
  simp only [tiles_append]
  constructor
  · rintro ⟨b, ⟨a, hxs, hm⟩, hys⟩
    exact ⟨a, b, hxs, hm, hys⟩
  · rintro ⟨a, b, hxs, hm, hys⟩
    exact ⟨b, ⟨a, hxs, hm⟩, hys⟩

lemma Tiles.le (h : T.Tiles lo hi l) : lo ≤ hi := by
  induction l generalizing lo with
  | nil => exact (tiles_nil.mp h).le
  | cons r l ih => exact le_trans (Nat.le_add_right _ _) (ih h.2)

lemma Tiles.sum_len (h : T.Tiles lo hi l) : lo + (l.map T.len).sum = hi := by
  induction l generalizing lo with
  | nil => simpa using h
  | cons r l ih =>
    have := ih h.2
    simp only [map_cons, sum_cons]
    omega

lemma Tiles.bounds (h : T.Tiles lo hi l) {r : α} (hr : r ∈ l) : lo ≤ T.start r ∧ T.start r + T.len r ≤ hi := by
  induction l generalizing lo with
  | nil => simp at hr
  | cons r' l ih =>
    obtain ⟨hs, ht⟩ := h
    rcases mem_cons.mp hr with rfl | hr
    · have := ht.le
      omega
    · have := ih ht hr
      omega

lemma Tiles.pairwise (h : T.Tiles lo hi l) : l.Pairwise fun a b => T.start a + T.len a ≤ T.start b := by
  induction l generalizing lo with
  | nil => exact List.Pairwise.nil
  | cons r l ih =>
    obtain ⟨hs, ht⟩ := h
    refine pairwise_cons.mpr ⟨fun b hb => ?_, ih ht⟩
    have := (ht.bounds hb).1
    omega

lemma Tiles.disjoint (h : T.Tiles lo hi l) {a b : α} (ha : a ∈ l) (hb : b ∈ l) (hne : a ≠ b) :
    RangesDisjoint (T.start a) (T.len a) (T.start b) (T.len b) := by
  have hp : l.Pairwise fun a b => RangesDisjoint (T.start a) (T.len a) (T.start b) (T.len b) :=
    h.pairwise.imp fun hab => .inl hab
  have : Std.Symm fun a b => RangesDisjoint (T.start a) (T.len a) (T.start b) (T.len b) :=
    ⟨fun _ _ hab => RangesDisjoint.symm hab⟩
  exact hp.forall ha hb hne

/-- A non-empty range inside the interval that meets no used span lies inside one free span: two
free spans are never neighbours, so the span after the first free one that it meets is used. -/
lemma Tiles.exists_free_cover (h : T.Tiles lo hi l) (hc : T.Coalesced l) (hpos : ∀ r ∈ l, 0 < T.len r) {x n : ℕ}
    (hx : lo ≤ x) (hn : 0 < n) (hy : x + n ≤ hi)
    (hfree : ∀ r ∈ l, T.used r = true → RangesDisjoint x n (T.start r) (T.len r)) :
    ∃ r ∈ l, T.used r = false ∧ T.start r ≤ x ∧ x + n ≤ T.start r + T.len r := by
  induction l generalizing lo with
  | nil =>
    have := tiles_nil.mp h
    omega
  | cons r l ih =>
    obtain ⟨hs, ht⟩ := h
    by_cases hin : lo + T.len r ≤ x
    · have hc' : T.Coalesced l := List.IsChain.tail hc
      obtain ⟨r', hr', hrest⟩ := ih ht hc' (fun r' hr' => hpos r' (mem_cons_of_mem _ hr')) hin
        (fun r' hr' => hfree r' (mem_cons_of_mem _ hr'))
      exact ⟨r', mem_cons_of_mem _ hr', hrest⟩
    · have hr : T.used r = false := by
        by_contra hu
        have := hfree r mem_cons_self (by simpa using hu)
        unfold RangesDisjoint at this
        omega
      refine ⟨r, mem_cons_self, hr, by omega, ?_⟩
      by_contra hlong
      cases l with
      | nil =>
        have := tiles_nil.mp ht
        omega
      | cons r' l =>
        have hu : T.used r' = true := by
          have := (isChain_cons_cons.mp hc).1
          simpa [hr] using this
        have hd := hfree r' (by simp) hu
        have hp := hpos r' (by simp)
        have hs' := ht.1
        unfold RangesDisjoint at hd
        omega

lemma Tiles.disjoint_of_free (h : T.Tiles lo hi l) {r u : α} (hr : r ∈ l) (hrf : T.used r = false) {x n : ℕ}
    (hx : T.start r ≤ x) (hn : x + n ≤ T.start r + T.len r) (hu : u ∈ l) (huu : T.used u = true) :
    RangesDisjoint x n (T.start u) (T.len u) := by
  have hne : r ≠ u := fun heq => by rw [heq, huu] at hrf; cases hrf
  have := h.disjoint hr hu hne
  unfold RangesDisjoint at this ⊢
  omega

lemma Coalesced.length_le (h : T.Coalesced l) : l.length ≤ 2 * l.countP T.used + 1 := by
  induction l using List.twoStepInduction with
  | nil => simp
  | singleton r => simp
  | cons_cons a b l ih _ =>
    obtain ⟨hab, hb⟩ := isChain_cons_cons.mp h
    have hl := ih (List.IsChain.tail hb)
    have hcount : 1 ≤ (if T.used a = true then 1 else 0) + (if T.used b = true then 1 else 0) := by
      rcases hab with ha | hb' <;> simp [*]
    simp only [length_cons, countP_cons]
    omega

lemma Coalesced.splice {xs m m' ys : List α} (h : T.Coalesced (xs ++ m ++ ys))
    (hm' : T.Coalesced m')
    (hleft : ∀ a ∈ xs.getLast?, ∀ b ∈ (m' ++ ys).head?, T.used a = true ∨ T.used b = true)
    (hright : ∀ a ∈ m'.getLast?, ∀ b ∈ ys.head?, T.used a = true ∨ T.used b = true) :
    T.Coalesced (xs ++ m' ++ ys) := by
  unfold Coalesced at h hm' ⊢
  rw [append_assoc, isChain_append] at h ⊢
  obtain ⟨hxs, hmys, -⟩ := h
  rw [isChain_append] at hmys
  exact ⟨hxs, isChain_append.mpr ⟨hm', hmys.2.1, hright⟩, hleft⟩

/-! ### Positions -/

section positions

variable {lo hi x n : ℕ} {l : List α} {u : Bool}

/-- The position `x` lies in a span whose flag is `u`. -/
def At (T : Spans α) (l : List α) (u : Bool) (x : ℕ) : Prop :=
  ∃ r ∈ l, T.used r = u ∧ T.start r ≤ x ∧ x < T.start r + T.len r

/-- A non-empty range of positions of `P` that cannot be extended on either side. -/
structure MaximalRun (P : ℕ → Prop) (x n : ℕ) : Prop where
  pos : 0 < n
  inside : ∀ y, x ≤ y → y < x + n → P y
  left : ∀ y, y + 1 = x → ¬P y
  right : ¬P (x + n)

lemma Tiles.at_or (h : T.Tiles lo hi l) (hlo : lo ≤ x) (hhi : x < hi) : T.At l true x ∨ T.At l false x := by
  suffices hin : ∃ r ∈ l, T.start r ≤ x ∧ x < T.start r + T.len r by
    obtain ⟨r, hr, hin⟩ := hin
    cases hu : T.used r with
    | true => exact .inl ⟨r, hr, hu, hin⟩
    | false => exact .inr ⟨r, hr, hu, hin⟩
  induction l generalizing lo with
  | nil =>
    have := tiles_nil.mp h
    omega
  | cons r l ih =>
    obtain ⟨hs, ht⟩ := h
    by_cases hlt : x < lo + T.len r
    · exact ⟨r, mem_cons_self, by omega, by omega⟩
    · obtain ⟨r', hr', hin⟩ := ih ht (by omega)
      exact ⟨r', mem_cons_of_mem _ hr', hin⟩

lemma Tiles.span_unique (h : T.Tiles lo hi l) {a b : α} (ha : a ∈ l) (hb : b ∈ l) (hax : T.start a ≤ x)
    (hax' : x < T.start a + T.len a) (hbx : T.start b ≤ x) (hbx' : x < T.start b + T.len b) : a = b := by
  by_contra hne
  have := h.disjoint ha hb hne
  unfold RangesDisjoint at this
  omega

lemma Tiles.at_false_iff (h : T.Tiles lo hi l) : T.At l false x ↔ (lo ≤ x ∧ x < hi) ∧ ¬T.At l true x := by
  constructor
  · rintro ⟨r, hr, hru, hle, hlt⟩
    have hb := h.bounds hr
    refine ⟨⟨by omega, by omega⟩, ?_⟩
    rintro ⟨r', hr', hru', hle', hlt'⟩
    rw [h.span_unique hr hr' hle hlt hle' hlt', hru'] at hru
    cases hru
  · rintro ⟨⟨hlo, hhi⟩, hno⟩
    exact (h.at_or hlo hhi).resolve_left hno

lemma disjoint_iff_not_at (hpos : ∀ r ∈ l, 0 < T.len r) (hn : 0 < n) :
    (∀ r ∈ l, T.used r = true → RangesDisjoint x n (T.start r) (T.len r)) ↔
      ∀ y, x ≤ y → y < x + n → ¬T.At l true y := by
  constructor
  · rintro hfree y hle hlt ⟨r, hr, hru, hry, hry'⟩
    have := hfree r hr hru
    unfold RangesDisjoint at this
    omega
  · intro hno r hr hru
    by_contra hmeet
    unfold RangesDisjoint at hmeet
    have hlen := hpos r hr
    exact hno (max x (T.start r)) (le_max_left _ _) (by omega) ⟨r, hr, hru, le_max_right _ _, by omega⟩

/-- In a coalesced tiling, a non-empty range of free positions lies in one free span. -/
lemma Tiles.exists_cover (h : T.Tiles lo hi l) (hc : T.Coalesced l) (hpos : ∀ r ∈ l, 0 < T.len r) (hn : 0 < n)
    (hfree : ∀ y, x ≤ y → y < x + n → T.At l false y) :
    ∃ r ∈ l, T.used r = false ∧ T.start r ≤ x ∧ x + n ≤ T.start r + T.len r := by
  have hx := h.at_false_iff.mp (hfree x le_rfl (by omega))
  have hy := h.at_false_iff.mp (hfree (x + n - 1) (by omega) (by omega))
  refine h.exists_free_cover hc hpos hx.1.1 hn (by omega) ?_
  exact (disjoint_iff_not_at hpos hn).mpr fun y hle hlt => (h.at_false_iff.mp (hfree y hle hlt)).2

/-- The free spans of a coalesced tiling are the maximal runs of free positions: the tiling is determined by
which positions are used. -/
theorem Tiles.free_span_iff (h : T.Tiles lo hi l) (hc : T.Coalesced l) (hpos : ∀ r ∈ l, 0 < T.len r) :
    (∃ r ∈ l, T.used r = false ∧ T.start r = x ∧ T.len r = n) ↔ MaximalRun (T.At l false) x n := by
  constructor
  · rintro ⟨r, hr, hru, rfl, rfl⟩
    have hlen := hpos r hr
    -- a longer free range would lie in one free span, which meets `r` and so is `r`
    have hlong : ∀ x' n', x' ≤ T.start r → T.start r + T.len r ≤ x' + n' →
        (∀ y, x' ≤ y → y < x' + n' → T.At l false y) → n' ≤ T.len r := by
      intro x' n' hle hge hfree
      obtain ⟨r', hr', -, hs', he'⟩ := h.exists_cover hc hpos (by omega) hfree
      have heq := h.span_unique (x := T.start r) hr hr' le_rfl (by omega) (by omega) (by omega)
      subst heq
      omega
    have hin : ∀ y, T.start r ≤ y → y < T.start r + T.len r → T.At l false y :=
      fun y hle hlt => ⟨r, hr, hru, hle, hlt⟩
    refine ⟨hlen, hin, fun y hy hfree => ?_, fun hfree => ?_⟩
    · have := hlong y (T.len r + 1) (by omega) (by omega) fun z hle hlt => by
        rcases Nat.eq_or_lt_of_le hle with rfl | hz
        · exact hfree
        · exact hin z (by omega) (by omega)
      omega
    · have := hlong (T.start r) (T.len r + 1) le_rfl (by omega) fun z hle hlt => by
        rcases Nat.eq_or_lt_of_le (Nat.le_of_lt_succ hlt) with rfl | hz
        · exact hfree
        · exact hin z hle hz
      omega
  · rintro ⟨hn, hin, hleft, hright⟩
    obtain ⟨r, hr, hru, hs, he⟩ := h.exists_cover hc hpos hn hin
    have hs' : T.start r = x := by
      by_contra hne
      exact hleft (x - 1) (by omega) ⟨r, hr, hru, by omega, by omega⟩
    refine ⟨r, hr, hru, hs', ?_⟩
    by_contra hne
    exact hright ⟨r, hr, hru, by omega, by omega⟩

end positions

end Spans

end QuillCache.Lib
