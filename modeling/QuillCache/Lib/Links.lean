import Mathlib

/-!
# Intrusive doubly linked lists

A doubly linked list threaded through an array of cells is given by two functions
`prev next : ι → ι` and a sentinel `nil`: the list `l` is linked when, in the padded list
`nil, l₀, …, lₙ, nil`, every two neighbours `a, b` satisfy `next a = b` (unless `a` is the sentinel)
and `prev b = a` (unless `b` is). With the padding the two ends need no case of their own: a cell at
an end has the sentinel as its neighbour.

* `linked_split` cuts a linked list around a middle part;
* `Linked.splice` replaces the middle part when the links are changed only at the cut;
* `Linked.links` reads the two links of a cell.
-/

namespace QuillCache.Lib

open List

variable {ι : Type} {nil : ι} {prev next prev' next' : ι → ι}

/-- `a` is directly before `b`, with the sentinel unconstrained on its open side. -/
def LinkRel (nil : ι) (prev next : ι → ι) (a b : ι) : Prop :=
  (a ≠ nil → next a = b) ∧ (b ≠ nil → prev b = a)

lemma LinkRel.congr {a b : ι} (h : LinkRel nil prev next a b) (hn : a ≠ nil → next' a = next a)
    (hp : b ≠ nil → prev' b = prev b) : LinkRel nil prev' next' a b :=
  ⟨fun ha => (hn ha).trans (h.1 ha), fun hb => (hp hb).trans (h.2 hb)⟩

/-- The cells of `l`, in this order, form a doubly linked list with ends at the sentinel. -/
def Linked (nil : ι) (prev next : ι → ι) (l : List ι) : Prop :=
  (nil :: (l ++ [nil])).IsChain (LinkRel nil prev next)

lemma exists_init (nil : ι) (l : List ι) : ∃ X, nil :: l = X ++ [l.getLast?.getD nil] := by
  rcases eq_nil_or_concat l with rfl | ⟨l', a, rfl⟩
  · exact ⟨[], rfl⟩
  · exact ⟨nil :: l', by simp⟩

lemma exists_tail (nil : ι) (l : List ι) : ∃ Y, l ++ [nil] = l.head?.getD nil :: Y := by
  cases l with
  | nil => exact ⟨[], rfl⟩
  | cons a l => exact ⟨l ++ [nil], rfl⟩

lemma getLast?_getD_mem {l : List ι} (h : l.getLast?.getD nil ≠ nil) : l.getLast?.getD nil ∈ l := by
  cases hl : l.getLast? with
  | none => simp [hl] at h
  | some a => simpa using mem_of_getLast? hl

lemma head?_getD_mem {l : List ι} (h : l.head?.getD nil ≠ nil) : l.head?.getD nil ∈ l := by
  cases hl : l.head? with
  | none => simp [hl] at h
  | some a => simpa using mem_of_head? hl

/-- A linked list cut in three: the left part, the middle part between its two neighbours, and the
right part. -/
lemma linked_split {xs m ys : List ι} :
    Linked nil prev next (xs ++ m ++ ys) ↔
      (nil :: xs).IsChain (LinkRel nil prev next) ∧
        (xs.getLast?.getD nil :: (m ++ [ys.head?.getD nil])).IsChain (LinkRel nil prev next) ∧
        (ys ++ [nil]).IsChain (LinkRel nil prev next) := by
  obtain ⟨X, hX⟩ := exists_init nil xs
  obtain ⟨Y, hY⟩ := exists_tail nil ys
  have hpad : nil :: (xs ++ m ++ ys ++ [nil]) =
      X ++ xs.getLast?.getD nil :: (m ++ ys.head?.getD nil :: Y) := by
    rw [← hY, ← cons_append, ← cons_append, ← cons_append, hX]
    simp
  unfold Linked
  rw [hpad, isChain_split, hX, hY]
  refine and_congr_right fun _ => ?_
  rw [← cons_append, isChain_split, cons_append]

lemma Linked.links {xs ys : List ι} {i : ι} (h : Linked nil prev next (xs ++ i :: ys))
    (hi : i ≠ nil) : prev i = xs.getLast?.getD nil ∧ next i = ys.head?.getD nil := by
  have h' : Linked nil prev next (xs ++ [i] ++ ys) := by simpa using h
  rw [linked_split] at h'
  obtain ⟨-, hmid, -⟩ := h'
  simp only [singleton_append, isChain_cons_cons] at hmid
  exact ⟨hmid.1.2 hi, hmid.2.1.1 hi⟩

lemma linked_nil : Linked nil prev next [] := by
  simp [Linked, LinkRel]

lemma linked_singleton {i : ι} (hp : prev i = nil) (hn : next i = nil) :
    Linked nil prev next [i] := by
  simp [Linked, LinkRel, hp, hn]

lemma Linked.congr {l : List ι} (h : Linked nil prev next l)
    (hp : ∀ i ∈ l, prev' i = prev i) (hn : ∀ i ∈ l, next' i = next i) :
    Linked nil prev' next' l := by
  refine IsChain.imp_of_mem_imp (fun a b ha hb hab => ⟨fun hne => ?_, fun hne => ?_⟩) h
  · have hal : a ∈ l := by simpa [hne] using ha
    rw [hn a hal]
    exact hab.1 hne
  · have hbl : b ∈ l := by simpa [hne] using hb
    rw [hp b hbl]
    exact hab.2 hne

lemma isChain_left_congr {p : ι} {xs : List ι} (hnd : xs.Nodup) (hpx : p ≠ nil → p ∉ xs)
    (h : (p :: xs).IsChain (LinkRel nil prev next))
    (hp : ∀ i ∈ xs, prev' i = prev i)
    (hn : ∀ i ∈ p :: xs, i ≠ nil → i ≠ xs.getLast?.getD p → next' i = next i) :
    (p :: xs).IsChain (LinkRel nil prev' next') := by
  rw [isChain_iff_forall_rel_of_append_cons_cons] at h ⊢
  intro a b l₁ l₂ heq
  obtain ⟨h1, h2⟩ := h heq
  have hb : b ∈ xs := by
    cases l₁ with
    | nil => simp only [nil_append, List.cons.injEq] at heq; rw [heq.2]; simp
    | cons c l₁ => simp only [cons_append, List.cons.injEq] at heq; rw [heq.2]; simp
  refine ⟨fun hne => ?_, fun hne => by rw [hp b hb]; exact h2 hne⟩
  -- `a` stands before `b`, so by `Nodup` it is not the last cell
  have hlast : xs.getLast?.getD p ∈ b :: l₂ ∧ a ∉ b :: l₂ := by
    cases l₁ with
    | nil =>
      simp only [nil_append, List.cons.injEq] at heq
      obtain ⟨rfl, rfl⟩ := heq
      refine ⟨?_, hpx hne⟩
      rw [getLast?_eq_some_getLast (by simp), Option.getD_some]
      exact getLast_mem _
    | cons c l₁ =>
      simp only [cons_append, List.cons.injEq] at heq
      obtain ⟨rfl, rfl⟩ := heq
      rw [nodup_append] at hnd
      refine ⟨?_, (nodup_cons.mp hnd.2.1).1⟩
      rw [show l₁ ++ a :: b :: l₂ = (l₁ ++ [a]) ++ b :: l₂ by simp,
        getLast?_append_of_ne_nil _ (by simp),
        getLast?_eq_some_getLast (by simp), Option.getD_some]
      exact getLast_mem _
  rw [hn a (by rw [heq]; simp) hne fun hal => hlast.2 (hal ▸ hlast.1)]
  exact h1 hne

lemma isChain_right_congr {ys : List ι} (hnd : ys.Nodup)
    (h : (ys ++ [nil]).IsChain (LinkRel nil prev next))
    (hn : ∀ i ∈ ys, next' i = next i)
    (hp : ∀ i ∈ ys, i ≠ ys.head?.getD nil → prev' i = prev i) :
    (ys ++ [nil]).IsChain (LinkRel nil prev' next') := by
  rw [isChain_iff_forall_rel_of_append_cons_cons] at h ⊢
  intro a b l₁ l₂ heq
  obtain ⟨h1, h2⟩ := h heq
  rcases eq_nil_or_concat l₂ with rfl | ⟨l₂, c, rfl⟩
  · have h' : ys ++ [nil] = (l₁ ++ [a]) ++ [b] := by simpa using heq
    obtain ⟨rfl, hb⟩ := append_inj' h' rfl
    refine ⟨fun hne => by rw [hn a (by simp)]; exact h1 hne, fun hne => ?_⟩
    simp only [List.cons.injEq, and_true] at hb
    exact absurd hb.symm hne
  · have h' : ys ++ [nil] = (l₁ ++ a :: b :: l₂) ++ [c] := by simpa using heq
    obtain ⟨rfl, -⟩ := append_inj' h' rfl
    refine ⟨fun hne => by rw [hn a (by simp)]; exact h1 hne, fun hne => ?_⟩
    rw [hp b (by simp) ?_]
    · exact h2 hne
    · -- `b` stands after `a`, so by `Nodup` it is not the first cell
      intro hhead
      have hmem : (l₁ ++ a :: b :: l₂).head?.getD nil ∈ l₁ ++ [a] := by
        cases l₁ <;> simp
      rw [← hhead] at hmem
      rw [show l₁ ++ a :: b :: l₂ = (l₁ ++ [a]) ++ b :: l₂ by simp, nodup_append] at hnd
      exact hnd.2.2 b hmem b (by simp) rfl

/-- **Splicing.** The middle part `m` of a linked list is replaced by `m'`: the new links agree with
the old ones away from the cut, and the new middle part is linked between the two neighbours. -/
theorem Linked.splice (xs m ys m' : List ι) (h : Linked nil prev next (xs ++ m ++ ys))
    (hxs : xs.Nodup) (hys : ys.Nodup)
    (hxp : ∀ i ∈ xs, prev' i = prev i)
    (hxn : ∀ i ∈ xs, i ≠ xs.getLast?.getD nil → next' i = next i)
    (hyn : ∀ i ∈ ys, next' i = next i)
    (hyp : ∀ i ∈ ys, i ≠ ys.head?.getD nil → prev' i = prev i)
    (hmid : (xs.getLast?.getD nil :: (m' ++ [ys.head?.getD nil])).IsChain (LinkRel nil prev' next')) :
    Linked nil prev' next' (xs ++ m' ++ ys) := by
  rw [linked_split] at h ⊢
  refine ⟨isChain_left_congr hxs (fun hnil => absurd rfl hnil) h.1 hxp fun i hi hne => ?_, hmid,
    isChain_right_congr hys h.2.2 hyn hyp⟩
  exact hxn i ((mem_cons.mp hi).resolve_left hne)

end QuillCache.Lib
