import Mathlib.Data.List.Basic
import Mathlib.Data.List.Pairwise
import Mathlib.Data.List.Infix

/-!
# Maps from words, in order

A map whose keys are words over an ordered alphabet, as its list of entries in lexicographic order: what an ordered
byte-string store is to its callers. The entries whose keys begin with a given word stand next to each other, so an
iterator that starts at that word and stops at the first key that does not begin with it yields exactly these
(`takeWhile_iterFrom`).

For codes that are put together from parts, three facts say when one code is the beginning of another: for a tag, for
a part of fixed length, and for a part that ends with a separator which it does not contain (`sep_prefix_iff`).
-/

set_option linter.unusedSectionVars false

namespace QuillCache.Lib

open List

/-! ## Beginnings of codes -/

section codes

variable {A : Type}

lemma append_prefix_iff_of_length {u v x y : List A} (h : u.length = v.length) :
    u ++ x <+: v ++ y ↔ u = v ∧ x <+: y := by
  constructor
  · rintro ⟨z, hz⟩
    rw [append_assoc] at hz
    obtain ⟨rfl, hrest⟩ := append_inj hz h
    exact ⟨rfl, z, hrest⟩
  · rintro ⟨rfl, hxy⟩
    exact (prefix_append_right_inj u).mpr hxy

lemma sep_prefix_iff {sep : A} {u v x y : List A} (hu : sep ∉ u) (hv : sep ∉ v) :
    u ++ sep :: x <+: v ++ sep :: y ↔ u = v ∧ x <+: y := by
  induction u generalizing v with
  | nil =>
    cases v with
    | nil => simp [cons_prefix_cons]
    | cons b v =>
      have hne : sep ≠ b := fun h => hv (h ▸ mem_cons_self)
      simp [cons_prefix_cons, hne]
  | cons a u ih =>
    cases v with
    | nil =>
      have hne : a ≠ sep := fun h => hu (h ▸ mem_cons_self)
      simp [cons_prefix_cons, hne]
    | cons b v =>
      have hu' : sep ∉ u := fun h => hu (mem_cons_of_mem _ h)
      have hv' : sep ∉ v := fun h => hv (mem_cons_of_mem _ h)
      rw [cons_append, cons_append, cons_prefix_cons, ih hu' hv', List.cons.injEq, and_assoc]

end codes

/-- A map from words, with its entries in order. -/
structure WordMap (A V : Type) [LT A] where
  entries : List (List A × V)
  sorted : entries.Pairwise fun e e' => e.1 < e'.1

namespace WordMap

variable {A V : Type} [LT A] [LE A] [Std.IsLinearOrder A] [Std.LawfulOrderLT A] [DecidableLT A] [DecidableEq A]

def empty : WordMap A V := ⟨[], .nil⟩

def has (k : List A) (m : WordMap A V) : Bool := m.entries.any fun e => e.1 = k

def put (k : List A) (v : V) (m : WordMap A V) : WordMap A V where
  entries := (m.entries.filter fun e => e.1 < k) ++ (k, v) :: m.entries.filter fun e => k < e.1
  sorted := by
    refine pairwise_append.mpr ⟨m.sorted.filter _, pairwise_cons.mpr ⟨fun e he => ?_, m.sorted.filter _⟩, ?_⟩
    · exact of_decide_eq_true (mem_filter.mp he).2
    · intro e he e' he'
      have hlt : e.1 < k := of_decide_eq_true (mem_filter.mp he).2
      rcases mem_cons.mp he' with rfl | he'
      · exact hlt
      · have hlt' : k < e'.1 := of_decide_eq_true (mem_filter.mp he').2
        exact List.lt_trans hlt hlt'

def delete (k : List A) (m : WordMap A V) : WordMap A V :=
  ⟨m.entries.filter fun e => e.1 ≠ k, m.sorted.filter _⟩

/-- The entries whose keys begin with `front`. -/
def scan (front : List A) (m : WordMap A V) : List (List A × V) := m.entries.filter fun e => front <+: e.1

def iterFrom (front : List A) (m : WordMap A V) : List (List A × V) := m.entries.dropWhile fun e => e.1 < front

section lemmas

variable {m : WordMap A V} {k front : List A} {v : V} {e e' : List A × V}

lemma mem_put : e ∈ (m.put k v).entries ↔ e = (k, v) ∨ e ∈ m.entries ∧ e.1 ≠ k := by
  simp only [put, mem_append, mem_filter, mem_cons, decide_eq_true_eq]
  constructor
  · rintro (⟨he, hlt⟩ | rfl | ⟨he, hlt⟩)
    · exact .inr ⟨he, fun h => List.lt_irrefl k (h ▸ hlt)⟩
    · exact .inl rfl
    · exact .inr ⟨he, fun h => List.lt_irrefl k (h ▸ hlt)⟩
  · rintro (rfl | ⟨he, hne⟩)
    · exact .inr (.inl rfl)
    · rcases Std.lt_trichotomy e.1 k with hlt | heq | hlt
      · exact .inl ⟨he, hlt⟩
      · exact absurd heq hne
      · exact .inr (.inr ⟨he, hlt⟩)

lemma mem_delete : e ∈ (m.delete k).entries ↔ e ∈ m.entries ∧ e.1 ≠ k := by
  rw [delete, mem_filter, decide_eq_true_iff]

lemma mem_scan : e ∈ m.scan front ↔ e ∈ m.entries ∧ front <+: e.1 := by
  rw [scan, mem_filter, decide_eq_true_iff]

lemma has_iff : m.has k = true ↔ ∃ e ∈ m.entries, e.1 = k := by
  simp [has]

lemma pairwise_ne (m : WordMap A V) : m.entries.Pairwise fun e e' => e.1 ≠ e'.1 :=
  m.sorted.imp fun {a b} (hlt : a.1 < b.1) (heq : a.1 = b.1) => List.lt_irrefl b.1 (by rwa [heq] at hlt)

lemma mem_foldl_delete (ks : List (List A)) :
    e ∈ (ks.foldl (fun m k => m.delete k) m).entries ↔ e ∈ m.entries ∧ e.1 ∉ ks := by
  induction ks generalizing m with
  | nil => simp
  | cons k ks ih => rw [foldl_cons, ih, mem_delete, mem_cons, not_or, and_assoc]

/-! ## Iterators -/

lemma not_lt_of_prefix {u w : List A} (h : u <+: w) : ¬w < u := by
  induction u generalizing w with
  | nil => exact not_lt_nil w
  | cons a u ih =>
    obtain ⟨z, rfl⟩ := h
    rw [cons_append, cons_lt_cons_iff]
    rintro (hlt | ⟨-, hlt⟩)
    · exact Std.lt_irrefl hlt
    · exact ih (prefix_append u z) hlt

lemma prefix_of_between {u w w' : List A} (hle : ¬w < u) (hlt : w < w') (h : u <+: w') : u <+: w := by
  induction u generalizing w w' with
  | nil => exact nil_prefix
  | cons a u ih =>
    obtain ⟨z, rfl⟩ := h
    cases w with
    | nil => exact absurd (nil_lt_cons a u) hle
    | cons b w =>
      rw [cons_append, cons_lt_cons_iff] at hlt
      rw [cons_lt_cons_iff, not_or, not_and] at hle
      rcases hlt with hba | ⟨rfl, hlt⟩
      · exact absurd hba hle.1
      · exact cons_prefix_cons.mpr ⟨rfl, ih (hle.2 rfl) hlt (prefix_append u z)⟩

/-- **An iterator that stops in time is a scan.** -/
lemma takeWhile_iterFrom (front : List A) (m : WordMap A V) :
    (m.iterFrom front).takeWhile (fun e => front <+: e.1) = m.scan front := by
  obtain ⟨l, hsorted⟩ := m
  rw [iterFrom, scan]
  simp only
  induction l with
  | nil => rfl
  | cons e l ih =>
    obtain ⟨hhead, htail⟩ := pairwise_cons.mp hsorted
    by_cases hlt : e.1 < front
    · have hnot : ¬front <+: e.1 := fun h => not_lt_of_prefix h hlt
      rw [dropWhile_cons_of_pos (by simpa using hlt), ih htail, filter_cons_of_neg (by simpa using hnot)]
    · rw [dropWhile_cons_of_neg (by simpa using hlt)]
      by_cases hfront : front <+: e.1
      · rw [takeWhile_cons_of_pos (by simpa using hfront), filter_cons_of_pos (by simpa using hfront),
          ← ih htail]
        congr 2
        -- nothing after the first entry comes before the front
        cases l with
        | nil => rfl
        | cons e' l =>
          have hnext := hhead e' mem_cons_self
          have hnot : ¬e'.1 < front := fun h => not_lt_of_prefix hfront (List.lt_trans hnext h)
          rw [dropWhile_cons_of_neg (by simpa using hnot)]
      · -- and none of them begins with the front
        rw [takeWhile_cons_of_neg (by simpa using hfront), filter_cons_of_neg (by simpa using hfront)]
        refine (filter_eq_nil_iff.mpr fun e' he' => ?_).symm
        simpa using fun h => hfront (prefix_of_between hlt (hhead e' he') h)

end lemmas

end WordMap

end QuillCache.Lib
