import Mathlib.Data.List.MinMax

/-!
# First minima

What the first minimum of a function on a list does under maps, repetitions and overflow. `List.argmin` is what
`min_by_key` and a loop that keeps the best so far compute; `max_by_key` keeps the last maximum, which is the first one
of the reversed list.
-/

namespace QuillCache.Lib

open List

variable {α β γ : Type} [LinearOrder γ]

lemma argmin_map (f : β → γ) (g : α → β) (l : List α) : (l.map g).argmin f = (l.argmin (f ∘ g)).map g := by
  induction l using List.reverseRecOn with
  | nil => rfl
  | append_singleton l a ih =>
    rw [map_append, map_singleton, argmin_concat, argmin_concat, ih]
    cases l.argmin (f ∘ g) with
    | none => rfl
    | some c =>
      simp only [Option.map_some, Function.comp_apply]
      split_ifs <;> rfl

lemma argmin_append_of_subset (f : α → γ) {l l' : List α} (h : l' ⊆ l) : (l ++ l').argmin f = l.argmin f := by
  induction l' using List.reverseRecOn with
  | nil => rw [append_nil]
  | append_singleton l' a ih =>
    obtain ⟨hl', ha⟩ := append_subset.mp h
    rw [← append_assoc, argmin_concat, ih hl']
    cases hmin : l.argmin f with
    | none =>
      rw [argmin_eq_none] at hmin
      subst hmin
      exact absurd (ha (mem_singleton_self a)) not_mem_nil
    | some c =>
      have hle : f c ≤ f a := le_of_mem_argmin (ha (mem_singleton_self a)) hmin
      simp only [hle.not_gt, if_false]

lemma argmin_of_split (f : α → γ) {before after : List α} {m : α} (hbefore : ∀ a ∈ before, f m < f a)
    (hafter : ∀ a ∈ after, f m ≤ f a) : (before ++ m :: after).argmin f = some m := by
  induction before with
  | nil =>
    rw [nil_append, argmin_cons]
    cases hmin : after.argmin f with
    | none => rfl
    | some c =>
      have hle : f m ≤ f c := hafter c (argmin_mem hmin)
      simp only [hle.not_gt, if_false]
  | cons a before ih =>
    obtain ⟨ha, hrest⟩ := forall_mem_cons.mp hbefore
    rw [cons_append, argmin_cons, ih hrest]
    simp only [ha, if_true]

lemma split_of_argmin (f : α → γ) {l : List α} {m : α} (h : l.argmin f = some m) :
    ∃ before after, l = before ++ m :: after ∧ (∀ a ∈ before, f m < f a) ∧ ∀ a ∈ after, f m ≤ f a := by
  induction l with
  | nil => exact absurd h (Option.some_ne_none m).symm
  | cons a l ih =>
    have hall : ∀ x ∈ a :: l, f m ≤ f x := fun x hx => le_of_mem_argmin hx h
    rw [argmin_cons] at h
    cases hmin : l.argmin f with
    | none =>
      rw [hmin] at h
      cases h
      exact ⟨[], l, rfl, forall_mem_nil _, (forall_mem_cons.mp hall).2⟩
    | some c =>
      rw [hmin] at h
      simp only at h
      split_ifs at h with hlt
      · cases h
        obtain ⟨before, after, rfl, hbefore, hafter⟩ := ih hmin
        exact ⟨a :: before, after, rfl, forall_mem_cons.mpr ⟨hlt, hbefore⟩, hafter⟩
      · cases h
        exact ⟨[], l, rfl, forall_mem_nil _, (forall_mem_cons.mp hall).2⟩

end QuillCache.Lib
