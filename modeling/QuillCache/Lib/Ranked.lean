import Mathlib.Data.List.Sort
import Mathlib.Data.List.Flatten
import Mathlib.Data.Prod.Lex

/-!
# Truncated concatenations in the order of a key

Things are sorted by a key, each contributes its list, and the concatenation is cut after `n` elements. The result does
not depend on the order in which the things came if and only if any two with the same key that contribute something
come after the cut (`take_flatMap_perm_iff`).
-/

namespace QuillCache.Lib

open List

variable {α β γ : Type} [LinearOrder γ] (key : α → γ)

/-- The list in the order of a key; what has the same key keeps its order. -/
def sortByKey (l : List α) : List α := l.insertionSort fun a b => key a ≤ key b

variable {key} {l l₁ l₂ : List α}

lemma sortByKey_perm (key : α → γ) (l : List α) : (sortByKey key l).Perm l := perm_insertionSort _ l

lemma pairwise_sortByKey (key : α → γ) (l : List α) : (sortByKey key l).Pairwise fun a b => key a ≤ key b := by
  have : Std.Total fun a b : α => key a ≤ key b := ⟨fun a b => le_total (key a) (key b)⟩
  have : IsTrans α fun a b => key a ≤ key b := ⟨fun _ _ _ => le_trans⟩
  exact pairwise_insertionSort _ l

lemma sortByKey_eq_of_perm (hkey : key.Injective) (h : l₁.Perm l₂) : sortByKey key l₁ = sortByKey key l₂ := by
  have : Std.Antisymm fun a b : α => key a ≤ key b := ⟨fun _ _ hab hba => hkey (le_antisymm hab hba)⟩
  exact (((sortByKey_perm key l₁).trans h).trans (sortByKey_perm key l₂).symm).eq_of_pairwise' (pairwise_sortByKey key l₁)
    (pairwise_sortByKey key l₂)

lemma takeWhile_eq_filter_of_sorted (h : l.Pairwise fun a b => key a ≤ key b) (c : γ) :
    l.takeWhile (fun x => key x < c) = l.filter fun x => key x < c := by
  induction l with
  | nil => rfl
  | cons a l ih =>
    obtain ⟨ha, hl⟩ := pairwise_cons.mp h
    by_cases hlt : key a < c
    · rw [takeWhile_cons_of_pos (by simpa using hlt), filter_cons_of_pos (by simpa using hlt), ih hl]
    · rw [takeWhile_cons_of_neg (by simpa using hlt), filter_cons_of_neg (by simpa using hlt), eq_comm,
        filter_eq_nil_iff]
      intro b hb
      simpa using (not_lt.mp hlt).trans (ha b hb)

lemma sortByKey_cons (key : α → γ) (a : α) (l : List α) : ∃ rest, sortByKey key (a :: l) =
    (sortByKey key l).filter (fun x => key x < key a) ++ a :: rest := by
  refine ⟨(sortByKey key l).dropWhile fun x => ¬key a ≤ key x, ?_⟩
  rw [← takeWhile_eq_filter_of_sorted (pairwise_sortByKey key l)]
  simp only [← not_le]
  exact insertionSort_cons_eq_take_drop _ a l

variable (key) (due : α → List β) (n : ℕ)

/-- Of two with the same key that contribute something, both come after the cut. -/
def Separated (l : List α) : Prop :=
  ∀ a ∈ l, ∀ b ∈ l, a ≠ b → key a = key b → due a ≠ [] → due b ≠ [] →
    n ≤ ((l.filter fun x => key x < key a).flatMap due).length

variable {key due n}

/-- Two sorted lists of the same things. The induction takes off the first of each; unless it is the same one, the cut
is reached. -/
lemma take_flatMap_eq (hperm : l₁.Perm l₂) (h₁ : l₁.Pairwise fun a b => key a ≤ key b)
    (h₂ : l₂.Pairwise fun a b => key a ≤ key b) (hdue : ∀ a ∈ l₁, due a ≠ []) (hsep : Separated key due n l₁) :
    (l₁.flatMap due).take n = (l₂.flatMap due).take n := by
  induction l₁ generalizing l₂ n with
  | nil => rw [hperm.nil_eq]
  | cons p t₁ ih =>
    cases l₂ with
    | nil => exact absurd hperm.eq_nil (cons_ne_nil _ _)
    | cons q t₂ =>
      obtain ⟨hp, ht₁⟩ := pairwise_cons.mp h₁
      obtain ⟨hq, ht₂⟩ := pairwise_cons.mp h₂
      have hmin : ((p :: t₁).filter fun x => key x < key p) = [] := by
        rw [filter_eq_nil_iff]
        intro x hx
        rcases mem_cons.mp hx with rfl | hx
        · simp
        · simpa using hp x hx
      by_cases hpq : p = q
      · subst hpq
        rw [flatMap_cons, flatMap_cons, take_append, take_append]
        refine congrArg _ (ih (perm_cons _ |>.mp hperm) ht₁ ht₂ (fun a ha => hdue a (.tail _ ha)) ?_)
        intro a ha b hb hne hkey hda hdb
        have hle := hsep a (.tail _ ha) b (.tail _ hb) hne hkey hda hdb
        rcases (hp a ha).lt_or_eq with hlt | heq
        · rw [filter_cons_of_pos (by simpa using hlt), flatMap_cons, length_append] at hle
          omega
        · rw [← heq, hmin] at hle
          simp only [flatMap_nil, length_nil] at hle
          omega
      · have hqmem : q ∈ p :: t₁ := hperm.mem_iff.mpr mem_cons_self
        have hpmem : p ∈ q :: t₂ := hperm.mem_iff.mp mem_cons_self
        have hkey : key p = key q :=
          le_antisymm (hp q (mem_of_ne_of_mem (Ne.symm hpq) hqmem)) (hq p (mem_of_ne_of_mem hpq hpmem))
        have hle := hsep p mem_cons_self q hqmem hpq hkey (hdue p mem_cons_self) (hdue q hqmem)
        rw [hmin, flatMap_nil, length_nil, Nat.le_zero] at hle
        rw [hle, take_zero, take_zero]

lemma flatMap_filter_ne_nil (l : List α) : (l.filter fun a => !(due a).isEmpty).flatMap due = l.flatMap due := by
  induction l with
  | nil => rfl
  | cons a l ih =>
    rw [filter_cons]
    split_ifs with ha
    · rw [flatMap_cons, flatMap_cons, ih]
    · rw [ih, flatMap_cons, show due a = [] by simpa using ha, nil_append]

lemma Separated.take_eq (hsep : Separated key due n l) (h₁ : l₁.Perm l) (h₂ : l₂.Perm l) :
    ((sortByKey key l₁).flatMap due).take n = ((sortByKey key l₂).flatMap due).take n := by
  have hs₁ := (sortByKey_perm key l₁).trans h₁
  have hs₂ := (sortByKey_perm key l₂).trans h₂
  rw [← flatMap_filter_ne_nil, ← flatMap_filter_ne_nil (sortByKey key l₂)]
  refine take_flatMap_eq ((hs₁.trans hs₂.symm).filter _) ((pairwise_sortByKey key l₁).sublist filter_sublist)
    ((pairwise_sortByKey key l₂).sublist filter_sublist) (fun a ha => by simpa using (mem_filter.mp ha).2) ?_
  intro a ha b hb hne hkey hda hdb
  refine (hsep a (hs₁.mem_iff.mp (mem_of_mem_filter ha)) b (hs₁.mem_iff.mp (mem_of_mem_filter hb)) hne hkey
    hda hdb).trans_eq ?_
  rw [filter_comm, flatMap_filter_ne_nil]
  exact ((hs₁.symm.filter _).flatMap_right due).length_eq

/-- The first element that `a` contributes, if it comes first among those with its key. -/
lemma getElem_take_flatMap (key : α → γ) {a : α} {rest : List α} (hrest : (a :: rest).Perm l)
    (hlt : ((l.filter fun x => key x < key a).flatMap due).length < n) (ha : due a ≠ []) :
    (((sortByKey key (a :: rest)).flatMap due).take n)[((l.filter fun x => key x < key a).flatMap due).length]? =
      (due a).head? := by
  obtain ⟨tail, htail⟩ := sortByKey_cons key a rest
  have hlen : (((sortByKey key rest).filter fun x => key x < key a).flatMap due).length =
      ((l.filter fun x => key x < key a).flatMap due).length := by
    have hfilter := (hrest.filter fun x => key x < key a).flatMap_right due
    rw [filter_cons_of_neg (by simp)] at hfilter
    rw [← hfilter.length_eq]
    exact (((sortByKey_perm key rest).filter _).flatMap_right due).length_eq
  rw [htail, flatMap_append, flatMap_cons, getElem?_take_of_lt hlt, ← hlen,
    getElem?_append_right le_rfl, Nat.sub_self, getElem?_append_left (length_pos_of_ne_nil ha),
    head?_eq_getElem?]

theorem take_flatMap_perm_iff (hdiff : ∀ a ∈ l, ∀ b ∈ l, a ≠ b → key a = key b → due a ≠ [] → due b ≠ [] →
      (due a).head? ≠ (due b).head?) :
    (∀ l', l'.Perm l → ((sortByKey key l').flatMap due).take n = ((sortByKey key l).flatMap due).take n) ↔
      Separated key due n l := by
  classical
  refine ⟨fun h a ha b hb hne hkey hda hdb => ?_, fun hsep l' hl' => hsep.take_eq hl' (.refl l)⟩
  by_contra hlt
  have hswap : ∀ x ∈ l, ∃ rest, (x :: rest).Perm l := fun x hx => ⟨l.erase x, (perm_cons_erase hx).symm⟩
  obtain ⟨ra, hra⟩ := hswap a ha
  obtain ⟨rb, hrb⟩ := hswap b hb
  have hla := getElem_take_flatMap key hra (not_le.mp hlt) hda
  have hlb := getElem_take_flatMap key (n := n) hrb (by rw [← hkey]; exact not_le.mp hlt) hdb
  rw [h _ hra] at hla
  rw [h _ hrb, ← hkey] at hlb
  exact hdiff a ha b hb hne hkey hda hdb (hla.symm.trans hlb)

end QuillCache.Lib
