import Mathlib

/-!
# Two-level bitmaps

A two-level bitmap over pairs `(t, l)` keeps one leaf word per `t` and a top word with a bit per
non-zero leaf word. `TwoLevel leaf top P` says that it represents the predicate `P`; setting a bit
adds a pair (`TwoLevel.insert`), clearing it removes one (`TwoLevel.erase`).
-/

namespace QuillCache.Lib

variable {w n : ℕ}

lemma ne_zero_iff_exists_getLsbD {x : BitVec w} : x ≠ 0 ↔ ∃ i < w, x.getLsbD i = true := by
  constructor
  · intro hx
    by_contra hall
    push Not at hall
    refine hx (BitVec.eq_of_getLsbD_eq fun i hi => ?_)
    simpa using hall i hi
  · rintro ⟨i, -, hi⟩ rfl
    simp at hi

lemma clz_spec {x : BitVec w} (hw : 0 < w) (hx : x ≠ 0) :
    x.clz.toNat ≤ w - 1 ∧ x.getLsbD (w - 1 - x.clz.toNat) = true ∧
      ∀ i, x.getLsbD i = true → i ≤ w - 1 - x.clz.toNat := by
  have hlt := BitVec.toNat_lt_two_pow_sub_clz (x := x)
  have hbits : ∀ i, x.getLsbD i = true → i < w - x.clz.toNat := fun i hi =>
    (Nat.pow_lt_pow_iff_right (by norm_num)).mp ((Nat.ge_two_pow_of_testBit hi).trans_lt hlt)
  have hset := BitVec.getLsbD_true_clz_of_ne_zero hw hx
  have := hbits _ hset
  exact ⟨by omega, hset, fun i hi => by have := hbits i hi; omega⟩

lemma getLsbD_or_bit {x : BitVec w} {l : ℕ} (hl : l < w) (i : ℕ) :
    (x ||| (1#w <<< l)).getLsbD i = true ↔ x.getLsbD i = true ∨ i = l := by
  simp only [BitVec.getLsbD_or, BitVec.getLsbD_shiftLeft, BitVec.getLsbD_one, Bool.or_eq_true,
    Bool.and_eq_true, decide_eq_true_eq, Bool.not_eq_true', decide_eq_false_iff_not]
  refine or_congr_right ⟨fun h => by omega, fun h => ?_⟩
  subst h
  omega

lemma getLsbD_and_not_bit {x : BitVec w} {l : ℕ} (hl : l < w) (i : ℕ) :
    (x &&& ~~~(1#w <<< l)).getLsbD i = true ↔ x.getLsbD i = true ∧ i ≠ l := by
  simp only [BitVec.getLsbD_and, BitVec.getLsbD_not, BitVec.getLsbD_shiftLeft, BitVec.getLsbD_one,
    Bool.and_eq_true, decide_eq_true_eq, Bool.not_eq_true', Bool.and_eq_false_iff,
    decide_eq_false_iff_not, Bool.not_eq_false', ne_eq]
  refine and_congr_right fun hx => ⟨fun h hil => ?_, fun h => ⟨BitVec.lt_of_getLsbD hx, by omega⟩⟩
  subst hil
  omega

lemma and_bit_ne_zero_iff {x : BitVec w} {l : ℕ} (hl : l < w) :
    x &&& (1#w <<< l) ≠ 0 ↔ x.getLsbD l = true := by
  rw [ne_zero_iff_exists_getLsbD]
  simp only [BitVec.getLsbD_and, BitVec.getLsbD_shiftLeft, BitVec.getLsbD_one, Bool.and_eq_true,
    decide_eq_true_eq, Bool.not_eq_true', decide_eq_false_iff_not]
  constructor
  · rintro ⟨i, hi, hx, h⟩
    have : i = l := by omega
    exact this ▸ hx
  · intro hx
    exact ⟨l, hl, hx, by omega⟩

lemma getLsbD_one_shiftLeft_sub_one {k : ℕ} (hk : k < w) (i : ℕ) :
    ((1#w <<< k) - 1#w).getLsbD i = decide (i < k) := by
  have hpow : 2 ^ k < 2 ^ w := Nat.pow_lt_pow_right (by norm_num) hk
  have hpos : 0 < 2 ^ k := Nat.two_pow_pos k
  have h1 : (1#w <<< k).toNat = 2 ^ k := by
    rw [BitVec.toNat_shiftLeft, BitVec.toNat_one (by omega), Nat.shiftLeft_eq, Nat.one_mul,
      Nat.mod_eq_of_lt hpow]
  have h2 : ((1#w <<< k) - 1#w).toNat = 2 ^ k - 1 := by
    rw [BitVec.toNat_sub_of_le, h1, BitVec.toNat_one (by omega)]
    rw [BitVec.le_def, h1, BitVec.toNat_one (by omega)]
    exact hpos
  rw [BitVec.getLsbD, h2, Nat.testBit_two_pow_sub_one]

/-- The leaf words `leaf` and the top word `top` represent the pairs of `P`. -/
structure TwoLevel (leaf : ℕ → BitVec w) (top : BitVec n) (P : ℕ → ℕ → Prop) : Prop where
  /-- A leaf bit is set exactly for the pairs of `P`. -/
  leaf_iff : ∀ t < n, ∀ l < w, (leaf t).getLsbD l = true ↔ P t l
  /-- A top bit is set exactly for the non-zero leaf words. -/
  top_iff : ∀ t < n, top.getLsbD t = true ↔ leaf t ≠ 0

namespace TwoLevel

variable {leaf leaf' : ℕ → BitVec w} {top top' : BitVec n} {P Q : ℕ → ℕ → Prop}

lemma congr (h : TwoLevel leaf top P) (hPQ : ∀ t < n, ∀ l < w, P t l ↔ Q t l) :
    TwoLevel leaf top Q :=
  ⟨fun t ht l hl => (h.leaf_iff t ht l hl).trans (hPQ t ht l hl), h.top_iff⟩

lemma top_iff_exists (h : TwoLevel leaf top P) {t : ℕ} (ht : t < n) :
    top.getLsbD t = true ↔ ∃ l < w, P t l := by
  rw [h.top_iff t ht, ne_zero_iff_exists_getLsbD]
  exact exists_congr fun l => and_congr_right fun hl => h.leaf_iff t ht l hl

lemma insert (h : TwoLevel leaf top P) {t l : ℕ} (ht : t < n) (hl : l < w)
    (hleaf : ∀ u, leaf' u = if u = t then leaf t ||| (1#w <<< l) else leaf u) :
    TwoLevel leaf' (top ||| (1#n <<< t)) fun u k => (u = t ∧ k = l) ∨ P u k := by
  constructor
  · intro u hu k hk
    rw [hleaf u]
    split_ifs with hut
    · subst hut
      rw [getLsbD_or_bit hl, h.leaf_iff u hu k hk]
      tauto
    · rw [h.leaf_iff u hu k hk]
      tauto
  · intro u hu
    rw [getLsbD_or_bit ht, hleaf u, h.top_iff u hu]
    split_ifs with hut
    · subst hut
      simp only [or_true, true_iff]
      exact ne_zero_iff_exists_getLsbD.mpr ⟨l, hl, (getLsbD_or_bit hl l).mpr (.inr rfl)⟩
    · simp [hut]

lemma erase (h : TwoLevel leaf top P) {t l : ℕ} (ht : t < n) (hl : l < w)
    (hleaf : ∀ u, leaf' u = if u = t then leaf t &&& ~~~(1#w <<< l) else leaf u)
    (htop : top' = if leaf' t = 0 then top &&& ~~~(1#n <<< t) else top) :
    TwoLevel leaf' top' fun u k => ¬(u = t ∧ k = l) ∧ P u k := by
  constructor
  · intro u hu k hk
    rw [hleaf u]
    split_ifs with hut
    · subst hut
      rw [getLsbD_and_not_bit hl, h.leaf_iff u hu k hk]
      tauto
    · rw [h.leaf_iff u hu k hk]
      tauto
  · intro u hu
    by_cases hut : u = t
    · subst hut
      split_ifs at htop with hz
      · rw [htop, getLsbD_and_not_bit ht]
        simp [hz]
      · -- the old leaf word is not zero either: the new one has no more bits
        rw [htop, h.top_iff u hu]
        refine ⟨fun _ => hz, fun _ hz' => hz ?_⟩
        rw [hleaf u, if_pos rfl, hz']
        simp
    · rw [hleaf u, if_neg hut, ← h.top_iff u hu, htop]
      split_ifs
      · rw [getLsbD_and_not_bit ht]
        simp [hut]
      · rfl

end TwoLevel

end QuillCache.Lib
