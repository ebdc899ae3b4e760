import Mathlib

/-!
# The size bins of the offset allocator

Region sizes are bucketed into "small float" bins: an index `8·e + m` with a 5-bit exponent `e` and a 3-bit mantissa
`m`. On the bins below `240`, `floatToUint` is `binValue` (`floatToUint_eq_binValue`), which is strictly increasing;
**round down** picks the last bin whose size is at most the request (`le_roundDown_iff`), and **round up** the first one
whose size is at least the request (`roundUp_le_iff`).

Sizes are `ℕ`; the shifts of the source act on `u32`, so `floatToUint` keeps its result modulo `2 ^ 32`.

Source: `offset_allocator.rs`.
-/

namespace QuillCache.Store.SmallFloat

def mantissaBits : ℕ := 3

def mantissaValue : ℕ := 1 <<< mantissaBits

def mantissaMask : ℕ := mantissaValue - 1

/-- `MAX_BIN_SIZE`, the largest size one core allocator addresses (3.75 GiB).
Source: `small_float`. -/
def maxBinSize : ℕ := 4026531840

/-- Round a size up to the smallest bin index that still fits it. `31 - size.leading_zeros()` is
`Nat.log2`; the final `+` lets a mantissa overflow carry into the exponent. -/
def uintToFloatRoundUp (size : ℕ) : ℕ :=
  if size < mantissaValue then
    (0 <<< mantissaBits) + size
  else
    let highestSetBit := Nat.log2 size
    let mantissaStartBit := highestSetBit - mantissaBits
    let exp := mantissaStartBit + 1
    let mantissa := (size >>> mantissaStartBit) &&& mantissaMask
    let lowBitsMask := (1 <<< mantissaStartBit) - 1
    (exp <<< mantissaBits) + (if size &&& lowBitsMask ≠ 0 then mantissa + 1 else mantissa)

/-- Round a size down to the largest bin index it covers. -/
def uintToFloatRoundDown (size : ℕ) : ℕ :=
  if size < mantissaValue then
    (0 <<< mantissaBits) ||| size
  else
    let highestSetBit := Nat.log2 size
    let mantissaStartBit := highestSetBit - mantissaBits
    let exp := mantissaStartBit + 1
    let mantissa := (size >>> mantissaStartBit) &&& mantissaMask
    (exp <<< mantissaBits) ||| mantissa

/-- The size a bin index represents (the shift is a `u32` shift). -/
def floatToUint (floatValue : ℕ) : ℕ :=
  let exponent := floatValue >>> mantissaBits
  let mantissa := floatValue &&& mantissaMask
  if exponent = 0 then mantissa
  else ((mantissa ||| mantissaValue) <<< (exponent - 1)) % 2 ^ 32

/-! ## Arithmetic form of the conversions -/

/-- The bin value without the 32-bit wrap: `n` below `8`, and `(8 + n % 8) · 2 ^ (n / 8 - 1)` from
`8` on. -/
def binValue (n : ℕ) : ℕ := if n < 8 then n else (n % 8 + 8) * 2 ^ (n / 8 - 1)

lemma binValue_of_lt {n : ℕ} (h : n < 8) : binValue n = n := by simp [binValue, h]

lemma binValue_mk {e m : ℕ} (hm : m < 8) : binValue (8 * (e + 1) + m) = (m + 8) * 2 ^ e := by
  have h1 : ¬ 8 * (e + 1) + m < 8 := by omega
  have h2 : (8 * (e + 1) + m) % 8 = m := by omega
  have h3 : (8 * (e + 1) + m) / 8 - 1 = e := by omega
  rw [binValue, if_neg h1, h2, h3]

lemma exists_bin_mk {n : ℕ} (h : 8 ≤ n) : ∃ e m, m < 8 ∧ n = 8 * (e + 1) + m :=
  ⟨n / 8 - 1, n % 8, Nat.mod_lt _ (by norm_num), by omega⟩

lemma binValue_lt_succ (n : ℕ) : binValue n < binValue (n + 1) := by
  by_cases h : n < 7
  · rw [binValue_of_lt (by omega), binValue_of_lt (by omega)]; omega
  by_cases h7 : n = 7
  · subst h7; decide
  obtain ⟨e, m, hm, rfl⟩ := exists_bin_mk (n := n) (by omega)
  have hpos : 0 < 2 ^ e := by positivity
  by_cases hm7 : m = 7
  · subst hm7
    have : 8 * (e + 1) + 7 + 1 = 8 * (e + 1 + 1) + 0 := by omega
    rw [this, binValue_mk (by norm_num), binValue_mk (by norm_num), pow_succ]
    omega
  · have : 8 * (e + 1) + m + 1 = 8 * (e + 1) + (m + 1) := by omega
    rw [this, binValue_mk hm, binValue_mk (by omega)]
    exact Nat.mul_lt_mul_of_pos_right (by omega) hpos

lemma binValue_strictMono : StrictMono binValue := strictMono_nat_of_lt_succ binValue_lt_succ

lemma binValue_239 : binValue 239 = maxBinSize := by decide

lemma floatToUint_eq_binValue {n : ℕ} (h : n < 240) : floatToUint n = binValue n := by
  have hle : binValue n ≤ maxBinSize := by
    rw [← binValue_239]; exact binValue_strictMono.monotone (by omega)
  have hmask : n &&& mantissaMask = n % 8 := Nat.and_two_pow_sub_one_eq_mod n 3
  have hexp : n >>> mantissaBits = n / 8 := Nat.shiftRight_eq_div_pow n 3
  unfold floatToUint
  simp only [hmask, hexp]
  by_cases h8 : n < 8
  · rw [if_pos (by omega), binValue_of_lt h8, Nat.mod_eq_of_lt h8]
  · have hor : n % 8 ||| mantissaValue = n % 8 + 8 :=
      Nat.or_two_pow_eq_add_of_lt (n := 3) (Nat.mod_lt n (by norm_num))
    have hval : (n % 8 + 8) * 2 ^ (n / 8 - 1) = binValue n := by rw [binValue, if_neg h8]
    rw [if_neg (by omega), hor, Nat.shiftLeft_eq, hval]
    exact Nat.mod_eq_of_lt (by unfold maxBinSize at hle; omega)

variable {size : ℕ}

lemma log2_split (h : 8 ≤ size) : 8 ≤ size / 2 ^ (Nat.log2 size - 3) ∧ size / 2 ^ (Nat.log2 size - 3) < 16 := by
  have hne : size ≠ 0 := by omega
  have hlo : 2 ^ Nat.log2 size ≤ size := Nat.log2_self_le hne
  have hhi : size < 2 ^ (Nat.log2 size + 1) := Nat.lt_log2_self
  have h3 : 3 ≤ Nat.log2 size := (Nat.le_log2 hne).mpr (by omega)
  obtain ⟨s, hs⟩ : ∃ s, Nat.log2 size = s + 3 := ⟨Nat.log2 size - 3, by omega⟩
  have hpos : 0 < 2 ^ s := by positivity
  rw [hs] at hlo hhi ⊢
  rw [Nat.add_sub_cancel]
  constructor
  · rw [Nat.le_div_iff_mul_le hpos]
    calc 8 * 2 ^ s = 2 ^ (s + 3) := by rw [pow_add]; ring
      _ ≤ size := hlo
  · rw [Nat.div_lt_iff_lt_mul hpos]
    calc size < 2 ^ (s + 3 + 1) := hhi
      _ = 16 * 2 ^ s := by rw [pow_add, pow_add]; ring

lemma and_mask_of_lt {q : ℕ} (h1 : 8 ≤ q) (h2 : q < 16) : q &&& mantissaMask = q - 8 := by
  have : q &&& mantissaMask = q % 8 := Nat.and_two_pow_sub_one_eq_mod q 3
  omega

lemma roundDown_of_lt (h : size < 8) : uintToFloatRoundDown size = size := by
  have : size < mantissaValue := h
  simp [uintToFloatRoundDown, this]

lemma roundDown_of_le (h : 8 ≤ size) :
    uintToFloatRoundDown size =
      8 * (Nat.log2 size - 3 + 1) + (size / 2 ^ (Nat.log2 size - 3) - 8) := by
  have hn : ¬ size < mantissaValue := by show ¬ size < 8; omega
  obtain ⟨h1, h2⟩ := log2_split h
  unfold uintToFloatRoundDown
  simp only [if_neg hn]
  rw [show mantissaBits = 3 from rfl, Nat.shiftRight_eq_div_pow, and_mask_of_lt h1 h2,
    ← Nat.shiftLeft_add_eq_or_of_lt (by omega), Nat.shiftLeft_eq]
  ring

lemma roundUp_of_lt (h : size < 8) : uintToFloatRoundUp size = size := by
  have : size < mantissaValue := h
  simp [uintToFloatRoundUp, this]

lemma roundUp_of_le (h : 8 ≤ size) :
    uintToFloatRoundUp size =
      if size % 2 ^ (Nat.log2 size - 3) = 0 then uintToFloatRoundDown size
      else uintToFloatRoundDown size + 1 := by
  have hn : ¬ size < mantissaValue := by show ¬ size < 8; omega
  obtain ⟨h1, h2⟩ := log2_split h
  rw [roundDown_of_le h]
  unfold uintToFloatRoundUp
  simp only [if_neg hn]
  rw [show mantissaBits = 3 from rfl, Nat.shiftRight_eq_div_pow, and_mask_of_lt h1 h2,
    Nat.one_shiftLeft, Nat.and_two_pow_sub_one_eq_mod, Nat.shiftLeft_eq]
  by_cases hr : size % 2 ^ (Nat.log2 size - 3) = 0
  · simp only [hr, ne_eq, not_true_eq_false, if_false, if_true]; ring
  · simp only [hr, ne_eq, not_false_eq_true, if_false, if_true]; ring

/-! ## What the roundings compute -/

lemma binValue_roundDown_le (size : ℕ) : binValue (uintToFloatRoundDown size) ≤ size := by
  by_cases h : size < 8
  · rw [roundDown_of_lt h, binValue_of_lt h]
  · obtain ⟨h1, h2⟩ := log2_split (not_lt.mp h)
    rw [roundDown_of_le (by omega), binValue_mk (by omega), Nat.sub_add_cancel h1]
    exact Nat.div_mul_le_self _ _

lemma lt_binValue_roundDown_succ (size : ℕ) :
    size < binValue (uintToFloatRoundDown size + 1) := by
  by_cases h : size < 7
  · rw [roundDown_of_lt (by omega), binValue_of_lt (by omega)]; omega
  by_cases h7 : size = 7
  · subst h7; decide
  have h8 : 8 ≤ size := by omega
  obtain ⟨h1, h2⟩ := log2_split h8
  set s := Nat.log2 size - 3
  set q := size / 2 ^ s
  have hlt : size < (q + 1) * 2 ^ s := by
    rw [add_mul, one_mul, mul_comm]
    exact Nat.lt_mul_div_succ size (by positivity)
  have hle : (q + 1) * 2 ^ s ≤ binValue (8 * (s + 1) + (q - 8) + 1) := by
    by_cases hq : q = 15
    · have : 8 * (s + 1) + (q - 8) + 1 = 8 * (s + 1 + 1) + 0 := by omega
      rw [this, binValue_mk (by norm_num), hq, pow_succ]
      omega
    · have : 8 * (s + 1) + (q - 8) + 1 = 8 * (s + 1) + (q - 8 + 1) := by omega
      rw [this, binValue_mk (by omega)]
      exact Nat.mul_le_mul_right _ (by omega)
  rw [roundDown_of_le h8]
  exact lt_of_lt_of_le hlt hle

lemma le_roundDown_iff {n size : ℕ} : n ≤ uintToFloatRoundDown size ↔ binValue n ≤ size := by
  constructor
  · intro h
    exact le_trans (binValue_strictMono.monotone h) (binValue_roundDown_le size)
  · intro h
    by_contra hc
    have := binValue_strictMono.monotone (show uintToFloatRoundDown size + 1 ≤ n by omega)
    have := lt_binValue_roundDown_succ size
    omega

lemma le_binValue_roundUp (size : ℕ) : size ≤ binValue (uintToFloatRoundUp size) := by
  by_cases h : size < 8
  · rw [roundUp_of_lt h, binValue_of_lt h]
  · have h8 : 8 ≤ size := by omega
    rw [roundUp_of_le h8]
    split_ifs with hr
    · obtain ⟨h1, h2⟩ := log2_split h8
      rw [roundDown_of_le h8, binValue_mk (by omega), Nat.sub_add_cancel h1]
      exact le_of_eq (Nat.div_mul_cancel (Nat.dvd_of_mod_eq_zero hr)).symm
    · exact (lt_binValue_roundDown_succ size).le

lemma roundUp_le_iff {n size : ℕ} : uintToFloatRoundUp size ≤ n ↔ size ≤ binValue n := by
  constructor
  · intro h
    exact le_trans (le_binValue_roundUp size) (binValue_strictMono.monotone h)
  · intro h
    by_contra hc
    have hlt : n < uintToFloatRoundUp size := by omega
    by_cases h8 : size < 8
    · rw [roundUp_of_lt h8] at hlt
      rw [binValue_of_lt (by omega)] at h
      omega
    rw [roundUp_of_le (by omega)] at hlt
    split_ifs at hlt with hr
    · have h1 := binValue_strictMono hlt
      have h2 := binValue_roundDown_le size
      omega
    · have hn : n ≤ uintToFloatRoundDown size := by omega
      have h1 := binValue_strictMono.monotone hn
      have h8 : 8 ≤ size := by omega
      obtain ⟨hq1, hq2⟩ := log2_split h8
      have hlt' : binValue (uintToFloatRoundDown size) < size := by
        rw [roundDown_of_le (by omega), binValue_mk (by omega), Nat.sub_add_cancel hq1]
        have := Nat.div_add_mod size (2 ^ (Nat.log2 size - 3))
        rw [mul_comm] at this
        omega
      omega

lemma roundUp_lt_240 (h : size ≤ maxBinSize) : uintToFloatRoundUp size < 240 :=
  Nat.lt_succ_of_le (roundUp_le_iff.mpr (by rw [binValue_239]; exact h))

lemma roundDown_lt_240 (h : size < 2 ^ 32) : uintToFloatRoundDown size < 240 := by
  by_contra hge
  have hbin : binValue 240 ≤ size := le_roundDown_iff.mp (not_lt.mp hge)
  have : binValue 240 = 2 ^ 32 := by decide
  omega

lemma floatToUint_roundUp (h : size ≤ maxBinSize) :
    size ≤ floatToUint (uintToFloatRoundUp size) ∧
      floatToUint (uintToFloatRoundUp size) ≤ maxBinSize := by
  have h240 := roundUp_lt_240 h
  rw [floatToUint_eq_binValue h240]
  refine ⟨le_binValue_roundUp size, ?_⟩
  rw [← binValue_239]
  exact binValue_strictMono.monotone (by omega)

/-- On the bins up to `239` the conversion is strictly increasing; rounding up gives the least bin that is large
enough, and rounding down the greatest of these bins that is small enough. From bin `240` on the shift of
`floatToUint` drops its highest bits. -/
theorem rounding_isLeast_isGreatest (size : ℕ) (hsize : size ≤ maxBinSize) :
    IsLeast {n | size ≤ floatToUint n} (uintToFloatRoundUp size) ∧
      IsGreatest {n | n < 240 ∧ floatToUint n ≤ size} (uintToFloatRoundDown size) ∧
      uintToFloatRoundUp size < 240 ∧ uintToFloatRoundDown size < 240 ∧ StrictMonoOn floatToUint (Set.Iic 239) := by
  have hup : uintToFloatRoundUp size < 240 := roundUp_lt_240 hsize
  have hdown : uintToFloatRoundDown size < 240 := by
    apply roundDown_lt_240
    unfold maxBinSize at hsize
    omega
  refine ⟨⟨?_, ?_⟩, ⟨⟨hdown, ?_⟩, ?_⟩, hup, hdown, ?_⟩
  · show size ≤ floatToUint (uintToFloatRoundUp size)
    rw [floatToUint_eq_binValue hup]
    exact le_binValue_roundUp size
  · intro n (hn : size ≤ floatToUint n)
    by_cases h240 : n < 240
    · rw [floatToUint_eq_binValue h240] at hn
      exact roundUp_le_iff.mpr hn
    · exact hup.le.trans (not_lt.mp h240)
  · show floatToUint (uintToFloatRoundDown size) ≤ size
    rw [floatToUint_eq_binValue hdown]
    exact binValue_roundDown_le size
  · rintro n ⟨h240, hn⟩
    rw [floatToUint_eq_binValue h240] at hn
    exact le_roundDown_iff.mpr hn
  · intro n hn m hm hlt
    rw [floatToUint_eq_binValue (Nat.lt_succ_of_le hn), floatToUint_eq_binValue (Nat.lt_succ_of_le hm)]
    exact binValue_strictMono hlt

/-- Here rounding up carries into the exponent. -/
theorem rounding_isLeast_isGreatest_255 : uintToFloatRoundUp 255 = 48 ∧ uintToFloatRoundDown 255 = 47 ∧
    IsLeast {n | 255 ≤ floatToUint n} (uintToFloatRoundUp 255) :=
  ⟨by decide, by decide, (rounding_isLeast_isGreatest 255 (by decide)).1⟩

end QuillCache.Store.SmallFloat
