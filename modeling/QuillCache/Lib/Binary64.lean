import Mathlib

/-!
# Finite binary64 numbers

A finite double is the rational number it denotes, and every operation rounds the exact rational
result to the nearest double, ties to even. Infinities, NaNs and the sign of zero are left out: the
programs here only compute ratios and products of finite, non-negative numbers far below `2 ^ 1024`.
-/

namespace QuillCache.Lib

/-- A finite double, as the rational it denotes. -/
abbrev F64 := ℚ

namespace F64

def roundEven (n d : ℕ) : ℕ :=
  let q := n / d
  let r := n % d
  if 2 * r < d then q else if d < 2 * r then q + 1 else q + q % 2

/-- The exponent of the last bit of the double nearest to `n / d`: the quotient by this power of two
has 53 bits, unless the number is subnormal. -/
def ulpExponent (n d : ℕ) : ℤ :=
  let e : ℤ := Nat.log2 n - Nat.log2 d - 52
  let small := n * 2 ^ (-e).toNat / (d * 2 ^ e.toNat) < 2 ^ 52
  max (if small then e - 1 else e) (-1074)

/-- The double nearest to the positive rational `n / d`. -/
def roundPos (n d : ℕ) : ℚ :=
  let e := ulpExponent n d
  roundEven (n * 2 ^ (-e).toNat) (d * 2 ^ e.toNat) * (2 : ℚ) ^ e

/-- The double nearest to a rational. -/
def round (q : ℚ) : F64 :=
  if q = 0 then 0
  else if 0 < q then roundPos q.num.toNat q.den
  else -roundPos (-q.num).toNat q.den

/-- The conversion `n as f64` of an unsigned integer. -/
def ofUInt (n : ℕ) : F64 := round n

def mul (x y : F64) : F64 := round (x * y)

def sub (x y : F64) : F64 := round (x - y)

def div (x y : F64) : F64 := round (x / y)

/-- The conversion `x as u64`: towards zero, saturating. -/
def toUInt64 (x : F64) : ℕ := min ⌊x⌋.toNat (2 ^ 64 - 1)

example : round (1 / 10) = 3602879701896397 / 2 ^ 55 := by decide +kernel

example : round (19 / 20) = 4278419646001971 / 2 ^ 52 := by decide +kernel

end F64

end QuillCache.Lib
