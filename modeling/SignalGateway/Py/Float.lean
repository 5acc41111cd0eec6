import Mathlib

/-!
# `SignalGateway.Py.Float`: Python floats

A Python `float` is a double. A finite `PyFloat` is a rational number below the double
range, and operations round their exact result to a double (`PyFloat.ofRat`). There is one
zero, because the modelled code never looks at its sign.

`int` operations with a float result raise `OverflowError` where `float` operations return
an infinity, so `intTrueDiv` is an `Option`.

`ofRat` is used for literals, for the texts that `float` reads, and behind every operation. `sub`
and `divNat` are the two operations that the modelled code uses, and comparisons with integers
(`intLt`) are exact, as in Python.
-/

set_option autoImplicit false

namespace SignalGateway

/-- A Python `float`. -/
inductive PyFloat where
  | finite (q : ℚ) (bound : |q| < 2 ^ 1024)
  | inf
  | negInf
  | nan
deriving DecidableEq, Repr

/-- The nearest integer, and the even one of two. -/
def roundHalfEven (q : ℚ) : ℤ :=
  if q - ⌊q⌋ < 1 / 2 then ⌊q⌋
  else if 1 / 2 < q - ⌊q⌋ then ⌊q⌋ + 1
  else if ⌊q⌋ % 2 = 0 then ⌊q⌋
  else ⌊q⌋ + 1

namespace PyFloat

/-- The distance between the doubles around `q`: 53 bits, and no less than the least
subnormal. -/
def spacing (q : ℚ) : ℚ := 2 ^ max (Int.log 2 |q| - 52) (-1074)

/-- The double nearest to `q`. -/
def ofRat (q : ℚ) : PyFloat :=
  let r := roundHalfEven (q / spacing q) * spacing q
  if bound : |r| < 2 ^ 1024 then .finite r bound
  else if 0 < q then .inf
  else .negInf

/-- `x - y`. -/
def sub : PyFloat → PyFloat → PyFloat
  | .finite p _, .finite q _ => ofRat (p - q)
  | .nan, _ | _, .nan => .nan
  | .inf, .inf | .negInf, .negInf => .nan
  | .inf, _ | _, .negInf => .inf
  | .negInf, _ | _, .inf => .negInf

/-- `x / n` for a positive integer `n`. -/
def divNat : PyFloat → Nat → PyFloat
  | .finite q _, n => ofRat (q / n)
  | x, _ => x

/-- `n < x`. -/
def intLt (n : ℤ) : PyFloat → Bool
  | .finite q _ => n < q
  | .inf => true
  | .negInf | .nan => false

/-- `int(x)` of a finite `x` drops the fraction. -/
def truncate (q : ℚ) : ℤ := if 0 ≤ q then ⌊q⌋ else ⌈q⌉

end PyFloat

/-- `n / d` of two integers, with `d` positive. `none` is `OverflowError`. -/
def intTrueDiv (n : ℤ) (d : Nat) : Option PyFloat :=
  match PyFloat.ofRat (n / d) with
  | .finite q bound => some (.finite q bound)
  | _ => none

/-! ### Bounds -/

/-- Rounding moves by at most one. -/
theorem abs_roundHalfEven_sub_le (q : ℚ) : |(roundHalfEven q : ℚ) - q| ≤ 1 := by
  have hle := Int.floor_le q
  have hlt := Int.lt_floor_add_one q
  rw [abs_le]
  unfold roundHalfEven
  split_ifs <;> push_cast <;> constructor <;> linarith

/-- The floats around a number are apart. -/
theorem PyFloat.spacing_pos (q : ℚ) : 0 < spacing q := zpow_pos (by norm_num) _

/-- The doubles around `q` are close together. -/
theorem PyFloat.spacing_le (q : ℚ) : spacing q ≤ |q| / 2 + 1 := by
  have hsmall : (2 : ℚ) ^ (-1074 : ℤ) ≤ 1 :=
    zpow_le_one_of_nonpos₀ (by norm_num) (by norm_num)
  rcases eq_or_ne q 0 with rfl | hq
  · rw [spacing, abs_zero, Int.log_zero_right]
    norm_num
  · have hpos : 0 < |q| := abs_pos.mpr hq
    have hlog : (2 : ℚ) ^ (Int.log 2 |q|) ≤ |q| := Int.zpow_log_le_self (by norm_num) hpos
    have hscale : (2 : ℚ) ^ (Int.log 2 |q| - 52) ≤ |q| / 2 := by
      rw [zpow_sub₀ (by norm_num)]
      have h52 : (2 : ℚ) ≤ 2 ^ (52 : ℤ) := by norm_num
      exact div_le_div₀ hpos.le hlog (by norm_num) h52
    rw [spacing]
    rcases le_total (Int.log 2 |q| - 52) (-1074) with h | h
    · rw [max_eq_right h]
      linarith
    · rw [max_eq_left h]
      linarith

/-- A quotient that is a double has a bounded dividend. -/
theorem abs_le_of_intTrueDiv {n : ℤ} {d : Nat} {x : PyFloat} (hd : 0 < d)
    (h : intTrueDiv n d = some x) : (|n| : ℚ) ≤ d * (2 ^ 1025 + 2) := by
  have hd' : (0 : ℚ) < d := by exact_mod_cast hd
  set q : ℚ := n / d with hq
  -- a quotient that rounds out of range is an `OverflowError`
  have hround : |(roundHalfEven (q / PyFloat.spacing q) : ℚ) * PyFloat.spacing q| < 2 ^ 1024 := by
    unfold intTrueDiv PyFloat.ofRat at h
    rw [← hq] at h
    by_contra hbig
    rw [dif_neg hbig] at h
    split at h
    · next heq => split at heq <;> cases heq
    · cases h
  have hspacing := PyFloat.spacing_pos q
  -- rounding moves the quotient by less than one spacing
  have hnear : |(roundHalfEven (q / PyFloat.spacing q) : ℚ) * PyFloat.spacing q - q|
      ≤ PyFloat.spacing q := by
    have hfactor : (roundHalfEven (q / PyFloat.spacing q) : ℚ) * PyFloat.spacing q - q
        = ((roundHalfEven (q / PyFloat.spacing q) : ℚ) - q / PyFloat.spacing q)
          * PyFloat.spacing q := by
      field_simp
    rw [hfactor, abs_mul, abs_of_pos hspacing]
    calc _ ≤ 1 * PyFloat.spacing q :=
          mul_le_mul_of_nonneg_right (abs_roundHalfEven_sub_le _) hspacing.le
      _ = PyFloat.spacing q := one_mul _
  have habs : |q| ≤ 2 ^ 1025 + 2 := by
    have htri := abs_sub_abs_le_abs_sub q
      ((roundHalfEven (q / PyFloat.spacing q) : ℚ) * PyFloat.spacing q)
    rw [abs_sub_comm] at htri
    have hle := PyFloat.spacing_le q
    have hpow : (2 : ℚ) ^ 1025 = 2 * 2 ^ 1024 := pow_succ' 2 1024
    rw [hpow]
    generalize (2 : ℚ) ^ 1024 = bound at hround ⊢
    linarith
  calc (|n| : ℚ) = d * |q| := by
        rw [hq, abs_div, abs_of_pos hd']
        field_simp
    _ ≤ d * (2 ^ 1025 + 2) := mul_le_mul_of_nonneg_left habs hd'.le

/-- Truncation goes towards zero. -/
theorem PyFloat.abs_truncate_le (q : ℚ) : (|truncate q| : ℚ) ≤ |q| := by
  unfold truncate
  split
  · next h =>
    have hfloor : (0 : ℚ) ≤ (⌊q⌋ : ℚ) := by exact_mod_cast Int.floor_nonneg.mpr h
    rw [abs_of_nonneg hfloor, abs_of_nonneg h]
    exact Int.floor_le q
  · next h =>
    have hneg : q ≤ 0 := le_of_not_ge h
    have hceil : (⌈q⌉ : ℚ) ≤ 0 := by exact_mod_cast Int.ceil_le.mpr (by exact_mod_cast hneg)
    rw [abs_of_nonpos hceil, abs_of_nonpos hneg]
    exact neg_le_neg (Int.le_ceil q)

end SignalGateway
