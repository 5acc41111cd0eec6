import SignalGateway.Py.Json

/-!
# `SignalGateway.Py.Number`: `float`, `max` and `min`

`floatOfInt` and `floatStr` are `float(n)` and `float(s)`, and `Json.toFloat` is `float(x)` of
any value. A text is read exactly and rounded once. `float` takes the decimal digits of every
script, like `int`, and underscores only between digits.

`Json.maxFrom` is `max` over values. Numbers and strings are compared here. The comparison of
two lists is a parameter, because no list has a float.

`PyFloat.max` and `PyFloat.min` keep their first argument if the comparison fails, as `max` and
`min` do. So a NaN in the first place stays, and one in the second place is passed over.
-/

set_option autoImplicit false

namespace SignalGateway

/-! ### `float` -/

/-- `float(n)` -/
def floatOfInt (n : ℤ) : Except PyError PyFloat :=
  match PyFloat.ofRat n with
  | .finite q bound => .ok (.finite q bound)
  | _ => .error .overflowError

/-- Digits with underscores, or nothing. -/
def digitsOrNone (s : PyStr) : Option (List Nat) :=
  if s.isEmpty then some [] else groupedDigits s

/-- The sign of a number, and the rest. -/
def splitSign : PyStr → ℤ × PyStr
  | [] => (1, [])
  | c :: rest =>
      if isChr '-' c then (-1, rest) else if isChr '+' c then (1, rest) else (1, c :: rest)

/-- The number behind the `e`. -/
def exponentOf (s : PyStr) : Option ℤ :=
  (groupedDigits (splitSign s).2).map fun digits =>
    (splitSign s).1 * (Nat.ofDigits 10 digits.reverse : ℤ)

/-- The digits in front of and behind the point, and the exponent of ten. -/
def decimalStr (s : PyStr) : Option ℚ := do
  let (mantissa, exponent) := s.span fun c => !(isChr 'e' c || isChr 'E' c)
  let (whole, fraction) := mantissa.span fun c => !isChr '.' c
  let whole ← digitsOrNone whole
  let fraction ← digitsOrNone (fraction.drop 1)
  -- A point alone is no number.
  if whole.isEmpty && fraction.isEmpty then none
  let exponent ← if exponent.isEmpty then some 0 else exponentOf (exponent.drop 1)
  return (Nat.ofDigits 10 (whole ++ fraction).reverse : ℚ) * 10 ^ (exponent - fraction.length)

/-- `float(s)`. `none` is `ValueError`. -/
def floatStr (s : PyStr) : Option PyFloat :=
  let (sign, rest) := splitSign ((s.dropWhile isIntSpace).rdropWhile isIntSpace)
  match decimalStr rest with
  | some q => some (.ofRat (sign * q))
  | none =>
      if lower rest = lit "inf" ∨ lower rest = lit "infinity" then
        some (if 0 < sign then .inf else .negInf)
      else if lower rest = lit "nan" then some .nan
      else none

/-- A small number is far below the double range. -/
theorem PyFloat.bound_of_small {q : ℚ} (h : |q| < 2 ^ 10) : |q| < 2 ^ 1024 :=
  h.trans (pow_lt_pow_right₀ (by norm_num) (by norm_num))

/-- Zero is in the range of the floats. -/
theorem PyFloat.zero_bound : |(0 : ℚ)| < 2 ^ 1024 := PyFloat.bound_of_small (by norm_num)

/-- `float(b)` -/
def floatOfBool (b : Bool) : PyFloat :=
  .finite (if b then 1 else 0) (PyFloat.bound_of_small (by split <;> norm_num))

/-- `float(x)` -/
def Json.toFloat : Json → Except PyError PyFloat
  | .bool b => .ok (floatOfBool b)
  | .int n => floatOfInt n
  | .float x => .ok x
  | .str s =>
      match floatStr s with
      | some x => .ok x
      | none => .error .valueError
  | _ => .error .typeError

/-! ### Comparisons -/

/-- `x < y` -/
def PyFloat.lt : PyFloat → PyFloat → Bool
  | .finite p _, .finite q _ => p < q
  | .negInf, .finite _ _ | .negInf, .inf | .finite _ _, .inf => true
  | _, _ => false

/-- `max(x, y)` returns `x` unless `y` is greater. -/
def PyFloat.max (x y : PyFloat) : PyFloat := if x.lt y then y else x

/-- `min(x, y)` returns `x` unless `y` is less. -/
def PyFloat.min (x y : PyFloat) : PyFloat := if y.lt x then y else x

namespace Json

/-- `isinstance(x, (int, float))`. A `bool` is an `int`. -/
def isNumber : Json → Bool
  | bool _ | int _ | float _ => true
  | _ => false

/-- `isinstance(x, str)` -/
def isStr : Json → Bool
  | str _ => true
  | _ => false

/-- The place of a number among the rationals and the infinities. NaN has none. -/
def place : Json → Option (WithBot (WithTop ℚ))
  | bool b => some ((if b then 1 else 0 : ℚ) : WithTop ℚ)
  | int n => some ((n : ℚ) : WithTop ℚ)
  | float (.finite q _) => some (q : WithTop ℚ)
  | float .inf => some ((⊤ : WithTop ℚ) : WithBot (WithTop ℚ))
  | float .negInf => some ⊥
  | _ => none

/-- `x > y` for two numbers or two strings. -/
def greater (x y : Json) : Bool :=
  match x, y with
  | str s, str t => decide (t < s)
  | x, y =>
      match x.place, y.place with
      | some p, some q => decide (q < p)
      | _, _ => false

section
variable (listGt : List Json → List Json → Except PyError Bool)

/-- `x > y`. Integers and floats are compared exactly. -/
def gt (x y : Json) : Except PyError Bool :=
  match x, y with
  | arr xs, arr ys => listGt xs ys
  | x, y =>
      if (x.isNumber && y.isNumber) || (x.isStr && y.isStr) then .ok (x.greater y)
      else .error .typeError

/-- `max(xs)` from its candidate `top` on. -/
def maxFrom (top : Json) : List Json → Except PyError Json
  | [] => .ok top
  | x :: xs => do if ← x.gt listGt top then maxFrom x xs else maxFrom top xs

end

/-- The greatest of numbers, or of strings. -/
def greatestFrom (top : Json) (xs : List Json) : Json :=
  xs.foldl (fun top x => if x.greater top then x else top) top

end Json

/-! ### Facts -/

/-- Rounding gives a number or an infinity. -/
theorem PyFloat.ofRat_ne_nan (q : ℚ) : PyFloat.ofRat q ≠ .nan := by
  unfold PyFloat.ofRat
  simp only
  split
  · exact PyFloat.noConfusion
  · split
    · exact PyFloat.noConfusion
    · exact PyFloat.noConfusion

/-! ### The range of the doubles -/

/-- Rounding moves a number by at most one half. -/
theorem roundHalfEven_bounds (q : ℚ) :
    q - 1 / 2 ≤ roundHalfEven q ∧ (roundHalfEven q : ℚ) ≤ q + 1 / 2 := by
  have hle := Int.floor_le q
  have hlt := Int.lt_floor_add_one q
  unfold roundHalfEven
  split_ifs <;> push_cast <;> constructor <;> linarith

/-- Rounding does not cross an integer. -/
theorem le_roundHalfEven {q : ℚ} {k : ℤ} (h : k ≤ q) : k ≤ roundHalfEven q := by
  have hround := (roundHalfEven_bounds q).1
  have hlt : (k : ℚ) < roundHalfEven q + 1 := by linarith
  exact Int.lt_add_one_iff.mp (by exact_mod_cast hlt)

/-- Rounding stays below an integer bound. -/
theorem roundHalfEven_le {q : ℚ} {k : ℤ} (h : q ≤ k) : roundHalfEven q ≤ k := by
  have hround := (roundHalfEven_bounds q).2
  have hlt : (roundHalfEven q : ℚ) < k + 1 := by linarith
  exact Int.lt_add_one_iff.mp (by exact_mod_cast hlt)

/-- Halfway behind an odd integer, the even neighbour is the next one. -/
theorem roundHalfEven_half {k : ℤ} (hodd : k % 2 = 1) : roundHalfEven (k + 1 / 2) = k + 1 := by
  have hfloor : ⌊(k : ℚ) + 1 / 2⌋ = k := by
    rw [Int.floor_eq_iff]
    constructor <;> linarith
  have hhalf : (k : ℚ) + 1 / 2 - k = 1 / 2 := by ring
  rw [roundHalfEven, hfloor, hhalf, if_neg (lt_irrefl _), if_neg (lt_irrefl _), hodd]
  rfl

/-- Halfway in front of an odd integer, the even neighbour is the one before. -/
theorem roundHalfEven_neg_half {k : ℤ} (hodd : k % 2 = 1) :
    roundHalfEven (-(k + 1 / 2)) = -(k + 1) := by
  have hfloor : ⌊-((k : ℚ) + 1 / 2)⌋ = -(k + 1) := by
    rw [Int.floor_eq_iff]
    push_cast
    constructor <;> linarith
  have hhalf : -((k : ℚ) + 1 / 2) - (-(k + 1) : ℤ) = 1 / 2 := by
    push_cast
    ring
  have heven : -(k + 1) % 2 = 0 := by omega
  rw [roundHalfEven, hfloor, hhalf, if_neg (lt_irrefl _), if_neg (lt_irrefl _), if_pos heven]

/-- Below which numbers the result of rounding is at most an odd number. -/
theorem abs_roundHalfEven_le_iff {q : ℚ} {k : ℤ} (hodd : k % 2 = 1) :
    |roundHalfEven q| ≤ k ↔ |q| < k + 1 / 2 := by
  obtain ⟨hlow, hhigh⟩ := roundHalfEven_bounds q
  constructor
  · intro hround
    obtain ⟨hneg, hpos⟩ := abs_le.mp hround
    have hneg' : -(k : ℚ) ≤ roundHalfEven q := by exact_mod_cast hneg
    have hpos' : (roundHalfEven q : ℚ) ≤ k := by exact_mod_cast hpos
    rw [abs_lt]
    constructor
    · refine lt_of_le_of_ne (by linarith) ?_
      rintro rfl
      rw [roundHalfEven_neg_half hodd] at hneg
      omega
    · refine lt_of_le_of_ne (by linarith) ?_
      rintro rfl
      rw [roundHalfEven_half hodd] at hpos
      omega
  · intro hq
    obtain ⟨hneg, hpos⟩ := abs_lt.mp hq
    rw [abs_le]
    constructor
    · have hlt : -(k : ℚ) < roundHalfEven q + 1 := by linarith
      exact Int.lt_add_one_iff.mp (by exact_mod_cast hlt)
    · have hlt : (roundHalfEven q : ℚ) < k + 1 := by linarith
      exact Int.lt_add_one_iff.mp (by exact_mod_cast hlt)

/-- Rounding does not cross the absolute value of an integer. -/
theorem le_abs_roundHalfEven {q : ℚ} {k : ℤ} (h : k ≤ |q|) : k ≤ |roundHalfEven q| := by
  rcases le_abs.mp h with hpos | hneg
  · exact (le_roundHalfEven hpos).trans (le_abs_self _)
  · have hround : roundHalfEven q ≤ -k := roundHalfEven_le (by push_cast; linarith)
    exact (le_neg.mp hround).trans (neg_le_abs _)

namespace PyFloat

/-- The logarithm of a number in the last binade of the doubles. -/
theorem spacing_of_last {q : ℚ} (hlow : 2 ^ 1023 ≤ |q|) (hhigh : |q| < 2 ^ 1024) :
    spacing q = 2 ^ 971 := by
  have hpos : 0 < |q| := lt_of_lt_of_le (pow_pos (by norm_num) _) hlow
  have hlog : Int.log 2 |q| = 1023 := by
    apply le_antisymm
    · have hlt : Int.log 2 |q| < 1024 :=
        (Int.lt_zpow_iff_log_lt (by norm_num) hpos).mp (by exact_mod_cast hhigh)
      omega
    · exact (Int.zpow_le_iff_le_log (by norm_num) hpos).mp (by exact_mod_cast hlow)
  rw [spacing, hlog]
  rfl

/-- A number beyond the doubles is rounded to one beyond them. -/
theorem le_round_of_le {q : ℚ} (h : 2 ^ 1024 ≤ |q|) :
    2 ^ 1024 ≤ |(roundHalfEven (q / spacing q) : ℚ) * spacing q| := by
  have hpos : 0 < |q| := lt_of_lt_of_le (pow_pos (by norm_num) _) h
  have hspacing := spacing_pos q
  have hlog : 1024 ≤ Int.log 2 |q| :=
    (Int.zpow_le_iff_le_log (by norm_num) hpos).mp (by exact_mod_cast h)
  have heq : spacing q = 2 ^ (Int.log 2 |q| - 52) := by
    rw [spacing, max_eq_left (by omega)]
  have hself : (2 : ℚ) ^ Int.log 2 |q| ≤ |q| := Int.zpow_log_le_self (by norm_num) hpos
  -- the quotient is at least 2 ^ 52, and so is what it is rounded to
  have hscale : (2 : ℚ) ^ Int.log 2 |q| = 2 ^ 52 * spacing q := by
    rw [heq, ← zpow_natCast, ← zpow_add₀ (by norm_num)]
    congr 1
    omega
  have hquot : ((2 ^ 52 : ℤ) : ℚ) ≤ |q / spacing q| := by
    rw [abs_div, abs_of_pos hspacing, le_div_iff₀ hspacing]
    have hcast : ((2 ^ 52 : ℤ) : ℚ) = 2 ^ 52 := by norm_num
    rw [hcast, ← hscale]
    exact hself
  have hround : ((2 ^ 52 : ℤ) : ℚ) ≤ |(roundHalfEven (q / spacing q) : ℚ)| := by
    exact_mod_cast le_abs_roundHalfEven hquot
  calc (2 : ℚ) ^ 1024 ≤ 2 ^ Int.log 2 |q| := by
        exact_mod_cast zpow_le_zpow_right₀ (by norm_num : (1 : ℚ) ≤ 2) hlog
    _ = 2 ^ 52 * spacing q := hscale
    _ ≤ |(roundHalfEven (q / spacing q) : ℚ)| * spacing q := by
        refine mul_le_mul_of_nonneg_right ?_ hspacing.le
        exact_mod_cast hround
    _ = |(roundHalfEven (q / spacing q) : ℚ) * spacing q| := by
        rw [abs_mul, abs_of_pos hspacing]

/-- A number below the last binade is rounded to a double. -/
theorem round_lt_of_lt {q : ℚ} (h : |q| < 2 ^ 1023) :
    |(roundHalfEven (q / spacing q) : ℚ) * spacing q| < 2 ^ 1024 := by
  have hspacing := spacing_pos q
  obtain ⟨hlow, hhigh⟩ := roundHalfEven_bounds (q / spacing q)
  have hdist : |(roundHalfEven (q / spacing q) : ℚ)| ≤ |q| / spacing q + 1 / 2 := by
    have hquot : |q / spacing q| = |q| / spacing q := by rw [abs_div, abs_of_pos hspacing]
    rw [← hquot, abs_le]
    have hle := le_abs_self (q / spacing q)
    have hge := neg_abs_le (q / spacing q)
    constructor <;> linarith
  have hbound := spacing_le q
  rw [abs_mul, abs_of_pos hspacing]
  have hpow : (2 : ℚ) ^ 1024 = 2 * 2 ^ 1023 := pow_succ' 2 1023
  have hone : (1 : ℚ) ≤ 2 ^ 1023 := one_le_pow₀ (by norm_num)
  rw [hpow]
  generalize (2 : ℚ) ^ 1023 = bound at h hone ⊢
  calc |(roundHalfEven (q / spacing q) : ℚ)| * spacing q
      ≤ (|q| / spacing q + 1 / 2) * spacing q := mul_le_mul_of_nonneg_right hdist hspacing.le
    _ = |q| + spacing q / 2 := by field_simp
    _ < 2 * bound := by linarith

/-- A number rounds to a double exactly if it is below the middle between the greatest double
and the next power of two. -/
theorem ofRat_finite_iff (q : ℚ) :
    (∃ x bound, ofRat q = .finite x bound) ↔ |q| < 2 ^ 1024 - 2 ^ 970 := by
  have hrange : (∃ x bound, ofRat q = .finite x bound) ↔
      |(roundHalfEven (q / spacing q) : ℚ) * spacing q| < 2 ^ 1024 := by
    unfold ofRat
    simp only
    split
    · next hlt => exact iff_of_true ⟨_, hlt, rfl⟩ hlt
    · next hge =>
      refine iff_of_false ?_ hge
      rintro ⟨x, bound, heq⟩
      split at heq <;> cases heq
  have hunit : (0 : ℚ) < 2 ^ 970 := pow_pos (by norm_num) _
  have h1024 : (2 : ℚ) ^ 1024 = 2 ^ 54 * 2 ^ 970 := pow_add 2 54 970
  have h1023 : (2 : ℚ) ^ 1023 = 2 ^ 53 * 2 ^ 970 := pow_add 2 53 970
  rw [hrange]
  rcases lt_or_ge |q| (2 ^ 1023) with hsmall | hlow
  · refine iff_of_true (round_lt_of_lt hsmall) ?_
    rw [h1023] at hsmall
    rw [h1024]
    generalize (2 : ℚ) ^ 970 = unit at hsmall hunit ⊢
    linarith
  · rcases lt_or_ge |q| (2 ^ 1024) with hhigh | hbig
    · -- in the last binade, the number is counted in units of 2 ^ 971
      have hspacing := spacing_of_last hlow hhigh
      have h971 : (2 : ℚ) ^ 971 = 2 * 2 ^ 970 := pow_succ' 2 970
      have hodd : ((2 ^ 53 - 1 : ℤ)) % 2 = 1 := by norm_num
      have hpos : (0 : ℚ) < 2 ^ 971 := pow_pos (by norm_num) _
      rw [hspacing, abs_mul, abs_of_pos hpos]
      have hcount : |(roundHalfEven (q / 2 ^ 971) : ℚ)| * 2 ^ 971 < 2 ^ 1024 ↔
          |roundHalfEven (q / 2 ^ 971)| ≤ 2 ^ 53 - 1 := by
        rw [show (2 : ℚ) ^ 1024 = 2 ^ 53 * 2 ^ 971 from pow_add 2 53 971,
          mul_lt_mul_iff_of_pos_right hpos, Int.le_sub_one_iff]
        exact_mod_cast Iff.rfl
      rw [hcount, abs_roundHalfEven_le_iff hodd, abs_div, abs_of_pos hpos, div_lt_iff₀ hpos, h971,
        h1024]
      have hmiddle : ∀ unit : ℚ,
          (((2 ^ 53 - 1 : ℤ) : ℚ) + 1 / 2) * (2 * unit) = 2 ^ 54 * unit - unit := by
        intro unit
        push_cast
        ring
      rw [hmiddle]
    · refine iff_of_false (not_lt.mpr (le_round_of_le hbig)) (not_lt.mpr ?_)
      exact (sub_le_self _ hunit.le).trans hbig

end PyFloat

/-- An integer is too large for a float from the middle between the greatest double and the
next power of two on. -/
theorem floatOfInt_cases (n : ℤ) :
    (|n| < 2 ^ 1024 - 2 ^ 970 ∧ ∃ q bound, floatOfInt n = .ok (.finite q bound)) ∨
      2 ^ 1024 - 2 ^ 970 ≤ |n| ∧ floatOfInt n = .error .overflowError := by
  have hcast : |(n : ℚ)| < 2 ^ 1024 - 2 ^ 970 ↔ |n| < 2 ^ 1024 - 2 ^ 970 := by
    exact_mod_cast Iff.rfl
  have hfinite := PyFloat.ofRat_finite_iff n
  rw [hcast] at hfinite
  unfold floatOfInt
  cases hx : PyFloat.ofRat n with
  | finite q bound => exact .inl ⟨hfinite.mp ⟨q, bound, hx⟩, q, bound, rfl⟩
  | _ =>
    refine .inr ⟨not_lt.mp fun hlt => ?_, rfl⟩
    obtain ⟨q, bound, heq⟩ := hfinite.mpr hlt
    rw [hx] at heq
    cases heq

end SignalGateway
