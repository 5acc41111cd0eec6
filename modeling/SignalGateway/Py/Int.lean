import SignalGateway.Py.Str

/-!
# `SignalGateway.Py.Int`: integers as text

`strInt` is `str(i)` and `intStr` is `int(s)`, with the limit on the number of digits that
both have. `int` takes the decimal digits of every script, single underscores between digits,
and whitespace around the number. The four ASCII separators are whitespace for `str.strip`
but not for `int`.

`intStr_of_strInt` is the round trip.

`decimalZeros` lists the zeros of the scripts. The other digits follow them, so `decimalDigit` is a
subtraction. A digit of any script is a digit of the pattern `\d`, too.
-/

set_option autoImplicit false

namespace SignalGateway

/-- The zeros of the scripts with decimal digits. The digits one to nine follow each. -/
def decimalZeros : List Nat :=
  [0x30, 0x660, 0x6f0, 0x7c0, 0x966, 0x9e6, 0xa66, 0xae6, 0xb66, 0xbe6, 0xc66, 0xce6, 0xd66,
    0xde6, 0xe50, 0xed0, 0xf20, 0x1040, 0x1090, 0x17e0, 0x1810, 0x1946, 0x19d0, 0x1a80, 0x1a90,
    0x1b50, 0x1bb0, 0x1c40, 0x1c50, 0xa620, 0xa8d0, 0xa900, 0xa9d0, 0xa9f0, 0xaa50, 0xabf0,
    0xff10, 0x104a0, 0x10d30, 0x11066, 0x110f0, 0x11136, 0x111d0, 0x112f0, 0x11450, 0x114d0,
    0x11650, 0x116c0, 0x11730, 0x118e0, 0x11950, 0x11c50, 0x11d50, 0x11da0, 0x11f50, 0x16a60,
    0x16ac0, 0x16b50, 0x1d7ce, 0x1d7d8, 0x1d7e2, 0x1d7ec, 0x1d7f6, 0x1e140, 0x1e2f0, 0x1e4f0,
    0x1e950, 0x1fbf0]

/-- The value of a decimal digit. -/
def decimalDigit (n : Nat) : Option Nat :=
  (decimalZeros.find? fun z => z ≤ n && n < z + 10).map fun z => n - z

/-- The other characters that stand for a digit, such as superscripts and circled digits. -/
def digitRanges : List (Nat × Nat) :=
  [(0xb2, 0xb3), (0xb9, 0xb9), (0x1369, 0x1371), (0x19da, 0x19da), (0x2070, 0x2070),
    (0x2074, 0x2079), (0x2080, 0x2089), (0x2460, 0x2468), (0x2474, 0x247c), (0x2488, 0x2490),
    (0x24ea, 0x24ea), (0x24f5, 0x24fd), (0x24ff, 0x24ff), (0x2776, 0x277e), (0x2780, 0x2788),
    (0x278a, 0x2792), (0x10a40, 0x10a43), (0x10e60, 0x10e68), (0x11052, 0x1105a),
    (0x1f100, 0x1f10a)]

/-- `s.isdigit()`. -/
def isDigits (s : PyStr) : Bool :=
  !s.isEmpty && s.all fun c =>
    (decimalDigit c.val).isSome || digitRanges.any fun r => r.1 ≤ c.val && c.val ≤ r.2

/-- `sys.int_info.default_max_str_digits` -/
def maxStrDigits : Nat := 4300

/-- The ASCII digit `d`. -/
def digitChr (d : Nat) : CodePoint := Fin.ofNat _ (0x30 + d)

/-- The decimal digits of `n`, without leading zeros. -/
def digitsOf (n : Nat) : List Nat := if n = 0 then [0] else (Nat.digits 10 n).reverse

/-- `str(i)`. -/
def strInt (i : ℤ) : Except PyError PyStr :=
  let digits := digitsOf i.natAbs
  if maxStrDigits < digits.length then .error .valueError
  else .ok ((if i < 0 then lit "-" else []) ++ digits.map digitChr)

/-- The whitespace that `int` skips. -/
def isIntSpace (c : CodePoint) : Bool := isSpace c && !(0x1c ≤ c.val && c.val ≤ 0x1f)

/-- The digits of a number with underscores. -/
def groupedDigits (s : PyStr) : Option (List Nat) := do
  let groups ← (s.splitOnP (isChr '_')).mapM fun group =>
    if group.isEmpty then none else group.mapM fun c => decimalDigit c.val
  return groups.flatten

/-- `int` of the digits behind the sign. -/
def natStr (s : PyStr) : Except PyError Nat :=
  match groupedDigits s with
  | none => .error .valueError
  | some digits =>
      if maxStrDigits < digits.length then .error .valueError
      else .ok (Nat.ofDigits 10 digits.reverse)

/-- `int(s)`. -/
def intStr (s : PyStr) : Except PyError ℤ :=
  match (s.dropWhile isIntSpace).rdropWhile isIntSpace with
  | [] => .error .valueError
  | c :: rest =>
      if isChr '-' c then (natStr rest).map fun n => -(n : ℤ)
      else if isChr '+' c then (natStr rest).map fun n => (n : ℤ)
      else (natStr (c :: rest)).map fun n => (n : ℤ)

/-! ### The round trip -/

/-- The digits of a number are below ten. -/
theorem digitsOf_lt {n : Nat} : ∀ d ∈ digitsOf n, d < 10 := by
  intro d hd
  unfold digitsOf at hd
  split at hd
  · rw [List.mem_singleton.mp hd]
    norm_num
  · exact Nat.digits_lt_base (by norm_num) (List.mem_reverse.mp hd)

/-- The digits make the number. -/
theorem ofDigits_digitsOf (n : Nat) : Nat.ofDigits 10 (digitsOf n).reverse = n := by
  unfold digitsOf
  split
  · next h => rw [h]; rfl
  · rw [List.reverse_reverse, Nat.ofDigits_digits]

/-- Every number has a digit. -/
theorem digitsOf_ne_nil (n : Nat) : digitsOf n ≠ [] := by
  unfold digitsOf
  split
  · exact List.cons_ne_nil _ _
  · next h =>
    rw [Ne, List.reverse_eq_nil_iff, Nat.digits_eq_nil_iff_eq_zero]
    exact h

/-- The code point of a digit. -/
theorem digitChr_val {d : Nat} (h : d < 10) : (digitChr d).val = 0x30 + d := by
  show (0x30 + d) % 0x110000 = 0x30 + d
  omega

/-- A digit is read back. -/
theorem decimalDigit_digitChr {d : Nat} (h : d < 10) :
    decimalDigit (digitChr d).val = some d := by
  rw [digitChr_val h]
  interval_cases d <;> rfl

/-- A digit is no sign, no underscore and no whitespace. -/
theorem digitChr_plain {d : Nat} (h : d < 10) :
    isChr '-' (digitChr d) = false ∧ isChr '+' (digitChr d) = false ∧
      isChr '_' (digitChr d) = false ∧ isIntSpace (digitChr d) = false := by
  interval_cases d <;> decide

/-- Digits without an underscore are one group. -/
theorem groupedDigits_eq_some {s : PyStr} {digits : List Nat} (hne : s ≠ [])
    (hplain : ∀ c ∈ s, isChr '_' c = false)
    (hdigits : List.Forall₂ (fun c d => decimalDigit c.val = some d) s digits) :
    groupedDigits s = some digits := by
  have hsplit : s.splitOnP (isChr '_') = [s] :=
    List.splitOnP_eq_singleton fun c hc => by simp [hplain c hc]
  have hmap : s.mapM (fun c => decimalDigit c.val) = some digits := by
    clear hne hplain hsplit
    induction hdigits with
    | nil => rfl
    | cons hd _ ih =>
      rw [List.mapM_cons, hd, ih]
      rfl
  simp [groupedDigits, hsplit, hmap, hne]

/-- Digits without underscores are read as they are. -/
theorem groupedDigits_digits {digits : List Nat} (hne : digits ≠ [])
    (h : ∀ d ∈ digits, d < 10) : groupedDigits (digits.map digitChr) = some digits := by
  refine groupedDigits_eq_some (by simpa using hne) ?_ ?_
  · intro c hc
    obtain ⟨d, hd, rfl⟩ := List.mem_map.mp hc
    exact (digitChr_plain (h d hd)).2.2.1
  · rw [List.forall₂_map_left_iff, List.forall₂_same]
    exact fun d hd => decimalDigit_digitChr (h d hd)

/-- Different numbers have different digits. -/
theorem digits_injective : Function.Injective fun n : Nat => (digitsOf n).map digitChr := by
  intro m n h
  have hm := groupedDigits_digits (digitsOf_ne_nil m) digitsOf_lt
  have hn := groupedDigits_digits (digitsOf_ne_nil n) digitsOf_lt
  have hdigits : digitsOf m = digitsOf n := by
    rw [show (digitsOf m).map digitChr = (digitsOf n).map digitChr from h, hn] at hm
    exact (Option.some.inj hm).symm
  rw [← ofDigits_digitsOf m, hdigits, ofDigits_digitsOf]

/-- A text without spaces is not stripped. -/
theorem strip_digits {s : PyStr} (h : ∀ c ∈ s, isIntSpace c = false) :
    (s.dropWhile isIntSpace).rdropWhile isIntSpace = s := by
  have hdrop : s.dropWhile isIntSpace = s := by
    rw [List.dropWhile_eq_self_iff]
    intro hpos
    rw [h _ (List.getElem_mem _)]
    exact Bool.false_ne_true
  rw [hdrop, List.rdropWhile_eq_self_iff]
  intro hne
  rw [h _ (List.getLast_mem hne)]
  exact Bool.false_ne_true

/-- `int(str(i)) == i`. -/
theorem intStr_of_strInt {i : ℤ} {s : PyStr} (h : strInt i = .ok s) : intStr s = .ok i := by
  simp only [strInt] at h
  split at h
  · cases h
  · next hlen =>
    cases h
    have hlt := digitsOf_lt (n := i.natAbs)
    have hnat : natStr ((digitsOf i.natAbs).map digitChr) = .ok i.natAbs := by
      rw [natStr, groupedDigits_digits (digitsOf_ne_nil _) hlt]
      simp only [hlen, if_false, ofDigits_digitsOf]
    have hspace : ∀ c ∈ (digitsOf i.natAbs).map digitChr, isIntSpace c = false := by
      intro c hc
      obtain ⟨d, hd, rfl⟩ := List.mem_map.mp hc
      exact (digitChr_plain (hlt d hd)).2.2.2
    -- the digits of a negative number come after its sign
    by_cases hneg : i < 0
    · have hminus : isIntSpace (PyChar.ofChar '-') = false := by decide
      rw [if_pos hneg, intStr, strip_digits]
      · show (natStr ((digitsOf i.natAbs).map digitChr)).map (fun n => -(n : ℤ)) = _
        rw [hnat]
        show Except.ok (-(i.natAbs : ℤ)) = _
        rw [Int.ofNat_natAbs_of_nonpos (le_of_lt hneg), neg_neg]
      · exact List.forall_mem_cons.mpr ⟨hminus, hspace⟩
    · rw [if_neg hneg, List.nil_append, intStr, strip_digits hspace]
      have habs : (i.natAbs : ℤ) = i := Int.natAbs_of_nonneg (not_lt.mp hneg)
      cases hd : digitsOf i.natAbs with
      | nil => exact absurd hd (digitsOf_ne_nil _)
      | cons d digits =>
        have hplain := digitChr_plain (hlt d (hd ▸ List.mem_cons_self))
        rw [hd] at hnat
        simp only [List.map_cons] at hnat ⊢
        rw [hplain.1, hplain.2.1, hnat]
        show Except.ok (i.natAbs : ℤ) = _
        rw [habs]

/-- Numbers below the limit have a text. -/
theorem exists_strInt {i : ℤ} (h : i.natAbs < 10 ^ maxStrDigits) : ∃ s, strInt i = .ok s := by
  have hlen : (digitsOf i.natAbs).length ≤ maxStrDigits := by
    unfold digitsOf
    split
    · norm_num [maxStrDigits]
    · rw [List.length_reverse]
      exact (Nat.digits_length_le_iff (by norm_num) _).mpr h
  rw [strInt, if_neg (not_lt.mpr hlen)]
  exact ⟨_, rfl⟩

end SignalGateway
