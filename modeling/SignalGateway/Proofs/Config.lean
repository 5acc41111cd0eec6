import SignalGateway.Config
import SignalGateway.Py.Json
import SignalGateway.Proofs.Str

/-!
# `SignalGateway.Proofs.Config`: which accounts are accepted

The validator of `signal_account` matches `^\+[1-9]\d{1,14}$`. In Python `$` also matches in
front of a last newline, and `\d` is a decimal digit of any script. `validateE164_iff` says
what is accepted beyond E.164 (`Lookalike`) and that nothing else is.

The pattern is run by the engine of `Lib.Regex`, and `accepts_iff` reads off it what is matched:
a string that looks like a number (`NumberLike`), with nothing or one newline behind it. Digits
are those of any script. In E.164 they are ASCII digits, and nothing stands behind them.

The counterexample `validateE164_newline` is a secret that was read with the newline behind it.
`not_e164_of_lookalike` says that the two kinds do not overlap, so the condition of the law is
exact.
-/

set_option autoImplicit false

namespace SignalGateway.Proofs.Config

open Regex PyChar

/-- E.164: `+`, an ASCII digit from 1 to 9, and one to fourteen further ASCII digits. -/
def E164 (value : PyStr) : Prop :=
  ∃ first digits, value = lit "+" ++ first :: digits ∧ (0x31 ≤ first.val ∧ first.val ≤ 0x39) ∧
    (1 ≤ digits.length ∧ digits.length ≤ 14) ∧ ∀ c ∈ digits, 0x30 ≤ c.val ∧ c.val ≤ 0x39

/-- `+`, an ASCII digit from 1 to 9, one to fourteen decimal digits of any script, and `tail`
behind them. -/
structure NumberLike (value digits tail : PyStr) : Prop where
  exists_eq : ∃ first, value = lit "+" ++ first :: (digits ++ tail) ∧
    0x31 ≤ first.val ∧ first.val ≤ 0x39
  length : 1 ≤ digits.length ∧ digits.length ≤ 14
  decimal : ∀ c ∈ digits, (decimalDigit c.val).isSome = true

/-- A string that looks like a number in E.164 and is none: a newline stands behind it, or one
of its digits is from another script. -/
def Lookalike (value : PyStr) : Prop :=
  ∃ digits tail, NumberLike value digits tail ∧
    (tail = lit "\n" ∨ tail = [] ∧ ∃ c ∈ digits, 0x39 < c.val)

/-- The validator accepts the account. -/
def Accepts (value : PyStr) : Prop := ∃ account, Settings.validateE164 value = .ok account

/-! ### What the pattern matches -/

/-- A newline is no digit. -/
theorem isDecimalCode_newline {n : Nat} (h : isDecimalCode n = true) : chr '\n' n = false := by
  by_contra hnl
  have hcode : n = '\n'.toNat := by simpa [chr] using hnl
  rw [hcode] at h
  revert h
  decide

/-- In front of a digit the pattern is not at its end. -/
theorem outcomes_atEnd_of_decimal {t : List Nat} {j : Nat}
    (h : (t[j]?).any isDecimalCode = true) : outcomes t (.atEnd (chr '\n')) j = [] := by
  obtain ⟨n, hn, hdecimal⟩ := (Option.any_eq_true _ _).mp h
  rw [outcomes, if_neg]
  rintro (hlen | ⟨-, hnl⟩)
  · rw [List.getElem?_eq_none hlen.ge] at hn
    cases hn
  · rw [hn, Option.any_some, isDecimalCode_newline hdecimal] at hnl
    cases hnl

/-- The pattern takes the whole run of digits, and the end of the string has to follow it. -/
theorem accepts_iff_run (value : PyStr) :
    Accepts value ↔
      ((codes value)[0]?).any (chr '+') = true ∧
        ((codes value)[1]?).any isLeadingDigit = true ∧
        (1 ≤ runLength isDecimalCode (codes value) 2 ∧
          runLength isDecimalCode (codes value) 2 ≤ 14) ∧
        (2 + runLength isDecimalCode (codes value) 2 = (codes value).length ∨
          2 + runLength isDecimalCode (codes value) 2 + 1 = (codes value).length ∧
            ((codes value)[2 + runLength isDecimalCode (codes value) 2]?).any (chr '\n') = true) := by
  have haccepts : Accepts value ↔ outcomes (codes value) e164Re 0 ≠ [] := by
    rw [Ne, ← matchAt_eq_none, Accepts, Settings.validateE164]
    cases matchAt (codes value) e164Re 0 <;> simp
  rw [haccepts, e164Re, outcomes_notBehind_seq, if_neg (by simp), outcomes_one_seq,
    outcomes_one_seq, outcomes_run_seq fun j => outcomes_atEnd_of_decimal, outcomes]
  simp only [Option.mem_def, Option.some.injEq, forall_eq', zero_add]
  split_ifs <;> simp_all

/-- A character is known by its code point. -/
theorem eq_of_code_eq {c : CodePoint} {ch : Char} (h : chr ch (code c) = true) :
    c = ofChar ch := by
  have hcode : code c = ch.toNat := by simpa [chr] using h
  exact Fin.ext hcode

/-- The run of digits at the start of a string. -/
theorem exists_digits (rest : PyStr) : ∃ digits tail, rest = digits ++ tail ∧
    runLength isDecimalCode (codes rest) 0 = digits.length ∧
      ∀ c ∈ digits, (decimalDigit c.val).isSome = true := by
  refine ⟨rest.takeWhile (isDecimalCode ∘ code), rest.dropWhile (isDecimalCode ∘ code),
    List.takeWhile_append_dropWhile.symm, ?_, fun c hc => ?_⟩
  · rw [runLength, List.drop_zero, codes, List.takeWhile_map, List.length_map]
  · have hdecimal : (isDecimalCode ∘ code) c = true := List.mem_takeWhile_imp hc
    exact hdecimal

/-- Behind the digits the string ends, or a newline is left. -/
theorem tail_of_end {plus first : CodePoint} {digits tail : PyStr}
    (h : 2 + digits.length = (codes (plus :: first :: (digits ++ tail))).length ∨
      2 + digits.length + 1 = (codes (plus :: first :: (digits ++ tail))).length ∧
        ((codes (plus :: first :: (digits ++ tail)))[2 + digits.length]?).any (chr '\n') = true) :
    tail = [] ∨ tail = lit "\n" := by
  simp only [length_codes, List.length_cons, List.length_append] at h
  rcases h with hend | ⟨hend, hnl⟩
  · exact .inl (List.eq_nil_of_length_eq_zero (by omega))
  · obtain ⟨c, rfl⟩ := List.length_eq_one_iff.mp (show tail.length = 1 by omega)
    have hget : (codes (plus :: first :: (digits ++ [c])))[2 + digits.length]? = some (code c) := by
      rw [getElem?_codes, Nat.add_comm]
      show ((digits ++ [c])[digits.length]?).map code = _
      rw [List.getElem?_concat_length]
      rfl
    rw [hget] at hnl
    rw [eq_of_code_eq hnl]
    exact .inr rfl

/-- The run of digits ends at the end of the string or at the newline. -/
theorem runLength_digits {first : CodePoint} {digits tail : PyStr}
    (hdecimal : ∀ c ∈ digits, (decimalDigit c.val).isSome = true)
    (htail : tail = [] ∨ tail = lit "\n") :
    runLength isDecimalCode (codes (lit "+" ++ first :: (digits ++ tail))) 2 = digits.length := by
  have hdrop : (codes (lit "+" ++ first :: (digits ++ tail))).drop 2
      = codes digits ++ codes tail := codes_append _ _
  rw [runLength_eq hdrop, length_codes]
  · intro n hn
    obtain ⟨c, hc, rfl⟩ := List.mem_map.mp hn
    exact hdecimal c hc
  · rcases htail with rfl | rfl
    · intro n hn
      cases hn
    · rintro n ⟨rfl⟩
      decide

/-- The accepted strings. -/
theorem accepts_iff (value : PyStr) :
    Accepts value ↔ ∃ digits tail, NumberLike value digits tail ∧ (tail = [] ∨ tail = lit "\n") := by
  -- The match runs over the digits and ends there, or in front of a last newline.
  rw [accepts_iff_run]
  constructor
  · rintro ⟨hplus, hfirst, hlength, hend⟩
    match value, hplus, hfirst, hlength, hend with
    | plus :: first :: rest, hplus, hfirst, hlength, hend =>
      obtain ⟨digits, tail, rfl, hrun, hdecimal⟩ := exists_digits rest
      have hrun' : runLength isDecimalCode (codes (plus :: first :: (digits ++ tail))) 2
          = digits.length := hrun
      have hfirst' : 0x31 ≤ first.val ∧ first.val ≤ 0x39 := by
        have hbounds : isLeadingDigit first.val = true := hfirst
        simpa [isLeadingDigit] using hbounds
      rw [hrun'] at hlength hend
      have hnumber : NumberLike (plus :: first :: (digits ++ tail)) digits tail := by
        refine ⟨⟨first, ?_, hfirst'⟩, hlength, hdecimal⟩
        rw [eq_of_code_eq hplus]
        rfl
      exact ⟨digits, tail, hnumber, tail_of_end hend⟩
  · rintro ⟨digits, tail, ⟨⟨first, rfl, hfirst⟩, hlength, hdecimal⟩, htail⟩
    have hdrop : (codes (lit "+" ++ first :: (digits ++ tail))).drop 2
        = codes digits ++ codes tail := codes_append _ _
    have hfirst' : isLeadingDigit first.val = true := by
      simpa [isLeadingDigit] using hfirst
    have hlen : (codes (lit "+" ++ first :: (digits ++ tail))).length
        = 2 + digits.length + tail.length := by
      simp [lit]
      omega
    rw [runLength_digits hdecimal htail, hlen]
    refine ⟨rfl, hfirst', hlength, ?_⟩
    rcases htail with rfl | rfl
    · exact .inl rfl
    · refine .inr ⟨rfl, ?_⟩
      rw [← List.getElem?_drop, hdrop, ← length_codes digits,
        List.getElem?_append_right (le_refl _), Nat.sub_self]
      decide

/-! ### What is accepted by mistake -/

/-- A number in the format looks like one. -/
theorem numberLike_of_e164 {value : PyStr} (h : E164 value) :
    ∃ digits, NumberLike value digits [] := by
  obtain ⟨first, digits, rfl, hfirst, hlength, hdigits⟩ := h
  refine ⟨digits, ⟨first, by rw [List.append_nil], hfirst⟩, hlength, fun c hc => ?_⟩
  obtain ⟨hlo, hhi⟩ := hdigits c hc
  -- the ASCII digits are the first script of the table
  rw [decimalDigit, Option.isSome_map, List.find?_isSome]
  exact ⟨0x30, by decide, by simp; omega⟩

/-- A decimal digit that is not above the ASCII digits is one of them. -/
theorem le_of_decimal {n : Nat} (h : (decimalDigit n).isSome = true) : 0x30 ≤ n := by
  rw [decimalDigit, Option.isSome_map, List.find?_isSome] at h
  obtain ⟨z, hz, hn⟩ := h
  have hle : ∀ z ∈ decimalZeros, 0x30 ≤ z := by decide
  have hlo := hle z hz
  simp only [Bool.and_eq_true, decide_eq_true_eq] at hn
  omega

/-- A lookalike is not in the format. -/
theorem not_e164_of_lookalike {value : PyStr} (h : Lookalike value) : ¬ E164 value := by
  obtain ⟨digits, tail, ⟨⟨first, rfl, -⟩, -, -⟩, hwrong⟩ := h
  rintro ⟨first', digits', heq, -, -, hdigits⟩
  obtain ⟨-, hrest⟩ := List.cons.inj (List.append_cancel_left heq)
  rcases hwrong with rfl | ⟨rfl, c, hc, hhigh⟩
  · have hnl := hdigits (ofChar '\n') (hrest ▸ List.mem_append_right _ List.mem_cons_self)
    exact absurd hnl.1 (by decide)
  · have hascii := hdigits c (hrest ▸ List.mem_append_left _ hc)
    omega

/-- The validator accepts exactly the numbers in E.164 and their lookalikes. -/
theorem accepts_iff_e164_or (value : PyStr) : Accepts value ↔ E164 value ∨ Lookalike value := by
  rw [accepts_iff]
  constructor
  · rintro ⟨digits, tail, hnumber, htail⟩
    rcases htail with rfl | rfl
    · by_cases hhigh : ∃ c ∈ digits, 0x39 < c.val
      · exact .inr ⟨digits, [], hnumber, .inr ⟨rfl, hhigh⟩⟩
      · obtain ⟨⟨first, heq, hfirst⟩, hlength, hdecimal⟩ := hnumber
        rw [List.append_nil] at heq
        refine .inl ⟨first, digits, heq, hfirst, hlength, fun c hc => ?_⟩
        exact ⟨le_of_decimal (hdecimal c hc), not_lt.mp fun hlt => hhigh ⟨c, hc, hlt⟩⟩
    · exact .inr ⟨digits, _, hnumber, .inl rfl⟩
  · rintro (he164 | ⟨digits, tail, hnumber, hwrong⟩)
    · obtain ⟨digits, hnumber⟩ := numberLike_of_e164 he164
      exact ⟨digits, [], hnumber, .inl rfl⟩
    · exact ⟨digits, tail, hnumber, hwrong.symm.imp And.left id⟩

/-- The validator decides E.164 for every string but a lookalike. A lookalike is accepted, and
no number in E.164 is equal to it. -/
theorem validateE164_iff (value : PyStr) :
    ((Accepts value ↔ E164 value) ↔ ¬ Lookalike value) ∧
      (Lookalike value → Accepts value ∧
        ∀ number, E164 number → Json.eqStr value (.str number) = false) := by
  rw [accepts_iff_e164_or]
  refine ⟨⟨fun h hlook => ?_, fun h => or_iff_left h⟩, fun hlook => ⟨.inr hlook, ?_⟩⟩
  · exact not_e164_of_lookalike hlook (h.mp (.inr hlook))
  · intro number hnumber
    rw [Json.eqStr, beq_eq_false_iff_ne]
    rintro rfl
    exact not_e164_of_lookalike hlook hnumber

/-- A secret with a newline behind the number. -/
theorem validateE164_newline :
    ¬ (Accepts (lit "+15551234567\n") ↔ E164 (lit "+15551234567\n")) := by
  intro h
  have hvalid : Settings.validateE164 (lit "+15551234567\n") = .ok (lit "+15551234567\n") := by
    decide +kernel
  have hlook : Lookalike (lit "+15551234567\n") := by
    refine ⟨lit "5551234567", lit "\n", ⟨⟨ofChar '1', rfl, by decide⟩, by decide, ?_⟩, .inl rfl⟩
    exact List.all_eq_true.mp (by decide)
  exact not_e164_of_lookalike hlook (h.mp ⟨_, hvalid⟩)

end SignalGateway.Proofs.Config
