import SignalGateway.Lib.Regex

/-!
# `SignalGateway.Py.Str`: Python strings

A Python `str` is a sequence of code points, lone surrogates included, so `PyStr` is a list
of `CodePoint`. Lean's `Char` has no surrogates and would leave out strings that `json.loads`
can produce.

The text functions of the gateway look at a character only through its code point, and
write only characters of their own literals. `PyChar` names these two accesses, and the
text functions are generic over it. A list over `α × Nat` is a string whose characters
carry a mark. Run on `text.zipIdx`, a function reports where each character it returns comes
from. `KeepsCode` is the condition under which a relabelling commutes with them.

Regular expressions run on the code points (`codes`), so their matches do not depend on the
carrier at all.
-/

set_option autoImplicit false

namespace SignalGateway

open Regex

/-- The exception classes the modelled code can raise or catch. -/
inductive PyError where
  | typeError
  | attributeError
  | valueError
  | overflowError
  | zeroDivisionError
  | unicodeEncodeError
  | binasciiError
  | jsonDecodeError
  | recursionError
  | osError
  | httpError
  | invalidUrl
deriving DecidableEq, Repr

/-- `except ValueError` also catches the subclasses among these. -/
def PyError.isValueError : PyError → Bool
  | .valueError | .unicodeEncodeError | .binasciiError | .jsonDecodeError => true
  | .typeError | .attributeError | .overflowError | .zeroDivisionError | .recursionError
  | .osError | .httpError | .invalidUrl => false

/-- A string element, seen through its code point. `ofChar` is the element for a character
of a literal. -/
class PyChar (α : Type) where
  code : α → Nat
  ofChar : Char → α
  code_ofChar : ∀ c, code (ofChar c) = c.toNat

open PyChar

/-- A Unicode code point, surrogates included. -/
abbrev CodePoint := Fin 0x110000

instance neZeroCodePoint : NeZero 0x110000 := ⟨by decide⟩

/-- A Python `str`. -/
abbrev PyStr := List CodePoint

/-- Every character has a code point. -/
theorem toNat_lt_codePoints (c : Char) : c.toNat < 0x110000 := by
  have h : c.val.toNat < 0xd800 ∨ 0xdfff < c.val.toNat ∧ c.val.toNat < 0x110000 := c.valid
  show c.val.toNat < 0x110000
  omega

instance : PyChar CodePoint where
  code := Fin.val
  ofChar c := ⟨c.toNat, toNat_lt_codePoints c⟩
  code_ofChar _ := rfl

/-- A marked character. The characters of a literal get the mark `0`. -/
instance {α : Type} [PyChar α] : PyChar (α × Nat) where
  code c := code c.1
  ofChar c := (ofChar c, 0)
  code_ofChar c := code_ofChar (α := α) c

variable {α : Type} [PyChar α]

/-- The code points of a string. -/
def codes (s : List α) : List Nat := s.map code

/-- The string of a literal. -/
def lit (s : String) : List α := s.toList.map ofChar

/-- Whether the character is `ch`. -/
def isChr (ch : Char) (c : α) : Bool := code c == ch.toNat

/-- The code points for which `str.isspace` is true. `str.strip` and the class `\s` use the
same set. -/
def isSpaceCode (n : Nat) : Bool :=
  (0x9 ≤ n && n ≤ 0xd) || (0x1c ≤ n && n ≤ 0x20) || n == 0x85 || n == 0xa0 || n == 0x1680 ||
    (0x2000 ≤ n && n ≤ 0x200a) || n == 0x2028 || n == 0x2029 || n == 0x202f || n == 0x205f ||
    n == 0x3000

/-- `str.isspace` of one character. -/
def isSpace (c : α) : Bool := isSpaceCode (code c)

/-- `s.lstrip()`. -/
def lstrip (s : List α) : List α := s.dropWhile isSpace

/-- `s.rstrip()`. -/
def rstrip (s : List α) : List α := s.rdropWhile isSpace

/-- `s.strip()`. -/
def strip (s : List α) : List α := rstrip (lstrip s)

/-- `s.rstrip(ch)` for a single character `ch`. -/
def rstripChr (ch : Char) (s : List α) : List α := s.rdropWhile (isChr ch)

/-- `s.startswith(pre)`. -/
def startswith (pre : List Nat) (s : List α) : Bool := pre.isPrefixOf (codes s)

/-- `s.replace(old, new)` for a non-empty `old`. The counter is the number of characters of
an occurrence of `old` that are still to be skipped. -/
def replaceFrom (old : List Nat) (new : List α) : Nat → List α → List α
  | _, [] => []
  | k + 1, _ :: s => replaceFrom old new k s
  | 0, c :: s =>
      if startswith old (c :: s) then new ++ replaceFrom old new (old.length - 1) s
      else c :: replaceFrom old new 0 s

/-- `s.replace(old, new)`. -/
def replace (old : List Nat) (new s : List α) : List α := replaceFrom old new 0 s

/-- A bound of a slice of a string of `n` characters, as an offset. Negative bounds count
from the end. -/
def sliceBound (n : Nat) (i : ℤ) : Nat := min n (if i < 0 then i + n else i).toNat

/-- `s[:i]`. -/
def sliceTo (s : List α) (i : ℤ) : List α := s.take (sliceBound s.length i)

/-- `s[i:]`. -/
def sliceFrom (s : List α) (i : ℤ) : List α := s.drop (sliceBound s.length i)

/-- `pattern.split(s)`. -/
def reSplit (r : Re Nat) (s : List α) : List (List α) := pieces s 0 (finditer (codes s) r)

/-- `pattern.findall(s)` for a pattern without groups. -/
def reFindall (r : Re Nat) (s : List α) : List (List α) :=
  (finditer (codes s) r).map fun m => m.text s

/-- `s.lower()` of one character. Only `K` and `İ` outside ASCII have a lower case that
contains ASCII. The other characters outside ASCII are left alone, so the result is for
comparisons with ASCII text. -/
def lowerChr (c : CodePoint) : PyStr :=
  if 0x41 ≤ c.val ∧ c.val ≤ 0x5a then [c + 0x20]
  else if c.val = 0x212a then lit "k"
  else if c.val = 0x130 then lit "i\u0307"
  else [c]

/-- `s.lower()`. -/
def lower (s : PyStr) : PyStr := s.flatMap lowerChr

/-- The pattern class of one character. -/
def chr (ch : Char) : Nat → Bool := fun n => n == ch.toNat

/-! ### Relabelling -/

/-- A relabelling of characters that keeps code points and literals. -/
structure KeepsCode {β : Type} [PyChar β] (f : α → β) : Prop where
  code_eq : ∀ c, code (f c) = code c
  ofChar_eq : ∀ ch, f (ofChar ch) = ofChar ch

/-- Dropping the marks keeps code points and literals. -/
theorem keepsCode_fst : KeepsCode (Prod.fst : α × Nat → α) :=
  ⟨fun _ => rfl, fun _ => rfl⟩

section
variable {β : Type} [PyChar β] {f : α → β}

/-- A relabelling keeps the code points. -/
theorem codes_map (hf : KeepsCode f) (s : List α) : codes (s.map f) = codes s := by
  simp [codes, Function.comp_def, hf.code_eq]

/-- A relabelling keeps literals. -/
theorem lit_map (hf : KeepsCode f) (s : String) : (lit s : List α).map f = lit s := by
  simp [lit, Function.comp_def, hf.ofChar_eq]

/-- A relabelling keeps the spaces. -/
theorem isSpace_map (hf : KeepsCode f) (c : α) : isSpace (f c) = isSpace c := by
  simp [isSpace, hf.code_eq]

/-- A relabelling keeps which character it is. -/
theorem isChr_map (hf : KeepsCode f) (ch : Char) (c : α) : isChr ch (f c) = isChr ch c := by
  simp [isChr, hf.code_eq]

omit [PyChar α] [PyChar β] in
/-- Dropping at the end, by a class that is kept. -/
theorem rdropWhile_map {p : α → Bool} {q : β → Bool} (hpq : ∀ c, q (f c) = p c) (s : List α) :
    (s.map f).rdropWhile q = (s.rdropWhile p).map f := by
  have hcomp : q ∘ f = p := funext hpq
  simp [List.rdropWhile, ← List.map_reverse, List.dropWhile_map, hcomp]

/-- A relabelling commutes with `lstrip`. -/
theorem lstrip_map (hf : KeepsCode f) (s : List α) : lstrip (s.map f) = (lstrip s).map f := by
  have hcomp : isSpace ∘ f = isSpace := funext (isSpace_map hf)
  rw [lstrip, List.dropWhile_map, hcomp]
  rfl

/-- A relabelling commutes with `strip`. -/
theorem strip_map (hf : KeepsCode f) (s : List α) : strip (s.map f) = (strip s).map f := by
  rw [strip, lstrip_map hf]
  exact rdropWhile_map (isSpace_map hf) _

/-- A relabelling commutes with `rstrip` of a character. -/
theorem rstripChr_map (hf : KeepsCode f) (ch : Char) (s : List α) :
    rstripChr ch (s.map f) = (rstripChr ch s).map f :=
  rdropWhile_map (isChr_map hf ch) s

/-- A relabelling commutes with the loop of `replace`. -/
theorem replaceFrom_map (hf : KeepsCode f) (old : List Nat) (new : List α) (s : List α) :
    ∀ k, replaceFrom old (new.map f) k (s.map f) = (replaceFrom old new k s).map f := by
  induction s with
  | nil => intro k; cases k <;> rfl
  | cons c s ih =>
    intro k
    cases k with
    | succ k => exact ih k
    | zero =>
      have hstart : startswith old (f c :: s.map f) = startswith old (c :: s) := by
        rw [startswith, ← List.map_cons, codes_map hf]
        rfl
      simp only [List.map_cons, replaceFrom, hstart]
      split
      · rw [ih, List.map_append]
      · rw [ih, List.map_cons]

/-- A relabelling commutes with `replace`. -/
theorem replace_map (hf : KeepsCode f) (old : List Nat) (new s : List α) :
    replace old (new.map f) (s.map f) = (replace old new s).map f :=
  replaceFrom_map hf old new s 0

/-- A relabelling commutes with `split`. -/
theorem reSplit_map (hf : KeepsCode f) (r : Re Nat) (s : List α) :
    reSplit r (s.map f) = (reSplit r s).map (List.map f) := by
  rw [reSplit, codes_map hf, reSplit, map_pieces]

/-- A relabelling commutes with `findall`. -/
theorem reFindall_map (hf : KeepsCode f) (r : Re Nat) (s : List α) :
    reFindall r (s.map f) = (reFindall r s).map (List.map f) := by
  simp [reFindall, codes_map hf, Match.text, map_slice, Function.comp_def]

end

end SignalGateway
