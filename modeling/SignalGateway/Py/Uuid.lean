import SignalGateway.Py.Int

/-!
# `SignalGateway.Py.Uuid`: `uuid.UUID(hex)`

`isUuid` says whether `uuid.UUID` accepts a string. It removes `urn:`, `uuid:`, braces and
hyphens, and reads what is left, if it has 32 characters, as `int(s, 16)`. That number is
never negative and fits in 128 bits.

`int(s, 16)` takes more than digits. It skips whitespace, a sign, the prefix `0x` and single
underscores, and a string of 32 characters with such parts passes, too. `isHexInt` follows it.
-/

set_option autoImplicit false

namespace SignalGateway

open PyChar

/-- A digit of base 16. The decimal digits of every script count. -/
def isHexDigit (c : CodePoint) : Bool :=
  (decimalDigit c.val).isSome || (0x41 ≤ c.val && c.val ≤ 0x46) || (0x61 ≤ c.val && c.val ≤ 0x66)

/-- The number behind a sign. -/
def dropSign : PyStr → PyStr
  | [] => []
  | c :: rest => if isChr '-' c || isChr '+' c then rest else c :: rest

/-- The digits behind a prefix `0x`, which an underscore may follow. -/
def dropHexPrefix : PyStr → PyStr
  | zero :: x :: rest =>
      if decimalDigit zero.val == some 0 && (isChr 'x' x || isChr 'X' x) then
        match rest with
        | c :: rest' => if isChr '_' c then rest' else rest
        | [] => []
      else zero :: x :: rest
  | s => s

/-- Whether `int(s, 16)` accepts the string. -/
def isHexInt (s : PyStr) : Bool :=
  let digits := dropHexPrefix (dropSign ((s.dropWhile isIntSpace).rdropWhile isIntSpace))
  (digits.splitOnP (isChr '_')).all fun group => !group.isEmpty && group.all isHexDigit

/-- Whether `uuid.UUID(s)` accepts the string. -/
def isUuid (s : PyStr) : Bool :=
  let hex := replace (codes (lit "uuid:" : PyStr)) [] (replace (codes (lit "urn:" : PyStr)) [] s)
  let isBrace := fun c => isChr '\x7b' c || isChr '\x7d' c
  let hex := replace (codes (lit "-" : PyStr)) [] ((hex.dropWhile isBrace).rdropWhile isBrace)
  hex.length == 32 && isHexInt hex

end SignalGateway
