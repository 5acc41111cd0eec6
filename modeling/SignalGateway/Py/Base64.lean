import SignalGateway.Py.Str

/-!
# `SignalGateway.Py.Base64`: base64

`b64decode` follows `binascii.a2b_base64` character by character. Without `validate` it
skips characters outside the alphabet and most misplaced padding, so few strings fail: those
with characters outside ASCII, and those whose data characters end in the middle of a group
without enough padding.

`b64encode` writes groups of three bytes, with padding. The decoder is a state machine over the
characters: `Base64Decoder` holds the bits that are left over in a group, the padding seen so far,
and the output. Its flag `strict` is `validate` of the source.
-/

set_option autoImplicit false

namespace SignalGateway

open PyChar

/-- A Python `bytes`. -/
abbrev Bytes := List UInt8

/-- The alphabet, in the order of the values. -/
def base64Alphabet : List Nat :=
  "ABCDEFGHIJKLMNOPQRSTUVWXYZabcdefghijklmnopqrstuvwxyz0123456789+/".toList.map Char.toNat

/-- The value of a data character. -/
def base64Value (n : Nat) : Option Nat := base64Alphabet.idxOf? n

/-- The state of the decoder: the position in the group of four, the bits that are left
over, the pads seen behind them, whether any padding was seen, and the output. -/
structure Base64Decoder where
  quadPos : Nat := 0
  left : Nat := 0
  pads : Nat := 0
  padded : Bool := false
  out : Bytes := []

/-- A data character with the value `v`. -/
def Base64Decoder.push (d : Base64Decoder) (v : Nat) : Base64Decoder :=
  match d.quadPos with
  | 0 => { d with quadPos := 1, left := v, pads := 0 }
  | 1 => { d with
      quadPos := 2, left := v % 16, pads := 0
      out := d.out ++ [UInt8.ofNat (d.left * 4 + v / 16)] }
  | 2 => { d with
      quadPos := 3, left := v % 4, pads := 0
      out := d.out ++ [UInt8.ofNat (d.left * 16 + v / 4)] }
  | _ => { d with
      quadPos := 0, left := 0, pads := 0
      out := d.out ++ [UInt8.ofNat (d.left * 64 + v)] }

/-- The loop of `binascii.a2b_base64`. -/
def a2bBase64 (strict : Bool) : Base64Decoder → List Nat → Except PyError Bytes
  | d, [] => if d.quadPos = 0 then .ok d.out else .error .binasciiError
  | d, c :: cs =>
      if chr '=' c then
        if 2 ≤ d.quadPos ∧ 4 ≤ d.quadPos + (d.pads + 1) then
          if strict && !cs.isEmpty then .error .binasciiError else .ok d.out
        else
          let pads := if 2 ≤ d.quadPos then d.pads + 1 else d.pads
          a2bBase64 strict { d with pads, padded := true } cs
      else
        match base64Value c with
        | none => if strict then .error .binasciiError else a2bBase64 strict d cs
        | some v =>
            if strict && d.padded then .error .binasciiError
            else a2bBase64 strict (d.push v) cs

/-- `base64.b64decode(s, validate=validate)`. -/
def b64decode (validate : Bool) (s : PyStr) : Except PyError Bytes :=
  if s.any fun c => 0x80 ≤ c.val then .error .valueError
  else if validate && (codes s).head?.any (chr '=') then .error .binasciiError
  else a2bBase64 validate {} (codes s)

/-- The data character with the value `v`. -/
def base64Chr (v : Nat) : CodePoint := Fin.ofNat _ (base64Alphabet.getD v 0)

/-- `base64.b64encode(data).decode("ascii")`. -/
def b64encode : Bytes → PyStr
  | [] => []
  | [a] =>
      [base64Chr (a.toNat / 4), base64Chr (a.toNat % 4 * 16), ofChar '=', ofChar '=']
  | [a, b] =>
      [base64Chr (a.toNat / 4), base64Chr (a.toNat % 4 * 16 + b.toNat / 16),
        base64Chr (b.toNat % 16 * 4), ofChar '=']
  | a :: b :: c :: rest =>
      base64Chr (a.toNat / 4) :: base64Chr (a.toNat % 4 * 16 + b.toNat / 16)
        :: base64Chr (b.toNat % 16 * 4 + c.toNat / 64) :: base64Chr (c.toNat % 64)
        :: b64encode rest

end SignalGateway
