import SignalGateway.Py.Base64

/-!
# `SignalGateway.Proofs.Base64`: the round trip of base64

`b64decode_b64encode`: what `b64encode` writes, `b64decode` reads back, also under
`validate=True`. The encoding is cut into groups of four characters, and each group takes the
decoder from one group boundary to the next (`a2bBase64_group`). The last group ends the loop.

The alphabet is settled by evaluation: the 64 data characters are read back and none of them is
the padding. The decoder keeps the bits of an unfinished group, so the lemma about one group
starts and ends at a group boundary, and the induction goes over the groups of the input. The
last group has one, two or three bytes, and these cases are done by hand.

`PostedAudio` uses the round trip: what the worker decodes is what the daemon held.
-/

set_option autoImplicit false

namespace SignalGateway.Proofs.Base64

open PyChar

/-- The code point of the data character with the value `v`. -/
def sextet (v : Nat) : Nat := code (base64Chr v)

/-! ### The alphabet -/

/-- The alphabet is read back. -/
theorem base64Value_sextet : ∀ v < 64, base64Value (sextet v) = some v := by decide +kernel

/-- No character of the alphabet is the padding. -/
theorem chr_pad_sextet : ∀ v < 64, chr '=' (sextet v) = false := by decide +kernel

/-- The alphabet is ASCII. -/
theorem sextet_lt : ∀ v < 64, sextet v < 0x80 := by decide +kernel

/-- The padding is an equals sign. -/
theorem chr_pad : chr '=' (code (ofChar '=' : CodePoint)) = true := by decide

/-! ### One group -/

section
variable {strict : Bool} {d : Base64Decoder} {cs : List Nat} {out : Bytes}

/-- The loop reads a data character. -/
theorem a2bBase64_sextet {v : Nat} (hv : v < 64) (hpadded : d.padded = false) :
    a2bBase64 strict d (sextet v :: cs) = a2bBase64 strict (d.push v) cs := by
  rw [a2bBase64, chr_pad_sextet v hv, base64Value_sextet v hv, hpadded]
  simp

/-- A full group of four characters stands for three bytes. -/
theorem a2bBase64_group (a b c : UInt8) (pads : Nat) :
    a2bBase64 strict ⟨0, 0, pads, false, out⟩ (sextet (a.toNat / 4)
        :: sextet (a.toNat % 4 * 16 + b.toNat / 16) :: sextet (b.toNat % 16 * 4 + c.toNat / 64)
        :: sextet (c.toNat % 64) :: cs)
      = a2bBase64 strict ⟨0, 0, 0, false, out ++ [a, b, c]⟩ cs := by
  have ha := a.toNat_lt
  have hb := b.toNat_lt
  have hc := c.toNat_lt
  have hfirst : a.toNat / 4 * 4 + (a.toNat % 4 * 16 + b.toNat / 16) / 16 = a.toNat := by omega
  have hsecond : (a.toNat % 4 * 16 + b.toNat / 16) % 16 * 16
      + (b.toNat % 16 * 4 + c.toNat / 64) / 4 = b.toNat := by omega
  have hthird : (b.toNat % 16 * 4 + c.toNat / 64) % 4 * 64 + c.toNat % 64 = c.toNat := by omega
  rw [a2bBase64_sextet (by omega) rfl, a2bBase64_sextet (by omega) rfl,
    a2bBase64_sextet (by omega) rfl, a2bBase64_sextet (by omega) rfl]
  simp only [Base64Decoder.push, hfirst, hsecond, hthird, UInt8.ofNat_toNat, List.append_assoc,
    List.cons_append, List.nil_append]

/-- Two characters and two pads stand for a last byte. -/
theorem a2bBase64_last_one (a : UInt8) (pads : Nat) :
    a2bBase64 strict ⟨0, 0, pads, false, out⟩ [sextet (a.toNat / 4), sextet (a.toNat % 4 * 16),
        code (ofChar '=' : CodePoint), code (ofChar '=' : CodePoint)]
      = .ok (out ++ [a]) := by
  have ha := a.toNat_lt
  have hfirst : a.toNat / 4 * 4 + a.toNat % 4 * 16 / 16 = a.toNat := by omega
  rw [a2bBase64_sextet (by omega) rfl, a2bBase64_sextet (by omega) rfl]
  simp only [Base64Decoder.push, hfirst, UInt8.ofNat_toNat]
  simp [a2bBase64, chr_pad]

/-- Three characters and one pad stand for two last bytes. -/
theorem a2bBase64_last_two (a b : UInt8) (pads : Nat) :
    a2bBase64 strict ⟨0, 0, pads, false, out⟩ [sextet (a.toNat / 4),
        sextet (a.toNat % 4 * 16 + b.toNat / 16), sextet (b.toNat % 16 * 4),
        code (ofChar '=' : CodePoint)]
      = .ok (out ++ [a, b]) := by
  have ha := a.toNat_lt
  have hb := b.toNat_lt
  have hfirst : a.toNat / 4 * 4 + (a.toNat % 4 * 16 + b.toNat / 16) / 16 = a.toNat := by omega
  have hsecond : (a.toNat % 4 * 16 + b.toNat / 16) % 16 * 16 + b.toNat % 16 * 4 / 4
      = b.toNat := by omega
  rw [a2bBase64_sextet (by omega) rfl, a2bBase64_sextet (by omega) rfl,
    a2bBase64_sextet (by omega) rfl]
  simp only [Base64Decoder.push, hfirst, hsecond, UInt8.ofNat_toNat, List.append_assoc]
  simp [a2bBase64, chr_pad]

end

/-! ### The round trip -/

/-- The loop reads the bytes behind what it has read. -/
theorem a2bBase64_b64encode (strict : Bool) (data : Bytes) : ∀ (pads : Nat) (out : Bytes),
    a2bBase64 strict ⟨0, 0, pads, false, out⟩ (codes (b64encode data)) = .ok (out ++ data) := by
  induction data using b64encode.induct with
  | case1 =>
    intro pads out
    rw [List.append_nil]
    rfl
  | case2 a => exact fun pads out => a2bBase64_last_one a pads
  | case3 a b => exact fun pads out => a2bBase64_last_two a b pads
  | case4 a b c rest ih =>
    intro pads out
    have hrest := ih 0 (out ++ [a, b, c])
    rw [List.append_assoc] at hrest
    exact (a2bBase64_group a b c pads).trans hrest

/-- What is written is ASCII. -/
theorem b64encode_ascii {data : Bytes} : ∀ c ∈ b64encode data, c.val < 0x80 := by
  have hpad : (ofChar '=' : CodePoint).val < 0x80 := by decide
  fun_induction b64encode data with
  | case1 => exact fun c hc => absurd hc List.not_mem_nil
  | case2 a =>
    have ha := a.toNat_lt
    simp only [List.forall_mem_cons, List.not_mem_nil, false_imp_iff, implies_true, and_true]
    exact ⟨sextet_lt _ (by omega), sextet_lt _ (by omega), hpad, hpad⟩
  | case3 a b =>
    have ha := a.toNat_lt
    have hb := b.toNat_lt
    simp only [List.forall_mem_cons, List.not_mem_nil, false_imp_iff, implies_true, and_true]
    exact ⟨sextet_lt _ (by omega), sextet_lt _ (by omega), sextet_lt _ (by omega), hpad⟩
  | case4 a b c rest ih =>
    have ha := a.toNat_lt
    have hb := b.toNat_lt
    have hc := c.toNat_lt
    simp only [List.forall_mem_cons]
    exact ⟨sextet_lt _ (by omega), sextet_lt _ (by omega), sextet_lt _ (by omega),
      sextet_lt _ (by omega), ih⟩

/-- What is written does not begin with a pad. -/
theorem head_b64encode (data : Bytes) : (codes (b64encode data)).head?.any (chr '=') = false := by
  fun_cases b64encode data with
  | case1 => rfl
  | case2 a => exact chr_pad_sextet _ (by have := a.toNat_lt; omega)
  | case3 a b => exact chr_pad_sextet _ (by have := a.toNat_lt; omega)
  | case4 a b c rest => exact chr_pad_sextet _ (by have := a.toNat_lt; omega)

/-- What is written is read back. -/
theorem b64decode_b64encode (validate : Bool) (data : Bytes) :
    b64decode validate (b64encode data) = .ok data := by
  have hascii : (b64encode data).any (fun c => decide (0x80 ≤ c.val)) = false := by
    rw [List.any_eq_false]
    intro c hc
    simpa using b64encode_ascii c hc
  rw [b64decode, hascii, head_b64encode]
  simpa using a2bBase64_b64encode validate data 0 []

end SignalGateway.Proofs.Base64
