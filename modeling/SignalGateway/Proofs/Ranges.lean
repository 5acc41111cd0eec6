import SignalGateway.Proofs.Utf16

/-!
# `SignalGateway.Proofs.Ranges`: the returned ranges are valid

A range that `markdown_to_signal` returns is not empty, lies inside the plain text, starts
and ends between two characters of its UTF-16 encoding, and covers the encoding of the span
it was made from (`validRange_markdownToSignal`). `one_le_length_of_mem_spans` says that no
phase leaves an empty span behind.

The offsets of the earlier phases are adjusted by subtraction. `shiftBefore_le` says that it
never goes below zero, so the natural numbers of `adj` are the integers of the source.

`IsBoundary` is stated in UTF-16 units of a text: the units in front of it are those of some
prefix. `IsBoundary.not_splitsPair` is the usual wording, that no surrogate pair is split.

`Stretches` is the order of the stretches that are removed. `stretches_markersOf` shows it for
the markers of the accepted matches, so that sorting them changes nothing (`removals_eq`).
-/

set_option autoImplicit false

namespace SignalGateway.Proofs.Markdown

open SignalGateway.Markdown
open Regex PyChar

variable {α : Type} [PyChar α]

/-! ### Code units -/

/-- The UTF-16 code units of a character that is not a surrogate. -/
def codeUnits (c : α) : List Nat :=
  if code c < 0x10000 then [code c]
  else [0xd800 + (code c - 0x10000) / 0x400, 0xdc00 + (code c - 0x10000) % 0x400]

/-- `s.encode("utf-16-le")`, as code units. -/
def encodeUtf16 (s : List α) : List Nat := s.flatMap codeUnits

/-- A character has one code unit or two. -/
theorem length_codeUnits (c : α) : (codeUnits c).length = units c := by
  rw [codeUnits, units]
  split <;> rfl

/-- The length of an encoded text. -/
theorem length_encodeUtf16 (s : List α) : (encodeUtf16 s).length = (s.map units).sum := by
  rw [encodeUtf16, List.length_flatMap]
  exact congrArg List.sum (List.map_congr_left fun c _ => length_codeUnits c)

/-- No character is encoded to nothing. -/
theorem length_le_encodeUtf16 (s : List α) : s.length ≤ (encodeUtf16 s).length := by
  rw [length_encodeUtf16]
  exact length_le_sum_units s

/-- Texts are encoded character by character. -/
@[simp] theorem encodeUtf16_append (s t : List α) :
    encodeUtf16 (s ++ t) = encodeUtf16 s ++ encodeUtf16 t := List.flatMap_append

/-- A position between two characters of a UTF-16 encoding. -/
def IsBoundary (s : List α) (n : Nat) : Prop :=
  ∃ k ≤ s.length, n = (encodeUtf16 (s.take k)).length

/-- The second unit of a surrogate pair. -/
def isLowSurrogate (u : Nat) : Bool := 0xdc00 ≤ u && u ≤ 0xdfff

/-- A position inside a surrogate pair: a low surrogate follows. -/
def SplitsPair (us : List Nat) (n : Nat) : Prop := ∃ u ∈ us[n]?, isLowSurrogate u = true

/-- The encoding of a character that is no surrogate does not start with a low surrogate. -/
theorem not_low_of_mem_head {c : α} (hc : isSurrogate (code c) = false)
    (hlt : code c < 0x110000) : ∀ u ∈ (codeUnits c).head?, isLowSurrogate u = false := by
  intro u hu
  rw [← Bool.not_eq_true, isSurrogate, Bool.and_eq_true, decide_eq_true_eq,
    decide_eq_true_eq] at hc
  rw [← Bool.not_eq_true, isLowSurrogate, Bool.and_eq_true, decide_eq_true_eq,
    decide_eq_true_eq]
  rw [codeUnits] at hu
  split at hu
  · obtain rfl : code c = u := Option.some.inj hu
    omega
  · obtain rfl : 0xd800 + (code c - 0x10000) / 0x400 = u := Option.some.inj hu
    omega

/-- A boundary is not inside a surrogate pair. -/
theorem IsBoundary.not_splitsPair {s : PyStr} (hs : ∀ c ∈ s, isSurrogate (code c) = false)
    {n : Nat} (h : IsBoundary s n) : ¬ SplitsPair (encodeUtf16 s) n := by
  obtain ⟨k, -, rfl⟩ := h
  rintro ⟨u, hu, hlow⟩
  have hrest : encodeUtf16 s = encodeUtf16 (s.take k) ++ encodeUtf16 (s.drop k) := by
    rw [← encodeUtf16_append, List.take_append_drop]
  rw [hrest, Option.mem_def, List.getElem?_append_right le_rfl, Nat.sub_self,
    ← List.head?_eq_getElem?] at hu
  cases hdrop : s.drop k with
  | nil =>
    rw [hdrop] at hu
    cases hu
  | cons c rest =>
    have hc : c ∈ s := List.mem_of_mem_drop (hdrop ▸ List.mem_cons_self)
    have hhead : (encodeUtf16 (c :: rest)).head? = (codeUnits c).head? := by
      rw [encodeUtf16, List.flatMap_cons, codeUnits]
      split <;> rfl
    rw [hdrop, hhead] at hu
    rw [not_low_of_mem_head (hs c hc) c.isLt u hu] at hlow
    cases hlow

/-! ### No span is empty -/

/-- The six patterns have a group of at least one character. -/
theorem longGroups_inlinePatterns (isWord : Nat → Bool) :
    ∀ p ∈ inlinePatterns isWord, p.1.LongGroups 1 := by
  intro p hp
  simp only [inlinePatterns, List.mem_cons, List.not_mem_nil, or_false] at hp
  rcases hp with rfl | rfl | rfl | rfl | rfl | rfl <;>
    simp [Re.seqs, Re.LongGroups, lazyGroup, Re.minLen]

/-- The groups of the collected matches are not empty. -/
def InnersPos (st : List Inline × List (Nat × Nat)) : Prop :=
  ∀ m ∈ st.1, m.innerStart < m.innerStop

/-- No inline is empty. -/
theorem inner_pos_of_mem_collect (isWord : Nat → Bool) (text : List α)
    (occupied : List (Nat × Nat)) :
    ∀ m ∈ collect isWord text occupied, m.innerStart < m.innerStop := by
  refine List.foldlRecOn (motive := InnersPos) _ _ (by simp [InnersPos]) fun st hst p hp => ?_
  obtain ⟨hlen, heven, hcount, hout⟩ := inlinePatterns_spec isWord p hp
  refine List.foldlRecOn (motive := InnersPos) _ _ hst fun st hst m hm => ?_
  obtain ⟨-, hstart, hmatch⟩ := mem_scan (scan_finditer hlen) m hm
  obtain ⟨g, hg, -⟩ := matchAt_one_group hstart heven hcount hout hmatch
  have hpos := le_of_mem_groups (longGroups_inlinePatterns isWord p hp) hstart hmatch g
    (hg ▸ List.mem_cons_self)
  unfold collectMatch
  split
  · exact hst
  · intro a ha
    rcases List.mem_append.mp ha with ha | ha
    · exact hst a ha
    · rw [List.mem_singleton.mp ha, groupSpan, hg]
      exact hpos

/-- The strip pass makes a span of every match, as long as its group. -/
theorem one_le_length_of_mem_strip {text : List α} :
    ∀ {ms : List Inline} {i : Nat} {result : List α} {spans : List Span}, Follows text i ms →
      (∀ m ∈ ms, m.innerStart < m.innerStop) → (∀ s ∈ spans, 1 ≤ s.length) →
      ∀ s ∈ (stripFrom text ms result i spans).2, 1 ≤ s.length := by
  intro ms
  induction ms with
  | nil => exact fun _ _ hspans => hspans
  | cons m ms ih =>
    intro i result spans hfollows hinner hspans
    obtain ⟨-, hm, hrest⟩ := hfollows
    refine ih hrest (fun m' hm' => hinner m' (List.mem_cons_of_mem _ hm')) fun s hs => ?_
    rcases List.mem_append.mp hs with hs | hs
    · exact hspans s hs
    · have hpos := hinner m List.mem_cons_self
      have hstop := hm.stop_le.trans hm.stop_le_length
      rw [List.mem_singleton.mp hs]
      show 1 ≤ (slice text m.innerStart m.innerStop).length
      rw [length_slice]
      omega

/-- An adjusted span is kept only if something of it is left. -/
theorem one_le_length_of_adjustSpan {rs : List (Nat × Nat)} {s s' : Span}
    (h : adjustSpan rs s = some s') : 1 ≤ s'.length := by
  rw [adjustSpan] at h
  split at h
  · rename_i hlt
    obtain rfl := Option.some.inj h
    exact Nat.sub_pos_of_lt hlt
  · cases h

/-- The inline phase keeps no empty span and makes none. -/
theorem one_le_length_of_mem_inlines (isWord : Nat → Bool) (text : List α) (spans : List Span) :
    ∀ s ∈ (inlines isWord text spans).2, 1 ≤ s.length := by
  rw [inlines]
  generalize hoccupied : List.map (fun s : Span => (s.start, s.start + s.length)) _ = occupied
  have hinner : ∀ m ∈ sortInlines (collect isWord text occupied), m.innerStart < m.innerStop :=
    fun m hm => inner_pos_of_mem_collect isWord text occupied m ((perm_sortOn _ _).mem_iff.mp hm)
  have hfollows := follows_inlines isWord text occupied
  generalize sortInlines (collect isWord text occupied) = ms at hinner hfollows
  intro s hs
  rcases List.mem_append.mp hs with hprior | hinline
  · obtain ⟨s', -, hadjust⟩ := List.mem_filterMap.mp hprior
    exact one_le_length_of_adjustSpan hadjust
  · exact one_le_length_of_mem_strip hfollows hinner (fun _ h => absurd h List.not_mem_nil)
      s hinline

/-- No span of the three phases is empty. -/
theorem one_le_length_of_mem_spans (isWord : Nat → Bool) (text : List α) :
    ∀ s ∈ (spansOf isWord text).2, 1 ≤ s.length := by
  rw [spansOf_eq]
  exact one_le_length_of_mem_inlines isWord _ _

/-! ### The offsets of the earlier phases -/

/-- Removed stretches that follow one another, from `lo` on. -/
def Stretches : Nat → List (Nat × Nat) → Prop
  | _, [] => True
  | lo, r :: rs => lo ≤ r.1 ∧ 0 < r.2 ∧ Stretches (r.1 + r.2) rs

/-- Stretches begin behind any earlier position, too. -/
theorem Stretches.mono {rs : List (Nat × Nat)} {lo lo' : Nat} (h : Stretches lo rs)
    (hle : lo' ≤ lo) : Stretches lo' rs := by
  cases rs with
  | nil => trivial
  | cons r rs => exact ⟨hle.trans h.1, h.2⟩

/-- Every stretch begins behind the bound. -/
theorem Stretches.le_of_mem : ∀ {rs : List (Nat × Nat)} {lo : Nat}, Stretches lo rs →
    ∀ r ∈ rs, lo ≤ r.1 := by
  intro rs
  induction rs with
  | nil => intro lo _ r hr; cases hr
  | cons r rs ih =>
    intro lo h r' hr'
    obtain ⟨hlo, -, hrest⟩ := h
    rcases List.mem_cons.mp hr' with rfl | hr'
    · exact hlo
    · have := ih hrest r' hr'
      omega

/-- No more characters are removed in front of a position than there are. -/
theorem Stretches.shiftBefore_le : ∀ {rs : List (Nat × Nat)} {lo : Nat}, Stretches lo rs →
    ∀ pos, shiftBefore rs pos ≤ pos - lo := by
  intro rs
  induction rs with
  | nil => exact fun _ _ => Nat.zero_le _
  | cons r rs ih =>
    intro lo h pos
    obtain ⟨hlo, -, hrest⟩ := h
    have := ih hrest pos
    rw [shiftBefore]
    split
    · omega
    · exact Nat.zero_le _

/-- The stretches that are removed around the group of a match. -/
def markersOf (m : Inline) : List (Nat × Nat) :=
  (if m.start < m.innerStart then [(m.start, m.innerStart - m.start)] else []) ++
    if m.innerStop < m.stop then [(m.innerStop, m.stop - m.innerStop)] else []

/-- The markers of inlines in order are stretches in order. -/
theorem stretches_markersOf {text : List α} : ∀ {ms : List Inline} {i : Nat},
    Follows text i ms → Stretches i (ms.flatMap markersOf) := by
  intro ms
  induction ms with
  | nil => exact fun _ => trivial
  | cons m ms ih =>
    intro i hfollows
    obtain ⟨hi, hm, hrest⟩ := hfollows
    have hstart := hm.start_le
    have hinner := hm.inner_le
    have hstop := hm.stop_le
    have hms : ∀ {lo : Nat}, lo ≤ m.stop → Stretches lo (ms.flatMap markersOf) :=
      (ih hrest).mono
    -- the closing marker, if there is one, and the markers of the later matches
    have hback : ∀ {lo : Nat}, lo ≤ m.innerStop → Stretches lo
        ((if m.innerStop < m.stop then [(m.innerStop, m.stop - m.innerStop)] else [])
          ++ ms.flatMap markersOf) := by
      intro lo hlo
      split
      · exact ⟨hlo, by omega, hms (by omega)⟩
      · exact hms (by omega)
    rw [List.flatMap_cons, markersOf, List.append_assoc]
    split
    · exact ⟨hi, by omega, hback (by omega)⟩
    · exact hback (by omega)

/-- The removed stretches are sorted before `removals` sorts them. -/
theorem removals_eq {lo : Nat} {ms : List Inline} (h : Stretches lo (ms.flatMap markersOf)) :
    removals ms = ms.flatMap markersOf := by
  have hsorted : ∀ {rs : List (Nat × Nat)} {lo : Nat}, Stretches lo rs →
      rs.Pairwise fun a b => numbersLe [a.1, a.2] [b.1, b.2] = true := by
    intro rs
    induction rs with
    | nil => exact fun _ => List.Pairwise.nil
    | cons r rs ih =>
      intro lo h
      obtain ⟨-, hpos, hrest⟩ := h
      refine List.Pairwise.cons (fun r' hr' => ?_) (ih hrest)
      have hlt := hrest.le_of_mem r' hr'
      have hlt : r.1 < r'.1 := by omega
      simp [numbersLe, hlt]
  exact (hsorted h).insertionSort_eq

/-- A position lies behind all that is removed in front of it, so `adj` never cuts off at
zero. -/
theorem shiftBefore_le (isWord : Nat → Bool) (text : List α) (occupied : List (Nat × Nat))
    (pos : Nat) :
    shiftBefore (removals (sortInlines (collect isWord text occupied))) pos ≤ pos := by
  have hstretches := stretches_markersOf (follows_inlines isWord text occupied)
  rw [removals_eq hstretches]
  exact hstretches.shiftBefore_le pos

/-! ### The ranges -/

/-- The range of a span, in the encoded text. -/
theorem toRange_ok {text : List α} {s : Span} {r : StyleRange} (h : toRange text s = .ok r) :
    r = ⟨(encodeUtf16 (text.take s.start)).length,
      (encodeUtf16 (slice text s.start (s.start + s.length))).length, s.style⟩ := by
  rw [length_encodeUtf16, length_encodeUtf16]
  exact toRange_eq_ok h

/-- A range as Signal expects it, made from the span `s` of the plain text. -/
structure ValidRange (plain : List α) (s : Span) (r : StyleRange) : Prop where
  length_pos : 1 ≤ r.length
  stop_le : r.start + r.length ≤ (encodeUtf16 plain).length
  start_boundary : IsBoundary plain r.start
  stop_boundary : IsBoundary plain (r.start + r.length)
  start_whole : ¬ SplitsPair (encodeUtf16 plain) r.start
  stop_whole : ¬ SplitsPair (encodeUtf16 plain) (r.start + r.length)
  slice_eq : slice (encodeUtf16 plain) r.start (r.start + r.length)
    = encodeUtf16 (slice plain s.start (s.start + s.length))

/-- The range of a span inside the plain text is valid. -/
theorem validRange_of_toRange {plain : PyStr} (hplain : ∀ c ∈ plain, isSurrogate (code c) = false)
    {s : Span} (hpos : 1 ≤ s.length) (hle : s.start + s.length ≤ plain.length) {r : StyleRange}
    (h : toRange plain s = .ok r) : ValidRange plain s r := by
  obtain rfl := toRange_ok h
  -- The encoding, cut at the span.
  have htake : plain.take (s.start + s.length)
      = plain.take s.start ++ slice plain s.start (s.start + s.length) := by
    have hslice := slice_append_slice plain (Nat.zero_le s.start) (Nat.le_add_right _ s.length)
    simpa [slice] using hslice.symm
  have hstop : (encodeUtf16 (plain.take (s.start + s.length))).length
      = (encodeUtf16 (plain.take s.start)).length
        + (encodeUtf16 (slice plain s.start (s.start + s.length))).length := by
    rw [htake, encodeUtf16_append, List.length_append]
  have hsplit : encodeUtf16 plain = encodeUtf16 (plain.take s.start) ++
      (encodeUtf16 (slice plain s.start (s.start + s.length)) ++
        encodeUtf16 (plain.drop (s.start + s.length))) := by
    rw [← List.append_assoc, ← encodeUtf16_append, ← htake, ← encodeUtf16_append,
      List.take_append_drop]
  have hstart_boundary : IsBoundary plain (encodeUtf16 (plain.take s.start)).length :=
    ⟨s.start, by omega, rfl⟩
  have hstop_boundary : IsBoundary plain ((encodeUtf16 (plain.take s.start)).length
      + (encodeUtf16 (slice plain s.start (s.start + s.length))).length) :=
    ⟨s.start + s.length, hle, hstop.symm⟩
  refine ⟨?_, ?_, hstart_boundary, hstop_boundary, hstart_boundary.not_splitsPair hplain,
    hstop_boundary.not_splitsPair hplain, ?_⟩
  · have hlen := length_le_encodeUtf16 (slice plain s.start (s.start + s.length))
    rw [length_slice] at hlen
    show 1 ≤ (encodeUtf16 (slice plain s.start (s.start + s.length))).length
    omega
  · show (encodeUtf16 (plain.take s.start)).length
      + (encodeUtf16 (slice plain s.start (s.start + s.length))).length ≤ _
    rw [hsplit, List.length_append, List.length_append]
    omega
  · rw [slice_eq_take_drop, hsplit, List.drop_left, Nat.add_sub_cancel_left, List.take_left]

/-- For a text without lone surrogates, `markdown_to_signal` returns valid ranges only. -/
theorem validRange_markdownToSignal (isWord : Nat → Bool) {text : PyStr}
    (h : ∀ c ∈ text, isSurrogate (code c) = false) :
    ∃ plain ranges, markdownToSignal isWord text = .ok (plain, ranges) ∧
      ∀ r ∈ ranges, ∃ s ∈ (spansOf isWord text).2,
        toRange plain s = .ok r ∧ ValidRange plain s r := by
  obtain ⟨plain, ranges, hok⟩ := exists_ok isWord h
  -- The plain text has no surrogates either, so each of its characters has units.
  have hplain : ∀ c ∈ plain, isSurrogate (code c) = false := by
    rw [plain_eq hok]
    exact not_surrogate_spansOf isWord h
  refine ⟨plain, ranges, hok, fun r hr => ?_⟩
  obtain ⟨s, hs, hle, hrange⟩ := (mem_ranges hok r).mp hr
  exact ⟨s, hs, hrange,
    validRange_of_toRange hplain (one_le_length_of_mem_spans isWord text s hs) hle hrange⟩

/-- The characters of a literal are no surrogates. -/
theorem not_surrogate_of_mem_lit (s : String) :
    ∀ c ∈ (lit s : List α), isSurrogate (code c) = false := by
  intro c hc
  obtain ⟨ch, -, rfl⟩ := List.mem_map.mp hc
  have hvalid : ch.val.toNat < 0xd800 ∨ 0xdfff < ch.val.toNat ∧ ch.val.toNat < 0x110000 := ch.valid
  have hcode : code (ofChar ch : α) = ch.val.toNat := code_ofChar ch
  rw [hcode, ← Bool.not_eq_true, isSurrogate, Bool.and_eq_true, decide_eq_true_eq,
    decide_eq_true_eq]
  omega

/-- A bold emoji. -/
theorem validRange_markdownToSignal_emoji :
    ∃ plain ranges, markdownToSignal (fun _ => false) (lit "**😀** ok" : PyStr)
        = .ok (plain, ranges) ∧
      ∀ r ∈ ranges, ∃ s ∈ (spansOf (fun _ => false) (lit "**😀** ok" : PyStr)).2,
        toRange plain s = .ok r ∧ ValidRange plain s r :=
  validRange_markdownToSignal (fun _ => false) (not_surrogate_of_mem_lit _)

end SignalGateway.Proofs.Markdown
