import SignalGateway.Lib.Deletions
import SignalGateway.Proofs.HeadingTrace
import SignalGateway.Proofs.Ranges

/-!
# `SignalGateway.Proofs.Offsets`: the adjuster agrees with the strip pass

Phase 3 computes one change of coordinates twice. The strip pass rebuilds the text and reads
the new positions off its length (`strip_eq_kept`). `_adj` subtracts the lengths of the removed
stretches in front of a position (`adj_eq_count`). Both are the deletion of the markers of the
accepted matches, and `offsets_agree` puts them together.

* `inMarker` and `inStretch` say whether a position is deleted: once in terms of the matches, and
  once in terms of the stretches that `_adj` gets.
* `strip_eq_kept` and `strip_spans` are about the strip pass: what is kept, and where its groups
  are shown.
* `Stretches.shiftBefore_eq_count` is about the adjuster. It needs stretches that do not overlap
  (`Stretches`).
* `adjustSpan_eq_none_iff` says which spans of the earlier phases are dropped.
-/

set_option autoImplicit false

namespace SignalGateway.Proofs.Markdown

open SignalGateway.Markdown
open Regex PyChar Deletions

variable {α : Type} [PyChar α]

/-! ### The deleted positions -/

/-- Position `k` lies in the opening or in the closing marker of a match. -/
def inMarker (ms : List Inline) (k : Nat) : Bool :=
  ms.any fun m => (m.start ≤ k && k < m.innerStart) || (m.innerStop ≤ k && k < m.stop)

/-- Position `k` lies in a removed stretch. -/
def inStretch (rs : List (Nat × Nat)) (k : Nat) : Bool :=
  rs.any fun r => r.1 ≤ k && k < r.1 + r.2

/-- The markers of the first inline, or of another one. -/
theorem inMarker_cons (m : Inline) (ms : List Inline) (k : Nat) :
    inMarker (m :: ms) k = (((m.start ≤ k && k < m.innerStart) ||
      (m.innerStop ≤ k && k < m.stop)) || inMarker ms k) := List.any_cons

/-- The stretches of either list. -/
theorem inStretch_append (rs rs' : List (Nat × Nat)) (k : Nat) :
    inStretch (rs ++ rs') k = (inStretch rs k || inStretch rs' k) := List.any_append

/-- The markers of an inline are its two stretches. -/
theorem inStretch_markersOf {text : List α} {m : Inline} (hm : InlineOk text m) (k : Nat) :
    inStretch (markersOf m) k
      = ((m.start ≤ k && k < m.innerStart) || (m.innerStop ≤ k && k < m.stop)) := by
  have hstart := hm.start_le
  have hstop := hm.stop_le
  have hmarker : ∀ {a b : Nat}, a ≤ b →
      inStretch (if a < b then [(a, b - a)] else []) k = (a ≤ k && k < b) := by
    intro a b hab
    split
    · rw [Bool.eq_iff_iff]
      simp [inStretch]
      omega
    · rw [Bool.eq_iff_iff]
      simp [inStretch]
      omega
  rw [markersOf, inStretch_append, hmarker hstart, hmarker hstop]

/-- The removed stretches are the markers. -/
theorem inStretch_markers {text : List α} {ms : List Inline} (h : ∀ m ∈ ms, InlineOk text m)
    (k : Nat) : inStretch (ms.flatMap markersOf) k = inMarker ms k := by
  induction ms with
  | nil => rfl
  | cons m ms ih =>
    rw [List.flatMap_cons, inStretch_append, inStretch_markersOf (h m List.mem_cons_self),
      ih fun m' hm' => h m' (List.mem_cons_of_mem _ hm'), inMarker_cons]

/-! ### The prefix sum -/

/-- In front of the first stretch nothing is removed. -/
theorem Stretches.inStretch_eq_false {rs : List (Nat × Nat)} {lo k : Nat} (h : Stretches lo rs)
    (hk : k < lo) : inStretch rs k = false := by
  rw [inStretch, List.any_eq_false]
  intro r hr
  have hle := h.le_of_mem r hr
  simp
  omega

/-- A step over a position adds one to the sum if the position is removed. -/
theorem Stretches.shiftBefore_succ : ∀ {rs : List (Nat × Nat)} {lo : Nat}, Stretches lo rs →
    ∀ pos, shiftBefore rs (pos + 1)
      = shiftBefore rs pos + if inStretch rs pos = true then 1 else 0 := by
  intro rs
  induction rs with
  | nil => exact fun _ _ => rfl
  | cons r rs ih =>
    intro lo h pos
    obtain ⟨-, hpos, hrest⟩ := h
    have hstep := ih hrest pos
    have hcons : inStretch (r :: rs) pos
        = ((r.1 ≤ pos && pos < r.1 + r.2) || inStretch rs pos) := List.any_cons
    rw [shiftBefore, shiftBefore, hcons]
    rcases Nat.lt_or_ge pos (r.1 + r.2) with hlt | hge
    · -- The later stretches begin behind the position.
      have hlater : inStretch rs pos = false := hrest.inStretch_eq_false hlt
      have hzero := hrest.shiftBefore_le (pos + 1)
      rw [hlater, if_neg Bool.false_ne_true] at hstep
      rw [hlater, Bool.or_false]
      rcases Nat.lt_or_ge pos r.1 with hfront | hin
      · have hnot : decide (r.1 ≤ pos) = false := decide_eq_false (by omega)
        rw [if_neg (by omega), if_neg (by omega), hnot]
        rfl
      · have hyes : (decide (r.1 ≤ pos) && decide (pos < r.1 + r.2)) = true := by simp [hin, hlt]
        rw [if_pos (by omega), hyes, if_pos rfl]
        split
        · omega
        · omega
    · -- The position lies behind the first stretch.
      rw [if_pos (by omega), if_pos (by omega), hstep]
      have hnot : decide (pos < r.1 + r.2) = false := decide_eq_false (by omega)
      rw [hnot, Bool.and_false, Bool.false_or]
      omega

/-- The prefix sum counts the removed positions. -/
theorem Stretches.shiftBefore_eq_count {rs : List (Nat × Nat)} {lo : Nat} (h : Stretches lo rs)
    (pos : Nat) : shiftBefore rs pos = Nat.count (fun k => inStretch rs k = true) pos := by
  induction pos with
  | zero =>
    have hle := h.shiftBefore_le 0
    rw [Nat.count_zero]
    omega
  | succ pos ih => rw [h.shiftBefore_succ, Nat.count_succ, ih]

/-- Inlines that follow one another are well formed. -/
theorem ok_of_follows {text : List α} : ∀ {ms : List Inline} {i : Nat}, Follows text i ms →
    ∀ m ∈ ms, InlineOk text m := by
  intro ms
  induction ms with
  | nil => exact fun _ _ hm => absurd hm List.not_mem_nil
  | cons m ms ih =>
    intro i h m' hm'
    rcases List.mem_cons.mp hm' with rfl | hm'
    · exact h.2.1
    · exact ih h.2.2 m' hm'

/-- `_adj` maps a position to the number of positions in front of it that stay. -/
theorem adj_eq_count {text : List α} {ms : List Inline} {i : Nat} (h : Follows text i ms)
    (pos : Nat) : adj (removals ms) pos = Nat.count (fun k => inMarker ms k = false) pos := by
  have hstretches := stretches_markersOf h
  rw [adj, removals_eq hstretches, hstretches.shiftBefore_eq_count, count_live]
  simp only [inStretch_markers (ok_of_follows h)]

/-! ### The strip pass -/

/-- No match reaches back in front of the position it follows. -/
theorem Follows.inMarker_eq_false {text : List α} : ∀ {ms : List Inline} {i k : Nat},
    Follows text i ms → k < i → inMarker ms k = false := by
  intro ms
  induction ms with
  | nil => exact fun _ _ => rfl
  | cons m ms ih =>
    intro i k h hk
    obtain ⟨hi, hm, hrest⟩ := h
    have hstart := hm.start_le
    have hinner := hm.inner_le
    have hstop := hm.stop_le
    rw [inMarker_cons, ih hrest (by omega), Bool.or_false]
    simp
    omega

/-- The text from a position on, without the markers of the matches that follow. -/
theorem kept_drop_cons {text : List α} {m : Inline} {ms : List Inline} {i : Nat}
    (h : Follows text i (m :: ms)) :
    kept (inMarker (m :: ms)) (text.zipIdx.drop i)
      = slice text i m.start ++ slice text m.innerStart m.innerStop
        ++ kept (inMarker ms) (text.zipIdx.drop m.stop) := by
  obtain ⟨hi, hm, hrest⟩ := h
  have hstart := hm.start_le
  have hinner := hm.inner_le
  have hstop := hm.stop_le
  have hsplit : text.zipIdx.drop i = slice text.zipIdx i m.start ++
      (slice text.zipIdx m.start m.innerStart ++ (slice text.zipIdx m.innerStart m.innerStop ++
        (slice text.zipIdx m.innerStop m.stop ++ text.zipIdx.drop m.stop))) := by
    rw [slice_append_drop _ hstop, slice_append_drop _ hinner, slice_append_drop _ hstart,
      slice_append_drop _ hi]
  have hmarker : ∀ k, k < m.stop → inMarker (m :: ms) k
      = ((m.start ≤ k && k < m.innerStart) || (m.innerStop ≤ k && k < m.stop)) := by
    intro k hk
    rw [inMarker_cons, hrest.inMarker_eq_false hk, Bool.or_false]
  -- Slices that stay: in front of the match, and its group.
  have hlive : ∀ {a b : Nat}, b ≤ m.start ∨ (m.innerStart ≤ a ∧ b ≤ m.innerStop) →
      kept (inMarker (m :: ms)) (slice text.zipIdx a b) = slice text a b := by
    intro a b hab
    rw [kept_of_live, map_slice, List.zipIdx_map_fst]
    intro x hx
    obtain ⟨ha, hb, -⟩ := mem_slice_zipIdx hx
    rw [hmarker x.2 (by omega)]
    simp
    omega
  -- Slices that go: the two markers.
  have hdead : ∀ {a b : Nat}, (m.start ≤ a ∧ b ≤ m.innerStart) ∨
      (m.innerStop ≤ a ∧ b ≤ m.stop) →
      kept (inMarker (m :: ms)) (slice text.zipIdx a b) = [] := by
    intro a b hab
    refine kept_of_dead fun x hx => ?_
    obtain ⟨ha, hb, -⟩ := mem_slice_zipIdx hx
    rw [hmarker x.2 (by omega)]
    simp
    omega
  have hback : kept (inMarker (m :: ms)) (text.zipIdx.drop m.stop)
      = kept (inMarker ms) (text.zipIdx.drop m.stop) := by
    refine kept_congr fun x hx => ?_
    have hx := Edits.le_of_mem_drop_zipIdx hx
    rw [inMarker_cons]
    have hfirst : ((m.start ≤ x.2 && x.2 < m.innerStart) ||
        (m.innerStop ≤ x.2 && x.2 < m.stop)) = false := by
      simp
      omega
    rw [hfirst, Bool.false_or]
  rw [hsplit, kept_append, kept_append, kept_append, kept_append, hlive (.inl le_rfl),
    hdead (.inl ⟨le_rfl, le_rfl⟩), hlive (.inr ⟨le_rfl, le_rfl⟩), hdead (.inr ⟨le_rfl, le_rfl⟩),
    hback, List.nil_append, List.nil_append, List.append_assoc]

/-- The strip pass deletes the markers. -/
theorem strip_eq_kept {text : List α} : ∀ {ms : List Inline} {i : Nat} (result : List α)
    (spans : List Span), Follows text i ms →
      (stripFrom text ms result i spans).1
        = result ++ kept (inMarker ms) (text.zipIdx.drop i) := by
  intro ms
  induction ms with
  | nil =>
    intro i result spans _
    rw [kept_of_live fun _ _ => rfl, List.map_drop, List.zipIdx_map_fst]
    rfl
  | cons m ms ih =>
    intro i result spans h
    rw [stripFrom, ih _ _ h.2.2, kept_drop_cons h]
    simp only [List.append_assoc]

/-- The span of a match shows its group. -/
def ShowsGroup (text plain : List α) (m : Inline) (s : Span) : Prop :=
  s.style = m.style ∧ s.start + s.length ≤ plain.length ∧
    slice plain s.start (s.start + s.length) = slice text m.innerStart m.innerStop

/-- The strip pass makes one span for each match. -/
theorem strip_spans {text : List α} : ∀ {ms : List Inline} {i : Nat} (result : List α)
    (spans : List Span), Follows text i ms →
      ∃ inner, (stripFrom text ms result i spans).2 = spans ++ inner ∧
        List.Forall₂ (ShowsGroup text (stripFrom text ms result i spans).1) ms inner := by
  intro ms
  induction ms with
  | nil => exact fun result spans _ => ⟨[], (List.append_nil _).symm, .nil⟩
  | cons m ms ih =>
    intro i result spans h
    obtain ⟨-, -, hrest⟩ := h
    rw [stripFrom]
    obtain ⟨inner, hspans, hshown⟩ := ih
      (result ++ slice text i m.start ++ slice text m.innerStart m.innerStop)
      (spans ++ [⟨(result ++ slice text i m.start).length,
        (slice text m.innerStart m.innerStop).length, m.style⟩]) hrest
    refine ⟨_ :: inner, by rw [hspans, List.append_assoc, List.singleton_append],
      .cons ?_ hshown⟩
    -- What was written when the span was made is not touched again.
    have hplain := strip_eq_kept
      (result ++ slice text i m.start ++ slice text m.innerStart m.innerStop)
      (spans ++ [⟨(result ++ slice text i m.start).length,
        (slice text m.innerStart m.innerStop).length, m.style⟩]) hrest
    rw [hplain]
    refine ⟨rfl, ?_, ?_⟩
    · simp only [List.length_append]
      omega
    · rw [slice, ← List.length_append, List.take_left, List.drop_left]

/-! ### The two passes together -/

/-- What phase 3 makes of the text `text` and the spans `earlier`, if it accepts the matches
`ms`. -/
structure OffsetsAgree (text : List α) (codeSpans earlier : List Span) (ms : List Inline)
    (plain : List α) (spans : List Span) : Prop where
  apart : ms.Pairwise Apart
  free : ∀ m ∈ ms, ∀ s ∈ codeSpans, s.start + s.length ≤ m.start ∨ m.stop ≤ s.start
  plain_eq : plain = kept (inMarker ms) text.zipIdx
  spans_eq : ∃ inner, spans = earlier.filterMap (adjustSpan (removals ms)) ++ inner ∧
    List.Forall₂ (ShowsGroup text plain) ms inner
  slice_eq : ∀ s ∈ earlier, s.start + s.length ≤ text.length →
    slice plain (adj (removals ms) s.start) (adj (removals ms) (s.start + s.length))
      = kept (inMarker ms) (slice text.zipIdx s.start (s.start + s.length))
  dropped_iff : ∀ s ∈ earlier, s.start + s.length ≤ text.length →
    (adjustSpan (removals ms) s = none ↔
      kept (inMarker ms) (slice text.zipIdx s.start (s.start + s.length)) = [])

/-- The ranges that are occupied when phase 3 starts. -/
def occupiedBy (spans : List Span) : List (Nat × Nat) :=
  (spans.filter fun s => s.style = .monospace).map fun s => (s.start, s.start + s.length)

/-- A slice behind the deletion, by its adjusted offsets. -/
theorem slice_adj {text : List α} {ms : List Inline} (h : Follows text 0 ms) {a b : Nat}
    (hab : a ≤ b) (hb : b ≤ text.length) :
    slice (kept (inMarker ms) text.zipIdx) (adj (removals ms) a) (adj (removals ms) b)
      = kept (inMarker ms) (slice text.zipIdx a b) := by
  rw [adj_eq_count h, adj_eq_count h, slice_kept text hab hb]

/-- A span is dropped exactly if its markers are all there is to it. -/
theorem adjustSpan_eq_none_iff {text : List α} {ms : List Inline} (h : Follows text 0 ms)
    {s : Span} (hs : s.start + s.length ≤ text.length) :
    adjustSpan (removals ms) s = none ↔
      kept (inMarker ms) (slice text.zipIdx s.start (s.start + s.length)) = [] := by
  -- What lies between the adjusted ends is what is kept of the span.
  have hlength : (slice (kept (inMarker ms) text.zipIdx) (adj (removals ms) s.start)
      (adj (removals ms) (s.start + s.length))).length
        = adj (removals ms) (s.start + s.length) - adj (removals ms) s.start := by
    have hkept : (kept (inMarker ms) (text.zipIdx.take (s.start + s.length))).length = _ :=
      length_kept_take text hs
    have hle : adj (removals ms) (s.start + s.length)
        ≤ (kept (inMarker ms) text.zipIdx).length := by
      rw [adj_eq_count h, ← hkept]
      have hsplit : kept (inMarker ms) text.zipIdx
          = kept (inMarker ms) (text.zipIdx.take (s.start + s.length))
            ++ kept (inMarker ms) (text.zipIdx.drop (s.start + s.length)) := by
        rw [← kept_append, List.take_append_drop]
      rw [hsplit, List.length_append]
      exact Nat.le_add_right _ _
    rw [length_slice, min_eq_left hle]
  rw [← slice_adj h (Nat.le_add_right _ _) hs, ← List.length_eq_zero_iff, hlength, adjustSpan]
  split
  · next hlt => simp; omega
  · next hge => simp; omega

/-- The offsets of the inline phase agree. -/
theorem offsetsAgree_inlines (isWord : Nat → Bool) (text : List α) (codeSpans : List Span)
    (others : List Span) (hcode : ∀ s ∈ codeSpans, s.style = .monospace) :
    OffsetsAgree text codeSpans (codeSpans ++ others)
      (sortInlines (collect isWord text (occupiedBy (codeSpans ++ others))))
      (inlines isWord text (codeSpans ++ others)).1
      (inlines isWord text (codeSpans ++ others)).2 := by
  have hfollows := follows_inlines isWord text (occupiedBy (codeSpans ++ others))
  obtain ⟨occ, haccepted⟩ := accepted_collect isWord text (occupiedBy (codeSpans ++ others))
  -- Sorting the matches changes neither what they cover nor what they avoid.
  have hperm : (sortInlines (collect isWord text (occupiedBy (codeSpans ++ others)))).Perm
      (collect isWord text (occupiedBy (codeSpans ++ others))) := perm_sortOn _ _
  have hplain : (inlines isWord text (codeSpans ++ others)).1
      = kept (inMarker (sortInlines (collect isWord text (occupiedBy (codeSpans ++ others)))))
        text.zipIdx := strip_eq_kept [] [] hfollows
  refine ⟨?_, ?_, hplain, ?_, ?_, ?_⟩
  · exact hperm.symm.pairwise haccepted.apart fun h => h.symm
  · intro m hm s hs
    refine haccepted.free m (hperm.mem_iff.mp hm) (s.start, s.start + s.length) ?_
    exact List.mem_map.mpr ⟨s, List.mem_filter.mpr ⟨List.mem_append_left _ hs, by
      simp [hcode s hs]⟩, rfl⟩
  · obtain ⟨inner, hspans, hshown⟩ := strip_spans [] [] hfollows
    exact ⟨inner, congrArg _ hspans, hshown⟩
  · intro s _ hs
    rw [hplain]
    exact slice_adj hfollows (Nat.le_add_right _ _) hs
  · exact fun s _ hs => adjustSpan_eq_none_iff hfollows hs

/-- Fences are recorded in monospace. -/
theorem style_fences (text : List α) : ∀ s ∈ (fences text).2, s.style = .monospace := by
  have hloop : ∀ (fuel : Nat) (text : List α) (spans : List Span),
      (∀ s ∈ spans, s.style = .monospace) →
        ∀ s ∈ (fencesFrom fuel text spans).2, s.style = .monospace := by
    intro fuel
    induction fuel with
    | zero => exact fun _ _ h => h
    | succ fuel ih =>
      intro text spans h
      rw [fencesFrom]
      split
      · exact h
      · refine ih _ _ fun s hs => ?_
        rcases List.mem_append.mp hs with hs | hs
        · exact h s hs
        · rw [List.mem_singleton.mp hs]
  exact hloop _ _ _ fun s hs => absurd hs List.not_mem_nil

/-- The text in front of phase 3. -/
def untitled (text : List α) : List α := (headings (unfenced text)).1

/-- The spans that the first two phases record. -/
def earlierSpans (text : List α) : List Span :=
  (fences (normalizeWhitespace text)).2 ++ (headings (unfenced text)).2

/-- The matches that phase 3 accepts. -/
def acceptedInlines (isWord : Nat → Bool) (text : List α) : List Inline :=
  sortInlines (collect isWord (untitled text) (occupiedBy (earlierSpans text)))

/-- The offsets that `_adj` computes are those that the strip pass produces. The text and the
ranges that are returned come from these. -/
theorem offsets_agree (isWord : Nat → Bool) (text : List α) :
    OffsetsAgree (untitled text) (fences (normalizeWhitespace text)).2 (earlierSpans text)
        (acceptedInlines isWord text) (spansOf isWord text).1 (spansOf isWord text).2 ∧
      ∀ plain ranges, markdownToSignal isWord text = .ok (plain, ranges) →
        plain = (spansOf isWord text).1 ∧
          ∀ r, r ∈ ranges ↔ ∃ s ∈ (spansOf isWord text).2,
            s.start + s.length ≤ plain.length ∧ toRange plain s = .ok r := by
  constructor
  · rw [spansOf_eq]
    exact offsetsAgree_inlines isWord _ _ _ (style_fences _)
  · exact fun plain ranges h => ⟨plain_eq h, mem_ranges h⟩

end SignalGateway.Proofs.Markdown
