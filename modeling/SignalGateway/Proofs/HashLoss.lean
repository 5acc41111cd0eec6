import SignalGateway.Proofs.HeadingTrace

/-!
# `SignalGateway.Proofs.HashLoss`: a heading marker is never made up for

Let all hashes of a text stand in its part `c`. If the text has a heading marker, the output
of the heading phase does not contain `c`, not even without its formatting markers
(`not_infix_headings`). Titles can be written twice, so the number of hashes may grow, and
the proof has two cases. If some marker swallows a newline, the line of the first such
marker is lost, and there are fewer lines with a hash. If none does, the phase only deletes,
and there are fewer hashes.

The theorems:

* `lt_markerStop`, `swallows_of_chained`: two markers of which one begins where the other ends
  swallow a newline. So where no marker does, no title is written twice.
* `mem_unmarkedPart`, `map_fst_unmarkedPart`: a part of the text with its positions, without its
  formatting markers.
* `hashLines_subset`, `length_filter_isHash`: what is counted, with positions and without.

The result is used for fenced code: if the heading phase took a marker out of the code, the code
cannot come out again elsewhere in the text.
-/

set_option autoImplicit false

namespace SignalGateway.Proofs.Markdown

open SignalGateway.Markdown
open Regex PyChar

variable {α : Type} [PyChar α]

/-- The characters that are no formatting markers. -/
def unmarked (s : List α) : List α := s.filter fun c => !isMarker c

/-- The marker at the position ends with a newline. -/
def Swallows (t : List Nat) (i : Nat) : Prop :=
  HeadingAt t i ∧ (t[markerStop t i - 1]?).any (chr '\n') = true

/-- A marker has a character. -/
theorem lt_markerStop {t : List Nat} {i : Nat} (h : HeadingAt t i) : i < markerStop t i := by
  have := h.hashes_pos
  rw [markerStop]
  omega

/-- A marker that ends where another one begins swallows its hash. -/
theorem swallows_of_chained {t : List Nat} {i j : Nat} (hi : HeadingAt t i)
    (hj : HeadingAt t j) (hchain : markerStop t j = i) : Swallows t j := by
  have := lt_markerStop hj
  refine ⟨hj, ?_⟩
  rcases hi.lineStart with hzero | hnl
  · omega
  · rw [hchain]
    exact hnl

/-- A newline is no inline marker. -/
theorem not_isMarker_of_isNewline {c : α} (h : isNewline c = true) : isMarker c = false := by
  rw [isMarker, code_of_isNewline h]
  decide

/-- A hash is no inline marker. -/
theorem not_isMarker_of_isHash {c : α} (h : isHash c = true) : isMarker c = false := by
  rw [isHash, isChr, beq_iff_eq] at h
  rw [isMarker, h]
  decide

/-- A hash stands at a heading marker. -/
theorem exists_hash {text : List α} {i : Nat} (h : HeadingAt (codes text) i) :
    ∃ c, text[i]? = some c ∧ isHash c = true := by
  have hhash := runLength_spec (chr '#') (codes text) i 0 h.hashes_pos
  rw [Nat.add_zero, getElem?_codes, Option.any_map] at hhash
  obtain ⟨c, hc, hhash⟩ := (Option.any_eq_true _ _).mp hhash
  exact ⟨c, hc, hhash⟩

omit [PyChar α] in
/-- A character with its position. -/
theorem mem_zipIdx_of_getElem? {text : List α} {i : Nat} {c : α} (h : text[i]? = some c) :
    (c, i) ∈ text.zipIdx := by
  rw [List.mem_zipIdx_iff_getElem?]
  exact h

/-! ### The two cases -/

/-- If a marker swallows a newline, a line with a hash is lost. -/
theorem card_hashLines_lt {text : List α} (h : ∃ i, Swallows (codes text) i) :
    (hashLines text (headings text.zipIdx).1).card
      < (hashLines text text.zipIdx).card := by
  classical
  obtain ⟨k, htrace⟩ := trace_headings text
  -- No marker ends at the first one that swallows a newline.
  have hfirst := Nat.find_spec h
  generalize hi : Nat.find h = i at hfirst
  have hun : Unchained (codes text) i := by
    intro j hj hchain
    have hlt := lt_markerStop hj
    refine Nat.find_min h (m := j) (by omega) ?_
    exact swallows_of_chained hfirst.1 hj hchain
  obtain ⟨c, hc, hhash⟩ := exists_hash hfirst.1
  have hstop := lt_markerStop hfirst.1
  refine Finset.card_lt_card (Finset.ssubset_iff_of_subset ?_ |>.mpr
    ⟨lineOf (codes text) i, ?_, ?_⟩)
  · intro l hl
    obtain ⟨x, hx, hxhash, hline⟩ := mem_hashLines.mp hl
    exact mem_hashLines.mpr
      ⟨x, mem_zipIdx_of_getElem? (htrace.mem x hx), hxhash, hline⟩
  · exact mem_hashLines.mpr ⟨(c, i), mem_zipIdx_of_getElem? hc, hhash, rfl⟩
  · intro hl
    obtain ⟨x, hx, -, hline⟩ := mem_hashLines.mp hl
    refine htrace.outside x hx i hfirst.1 hun ⟨?_, ?_⟩
    · -- In front of the marker stand earlier lines.
      by_contra hlt
      rcases hfirst.1.lineStart with hzero | hnl
      · omega
      · have h₁ := lineOf_mono (codes text) (i := x.2) (j := i - 1) (by omega)
        have h₂ := lineOf_lt (i := i - 1) (j := i) (by omega) hnl
        omega
    · -- Behind the newline it swallows stand later lines.
      by_contra hge
      have h₁ := lineOf_mono (codes text) (i := i) (j := markerStop (codes text) i - 1)
        (by omega)
      have h₂ := lineOf_lt (i := markerStop (codes text) i - 1) (j := x.2) (by omega) hfirst.2
      omega

/-- Where no marker swallows another one, no title is written twice. -/
theorem noStackedTitle_of_not_swallows {text : List α}
    (h : ¬ ∃ i, Swallows (codes text) i) : NoStackedTitle text := by
  intro i
  rw [stackedTitle, if_neg]
  rintro ⟨hi, hstop⟩
  exact h ⟨i, swallows_of_chained hstop hi rfl⟩

/-- If no marker swallows a newline, hashes are lost. -/
theorem length_hashes_lt {text : List α} (hno : ¬ ∃ i, Swallows (codes text) i)
    (h : ∃ i, HeadingAt (codes text) i) :
    ((headings text.zipIdx).1.filter fun x => isHash x.1).length
      < (text.zipIdx.filter fun x => isHash x.1).length := by
  classical
  have hsub : (headings text.zipIdx).1.Sublist text.zipIdx := by
    refine headings_sublist (noStackedTitle_of_not_swallows ?_)
    rw [codes_zipIdx]
    exact hno
  have hfilter := hsub.filter fun x => isHash x.1
  -- with as many hashes left, the hash that starts a heading is still there
  refine lt_of_le_of_ne hfilter.length_le fun hlen => ?_
  obtain ⟨k, htrace⟩ := trace_headings text
  obtain ⟨i, hi⟩ := h
  obtain ⟨c, hc, hhash⟩ := exists_hash hi
  have hmem : (c, i) ∈ (headings text.zipIdx).1 := by
    have : (c, i) ∈ text.zipIdx.filter fun x => isHash x.1 :=
      List.mem_filter.mpr ⟨mem_zipIdx_of_getElem? hc, hhash⟩
    rw [← hfilter.eq_of_length hlen] at this
    exact (List.mem_filter.mp this).1
  refine htrace.outside _ hmem i hi ?_ ⟨le_rfl, lt_markerStop hi⟩
  -- a chain swallows a title, which no place does
  intro j hj hchain
  exact hno ⟨j, swallows_of_chained hi hj hchain⟩

/-! ### A part of the text with positions -/

/-- The characters of a part of the text that are no formatting markers, with their
positions. -/
def unmarkedPart (text : List α) (a b : Nat) : List (α × Nat) :=
  (slice text.zipIdx a b).filter fun x => !isMarker x.1

/-- The part of the text between two positions, without its markers. -/
theorem map_fst_unmarkedPart (text : List α) (a b : Nat) :
    (unmarkedPart text a b).map Prod.fst = unmarked (slice text a b) := by
  have hslice : (slice text.zipIdx a b).map Prod.fst = slice text a b := by
    rw [map_slice, List.zipIdx_map_fst]
  rw [← hslice, unmarked, List.filter_map]
  rfl

/-- A character that is no marker is in its part. -/
theorem mem_unmarkedPart {text : List α} {a b i : Nat} {c : α} (hc : text[i]? = some c)
    (ha : a ≤ i) (hb : i < b) (hmark : isMarker c = false) :
    (c, i) ∈ unmarkedPart text a b := by
  refine List.mem_filter.mpr ⟨List.mem_of_getElem? (i := i - a) ?_, by rw [hmark]; rfl⟩
  rw [getElem?_slice, if_pos (by omega), List.getElem?_zipIdx, Nat.add_sub_cancel' ha, hc,
    Nat.zero_add]
  rfl

/-- The positions of a part increase. -/
theorem pairwise_unmarkedPart (text : List α) (a b : Nat) :
    (unmarkedPart text a b).Pairwise fun x y => x.2 < y.2 :=
  (pairwise_zipIdx text).sublist (List.filter_sublist.trans (slice_sublist _ _ _))

/-- Between two lines of a part stands a newline of the part. -/
theorem newline_between {text : List α} {a b i j : Nat} {x y : α × Nat}
    (hx : (unmarkedPart text a b)[i]? = some x) (hy : (unmarkedPart text a b)[j]? = some y)
    (hline : lineOf (codes text) x.2 < lineOf (codes text) y.2) :
    ∃ k z, i ≤ k ∧ k < j ∧ (unmarkedPart text a b)[k]? = some z ∧ isNewline z.1 = true := by
  obtain ⟨q, h1, h2, hnl⟩ := exists_newline hline
  rw [getElem?_codes, Option.any_map] at hnl
  obtain ⟨c, hc, hcnl⟩ := (Option.any_eq_true _ _).mp hnl
  have hcnl : isNewline c = true := hcnl
  have hxpos := (mem_slice_zipIdx (List.mem_filter.mp (List.mem_of_getElem? hx)).1).1
  have hypos := (mem_slice_zipIdx (List.mem_filter.mp (List.mem_of_getElem? hy)).1).2.1
  obtain ⟨k, hk⟩ := List.mem_iff_getElem?.mp (mem_unmarkedPart hc (hxpos.trans h1)
    (h2.trans hypos) (not_isMarker_of_isNewline hcnl))
  obtain ⟨hi', hxi⟩ := List.getElem?_eq_some_iff.mp hx
  obtain ⟨hj', hyj⟩ := List.getElem?_eq_some_iff.mp hy
  obtain ⟨hk', hzk⟩ := List.getElem?_eq_some_iff.mp hk
  -- The positions grow, so the newline also stands between the two in the list.
  have horder := List.pairwise_iff_getElem.mp (pairwise_unmarkedPart text a b)
  refine ⟨k, (c, q), ?_, ?_, hk, hcnl⟩
  · by_contra hlt
    have := horder k i hk' hi' (by omega)
    rw [hzk, hxi] at this
    simp only at this
    omega
  · by_contra hge
    rcases Nat.lt_or_eq_of_le (Nat.le_of_not_lt hge) with hlt | heq
    · have := horder j k hj' hk' hlt
      rw [hzk, hyj] at this
      simp only at this
      omega
    · subst heq
      rw [hyj] at hzk
      rw [hzk] at h2
      simp at h2

/-- More hashes stand on more lines. -/
theorem hashLines_subset {text : List α} {w w' : List (α × Nat)}
    (h : ∀ x ∈ w, isHash x.1 = true → x ∈ w') : hashLines text w ⊆ hashLines text w' := by
  intro l hl
  obtain ⟨x, hx, hhash, hline⟩ := mem_hashLines.mp hl
  exact mem_hashLines.mpr ⟨x, h x hx hhash, hhash, hline⟩

/-! ### Putting the cases together -/

/-- Positions do not change the number of hashes. -/
theorem length_filter_isHash (w : List (α × Nat)) :
    (w.filter fun x => isHash x.1).length = ((w.map Prod.fst).filter isHash).length := by
  rw [List.filter_map, List.length_map]
  rfl

/-- Dropping inline markers drops no hash. -/
theorem filter_isHash_unmarked (s : List α) : (unmarked s).filter isHash = s.filter isHash := by
  rw [unmarked, List.filter_filter]
  refine List.filter_congr fun x _ => ?_
  cases hhash : isHash x with
  | false => rfl
  | true => simp [not_isMarker_of_isHash hhash]

/-- A text without hashes has none. -/
theorem filter_isHash_eq_nil {s : List α} (h : ∀ x ∈ s, isHash x = false) :
    s.filter isHash = [] := by
  rw [List.filter_eq_nil_iff]
  intro x hx
  simp [h x hx]

/-- An occurrence in the output of the heading phase, with positions. -/
theorem exists_occurrence {text c : List α}
    (h : unmarked c <:+: unmarked (headings text).1) :
    ∃ w : List (α × Nat), w.map Prod.fst = unmarked c ∧
      w.Sublist (headings text.zipIdx).1 := by
  have hfst : (headings text.zipIdx).1.map Prod.fst = (headings text).1 := by
    have := headings_map (keepsCode_fst (α := α)) text.zipIdx
    rw [List.zipIdx_map_fst] at this
    rw [this]
  obtain ⟨u, v, huv⟩ := h
  have hmap : ((headings text.zipIdx).1.filter fun x => !isMarker x.1).map Prod.fst
      = (u ++ unmarked c) ++ v := by
    rw [huv, unmarked, ← hfst, List.filter_map]
    rfl
  obtain ⟨uw, v', hsplit, huw, -⟩ := List.map_eq_append_iff.mp hmap
  obtain ⟨u', w, rfl, -, hw⟩ := List.map_eq_append_iff.mp huw
  refine ⟨w, hw, List.Sublist.trans ?_
    (List.filter_sublist (p := fun x : α × Nat => !isMarker x.1))⟩
  rw [hsplit]
  exact (List.sublist_append_right u' w).trans (List.sublist_append_left _ v')

/-- Let all hashes of a text stand in its part `c`. If it has a heading marker, `c` is not
part of what the heading phase returns. -/
theorem not_infix_headings {front c back : List α} (hfront : ∀ x ∈ front, isHash x = false)
    (hback : ∀ x ∈ back, isHash x = false)
    (h : ∃ i, HeadingAt (codes (front ++ c ++ back)) i) :
    ¬ unmarked c <:+: unmarked (headings (front ++ c ++ back)).1 := by
  intro hinfix
  obtain ⟨w, hw, hwsub⟩ := exists_occurrence hinfix
  generalize htext : front ++ c ++ back = text at h hwsub
  have hpart : slice text front.length (front ++ c).length = c := by
    rw [← htext, slice, List.take_left, List.drop_left]
  by_cases hsw : ∃ i, Swallows (codes text) i
  · -- All lines with a hash are lines of the part.
    have hall : hashLines text text.zipIdx
        ⊆ hashLines text (unmarkedPart text front.length (front ++ c).length) := by
      refine hashLines_subset fun x hx hhash => ?_
      have hget : text[x.2]? = some x.1 := List.mem_zipIdx_iff_getElem?.mp hx
      refine mem_unmarkedPart hget ?_ ?_ (not_isMarker_of_isHash hhash)
      · by_contra hlt
        rw [← htext, List.append_assoc, List.getElem?_append_left (by omega)] at hget
        rw [hfront _ (List.mem_of_getElem? hget)] at hhash
        cases hhash
      · by_contra hge
        rw [← htext, List.getElem?_append_right (by omega)] at hget
        rw [hback _ (List.mem_of_getElem? hget)] at hhash
        cases hhash
    obtain ⟨k, htrace⟩ := trace_headings text
    have heq : (unmarkedPart text front.length (front ++ c).length).map Prod.fst
        = w.map Prod.fst := by
      rw [map_fst_unmarkedPart, hpart, hw]
    have hcopy := card_hashLines_le heq (fun i j x y hx hy => newline_between hx hy)
      (htrace.pairwise.sublist hwsub)
    have hle := Finset.card_le_card hall
    have hsubset : hashLines text w ⊆ hashLines text (headings text.zipIdx).1 :=
      hashLines_subset fun x hx _ => hwsub.subset hx
    have hsub := Finset.card_le_card hsubset
    have hlt := card_hashLines_lt hsw
    omega
  · have htotal : (text.zipIdx.filter fun x => isHash x.1).length
        = (w.filter fun x => isHash x.1).length := by
      rw [length_filter_isHash, length_filter_isHash, List.zipIdx_map_fst, hw,
        filter_isHash_unmarked, ← htext, List.filter_append, List.filter_append,
        filter_isHash_eq_nil hfront, filter_isHash_eq_nil hback, List.nil_append,
        List.append_nil]
    have hlt := length_hashes_lt hsw h
    have hle := (hwsub.filter fun x => isHash x.1).length_le
    omega

end SignalGateway.Proofs.Markdown
