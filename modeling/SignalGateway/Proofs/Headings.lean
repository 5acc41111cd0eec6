import SignalGateway.Proofs.Markdown
import SignalGateway.Proofs.MarkdownMarks

/-!
# `SignalGateway.Proofs.Headings`: the heading phase and what conversion deletes

A heading marker is a line start, one to six hashes and the whitespace behind them
(`matchAt_heading`). That whitespace may hold newlines, so a marker can end where the next
marker begins. Then the title of the second heading is written twice (`stackedTitle`): once
with the rest of the line, which is the title of the first heading, and once on its own.

Without such titles the heading phase only deletes (`headings_sublist`). A character of
such a title comes out twice, and if it is no marker the inline phase keeps both copies.
`sublist_markdownToSignal` puts the phases together.

The converse is as far as it goes: a stacked title of formatting markers alone can be deleted
again by the inline phase. `HeadingAt` is decidable, so a concrete text is settled by evaluation
at its positions (`noStackedTitle_of_lt`).

`mem_finditer_heading` and `matchAt_heading_some` connect the markers with the search: every
marker is found, because none begins inside another one (`HeadingAt.markerStop_le`).
-/

set_option autoImplicit false

namespace SignalGateway.Proofs.Markdown

open SignalGateway.Markdown
open Regex PyChar

/-! ### Heading markers -/

/-- A line starts at the position. -/
def LineStart (t : List Nat) (i : Nat) : Prop := i = 0 ∨ (t[i - 1]?).any (chr '\n') = true

instance (t : List Nat) (i : Nat) : Decidable (LineStart t i) :=
  inferInstanceAs (Decidable (_ ∨ _))

/-- The number of hashes at the position. -/
def hashes (t : List Nat) (i : Nat) : Nat := runLength (chr '#') t i

/-- The amount of whitespace behind the hashes. -/
def gap (t : List Nat) (i : Nat) : Nat := runLength isSpaceCode t (i + hashes t i)

/-- Where a heading marker at the position ends. -/
def markerStop (t : List Nat) (i : Nat) : Nat := i + hashes t i + gap t i

/-- A heading marker stands at the position. -/
structure HeadingAt (t : List Nat) (i : Nat) : Prop where
  lineStart : LineStart t i
  hashes_pos : 1 ≤ hashes t i
  hashes_le : hashes t i ≤ 6
  gap_pos : 1 ≤ gap t i

/-- What a heading marker is, as a conjunction. -/
theorem headingAt_iff (t : List Nat) (i : Nat) :
    HeadingAt t i ↔ LineStart t i ∧ 1 ≤ hashes t i ∧ hashes t i ≤ 6 ∧ 1 ≤ gap t i :=
  ⟨fun h => ⟨h.1, h.2, h.3, h.4⟩, fun h => ⟨h.1, h.2.1, h.2.2.1, h.2.2.2⟩⟩

instance (t : List Nat) (i : Nat) : Decidable (HeadingAt t i) :=
  decidable_of_iff _ (headingAt_iff t i).symm

/-- A marker begins inside the text. -/
theorem HeadingAt.lt_length {t : List Nat} {i : Nat} (h : HeadingAt t i) : i < t.length := by
  have hrun := runLength_le (chr '#') t i
  have hpos := h.hashes_pos
  rw [hashes] at hpos
  omega

/-- A newline is whitespace. -/
theorem isSpaceCode_newline : isSpaceCode '\n'.toNat = true := by decide

/-- A hash is no whitespace. -/
theorem isSpaceCode_hash : isSpaceCode '#'.toNat = false := by decide

/-- The matches of the heading pattern are the heading markers. -/
theorem matchAt_heading (t : List Nat) (i : Nat) :
    matchAt t headingPattern i
      = if HeadingAt t i then some ⟨i, markerStop t i, []⟩ else none := by
  have hspace : ∀ j, outcomes t (.seq (.rep true 1 none isSpaceCode) .eps) j
      = (counts true 1 (runLength isSpaceCode t j)).map fun k => (j + k, []) := by
    intro j
    simp [outcomes]
  have hempty : ∀ j, runLength isSpaceCode t j = 0 →
      outcomes t (.seq (.rep true 1 none isSpaceCode) .eps) j = [] := by
    intro j hj
    rw [hspace, hj]
    rfl
  -- The whitespace cannot start at a hash, so the run of hashes is taken as a whole.
  have hhash : ∀ j, (t[j]?).any (chr '#') = true →
      outcomes t (.seq (.rep true 1 none isSpaceCode) .eps) j = [] := by
    intro j hj
    refine hempty j (runLength_eq_zero ?_)
    cases hc : t[j]? with
    | none => rfl
    | some c =>
      rw [hc, Option.any_some, chr, beq_iff_eq] at hj
      rw [Option.any_some, hj]
      exact isSpaceCode_hash
  have hrun := @outcomes_run_seq _ t _ _ 1 (some 6) hhash i
  simp only [Option.mem_some_iff, forall_eq'] at hrun
  have hpattern : outcomes t headingPattern i
      = if LineStart t i then
          if 1 ≤ hashes t i ∧ hashes t i ≤ 6 then
            (counts true 1 (gap t i)).map fun k => (i + hashes t i + k, [])
          else []
        else [] := by
    have hline := outcomes_lineStart_seq t (chr '\n')
      (.seq (.rep true 1 (some 6) (chr '#')) (.seq (.rep true 1 none isSpaceCode) .eps)) i
    rw [hrun, hspace] at hline
    exact hline
  rw [matchAt, hpattern]
  by_cases hhead : HeadingAt t i
  · rw [if_pos hhead.lineStart, if_pos ⟨hhead.hashes_pos, hhead.hashes_le⟩, if_pos hhead]
    obtain ⟨rest, hrest⟩ := counts_greedy_head hhead.gap_pos
    rw [hrest]
    rfl
  · rw [if_neg hhead]
    split
    · split
      · rename_i hline hbounds
        have hzero : gap t i = 0 := by
          by_contra hne
          exact hhead ⟨hline, hbounds.1, hbounds.2, Nat.one_le_iff_ne_zero.mpr hne⟩
        rw [hzero]
        rfl
      · rfl
    · rfl

/-- A match of the heading pattern is a heading marker. -/
theorem matchAt_heading_some {t : List Nat} {i : Nat} {m : Match}
    (h : matchAt t headingPattern i = some m) :
    HeadingAt t i ∧ m = ⟨i, markerStop t i, []⟩ := by
  rw [matchAt_heading] at h
  split at h
  · rename_i hhead
    exact ⟨hhead, (Option.some.inj h).symm⟩
  · cases h

/-- No heading marker starts inside another one. -/
theorem HeadingAt.markerStop_le {t : List Nat} {i j : Nat} (hj : HeadingAt t j)
    (hij : i < j) : markerStop t i ≤ j := by
  by_contra hlt
  rw [markerStop] at hlt
  by_cases hin : j ≤ i + hashes t i
  · -- Behind a hash no line starts.
    have hhash := runLength_spec (chr '#') t i (j - 1 - i) (by rw [hashes] at hin; omega)
    have hpos : i + (j - 1 - i) = j - 1 := by omega
    rw [hpos] at hhash
    rcases hj.lineStart with hzero | hnl
    · omega
    · cases hc : t[j - 1]? with
      | none => rw [hc] at hhash; cases hhash
      | some c =>
        rw [hc, Option.any_some, chr, beq_iff_eq] at hhash hnl
        rw [hhash] at hnl
        exact absurd hnl (by decide)
  · -- In the whitespace no hash stands.
    have hspace := runLength_spec isSpaceCode t (i + hashes t i) (j - (i + hashes t i))
      (by rw [gap] at hlt; omega)
    have hpos : i + hashes t i + (j - (i + hashes t i)) = j := by omega
    have hhash := runLength_spec (chr '#') t j 0 hj.hashes_pos
    rw [hpos] at hspace
    rw [Nat.add_zero] at hhash
    cases hc : t[j]? with
    | none => rw [hc] at hhash; cases hhash
    | some c =>
      rw [hc, Option.any_some] at hhash hspace
      rw [chr, beq_iff_eq] at hhash
      rw [hhash, isSpaceCode_hash] at hspace
      cases hspace

/-- Every heading marker is found. -/
theorem mem_finditer_heading {t : List Nat} {i : Nat} (h : HeadingAt t i) :
    ⟨i, markerStop t i, []⟩ ∈ finditer t headingPattern := by
  have hfound : matchAt t headingPattern i = some ⟨i, markerStop t i, []⟩ := by
    rw [matchAt_heading, if_pos h]
  refine (scan_finditer (by decide)).mem (Nat.zero_le i) h.lt_length.le hfound ?_
  intro k m hk hm
  obtain ⟨-, rfl⟩ := matchAt_heading_some hm
  exact h.markerStop_le hk

variable {α : Type} [PyChar α]

/-! ### Titles written twice -/

/-- The title that is written twice because of the marker at `i`: another marker begins
where it ends, and the title behind that one is on the same line. -/
def stackedTitle (text : List α) (i : Nat) : List α :=
  if HeadingAt (codes text) i ∧ HeadingAt (codes text) (markerStop (codes text) i) then
    slice text (markerStop (codes text) (markerStop (codes text) i))
      (eol text (markerStop (codes text) i))
  else []

/-- No title is written twice. -/
def NoStackedTitle (text : List α) : Prop := ∀ i, stackedTitle text i = []

/-- Only the positions of the text have to be looked at. -/
theorem noStackedTitle_of_lt {text : List α} (h : ∀ i < text.length, stackedTitle text i = []) :
    NoStackedTitle text := by
  intro i
  by_cases hi : i < text.length
  · exact h i hi
  · rw [stackedTitle, if_neg]
    rintro ⟨hheading, -⟩
    exact hi (by simpa [codes] using hheading.lt_length)

/-- A line ends behind its positions. -/
theorem le_eol (text : List α) (i : Nat) : i ≤ eol text i := Nat.le_add_right _ _

/-- A line ends in the text. -/
theorem eol_le_length {text : List α} {i : Nat} (hi : i ≤ text.length) :
    eol text i ≤ text.length := by
  have := runLength_le notNewline (codes text) i
  rw [length_codes] at this
  rw [eol]
  omega

/-- A newline at or behind `i` ends the line of `i`. -/
theorem eol_le_of_newline {text : List α} {i j : Nat} (hij : i ≤ j)
    (hj : ((codes text)[j]?).any (chr '\n') = true) : eol text i ≤ j := by
  by_contra hlt
  rw [eol] at hlt
  have hrun := runLength_spec notNewline (codes text) i (j - i) (by omega)
  rw [Nat.add_sub_cancel' hij] at hrun
  cases hc : (codes text)[j]? with
  | none => rw [hc] at hj; cases hj
  | some c =>
    rw [hc, Option.any_some] at hj hrun
    rw [notNewline, hj] at hrun
    cases hrun

/-- Without stacked titles the cursor of the heading phase is never ahead of the next
title. -/
theorem eol_le_markerStop {text : List α} (hno : NoStackedTitle text) {i j : Nat}
    (hi : HeadingAt (codes text) i) (hj : HeadingAt (codes text) j)
    (hle : markerStop (codes text) i ≤ j) (hjlen : markerStop (codes text) j ≤ text.length) :
    eol text (markerStop (codes text) i) ≤ markerStop (codes text) j := by
  have hjstop : j ≤ markerStop (codes text) j := by
    rw [markerStop]
    omega
  by_cases hstack : j = markerStop (codes text) i
  · subst hstack
    have hnil := hno i
    rw [stackedTitle, if_pos ⟨hi, hj⟩] at hnil
    have hlen := congrArg List.length hnil
    have hbound := eol_le_length (hjstop.trans hjlen)
    rw [length_slice, List.length_nil, Nat.min_eq_left hbound] at hlen
    omega
  · -- The line of the first title ends in front of the second marker.
    rcases hj.lineStart with hzero | hnl
    · omega
    · have := eol_le_of_newline (i := markerStop (codes text) i) (j := j - 1) (by omega) hnl
      omega

/-- Without stacked titles the loop only deletes. -/
theorem headingsFrom_sublist {text : List α} (hno : NoStackedTitle text) :
    ∀ {i : Nat} {ms : List Match}, Scan (codes text) headingPattern i ms →
      ∀ (newText : List α) (lastEnd : Nat) (spans : List Span),
        newText.Sublist (text.take lastEnd) →
        (∀ m, i ≤ m.start → m.start ≤ (codes text).length →
          matchAt (codes text) headingPattern m.start = some m → lastEnd ≤ m.stop) →
        (headingsFrom text ms newText lastEnd spans).1.Sublist text := by
  intro i ms h
  induction h with
  | done gap =>
    intro newText lastEnd spans hsub _
    have := hsub.append_right (text.drop lastEnd)
    rwa [List.take_append_drop] at this
  | @next i m ms le found start_le gap rest ih =>
    intro newText lastEnd spans hsub hcursor
    have hstop := hcursor m le start_le found
    have hlen := (matchAt_spec start_le found).2.1
    refine ih _ _ _ ?_ ?_
    · -- What is written lies in front of the end of the title.
      have hsplit : text.take (eol text m.stop)
          = text.take lastEnd ++ slice text lastEnd m.stop
            ++ slice text m.stop (eol text m.stop) := by
        have hzero : ∀ k, text.take k = slice text 0 k := fun k => rfl
        rw [hzero, hzero, slice_append_slice text (Nat.zero_le _) hstop,
          slice_append_slice text (Nat.zero_le _) (le_eol text m.stop)]
      rw [hsplit]
      refine (hsub.append ?_).append_right _
      have hpart : (slice text lastEnd m.start).Sublist (slice text lastEnd m.stop) := by
        rw [slice_eq_take_drop, slice_eq_take_drop]
        exact (List.take_prefix_take_left (by omega)).sublist
      exact hpart
    · intro m' hle hstart' hm'
      obtain ⟨hm, hmeq⟩ := matchAt_heading_some found
      obtain ⟨hhead', hmeq'⟩ := matchAt_heading_some hm'
      have hms : m.stop = markerStop (codes text) m.start := by rw [hmeq]
      have hms' : m'.stop = markerStop (codes text) m'.start := by rw [hmeq']
      have hbound := (matchAt_spec hstart' hm').2.2.1
      rw [length_codes] at hbound
      rw [hms, hms']
      exact eol_le_markerStop hno hm hhead' (by omega) (by omega)

/-- Without stacked titles the heading phase only deletes. -/
theorem headings_sublist {text : List α} (hno : NoStackedTitle text) :
    (headings text).1.Sublist text :=
  headingsFrom_sublist hno (scan_finditer (by decide)) [] 0 [] List.Sublist.slnil
    fun _ _ _ _ => Nat.zero_le _

/-! ### Two copies of a stacked title -/

/-- A later position has a later line end, or the same one. -/
theorem eol_mono (text : List α) {i j : Nat} (hij : i ≤ j) : eol text i ≤ eol text j := by
  by_contra hlt
  have hj := le_eol text j
  have hmax := runLength_maximal notNewline (codes text) j
  have hrun := runLength_spec notNewline (codes text) i (eol text j - i) (by
    rw [eol] at hlt
    omega)
  rw [Nat.add_sub_cancel' (by omega), eol, hmax] at hrun
  cases hrun

/-- The title behind a heading marker. -/
def title (text : List α) (m : Match) : List α := slice text m.stop (eol text m.stop)

/-- All the titles are written, in order. -/
theorem titles_sublist_headingsFrom (text : List α) (ms : List Match) :
    ∀ (newText : List α) (lastEnd : Nat) (spans : List Span),
      (newText ++ (ms.map (title text)).flatten).Sublist
        (headingsFrom text ms newText lastEnd spans).1 := by
  induction ms with
  | nil =>
    intro newText lastEnd spans
    exact (List.Sublist.refl newText).append (List.nil_sublist _)
  | cons m ms ih =>
    intro newText lastEnd spans
    refine List.Sublist.trans ?_ (ih _ _ _)
    rw [List.map_cons, List.flatten_cons, ← List.append_assoc]
    refine List.Sublist.append_right ?_ _
    exact (List.sublist_append_left _ _).append_right _

/-- A character of a stacked title comes out of the heading phase twice. -/
theorem pair_sublist_headings {text : List α} {i : Nat} {c : α}
    (hc : c ∈ stackedTitle text i) : [c, c].Sublist (headings text).1 := by
  rw [stackedTitle] at hc
  split at hc
  case isFalse => cases hc
  rename_i hstack
  obtain ⟨hfirst, hsecond⟩ := hstack
  -- Both markers are found, and the character is in both titles.
  have hstops : markerStop (codes text) i
      < markerStop (codes text) (markerStop (codes text) i) := by
    have := hsecond.hashes_pos
    rw [markerStop.eq_def _ (markerStop _ _)]
    omega
  have hmem₁ := mem_finditer_heading hfirst
  have hmem₂ := mem_finditer_heading hsecond
  have htitle₁ : c ∈ title text ⟨i, markerStop (codes text) i, []⟩ := by
    refine List.Sublist.subset ?_ hc
    rw [title, ← slice_append_slice text hstops.le _]
    · exact List.sublist_append_right _ _
    · by_contra hlt
      rw [slice_eq_nil text (Nat.le_of_not_le hlt)] at hc
      cases hc
  have htitle₂ : c ∈ title text
      ⟨markerStop (codes text) i, markerStop (codes text) (markerStop (codes text) i), []⟩ := by
    refine List.Sublist.subset ?_ hc
    rw [title, slice_eq_take_drop, slice_eq_take_drop]
    exact (List.take_prefix_take_left (Nat.sub_le_sub_right (eol_mono text hstops.le) _)).sublist
  have hne : (⟨markerStop (codes text) i,
      markerStop (codes text) (markerStop (codes text) i), []⟩ : Match)
        ≠ ⟨i, markerStop (codes text) i, []⟩ := by
    intro heq
    have := congrArg Match.stop heq
    simp only at this
    omega
  have hflat : ∀ {ms : List Match} {m : Match}, m ∈ ms → c ∈ title text m →
      [c].Sublist (ms.map (title text)).flatten := by
    intro ms m hm hcm
    rw [List.singleton_sublist, List.mem_flatten]
    exact ⟨_, List.mem_map_of_mem hm, hcm⟩
  refine List.Sublist.trans ?_ (titles_sublist_headingsFrom text _ [] 0 [])
  rw [List.nil_append]
  obtain ⟨before, after, hsplit⟩ := List.append_of_mem hmem₁
  rw [hsplit] at hmem₂ ⊢
  rw [List.map_append, List.map_cons, List.flatten_append, List.flatten_cons]
  rcases List.mem_append.mp hmem₂ with hbefore | hafter
  · exact (hflat hbefore htitle₂).append
      ((List.singleton_sublist.mpr htitle₁).trans (List.sublist_append_left _ _))
  · have hafter : _ ∈ after := (List.mem_cons.mp hafter).resolve_left hne
    exact ((List.singleton_sublist.mpr htitle₁).append (hflat hafter htitle₂)).trans
      (List.sublist_append_right _ _)

/-! ### The whole conversion -/

/-- The text the heading phase starts from. -/
def unfenced (text : List α) : List α := (fences (normalizeWhitespace text)).1

/-- The phases up to the fences only delete. -/
theorem unfenced_sublist (text : List α) : (unfenced text).Sublist text :=
  (fences_sublist _).trans (normalize_sublist text)

/-- The conversion is the inline phase on the text behind the headings. -/
theorem spansOf_eq (isWord : Nat → Bool) (text : List α) :
    spansOf isWord text = inlines isWord (headings (unfenced text)).1
      ((fences (normalizeWhitespace text)).2 ++ (headings (unfenced text)).2) := by
  rw [spansOf, unfenced]

/-- The plain text is the text of `spansOf`. -/
theorem plain_eq {isWord : Nat → Bool} {text plain : List α} {ranges : List StyleRange}
    (h : markdownToSignal isWord text = .ok (plain, ranges)) :
    plain = (spansOf isWord text).1 := by
  rw [markdownToSignal_eq] at h
  generalize spansOf isWord text = out at h ⊢
  cases hranges : List.mapM (toRange out.1) _ with
  | error e => rw [hranges] at h; cases h
  | ok rs =>
    rw [hranges] at h
    cases h
    rfl

/-- Without stacked titles conversion only deletes. -/
theorem spansOf_sublist (isWord : Nat → Bool) {text : List α}
    (hno : NoStackedTitle (unfenced text)) : (spansOf isWord text).1.Sublist text := by
  rw [spansOf_eq]
  exact ((inlines_sublist isWord _ _).trans (headings_sublist hno)).trans
    (unfenced_sublist text)

/-- A character of a stacked title that is no marker comes out of the conversion twice. -/
theorem pair_sublist_spansOf (isWord : Nat → Bool) {text : List α} {i : Nat} {c : α}
    (hc : c ∈ stackedTitle (unfenced text) i) (hmark : isMarker c = false) :
    [c, c].Sublist (spansOf isWord text).1 := by
  have hpair := (pair_sublist_headings hc).filter fun c => !isMarker c
  simp only [List.filter_cons, hmark, Bool.not_false, if_true, List.filter_nil] at hpair
  rw [← filter_inlines isWord (headings (unfenced text)).1
    ((fences (normalizeWhitespace text)).2 ++ (headings (unfenced text)).2)] at hpair
  rw [spansOf_eq]
  exact hpair.trans List.filter_sublist

/-- A relabelling commutes with the phases up to the fences. -/
theorem unfenced_map {β : Type} [PyChar β] {f : α → β} (hf : KeepsCode f) (text : List α) :
    unfenced (text.map f) = (unfenced text).map f := by
  rw [unfenced, normalize_map hf, fences_map hf]
  rfl

/-- A relabelling keeps the stacked titles. -/
theorem stackedTitle_map {β : Type} [PyChar β] {f : α → β} (hf : KeepsCode f)
    (text : List α) (i : Nat) :
    stackedTitle (text.map f) i = (stackedTitle text i).map f := by
  rw [stackedTitle, codes_map hf, stackedTitle, eol_map hf, ← map_slice]
  split <;> rfl

/-- The stacked titles of a marked text are those of the text, with marks. -/
theorem map_fst_stackedTitle (text : List α) (i : Nat) :
    (stackedTitle (unfenced text.zipIdx) i).map Prod.fst = stackedTitle (unfenced text) i := by
  rw [← stackedTitle_map keepsCode_fst, ← unfenced_map keepsCode_fst, List.zipIdx_map_fst]

/-- Positions stack no title. -/
theorem NoStackedTitle.zipIdx {text : List α} (h : NoStackedTitle (unfenced text)) :
    NoStackedTitle (unfenced text.zipIdx) := by
  intro i
  have := map_fst_stackedTitle text i
  rwa [h i, List.map_eq_nil_iff] at this

omit [PyChar α] in
/-- No two characters have the same position. -/
theorem nodup_zipIdx (text : List α) : text.zipIdx.Nodup := by
  refine List.Nodup.of_map Prod.snd ?_
  rw [List.zipIdx_map_snd]
  exact List.nodup_range'

/-- `markdown_to_signal` only deletes when no title is stacked, and only if every stacked
title consists of markers. `marked` is the plain text with the positions its characters
come from. -/
theorem sublist_markdownToSignal (isWord : Nat → Bool) {text plain : PyStr}
    {ranges : List StyleRange} (h : markdownToSignal isWord text = .ok (plain, ranges)) :
    ∃ marked, markdownToSignal isWord text.zipIdx = .ok (marked, ranges) ∧
      marked.map Prod.fst = plain ∧
      (NoStackedTitle (unfenced text) →
        marked.Sublist text.zipIdx ∧ plain.Sublist text ∧ plain.length ≤ text.length) ∧
      (marked.Sublist text.zipIdx →
        ∀ i, ∀ c ∈ stackedTitle (unfenced text) i, isMarker c = true) := by
  obtain ⟨marked, hmarked, hplain⟩ := exists_marked h
  refine ⟨marked, hmarked, hplain, ?_, ?_⟩
  · intro hno
    have hno' := hno.zipIdx
    have hsub : plain.Sublist text := by
      rw [plain_eq h]
      exact spansOf_sublist isWord hno
    refine ⟨?_, hsub, hsub.length_le⟩
    rw [plain_eq hmarked]
    exact spansOf_sublist isWord hno'
  · intro hsub i c hc
    -- a character that is no marker is written twice, with one position
    by_contra hmark
    rw [← map_fst_stackedTitle] at hc
    obtain ⟨c', hc', rfl⟩ := List.mem_map.mp hc
    have hpair := pair_sublist_spansOf isWord hc' (Bool.eq_false_iff.mpr hmark)
    rw [← plain_eq hmarked] at hpair
    exact List.nodup_iff_sublist.mp (nodup_zipIdx text) c' (hpair.trans hsub)

/-- The class `\w` on ASCII. -/
def asciiWord (n : Nat) : Bool :=
  (0x61 ≤ n && n ≤ 0x7a) || (0x41 ≤ n && n ≤ 0x5a) || (0x30 ≤ n && n ≤ 0x39) || n == 0x5f

/-- A heading only loses its marker. -/
theorem sublist_markdownToSignal_foo :
    ∃ marked, markdownToSignal asciiWord (lit "# foo" : PyStr).zipIdx
        = .ok (marked, [⟨0, 3, .bold⟩]) ∧
      marked.map Prod.fst = lit "foo" ∧ marked.Sublist (lit "# foo" : PyStr).zipIdx ∧
      ∀ i, ∀ c ∈ stackedTitle (unfenced (lit "# foo" : PyStr)) i, isMarker c = true := by
  have hresult : markdownToSignal asciiWord (lit "# foo" : PyStr)
      = .ok (lit "foo", [⟨0, 3, .bold⟩]) := by decide +kernel
  have hno : NoStackedTitle (unfenced (lit "# foo" : PyStr)) :=
    noStackedTitle_of_lt (by decide +kernel)
  obtain ⟨marked, hmarked, hplain, hdeletes, htitles⟩ :=
    sublist_markdownToSignal asciiWord hresult
  have hsublist := (hdeletes hno).1
  exact ⟨marked, hmarked, hplain, hsublist, htitles hsublist⟩

/-- A marker on a line of its own in front of a heading: the title is written twice. -/
theorem markdownToSignal_stacked :
    markdownToSignal asciiWord (lit "#\n# foo" : PyStr)
        = .ok (lit "# foofoo", [⟨0, 5, .bold⟩, ⟨5, 3, .bold⟩]) ∧
      ¬ (lit "# foofoo" : PyStr).Sublist (lit "#\n# foo") ∧
      (lit "#\n# foo" : PyStr).length < (lit "# foofoo" : PyStr).length :=
  ⟨by decide +kernel, by decide, by decide⟩

end SignalGateway.Proofs.Markdown
