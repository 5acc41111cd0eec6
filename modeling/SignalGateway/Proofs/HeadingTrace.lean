import SignalGateway.Proofs.HeadingLines
import SignalGateway.Proofs.Whitespace

/-!
# `SignalGateway.Proofs.HeadingTrace`: where the heading phase takes its text from

The heading phase on `text.zipIdx` returns its output with positions. `Trace` collects what
holds of the output while it grows: the lines it comes from never go back, a newline is
followed by later lines only, and the marker of a heading is left out unless another marker
ends in front of it. A step of the phase appends two slices (`Trace.append`), and
`trace_headings` is the result for the whole phase.

`card_hashLines_le` counts: a copy of a text whose lines never go back has at least as many
lines with a hash.

The proof goes along the markers that the search finds. Between two of them the text is copied.
Where a marker ends the title is copied, up to the end of its line. If another marker begins
there, the copy goes on from its own place, which is on the same line or on a later one, so lines
never go back.

`lineOf` counts the newlines in front of a position, and a slice that holds a newline goes on to a
later line (`lineOf_eq_add`, `lineOf_lt`).
-/

set_option autoImplicit false

namespace SignalGateway.Proofs.Markdown

open SignalGateway.Markdown
open Regex PyChar

/-! ### Line numbers -/

/-- The number of newlines in front of a position. -/
def lineOf (t : List Nat) (i : Nat) : Nat := (t.take i).countP (chr '\n')

/-- The lines between two positions are the newlines between them. -/
theorem lineOf_eq_add (t : List Nat) {i j : Nat} (h : i ≤ j) :
    lineOf t j = lineOf t i + (slice t i j).countP (chr '\n') := by
  have hsplit : t.take j = t.take i ++ slice t i j :=
    (slice_append_slice t (Nat.zero_le i) h).symm
  rw [lineOf, hsplit, List.countP_append]
  rfl

/-- A later position is on a later line, or on the same one. -/
theorem lineOf_mono (t : List Nat) {i j : Nat} (h : i ≤ j) : lineOf t i ≤ lineOf t j := by
  rw [lineOf_eq_add t h]
  exact Nat.le_add_right _ _

/-- Behind a newline the next line starts. -/
theorem lineOf_lt {t : List Nat} {i j : Nat} (hij : i < j)
    (hi : (t[i]?).any (chr '\n') = true) : lineOf t i < lineOf t j := by
  rw [lineOf_eq_add t hij.le]
  obtain ⟨c, hc, hnl⟩ := (Option.any_eq_true _ _).mp hi
  have hmem : c ∈ slice t i j := by
    refine List.mem_of_getElem? (i := 0) ?_
    rw [getElem?_slice, if_pos (by omega), Nat.add_zero]
    exact hc
  have := List.countP_pos_iff.mpr ⟨c, hmem, hnl⟩
  omega

/-- Between two lines stands a newline. -/
theorem exists_newline {t : List Nat} {i j : Nat} (h : lineOf t i < lineOf t j) :
    ∃ k, i ≤ k ∧ k < j ∧ (t[k]?).any (chr '\n') = true := by
  have hij : i ≤ j := by
    by_contra hlt
    have := lineOf_mono t (i := j) (j := i) (by omega)
    omega
  rw [lineOf_eq_add t hij] at h
  have hpos : 0 < (slice t i j).countP (chr '\n') := by omega
  obtain ⟨c, hc, hnl⟩ := List.countP_pos_iff.mp hpos
  obtain ⟨k, hk⟩ := List.mem_iff_getElem?.mp hc
  rw [getElem?_slice] at hk
  split at hk
  · rename_i hlt
    exact ⟨i + k, Nat.le_add_right i k, hlt, by rw [hk]; exact hnl⟩
  · cases hk

/-- No marker ends where the one at the position starts. -/
def Unchained (t : List Nat) (i : Nat) : Prop := ∀ j, HeadingAt t j → markerStop t j ≠ i

/-! ### The output with positions -/

variable {α : Type}

/-- The characters of a slice are those between its positions. -/
theorem mem_slice_zipIdx {text : List α} {a b : Nat} {x : α × Nat}
    (h : x ∈ slice text.zipIdx a b) : a ≤ x.2 ∧ x.2 < b ∧ text[x.2]? = some x.1 := by
  obtain ⟨k, hk⟩ := List.mem_iff_getElem?.mp h
  rw [getElem?_slice] at hk
  split at hk
  · rename_i hlt
    rw [List.getElem?_zipIdx, Nat.zero_add, Option.map_eq_some_iff] at hk
    obtain ⟨c, hc, rfl⟩ := hk
    exact ⟨Nat.le_add_right a k, hlt, hc⟩
  · cases hk

/-- The positions of a text increase. -/
theorem pairwise_zipIdx (text : List α) : text.zipIdx.Pairwise fun x y => x.2 < y.2 := by
  have hsnd : (text.zipIdx.map Prod.snd).Pairwise (· < ·) := by
    rw [List.zipIdx_map_snd]
    exact List.pairwise_lt_range'
  exact List.pairwise_map.mp hsnd

variable [PyChar α]

/-- Positions do not change the code points. -/
theorem codes_zipIdx (text : List α) : codes text.zipIdx = codes text := by
  have := codes_map (keepsCode_fst (α := α)) text.zipIdx
  rw [List.zipIdx_map_fst] at this
  exact this.symm

/-- Positions do not change where a line ends. -/
theorem eol_zipIdx (text : List α) (i : Nat) : eol text.zipIdx i = eol text i := by
  rw [eol, codes_zipIdx]
  rfl

/-- The line of `x` is not behind the line of position `p`, and in front of it if `x` is a
newline. -/
def Before (text : List α) (x : α × Nat) (p : Nat) : Prop :=
  lineOf (codes text) x.2 ≤ lineOf (codes text) p ∧
    (isNewline x.1 = true → lineOf (codes text) x.2 < lineOf (codes text) p)

/-- A character in front of a position. -/
theorem before_of_lt {text : List α} {x : α × Nat} {p : Nat} (hx : text[x.2]? = some x.1)
    (hp : x.2 < p) : Before text x p := by
  refine ⟨lineOf_mono _ hp.le, fun hnl => lineOf_lt hp ?_⟩
  rw [getElem?_codes, hx]
  exact hnl

/-- What holds of the output while the heading phase is at position `k`. -/
structure Trace (text : List α) (k : Nat) (out : List (α × Nat)) : Prop where
  mem : ∀ x ∈ out, text[x.2]? = some x.1
  pairwise : out.Pairwise fun x y => Before text x y.2
  before : ∀ x ∈ out, ∀ p, k ≤ p → Before text x p
  outside : ∀ x ∈ out, ∀ i, HeadingAt (codes text) i → Unchained (codes text) i →
    ¬ (i ≤ x.2 ∧ x.2 < markerStop (codes text) i)

/-- Appending a slice of the text that lies at or behind the position. -/
theorem Trace.append {text : List α} {k k' a b : Nat} {out : List (α × Nat)}
    (h : Trace text k out) (hka : k ≤ a) (hkk : k ≤ k')
    (hbefore : ∀ x : α × Nat, a ≤ x.2 → x.2 < b → text[x.2]? = some x.1 →
      ∀ p, k' ≤ p → Before text x p)
    (houtside : ∀ p, a ≤ p → p < b → ∀ i, HeadingAt (codes text) i →
      Unchained (codes text) i → ¬ (i ≤ p ∧ p < markerStop (codes text) i)) :
    Trace text k' (out ++ slice text.zipIdx a b) := by
  refine ⟨?_, ?_, ?_, ?_⟩
  · intro x hx
    rcases List.mem_append.mp hx with hx | hx
    · exact h.mem x hx
    · exact (mem_slice_zipIdx hx).2.2
  · -- positions grow within the slice, and what was there is before all of it
    rw [List.pairwise_append]
    refine ⟨h.pairwise, ?_, ?_⟩
    · refine List.Pairwise.imp_of_mem ?_ ((pairwise_zipIdx text).sublist (slice_sublist _ a b))
      intro x y hx _ hlt
      exact before_of_lt (mem_slice_zipIdx hx).2.2 hlt
    · intro x hx y hy
      exact h.before x hx _ (hka.trans (mem_slice_zipIdx hy).1)
  · intro x hx p hp
    rcases List.mem_append.mp hx with hx | hx
    · exact h.before x hx p (hkk.trans hp)
    · obtain ⟨h1, h2, h3⟩ := mem_slice_zipIdx hx
      exact hbefore x h1 h2 h3 p hp
  · intro x hx
    rcases List.mem_append.mp hx with hx | hx
    · exact h.outside x hx
    · obtain ⟨h1, h2, -⟩ := mem_slice_zipIdx hx
      exact houtside _ h1 h2

/-- In the title of a heading all positions are on one line. -/
theorem before_of_title {text : List α} {k : Nat} {x : α × Nat} (hk : k ≤ x.2)
    (hx : x.2 < eol text k) (hmem : text[x.2]? = some x.1) {p : Nat} (hp : k ≤ p) :
    Before text x p := by
  have hno : ∀ j, k ≤ j → j < eol text k → ((codes text)[j]?).any (chr '\n') = false := by
    intro j h1 h2
    by_contra hnl
    have := eol_le_of_newline h1 (by simpa using hnl)
    omega
  have hline : lineOf (codes text) x.2 = lineOf (codes text) k := by
    by_contra hne
    have hlt := lt_of_le_of_ne (lineOf_mono (codes text) hk) (Ne.symm hne)
    obtain ⟨j, h1, h2, h3⟩ := exists_newline hlt
    rw [hno j h1 (by omega)] at h3
    cases h3
  refine ⟨hline.trans_le (lineOf_mono _ hp), fun hnl => ?_⟩
  have := hno x.2 hk hx
  rw [getElem?_codes, hmem, Option.map_some, Option.any_some] at this
  rw [isNewline, isChr] at hnl
  rw [chr, hnl] at this
  cases this

/-- The heading phase keeps the trace of its positions. -/
theorem trace_headingsFrom {text : List α} {k : Nat} {ms : List Match}
    (h : Scan (codes text) headingPattern k ms) :
    ∀ {newText : List (α × Nat)} {lastEnd : Nat} (spans : List Span),
      Trace text k newText → k ≤ lastEnd →
      (∀ i, HeadingAt (codes text) i → i < k → markerStop (codes text) i ≤ k) →
      ∃ k', Trace text k' (headingsFrom text.zipIdx ms newText lastEnd spans).1 := by
  induction h with
  | @done k hgap =>
    intro newText lastEnd spans htrace hle hseen
    have hdrop : text.zipIdx.drop lastEnd = slice text.zipIdx lastEnd text.length := by
      rw [slice, List.take_of_length_le (by simp)]
    refine ⟨text.length + k, ?_⟩
    rw [headingsFrom, hdrop]
    refine htrace.append hle (Nat.le_add_left _ _) ?_ ?_
    · intro x _ hx hmem p hp
      exact before_of_lt hmem (by omega)
    · intro p hp hlt i hi _ hin
      by_cases hik : i < k
      · have := hseen i hi hik
        omega
      · -- No marker starts behind the last match.
        have hnone := hgap i (by omega) (by rw [length_codes]; omega)
        rw [matchAt_heading, if_pos hi] at hnone
        cases hnone
  | @next k m ms le found start_le hgap rest ih =>
    intro newText lastEnd spans htrace hle hseen
    obtain ⟨hhead, hm⟩ := matchAt_heading_some found
    have hstop : m.stop = markerStop (codes text) m.start := by rw [hm]
    have hlt : m.start < m.stop := by
      have := hhead.hashes_pos
      rw [hstop, markerStop]
      omega
    -- A marker in front of `m` was seen before, and one behind it starts behind its title.
    have hfront : ∀ i, HeadingAt (codes text) i → i < m.start →
        markerStop (codes text) i ≤ k := by
      intro i hi hlt
      by_cases hik : i < k
      · exact hseen i hi hik
      · have hnone := hgap i (by omega) hlt
        rw [matchAt_heading, if_pos hi] at hnone
        cases hnone
    have hback : ∀ i, HeadingAt (codes text) i → Unchained (codes text) i → m.start < i →
        eol text m.stop ≤ i := by
      intro i hi hun hlt
      have hle := hi.markerStop_le hlt
      have hne := hun m.start hhead
      rcases hi.lineStart with hzero | hnl
      · omega
      · have := eol_le_of_newline (i := m.stop) (j := i - 1) (by omega) hnl
        omega
    rw [headingsFrom]
    simp only [eol_zipIdx]
    have hcopied : Trace text m.start (newText ++ slice text.zipIdx lastEnd m.start) := by
      refine htrace.append hle le ?_ ?_
      · intro x _ hx hmem p hp
        exact before_of_lt hmem (by omega)
      · intro p hp hlt i hi hun hin
        have := hfront i hi (by omega)
        omega
    have htitle : Trace text m.stop (newText ++ slice text.zipIdx lastEnd m.start
        ++ slice text.zipIdx m.stop (eol text m.stop)) := by
      refine hcopied.append hlt.le hlt.le ?_ ?_
      · intro x hx1 hx2 hmem p hp
        exact before_of_title hx1 hx2 hmem hp
      · intro p hp1 hp2 i hi hun hin
        rcases lt_trichotomy i m.start with hlt | rfl | hgt
        · have := hfront i hi hlt
          omega
        · omega
        · have := hback i hi hun hgt
          omega
    refine ih _ htitle (le_eol text m.stop) ?_
    intro i hi hik
    rcases lt_trichotomy i m.start with hlt | rfl | hgt
    · have := hfront i hi hlt
      omega
    · exact hstop.ge
    · have := hi.markerStop_le hgt
      omega

/-- The output of the heading phase with positions. -/
theorem trace_headings (text : List α) : ∃ k, Trace text k (headings text.zipIdx).1 := by
  rw [headings, codes_zipIdx]
  exact trace_headingsFrom (scan_finditer (by decide)) []
    ⟨by simp, List.Pairwise.nil, by simp, by simp⟩ le_rfl fun i _ hi => absurd hi (by omega)

/-! ### Counting lines with a hash -/

/-- A hash. -/
def isHash (c : α) : Bool := isChr '#' c

/-- The lines of the hashes among marked characters. -/
def hashLines (text : List α) (w : List (α × Nat)) : Finset Nat :=
  ((w.filter fun x => isHash x.1).map fun x => lineOf (codes text) x.2).toFinset

/-- The lines on which hashes stand. -/
theorem mem_hashLines {text : List α} {w : List (α × Nat)} {l : Nat} :
    l ∈ hashLines text w ↔
      ∃ x ∈ w, isHash x.1 = true ∧ lineOf (codes text) x.2 = l := by
  simp [hashLines, and_assoc]

/-- Two markings of the same characters. If between two lines of the first there is always
a newline, and the lines of the second never go back, the second has at least as many lines
with a hash. -/
theorem card_hashLines_le {text : List α} {w w' : List (α × Nat)}
    (heq : w.map Prod.fst = w'.map Prod.fst)
    (hw : ∀ (i j : Nat) (x y : α × Nat), w[i]? = some x → w[j]? = some y →
      lineOf (codes text) x.2 < lineOf (codes text) y.2 →
        ∃ k z, i ≤ k ∧ k < j ∧ w[k]? = some z ∧ isNewline z.1 = true)
    (hw' : w'.Pairwise fun x y => Before text x y.2) :
    (hashLines text w).card ≤ (hashLines text w').card := by
  classical
  have hfst : ∀ k : Nat, (w[k]?).map Prod.fst = (w'[k]?).map Prod.fst := by
    intro k
    rw [← List.getElem?_map, ← List.getElem?_map, heq]
  have hle : ∀ (i j : Nat) (x y : α × Nat), i ≤ j → w'[i]? = some x → w'[j]? = some y →
      lineOf (codes text) x.2 ≤ lineOf (codes text) y.2 := by
    intro i j x y hij hx hy
    rcases Nat.lt_or_eq_of_le hij with hlt | rfl
    · obtain ⟨hi, rfl⟩ := List.getElem?_eq_some_iff.mp hx
      obtain ⟨hj, rfl⟩ := List.getElem?_eq_some_iff.mp hy
      exact (List.pairwise_iff_getElem.mp hw' i j hi hj hlt).1
    · rw [hx] at hy
      cases hy
      exact le_rfl
  -- Every line of `w` is sent to the line of one of its hashes in `w'`.
  have hpick : ∀ l ∈ hashLines text w, ∃ i l' : Nat, ∃ x y : α × Nat, w[i]? = some x ∧
      w'[i]? = some y ∧ isHash y.1 = true ∧ lineOf (codes text) x.2 = l ∧
      lineOf (codes text) y.2 = l' := by
    intro l hl
    obtain ⟨x, hx, hhash, hline⟩ := mem_hashLines.mp hl
    obtain ⟨i, hi⟩ := List.mem_iff_getElem?.mp hx
    have hmap := hfst i
    rw [hi, Option.map_some, eq_comm, Option.map_eq_some_iff] at hmap
    obtain ⟨y, hy, hxy⟩ := hmap
    exact ⟨i, _, x, y, hi, hy, by rw [hxy]; exact hhash, hline, rfl⟩
  choose! pos line hline using hpick
  refine Finset.card_le_card_of_injOn line ?_ ?_
  · intro l hl
    obtain ⟨x, y, -, hy, hhash, -, hl'⟩ := hline l hl
    exact mem_hashLines.mpr ⟨y, List.mem_of_getElem? hy, hhash, hl'⟩
  · -- A later line goes to a later line, because of the newline in between.
    have hlt : ∀ l₁ ∈ hashLines text w, ∀ l₂ ∈ hashLines text w, l₁ < l₂ →
        line l₁ < line l₂ := by
      intro l₁ h₁ l₂ h₂ hll
      obtain ⟨x₁, y₁, hx₁, hy₁, -, hl₁, hline₁⟩ := hline l₁ h₁
      obtain ⟨x₂, y₂, hx₂, hy₂, -, hl₂, hline₂⟩ := hline l₂ h₂
      obtain ⟨k, z, hik, hkj, hz, hnl⟩ := hw _ _ _ _ hx₁ hx₂ (by rw [hl₁, hl₂]; exact hll)
      have hmap := hfst k
      rw [hz, Option.map_some, eq_comm, Option.map_eq_some_iff] at hmap
      obtain ⟨z', hz', hzz⟩ := hmap
      have hfirst := hle _ _ _ _ hik hy₁ hz'
      obtain ⟨hk, hzk⟩ := List.getElem?_eq_some_iff.mp hz'
      obtain ⟨hj, hyj⟩ := List.getElem?_eq_some_iff.mp hy₂
      have hsecond := (List.pairwise_iff_getElem.mp hw' k _ hk hj hkj).2
        (by rw [hzk, hzz]; exact hnl)
      rw [hyj, hzk] at hsecond
      rw [← hline₁, ← hline₂]
      exact hfirst.trans_lt hsecond
    intro l₁ h₁ l₂ h₂ heq
    rcases lt_trichotomy l₁ l₂ with h | h | h
    · exact absurd heq (hlt l₁ h₁ l₂ h₂ h).ne
    · exact h
    · exact absurd heq (hlt l₂ h₂ l₁ h₁ h).ne'

end SignalGateway.Proofs.Markdown
