import SignalGateway.Proofs.Headings

/-!
# `SignalGateway.Proofs.HeadingLines`: which texts hold a heading marker

`HasMarker` reads a text from the left and says whether a heading marker stands in it
(`hasMarker_iff`). A newline cuts a text into two parts that are read on their own
(`hasMarker_append`). In front of the first marker the heading phase changes nothing
(`take_prefix_headings`), and a text without markers is left alone (`headings_eq_self`).

`MarkerHere` is about the position where a text begins, and `HasMarker` goes along the text and
asks at every line start. The flag says whether the text begins with a line start.

The engine of `Lib.Regex` works with positions in the whole text. `headingAt_iff_drop` and
`hasMarker_iff_exists` translate between the two, and the rest of the module is about lists.
-/

set_option autoImplicit false

namespace SignalGateway.Proofs.Markdown

open SignalGateway.Markdown
open Regex PyChar

/-! ### Reading a text from the left -/

/-- The text starts with the hashes and the whitespace of a heading marker. -/
def MarkerHere (w : List Nat) : Prop := 1 ≤ hashes w 0 ∧ hashes w 0 ≤ 6 ∧ 1 ≤ gap w 0

/-- A heading marker stands in the text. The flag says whether a line starts in front. -/
def HasMarker : Bool → List Nat → Prop
  | _, [] => False
  | start, n :: w => (start = true ∧ MarkerHere (n :: w)) ∨ HasMarker (chr '\n' n) w

/-- A heading marker is a line start with a marker behind it. -/
theorem headingAt_iff_drop (t : List Nat) (i : Nat) :
    HeadingAt t i ↔ LineStart t i ∧ MarkerHere (t.drop i) := by
  have hhashes : hashes (t.drop i) 0 = hashes t i := rfl
  have hgap : gap (t.drop i) 0 = gap t i := by
    rw [gap, gap, hhashes, Nat.zero_add, runLength, runLength, List.drop_drop]
  rw [headingAt_iff, MarkerHere, hhashes, hgap]

/-- Nothing is no marker. -/
theorem not_markerHere_nil : ¬ MarkerHere [] := fun h => absurd h.1 (by decide)

/-- A text has a marker at one of its line starts. -/
theorem hasMarker_iff_exists (start : Bool) (w : List Nat) :
    HasMarker start w ↔ ∃ i, ((i = 0 ∧ start = true) ∨
      0 < i ∧ (w[i - 1]?).any (chr '\n') = true) ∧ MarkerHere (w.drop i) := by
  induction w generalizing start with
  | nil =>
    rw [HasMarker]
    refine ⟨False.elim, ?_⟩
    rintro ⟨i, -, hmarker⟩
    rw [List.drop_nil] at hmarker
    exact not_markerHere_nil hmarker
  | cons n w ih =>
    rw [HasMarker, ih]
    constructor
    · rintro (⟨hstart, hmarker⟩ | ⟨i, hline, hmarker⟩)
      · exact ⟨0, Or.inl ⟨rfl, hstart⟩, hmarker⟩
      · refine ⟨i + 1, Or.inr ⟨Nat.succ_pos i, ?_⟩, hmarker⟩
        rcases hline with ⟨rfl, hnl⟩ | ⟨hpos, hnl⟩
        · exact hnl
        · -- a place of `w` is one further in `n :: w`
          obtain ⟨j, rfl⟩ : ∃ j, i = j + 1 := ⟨i - 1, by omega⟩
          exact hnl
    · rintro ⟨i, hline, hmarker⟩
      cases i with
      | zero =>
        rcases hline with ⟨-, hstart⟩ | ⟨hpos, -⟩
        · exact Or.inl ⟨hstart, hmarker⟩
        · omega
      | succ i =>
        refine Or.inr ⟨i, ?_, hmarker⟩
        rcases hline with ⟨hzero, -⟩ | ⟨-, hnl⟩
        · omega
        · cases i with
          | zero => exact Or.inl ⟨rfl, hnl⟩
          | succ i => exact Or.inr ⟨Nat.succ_pos i, hnl⟩

/-- A text has a heading marker exactly when one is found in it. -/
theorem hasMarker_iff (t : List Nat) : HasMarker true t ↔ ∃ i, HeadingAt t i := by
  rw [hasMarker_iff_exists]
  refine exists_congr fun i => ?_
  rw [headingAt_iff_drop, LineStart]
  refine and_congr_left fun _ => ?_
  by_cases hzero : i = 0
  · simp [hzero]
  · simp [hzero, Nat.pos_of_ne_zero hzero]

/-- A run begins with a character of its class. -/
theorem one_le_runLength_iff (p : Nat → Bool) (t : List Nat) (i : Nat) :
    1 ≤ runLength p t i ↔ (t[i]?).any p = true := by
  constructor
  · intro h
    have := runLength_spec p t i 0 h
    rwa [Nat.add_zero] at this
  · intro h
    by_contra hzero
    have hmax := runLength_maximal p t i
    have : runLength p t i = 0 := by omega
    rw [this, Nat.add_zero, h] at hmax
    cases hmax

/-- Behind a newline nothing belongs to a marker in front of it. -/
theorem markerHere_append (u v : List Nat) :
    MarkerHere (u ++ '\n'.toNat :: v) ↔ MarkerHere (u ++ ['\n'.toNat]) := by
  -- the hashes stop at the newline at the latest
  have hrun : ∀ v, hashes (u ++ '\n'.toNat :: v) 0 = (u.takeWhile (chr '#')).length := by
    intro v
    have hnil : ('\n'.toNat :: v).takeWhile (chr '#') = [] := by
      rw [List.takeWhile_cons, if_neg (by decide)]
    rw [hashes, runLength, List.drop_zero, List.takeWhile_append, hnil]
    split
    · rename_i hall
      rw [List.append_nil, hall]
    · rfl
  have hle : (u.takeWhile (chr '#')).length ≤ u.length :=
    (List.takeWhile_sublist _).length_le
  -- and the code after them is in `u` or is the newline
  have hnext : ∀ v, (u ++ '\n'.toNat :: v)[(u.takeWhile (chr '#')).length]?
      = (u ++ ['\n'.toNat])[(u.takeWhile (chr '#')).length]? := by
    intro v
    rcases Nat.lt_or_eq_of_le hle with hlt | heq
    · rw [List.getElem?_append_left hlt, List.getElem?_append_left hlt]
    · rw [heq, List.getElem?_append_right le_rfl, List.getElem?_append_right le_rfl,
        Nat.sub_self]
      rfl
  rw [MarkerHere, MarkerHere, hrun, hrun, gap, gap, hrun, hrun, one_le_runLength_iff,
    one_le_runLength_iff, Nat.zero_add, hnext]

/-- Behind a newline a line starts. -/
theorem hasMarker_newline (start : Bool) (w : List Nat) :
    HasMarker start ('\n'.toNat :: w) ↔ HasMarker true w := by
  have hhash : ¬ MarkerHere ('\n'.toNat :: w) := by
    intro h
    have hany := (one_le_runLength_iff _ _ _).mp h.1
    rw [List.getElem?_cons_zero, Option.any_some, show chr '#' '\n'.toNat = false by decide]
      at hany
    cases hany
  have hnl : chr '\n' '\n'.toNat = true := by decide
  rw [HasMarker, hnl]
  exact or_iff_right fun h => hhash h.2

/-- The lines in front of a newline and behind it are read on their own. -/
theorem hasMarker_append (start : Bool) (u v : List Nat) :
    HasMarker start (u ++ '\n'.toNat :: v)
      ↔ HasMarker start (u ++ ['\n'.toNat]) ∨ HasMarker true v := by
  induction u generalizing start with
  | nil =>
    rw [List.nil_append, List.nil_append, hasMarker_newline, hasMarker_newline]
    exact (or_iff_right fun h => h).symm
  | cons n u ih =>
    rw [List.cons_append, HasMarker, ih, ← List.cons_append, markerHere_append, ← or_assoc,
      List.cons_append, HasMarker]

/-- Without hashes there is no marker. -/
theorem not_hasMarker {w : List Nat} (hw : ∀ n ∈ w, chr '#' n = false) (start : Bool) :
    ¬ HasMarker start w := by
  rw [hasMarker_iff_exists]
  rintro ⟨i, -, hmarker⟩
  have hhash := (one_le_runLength_iff _ _ _).mp hmarker.1
  cases hc : (w.drop i)[0]? with
  | none => rw [hc] at hhash; cases hhash
  | some c =>
    rw [hc, Option.any_some, hw c (List.mem_of_mem_drop (List.mem_of_getElem? hc))] at hhash
    cases hhash

/-! ### The text in front of the first marker -/

variable {α : Type} [PyChar α]

/-- The heading phase only adds to what it has written. -/
theorem prefix_headingsFrom (text : List α) (ms : List Match) :
    ∀ (newText : List α) (lastEnd : Nat) (spans : List Span),
      newText <+: (headingsFrom text ms newText lastEnd spans).1 := by
  induction ms with
  | nil => intro newText lastEnd spans; exact List.prefix_append _ _
  | cons m ms ih =>
    intro newText lastEnd spans
    refine List.IsPrefix.trans ?_ (ih _ _ _)
    rw [List.append_assoc]
    exact List.prefix_append _ _

/-- What is found is a heading marker. -/
theorem headingAt_of_mem_finditer {t : List Nat} {m : Match}
    (hm : m ∈ finditer t headingPattern) : HeadingAt t m.start := by
  obtain ⟨-, -, hfound⟩ := mem_scan (scan_finditer (by decide)) m hm
  exact (matchAt_heading_some hfound).1

/-- In front of the first heading marker the heading phase changes nothing. -/
theorem take_prefix_headings {text : List α} {n : Nat}
    (hno : ∀ i < n, ¬ HeadingAt (codes text) i) : text.take n <+: (headings text).1 := by
  rw [headings]
  cases hms : finditer (codes text) headingPattern with
  | nil =>
    rw [headingsFrom, List.nil_append, List.drop_zero]
    exact List.take_prefix _ _
  | cons m ms =>
    have hmem : m ∈ finditer (codes text) headingPattern := by
      rw [hms]
      exact List.mem_cons_self
    have hle : n ≤ m.start := by
      by_contra hlt
      exact hno m.start (by omega) (headingAt_of_mem_finditer hmem)
    refine List.IsPrefix.trans ?_ (prefix_headingsFrom text ms _ _ _)
    rw [List.nil_append]
    refine List.IsPrefix.trans ?_ (List.prefix_append _ _)
    exact List.take_prefix_take_left hle

/-- A text without heading markers is left alone. -/
theorem headings_eq_self {text : List α} (hno : ∀ i, ¬ HeadingAt (codes text) i) :
    headings text = (text, []) := by
  rw [headings]
  cases hms : finditer (codes text) headingPattern with
  | nil => rw [headingsFrom, List.nil_append, List.drop_zero]
  | cons m ms =>
    have hmem : m ∈ finditer (codes text) headingPattern := by
      rw [hms]
      exact List.mem_cons_self
    exact absurd (headingAt_of_mem_finditer hmem) (hno m.start)

end SignalGateway.Proofs.Markdown
