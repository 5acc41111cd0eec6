import SignalGateway.Markdown
import SignalGateway.Proofs.Str

/-!
# `SignalGateway.Proofs.MarkdownMarks`: where the plain text comes from

Markdown conversion looks at code points only, so it commutes with every relabelling that
keeps them (`markdownToSignal_map`). Run on `text.zipIdx` it returns the plain text with
the position of every character (`exists_marked`).

There is one lemma `_map` for each function of the conversion, in the order of the phases.
`exists_marked` is used where two occurrences of one character have to be told apart: a statement
"by position" is a statement about the marks.
-/

set_option autoImplicit false

namespace SignalGateway.Proofs.Markdown

open SignalGateway.Markdown
open Regex PyChar

variable {α β : Type} [PyChar α] [PyChar β] {f : α → β}

/-- A relabelling commutes with the collapsing of newlines. -/
theorem collapseFrom_map (hf : KeepsCode f) (s : List α) :
    ∀ kept, collapseFrom kept (s.map f) = (collapseFrom kept s).map f := by
  induction s with
  | nil => intro kept; rfl
  | cons c s ih =>
    intro kept
    simp only [List.map_cons, collapseFrom, isChr_map hf, ih]
    split
    · split <;> rfl
    · rfl

/-- A relabelling commutes with the normalisation. -/
theorem normalize_map (hf : KeepsCode f) (text : List α) :
    normalizeWhitespace (text.map f) = (normalizeWhitespace text).map f := by
  rw [normalizeWhitespace, collapseFrom_map hf, strip_map hf]
  rfl

/-- A relabelling commutes with the loop over the fences. -/
theorem fencesFrom_map (hf : KeepsCode f) (fuel : Nat) :
    ∀ (text : List α) (spans : List Span), fencesFrom fuel (text.map f) spans
      = ((fencesFrom fuel text spans).1.map f, (fencesFrom fuel text spans).2) := by
  induction fuel with
  | zero => intro text spans; rfl
  | succ fuel ih =>
    intro text spans
    simp only [fencesFrom, codes_map hf]
    split
    · rfl
    · rw [← map_slice, rstripChr_map hf, ← List.map_take, ← List.map_drop, ← List.map_append,
        ← List.map_append, ih, List.length_map]

/-- A relabelling commutes with the fence phase. -/
theorem fences_map (hf : KeepsCode f) (text : List α) :
    fences (text.map f) = ((fences text).1.map f, (fences text).2) := by
  rw [fences, fencesFrom_map hf, List.length_map]
  rfl

/-- A relabelling keeps where a line ends. -/
theorem eol_map (hf : KeepsCode f) (text : List α) (i : Nat) :
    eol (text.map f) i = eol text i := by
  rw [eol, codes_map hf]
  rfl

/-- A relabelling commutes with the loop over the headings. -/
theorem headingsFrom_map (hf : KeepsCode f) (text : List α) (ms : List Match) :
    ∀ (newText : List α) (lastEnd : Nat) (spans : List Span),
      headingsFrom (text.map f) ms (newText.map f) lastEnd spans
        = ((headingsFrom text ms newText lastEnd spans).1.map f,
          (headingsFrom text ms newText lastEnd spans).2) := by
  induction ms with
  | nil =>
    intro newText lastEnd spans
    simp [headingsFrom, List.map_drop]
  | cons m ms ih =>
    intro newText lastEnd spans
    simp only [headingsFrom, eol_map hf, ← map_slice, ← List.map_append, List.length_map]
    rw [ih]

/-- A relabelling commutes with the heading phase. -/
theorem headings_map (hf : KeepsCode f) (text : List α) :
    headings (text.map f) = ((headings text).1.map f, (headings text).2) := by
  rw [headings, codes_map hf]
  exact headingsFrom_map hf text _ [] 0 []

omit [PyChar α] [PyChar β] in
/-- A relabelling commutes with the stripping of markers. -/
theorem stripFrom_map (text : List α) (ms : List Inline) :
    ∀ (result : List α) (lastEnd : Nat) (spans : List Span),
      stripFrom (text.map f) ms (result.map f) lastEnd spans
        = ((stripFrom text ms result lastEnd spans).1.map f,
          (stripFrom text ms result lastEnd spans).2) := by
  induction ms with
  | nil =>
    intro result lastEnd spans
    simp [stripFrom, List.map_drop]
  | cons m ms ih =>
    intro result lastEnd spans
    simp only [stripFrom, ← map_slice, ← List.map_append, List.length_map]
    rw [ih]

/-- A relabelling keeps the inlines. -/
theorem collect_map (hf : KeepsCode f) (isWord : Nat → Bool) (text : List α)
    (occupied : List (Nat × Nat)) :
    collect isWord (text.map f) occupied = collect isWord text occupied := by
  rw [collect, codes_map hf]
  rfl

/-- A relabelling commutes with the inline phase. -/
theorem inlines_map (hf : KeepsCode f) (isWord : Nat → Bool) (text : List α)
    (spans : List Span) :
    inlines isWord (text.map f) spans
      = ((inlines isWord text spans).1.map f, (inlines isWord text spans).2) := by
  simp only [inlines, collect_map hf]
  rw [← List.map_nil (f := f), stripFrom_map]

/-- A relabelling commutes with all phases. -/
theorem spansOf_map (hf : KeepsCode f) (isWord : Nat → Bool) (text : List α) :
    spansOf isWord (text.map f)
      = ((spansOf isWord text).1.map f, (spansOf isWord text).2) := by
  simp only [spansOf, normalize_map hf, fences_map hf, headings_map hf, inlines_map hf]

/-- A relabelling keeps the length in UTF-16 units. -/
theorem utf16Len_map (hf : KeepsCode f) (s : List α) : utf16Len (s.map f) = utf16Len s := by
  have hunits : ∀ c, units (f c) = units c := fun c => by rw [units, units, hf.code_eq]
  simp [utf16Len, hunits, hf.code_eq, Function.comp_def]

/-- A relabelling keeps the range of a span. -/
theorem toRange_map (hf : KeepsCode f) (text : List α) (s : Span) :
    toRange (text.map f) s = toRange text s := by
  rw [toRange, ← List.map_take, ← map_slice, utf16Len_map hf, utf16Len_map hf]
  rfl

omit [PyChar β] in
/-- Markdown conversion returns the text of `spansOf`, and the ranges of its spans. -/
theorem markdownToSignal_eq (isWord : Nat → Bool) (text : List α) :
    markdownToSignal isWord text
      = (((sortSpans (spansOf isWord text).2).filter fun s : Span =>
          s.start + s.length ≤ (spansOf isWord text).1.length).mapM
            (toRange (spansOf isWord text).1)).map
          fun ranges => ((spansOf isWord text).1, ranges) := by
  rw [markdownToSignal]
  cases spansOf isWord text with
  | mk plain spans =>
    show (List.mapM (toRange plain) _ >>= _) = Except.map _ (List.mapM (toRange plain) _)
    cases List.mapM (toRange plain) _ <;> rfl

/-- Markdown conversion commutes with a relabelling. -/
theorem markdownToSignal_map (hf : KeepsCode f) (isWord : Nat → Bool) (text : List α) :
    markdownToSignal isWord (text.map f)
      = (markdownToSignal isWord text).map fun p => (p.1.map f, p.2) := by
  rw [markdownToSignal_eq, markdownToSignal_eq, spansOf_map hf]
  generalize spansOf isWord text = out
  have hrange : toRange (out.1.map f) = toRange out.1 := funext (toRange_map hf _)
  simp only [hrange, List.length_map]
  cases List.mapM (toRange out.1) _ <;> rfl

/-- The plain text with the position of every character in the text. -/
theorem exists_marked {isWord : Nat → Bool} {text plain : List α} {ranges : List StyleRange}
    (h : markdownToSignal isWord text = .ok (plain, ranges)) :
    ∃ marked, markdownToSignal isWord text.zipIdx = .ok (marked, ranges) ∧
      marked.map Prod.fst = plain := by
  have hmap := markdownToSignal_map (keepsCode_fst (α := α)) isWord text.zipIdx
  rw [List.zipIdx_map_fst, h] at hmap
  cases hrun : markdownToSignal isWord text.zipIdx with
  | error e => rw [hrun] at hmap; cases hmap
  | ok p =>
    rw [hrun] at hmap
    cases hmap
    exact ⟨p.1, rfl, rfl⟩

end SignalGateway.Proofs.Markdown
