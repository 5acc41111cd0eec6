import SignalGateway.Py.Str

/-!
# `SignalGateway.Markdown`: markdown to Signal body ranges

The model of `markdown_to_signal` in `signal_client.py`, phase by phase. Spans count code
points until the last step, which turns them into UTF-16 ranges.

The class `\w` of the last inline pattern is a parameter, because it depends on the Unicode
version of the interpreter.

The phases, behind `normalizeWhitespace`:

1. `fences` replaces a fenced block by its code, with a monospace span.
2. `headings` removes the markers of headings, with a bold span for each title. It does not move the
   spans of the first phase.
3. `inlines` collects the inline matches (`collect`), removes their markers (`stripFrom`) and moves
   the spans of the other phases (`adjustSpan`).

`markdownToSignal` sorts all spans and turns those inside the text into ranges. This raises if a
surrogate stands in front of the end of a span.
-/

set_option autoImplicit false

namespace SignalGateway.Markdown

open Regex PyChar

/-- The four styles the source writes. -/
inductive Style where
  | bold
  | italic
  | strikethrough
  | monospace
deriving DecidableEq, Repr

/-- The wire name of a style. -/
def Style.name : Style → String
  | .bold => "BOLD"
  | .italic => "ITALIC"
  | .strikethrough => "STRIKETHROUGH"
  | .monospace => "MONOSPACE"

/-- A styled stretch of the text, in code points. -/
structure Span where
  start : Nat
  length : Nat
  style : Style
deriving DecidableEq, Repr

/-- A backtick. -/
def backtick : Nat → Bool := fun n => n == 0x60

/-- `[a-zA-Z0-9_+-]` -/
def isTagCode (n : Nat) : Bool :=
  (0x61 ≤ n && n ≤ 0x7a) || (0x41 ≤ n && n ≤ 0x5a) || (0x30 ≤ n && n ≤ 0x39) || n == 0x5f ||
    n == 0x2b || n == 0x2d

/-- The fence pattern: three backticks, an optional tag with its newline, the content as a
lazy group, three backticks. -/
def fencePattern : Re Nat :=
  .seqs [.one backtick, .one backtick, .one backtick,
    .opt (.seq (.rep true 0 none isTagCode) (.one (chr '\n'))),
    .group (.rep false 0 none fun _ => true),
    .one backtick, .one backtick, .one backtick]

/-- `^#{1,6}\s+` -/
def headingPattern : Re Nat :=
  .seqs [.lineStart (chr '\n'), .rep true 1 (some 6) (chr '#'), .rep true 1 none isSpaceCode]

/-- `.` without DOTALL. -/
def notNewline : Nat → Bool := fun n => !chr '\n' n

/-- A lazy group of one or more characters of the class `p`. -/
def lazyGroup (p : Nat → Bool) : Re Nat := .group (.rep false 1 none p)

/-- The inline patterns, in the order of the source. -/
def inlinePatterns (isWord : Nat → Bool) : List (Re Nat × Style) :=
  [ (.seqs [.one backtick, lazyGroup notNewline, .one backtick], .monospace),
    (.seqs [.one (chr '*'), .one (chr '*'), lazyGroup fun _ => true,
      .one (chr '*'), .one (chr '*')], .bold),
    (.seqs [.one (chr '_'), .one (chr '_'), lazyGroup fun _ => true,
      .one (chr '_'), .one (chr '_')], .bold),
    (.seqs [.one (chr '~'), .one (chr '~'), lazyGroup fun _ => true,
      .one (chr '~'), .one (chr '~')], .strikethrough),
    (.seqs [.notBehind (chr '*'), .one (chr '*'), .notAhead (fun n => chr '*' n || chr ' ' n),
      lazyGroup notNewline, .notBehind (chr '*'), .one (chr '*'), .notAhead (chr '*')],
      .italic),
    (.seqs [.notBehind isWord, .one (chr '_'), .notAhead (chr '_'), lazyGroup notNewline,
      .notBehind (chr '_'), .one (chr '_'), .notAhead isWord], .italic) ]

variable {α : Type} [PyChar α]

/-- `re.sub(r"\n{3,}", "\n\n", text)`: the first two newlines of every run stay. The counter
is the number of newlines of the run that were kept. -/
def collapseFrom : Nat → List α → List α
  | _, [] => []
  | kept, c :: s =>
      if isChr '\n' c then
        if kept < 2 then c :: collapseFrom (kept + 1) s else collapseFrom kept s
      else c :: collapseFrom 0 s

/-- The whitespace normalisation in front of the phases. -/
def normalizeWhitespace (text : List α) : List α := strip (collapseFrom 0 text)

/-- The span of the first group of a match. -/
def groupSpan (m : Match) : Nat × Nat := m.groups.headD (m.start, m.stop)

/-! ### Phase 1: fenced code blocks -/

/-- The loop `while m := _cb.search(text)`. A round takes at least six characters away, so
the length of the text is enough fuel. -/
def fencesFrom : Nat → List α → List Span → List α × List Span
  | 0, text, spans => (text, spans)
  | fuel + 1, text, spans =>
      match search (codes text) fencePattern 0 with
      | none => (text, spans)
      | some m =>
          let inner := rstripChr '\n' (slice text (groupSpan m).1 (groupSpan m).2)
          -- The next search starts at the front again.
          fencesFrom fuel (text.take m.start ++ inner ++ text.drop m.stop)
            (spans ++ [⟨m.start, inner.length, .monospace⟩])

/-- Phase 1. -/
def fences (text : List α) : List α × List Span := fencesFrom text.length text []

/-! ### Phase 2: headings -/

/-- The first newline at or behind `i`, or the end of the text. -/
def eol (text : List α) (i : Nat) : Nat := i + runLength notNewline (codes text) i

/-- The loop over the heading matches. `newText` is the output so far, and `lastEnd` is
where the copied part of the text ends. -/
def headingsFrom (text : List α) :
    List Match → (newText : List α) → (lastEnd : Nat) → List Span → List α × List Span
  | [], newText, lastEnd, spans => (newText ++ text.drop lastEnd, spans)
  | m :: ms, newText, lastEnd, spans =>
      let newText := newText ++ slice text lastEnd m.start
      -- The marker can reach over empty lines. The title ends with the line behind it.
      let headingText := slice text m.stop (eol text m.stop)
      headingsFrom text ms (newText ++ headingText) (eol text m.stop)
        (spans ++ [⟨newText.length, headingText.length, .bold⟩])

/-- Phase 2. -/
def headings (text : List α) : List α × List Span :=
  headingsFrom text (finditer (codes text) headingPattern) [] 0 []

/-! ### Phase 3: inline patterns -/

/-- An inline match: the whole match and its group. -/
structure Inline where
  start : Nat
  stop : Nat
  innerStart : Nat
  innerStop : Nat
  style : Style
deriving DecidableEq, Repr

/-- Whether the match overlaps an occupied range. -/
def overlaps (occupied : List (Nat × Nat)) (m : Match) : Bool :=
  occupied.any fun o => m.start < o.2 && o.1 < m.stop

/-- The loop body over the matches of one pattern. -/
def collectMatch (style : Style) (st : List Inline × List (Nat × Nat)) (m : Match) :
    List Inline × List (Nat × Nat) :=
  -- An earlier pattern or a code block has the characters.
  if overlaps st.2 m then st
  else
    (st.1 ++ [⟨m.start, m.stop, (groupSpan m).1, (groupSpan m).2, style⟩],
      st.2 ++ [(m.start, m.stop)])

/-- The loop over the patterns. -/
def collect (isWord : Nat → Bool) (text : List α) (occupied : List (Nat × Nat)) :
    List Inline :=
  ((inlinePatterns isWord).foldl
    (fun st (p : Re Nat × Style) =>
      (finditer (codes text) p.1).foldl (collectMatch p.2) st) ([], occupied)).1

/-- Lexicographic order on the numbers of a tuple. -/
def numbersLe : List Nat → List Nat → Bool
  | x :: xs, y :: ys => x < y || (x == y && numbersLe xs ys)
  | [], _ => true
  | _ :: _, [] => false

/-- The elements sorted by the numbers `key` lists for them. Equal elements stay in
order. -/
def sortOn {γ : Type} (key : γ → List Nat) (xs : List γ) : List γ :=
  xs.insertionSort fun a b => numbersLe (key a) (key b) = true

/-- The position of a style name in alphabetical order. -/
def Style.rank : Style → Nat
  | .bold => 0
  | .italic => 1
  | .monospace => 2
  | .strikethrough => 3

/-- `all_matches.sort()` -/
def sortInlines (ms : List Inline) : List Inline :=
  sortOn (fun m => [m.start, m.stop, m.innerStart, m.innerStop, m.style.rank]) ms

/-- The removed stretches of the matches, each with its position and length, sorted. -/
def removals (ms : List Inline) : List (Nat × Nat) :=
  sortOn (fun r => [r.1, r.2]) (ms.flatMap fun m =>
    (if m.start < m.innerStart then [(m.start, m.innerStart - m.start)] else []) ++
      if m.innerStop < m.stop then [(m.innerStop, m.stop - m.innerStop)] else [])

/-- The number of removed characters in front of `pos`: the loop of `_adj`. -/
def shiftBefore : List (Nat × Nat) → Nat → Nat
  | [], _ => 0
  | (rp, rl) :: rest, pos =>
      if rp < pos then min rl (pos - rp) + shiftBefore rest pos else 0

/-- `_adj` -/
def adj (rs : List (Nat × Nat)) (pos : Nat) : Nat := pos - shiftBefore rs pos

/-- A span of an earlier phase, adjusted. It is dropped if nothing of it is left. -/
def adjustSpan (rs : List (Nat × Nat)) (s : Span) : Option Span :=
  if adj rs s.start < adj rs (s.start + s.length) then
    some ⟨adj rs s.start, adj rs (s.start + s.length) - adj rs s.start, s.style⟩
  else none

/-- The strip pass over the sorted matches. -/
def stripFrom (text : List α) :
    List Inline → (result : List α) → (lastEnd : Nat) → List Span → List α × List Span
  | [], result, lastEnd, spans => (result ++ text.drop lastEnd, spans)
  | m :: ms, result, lastEnd, spans =>
      let result := result ++ slice text lastEnd m.start
      let inner := slice text m.innerStart m.innerStop
      stripFrom text ms (result ++ inner) m.stop
        (spans ++ [⟨result.length, inner.length, m.style⟩])

/-- Phase 3 on the text and the spans of the first two phases. -/
def inlines (isWord : Nat → Bool) (text : List α) (spans : List Span) : List α × List Span :=
  -- Code keeps the patterns out, a heading does not.
  let occupied := (spans.filter fun s => s.style = .monospace).map fun s =>
    (s.start, s.start + s.length)
  let ms := sortInlines (collect isWord text occupied)
  let prior := spans.filterMap (adjustSpan (removals ms))
  let (text, inlineSpans) := stripFrom text ms [] 0 []
  (text, prior ++ inlineSpans)

/-- The plain text and its spans in code points. -/
def spansOf (isWord : Nat → Bool) (text : List α) : List α × List Span :=
  let (text, codeSpans) := fences (normalizeWhitespace text)
  let (text, headingSpans) := headings text
  inlines isWord text (codeSpans ++ headingSpans)

/-! ### UTF-16 -/

/-- A surrogate code point. It has no UTF-16 encoding of its own. -/
def isSurrogate (n : Nat) : Bool := 0xd800 ≤ n && n ≤ 0xdfff

/-- The UTF-16 units of a character that is not a surrogate. -/
def units (c : α) : Nat := if code c < 0x10000 then 1 else 2

/-- `_utf16_len` -/
def utf16Len (s : List α) : Except PyError Nat :=
  if s.any fun c => isSurrogate (code c) then .error .unicodeEncodeError
  else .ok (s.map units).sum

/-- A range of the returned list. The source formats it as `start:length:STYLE`. -/
structure StyleRange where
  start : Nat
  length : Nat
  style : Style
deriving DecidableEq, Repr

/-- The entry of the list `textStyles`. -/
def StyleRange.format (r : StyleRange) : String :=
  toString r.start ++ ":" ++ toString r.length ++ ":" ++ r.style.name

/-- `sorted(styles)` -/
def sortSpans (spans : List Span) : List Span :=
  sortOn (fun s => [s.start, s.length, s.style.rank]) spans

/-- A span as a UTF-16 range of the text. -/
def toRange (text : List α) (s : Span) : Except PyError StyleRange := do
  let start ← utf16Len (text.take s.start)
  let length ← utf16Len (slice text s.start (s.start + s.length))
  return ⟨start, length, s.style⟩

/-- `markdown_to_signal` -/
def markdownToSignal (isWord : Nat → Bool) (text : List α) :
    Except PyError (List α × List StyleRange) := do
  let (text, spans) := spansOf isWord text
  -- A span that reaches behind the text is dropped.
  let inBounds := (sortSpans spans).filter fun s => s.start + s.length ≤ text.length
  let ranges ← inBounds.mapM (toRange text)
  return (text, ranges)

end SignalGateway.Markdown
