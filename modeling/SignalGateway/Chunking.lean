import SignalGateway.Py.Str
import SignalGateway.Lib.Words

/-!
# `SignalGateway.Chunking`: splitting long replies

The model of `chunking.py`. `chunkMessage` packs paragraph, sentence and word segments
greedily into chunks of at most `maxLength` characters. The source mutates the chunk list
in place from two loops. Here both loops fold over a `Packing`: the finished chunks and the
open one.

* `normalized` and `paragraphs` prepare the text.
* `expandParagraph` cuts a paragraph that is too long into sentences or words. A `Segment` has the
  separator that joins it to what stands in front of it.
* `packSegment` is the body of the outer loop, and `packWord` that of the inner one for a segment
  that is too long. `cutEvery` cuts a word that is too long.

Lengths count characters, as `len` does. The functions are generic over the characters, so that
they also run on characters with a mark.
-/

set_option autoImplicit false

namespace SignalGateway.Chunking

open Regex PyChar

/-- `\n{2,}` -/
def paragraphSplit : Re Nat := .rep true 2 none (chr '\n')

/-- `\s+` -/
def whitespaceSplit : Re Nat := .rep true 1 none isSpaceCode

/-- `[.!?]`, as a class of code points. -/
def isTerminatorCode (n : Nat) : Bool := chr '.' n || chr '!' n || chr '?' n

/-- `[.!?]` -/
def sentencePunct : Re Nat := .one isTerminatorCode

/-- `[^.!?]+[.!?]+|[^.!?]+$` -/
def sentenceSplit : Re Nat :=
  .alt
    (.seq (.rep true 1 none fun n => !isTerminatorCode n) (.rep true 1 none isTerminatorCode))
    (.seq (.rep true 1 none fun n => !isTerminatorCode n) (.atEnd (chr '\n')))

variable {α : Type} [PyChar α]

/-- How a segment rejoins the previous one: `blank` with an empty line, `space` with a
space. -/
inductive Separator where
  | blank
  | space
deriving DecidableEq, Repr

/-- `_Segment` -/
structure Segment (α : Type) where
  text : List α
  separator : Separator

/-- The joiner of a segment. -/
def Separator.joiner : Separator → List α
  | .blank => lit "\n\n"
  | .space => lit " "

/-- The segments of one paragraph: the first joins with an empty line, the others with a
space. -/
def enumerateSegments (texts : List (List α)) : List (Segment α) :=
  texts.mapIdx fun i text => ⟨text, if i = 0 then .blank else .space⟩

/-- `_expand_paragraph` -/
def expandParagraph (paragraph : List α) (maxLength : Nat) : List (Segment α) :=
  let words := enumerateSegments (reSplit whitespaceSplit paragraph)
  if paragraph.length ≤ maxLength then [⟨paragraph, .blank⟩]
  else if (search (codes paragraph) sentencePunct 0).isSome then
    let sentences := ((reFindall sentenceSplit paragraph).map strip).filter (!·.isEmpty)
    -- A paragraph of punctuation alone has no sentence.
    if sentences.isEmpty then words else enumerateSegments sentences
  else words

/-- The state of the packing loops: the finished chunks and the one still open. -/
structure Packing (α : Type) where
  chunks : List (List α)
  current : List α

/-- `if current: chunks.append(current)`, and `current = ""`. -/
def Packing.flush (st : Packing α) : Packing α :=
  if st.current.isEmpty then st else ⟨st.chunks ++ [st.current], []⟩

/-- The candidate chunk: `text` behind the open chunk, or alone if none is open. -/
def candidate (current joiner text : List α) : List α :=
  if current.isEmpty then text else current ++ joiner ++ text

/-- `w[0:n], w[n:2*n], ...` up to the end of `w`, at most `fuel` pieces. -/
def cutEveryFrom (n : Nat) : Nat → List α → List (List α)
  | 0, _ => []
  | fuel + 1, w => if w.isEmpty then [] else w.take n :: cutEveryFrom n fuel (w.drop n)

/-- The pieces `w[i : i + n]` for `i in range(0, len(w), n)`. -/
def cutEvery (n : Nat) (w : List α) : List (List α) := cutEveryFrom n w.length w

/-- One piece of a word that is hard-split: a full piece is a chunk, a shorter one stays
open. -/
def hardSplitPiece (maxLength : Nat) (st : Packing α) (piece : List α) : Packing α :=
  if piece.length = maxLength then { st with chunks := st.chunks ++ [piece] }
  else { st with current := piece }

/-- The loop body of `_split_oversized_segment`. -/
def packWord (maxLength : Nat) (st : Packing α) (word : List α) : Packing α :=
  let joined := candidate st.current (lit " ") word
  if joined.length ≤ maxLength then { st with current := joined }
  else if maxLength < word.length then
    -- A word longer than a chunk starts on a chunk of its own.
    (cutEvery maxLength word).foldl (hardSplitPiece maxLength) st.flush
  else { st.flush with current := word }

/-- `_split_oversized_segment`, with the chunk list it appends to. The remainder it returns
is the open chunk. -/
def splitOversizedSegment (segmentText : List α) (maxLength : Nat)
    (chunks : List (List α)) : Packing α :=
  (reSplit whitespaceSplit segmentText).foldl (packWord maxLength) ⟨chunks, []⟩

/-- The loop body of `chunk_message`. -/
def packSegment (maxLength : Nat) (st : Packing α) (segment : Segment α) : Packing α :=
  let joined := candidate st.current segment.separator.joiner segment.text
  if joined.length ≤ maxLength then { st with current := joined }
  else if segment.text.length ≤ maxLength then { st.flush with current := segment.text }
  -- What is left of the words stays open for the next segment.
  else splitOversizedSegment segment.text maxLength st.flush.chunks

/-- The text after CRLF normalisation and the outer strip. -/
def normalized (text : List α) : List α :=
  strip (replace ("\r\n".toList.map Char.toNat) (lit "\n") text)

/-- The non-blank pieces between empty lines, each stripped. -/
def paragraphs (text : List α) : List (List α) :=
  ((reSplit paragraphSplit (normalized text)).map strip).filter (!·.isEmpty)

/-- `chunk_message` behind its argument check. -/
def chunkText (text : List α) (maxLength : Nat) : List (List α) :=
  if (normalized text).isEmpty then []
  else
    let segments := (paragraphs text).flatMap fun p => expandParagraph p maxLength
    -- The last chunk is still open behind the loop.
    let packed := (segments.foldl (packSegment maxLength) ⟨[], []⟩).flush
    packed.chunks.filter (!·.isEmpty)

/-- `chunk_message` -/
def chunkMessage (text : List α) (maxLength : Int) : Except PyError (List (List α)) :=
  if maxLength ≤ 0 then .error .valueError else .ok (chunkText text maxLength.toNat)

end SignalGateway.Chunking
