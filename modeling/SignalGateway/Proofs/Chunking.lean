import SignalGateway.Chunking
import SignalGateway.Proofs.Str

/-!
# `SignalGateway.Proofs.Chunking`: the words of the chunks

The chunks are compared with the text through their words. `tokens chunks` is the list of
the words of all chunks, in order. The packing loops only insert and drop whitespace between
words, and cut words that are too long. `tokens_chunkText` states this: the tokens of the
chunks are the words of the segments, each cut every `maxLength` characters.

The theorems:

* `flatten_cutEvery`, `infix_of_mem_cutEvery`: the pieces of a long word are stretches of it and
  put together they are the word.
* `packed_splitOversizedSegment`: the loop over the words of a long segment.
* `packed_foldl_packSegment`: the loop over the segments. The invariant is about `packed`, the
  words of the finished chunks and of the open one.
* `chunkMessage_of_pos`: for a positive limit `chunk_message` does not raise, so that the laws
  can speak of `chunkText`.
-/

set_option autoImplicit false

namespace SignalGateway.Proofs.Chunking

open SignalGateway.Chunking
open Regex Words PyChar

variable {α : Type}

/-! ### Cutting a word -/

/-- A word that fits is not cut. -/
theorem cutEveryFrom_of_le {n : Nat} {w : List α} (hne : w ≠ []) (hle : w.length ≤ n)
    {fuel : Nat} (hfuel : 0 < fuel) : cutEveryFrom n fuel w = [w] := by
  obtain ⟨fuel, rfl⟩ : ∃ k, fuel = k + 1 := ⟨fuel - 1, by omega⟩
  have hdrop : w.drop n = [] := List.drop_eq_nil_of_le hle
  have hrest : cutEveryFrom n fuel ([] : List α) = [] := by
    cases fuel <;> rfl
  simp [cutEveryFrom, hne, hdrop, hrest, List.take_of_length_le hle]

/-- A word that fits is not cut. -/
theorem cutEvery_of_le {n : Nat} {w : List α} (hne : w ≠ []) (hle : w.length ≤ n) :
    cutEvery n w = [w] :=
  cutEveryFrom_of_le hne hle (List.length_pos_iff.mpr hne)

/-- The pieces of a word, joined, are the word. -/
theorem flatten_cutEveryFrom {n : Nat} (hn : 0 < n) :
    ∀ {fuel : Nat} {w : List α}, w.length ≤ fuel → (cutEveryFrom n fuel w).flatten = w := by
  intro fuel
  induction fuel with
  | zero =>
    intro w hw
    rw [List.eq_nil_of_length_eq_zero (Nat.le_zero.mp hw)]
    rfl
  | succ fuel ih =>
    intro w hw
    cases w with
    | nil => rfl
    | cons c w =>
      have hlen : ((c :: w).drop n).length ≤ fuel := by
        rw [List.length_drop]
        simp only [List.length_cons] at hw ⊢
        omega
      simp only [cutEveryFrom, List.isEmpty_cons, Bool.false_eq_true, if_false,
        List.flatten_cons]
      rw [ih hlen, List.take_append_drop]

/-- The pieces put together are the word. -/
theorem flatten_cutEvery {n : Nat} (hn : 0 < n) (w : List α) : (cutEvery n w).flatten = w :=
  flatten_cutEveryFrom hn (Nat.le_refl _)

/-- Pieces of a word are stretches of it. -/
theorem infix_of_mem_cutEvery {n : Nat} {w x : List α} (h : x ∈ cutEvery n w) : x <:+: w := by
  have hfrom : ∀ {fuel : Nat} {v : List α}, x ∈ cutEveryFrom n fuel v → x <:+: v := by
    intro fuel
    induction fuel with
    | zero => intro v hv; simp [cutEveryFrom] at hv
    | succ fuel ih =>
      intro v hv
      rw [cutEveryFrom] at hv
      split at hv
      · simp at hv
      · rcases List.mem_cons.mp hv with rfl | hv
        · exact (List.take_prefix _ _).isInfix
        · exact (ih hv).trans (List.drop_suffix _ _).isInfix
  exact hfrom h

/-- Behind a flush the current chunk is empty. -/
@[simp] theorem current_flush (st : Packing α) : st.flush.current = [] := by
  unfold Packing.flush
  split
  · rename_i h
    exact List.isEmpty_iff.mp h
  · rfl

/-- A candidate is at least as long as the text it adds. -/
theorem length_le_candidate (current joiner text : List α) :
    text.length ≤ (candidate current joiner text).length := by
  unfold candidate
  split
  · exact Nat.le_refl _
  · simp only [List.length_append]
    omega

variable [PyChar α]

/-- The words of a string that fits are not cut. -/
theorem flatMap_cutEvery_of_le {n : Nat} {s : List α} (hs : s.length ≤ n) :
    (words isSpace s).flatMap (cutEvery n) = words isSpace s := by
  have hcut : ∀ w ∈ words isSpace s, cutEvery n w = [w] := by
    intro w hw
    obtain ⟨a, b, rfl, hne, -⟩ := mem_words.mp hw
    refine cutEvery_of_le hne ?_
    simp only [List.length_append] at hs
    omega
  calc (words isSpace s).flatMap (cutEvery n)
      = (words isSpace s).flatMap fun w => [w] := List.flatMap_congr hcut
    _ = words isSpace s := by simp

/-! ### The packing loops -/

/-- The words of all chunks, in order. -/
def tokens (chunks : List (List α)) : List (List α) := chunks.flatMap (words isSpace)

/-- The words of the finished chunks and of the open one. -/
def packed (st : Packing α) : List (List α) := tokens st.chunks ++ words isSpace st.current

/-- A flush loses nothing. -/
@[simp] theorem packed_flush (st : Packing α) : packed st.flush = packed st := by
  unfold Packing.flush
  split
  · rfl
  · simp [packed, tokens]

/-- An open chunk joined with a text by whitespace has the words of both. -/
theorem words_candidate (current : List α) {joiner : List α} (text : List α)
    (hne : joiner ≠ []) (hj : ∀ c ∈ joiner, isSpace c = true) :
    words isSpace (candidate current joiner text)
      = words isSpace current ++ words isSpace text := by
  unfold candidate
  split
  · rename_i h
    rw [List.isEmpty_iff.mp h]
    rfl
  · rw [List.append_assoc, words_append_seps _ _ hne hj]

/-- Closing the open chunk leaves its words behind. -/
theorem packed_eq_tokens_flush (st : Packing α) : packed st = tokens st.flush.chunks := by
  rw [← packed_flush, packed, current_flush]
  simp

/-- The loop over the pieces of a word appends them. Only the last piece can be shorter
than `n`, so nothing follows the one that stays open. -/
theorem packed_hardSplit {n : Nat} (hn : 0 < n) :
    ∀ {fuel : Nat} {w : List α} {st : Packing α}, (∀ c ∈ w, isSpace c = false) →
      st.current = [] →
      packed ((cutEveryFrom n fuel w).foldl (hardSplitPiece n) st)
        = packed st ++ cutEveryFrom n fuel w := by
  intro fuel
  induction fuel with
  | zero => intro w st _ _; simp [cutEveryFrom]
  | succ fuel ih =>
    intro w st hw hst
    by_cases hne : w = []
    · subst hne
      simp [cutEveryFrom]
    have htake : w.take n ≠ [] := by
      intro hnil
      have := congrArg List.length hnil
      have hpos := List.length_pos_iff.mpr hne
      simp only [List.length_take, List.length_nil] at this
      omega
    have hwords : words isSpace (w.take n) = [w.take n] :=
      words_eq_singleton htake fun c hc => hw c (List.mem_of_mem_take hc)
    simp only [cutEveryFrom, List.isEmpty_iff, hne, if_false, List.foldl_cons]
    -- a full piece is a chunk, and only the last piece can be shorter
    by_cases hfull : (w.take n).length = n
    · have hrest := @ih (w.drop n) ⟨st.chunks ++ [w.take n], st.current⟩
        (fun c hc => hw c (List.mem_of_mem_drop hc)) hst
      rw [hardSplitPiece, if_pos hfull, hrest]
      simp [packed, tokens, hst, hwords]
    · have hshort : w.drop n = [] := by
        refine List.drop_eq_nil_of_le ?_
        simp only [List.length_take] at hfull
        omega
      have hrest : cutEveryFrom n fuel ([] : List α) = [] := by
        cases fuel <;> rfl
      rw [hardSplitPiece, if_neg hfull, hshort, hrest, List.foldl_nil, packed, packed, hst,
        hwords]
      simp

/-- A text that fits behind the open chunk. -/
theorem packed_join {n : Nat} (st : Packing α) {joiner text : List α} (hne : joiner ≠ [])
    (hj : ∀ c ∈ joiner, isSpace c = true)
    (hfits : (candidate st.current joiner text).length ≤ n) :
    packed { st with current := candidate st.current joiner text }
      = packed st ++ (words isSpace text).flatMap (cutEvery n) := by
  have hle := length_le_candidate st.current joiner text
  rw [flatMap_cutEvery_of_le (Nat.le_trans hle hfits), packed,
    words_candidate st.current text hne hj, packed, List.append_assoc]

/-- A text that starts the next chunk. -/
theorem packed_next {n : Nat} (st : Packing α) {text : List α} (hshort : text.length ≤ n) :
    packed { st.flush with current := text }
      = packed st ++ (words isSpace text).flatMap (cutEvery n) := by
  rw [flatMap_cutEvery_of_le hshort, packed, packed_eq_tokens_flush]

/-- One word of `_split_oversized_segment`. -/
theorem packed_packWord {n : Nat} (hn : 0 < n) (st : Packing α) {word : List α}
    (hw : ∀ c ∈ word, isSpace c = false) :
    packed (packWord n st word) = packed st ++ (words isSpace word).flatMap (cutEvery n) := by
  simp only [packWord]
  -- the word fits in the line, is longer than a line, or starts the next one
  split
  · rename_i hfits
    exact packed_join st (by simp [lit]) (isSpace_of_mem_lit (by decide)) hfits
  · split
    · rename_i hlong
      have hne : word ≠ [] := by
        rintro rfl
        simp at hlong
      rw [cutEvery, packed_hardSplit hn hw (current_flush st), packed_flush,
        words_eq_singleton hne hw]
      simp [cutEvery]
    · rename_i hshort
      exact packed_next st (Nat.not_lt.mp hshort)

/-- The words are packed one after the other, the long ones cut. -/
theorem packed_foldl_packWord {n : Nat} (hn : 0 < n) :
    ∀ {ws : List (List α)} {st : Packing α}, (∀ w ∈ ws, ∀ c ∈ w, isSpace c = false) →
      packed (ws.foldl (packWord n) st)
        = packed st ++ (ws.flatMap (words isSpace)).flatMap (cutEvery n) := by
  intro ws
  induction ws with
  | nil => intro st _; simp
  | cons w ws ih =>
    intro st hws
    rw [List.foldl_cons, ih fun w' hw' => hws w' (by simp [hw']),
      packed_packWord hn st (hws w (by simp)), List.flatMap_cons, List.flatMap_append,
      List.append_assoc]

/-- `_split_oversized_segment` appends the words of the segment, cut where they are too
long. -/
theorem packed_splitOversizedSegment {n : Nat} (hn : 0 < n) (text : List α)
    (chunks : List (List α)) :
    packed (splitOversizedSegment text n chunks)
      = tokens chunks ++ (words isSpace text).flatMap (cutEvery n) := by
  rw [splitOversizedSegment, whitespaceSplit,
    packed_foldl_packWord hn (free_of_mem_reSplit text),
    flatMap_words_reSplit Nat.one_pos fun _ h => h]
  simp [packed]

/-- One segment of `chunk_message`. -/
theorem packed_packSegment {n : Nat} (hn : 0 < n) (st : Packing α) (segment : Segment α) :
    packed (packSegment n st segment)
      = packed st ++ (words isSpace segment.text).flatMap (cutEvery n) := by
  have hjoiner : (segment.separator.joiner : List α) ≠ [] ∧
      ∀ c ∈ (segment.separator.joiner : List α), isSpace c = true := by
    cases segment.separator <;>
      exact ⟨by simp [Separator.joiner, lit], isSpace_of_mem_lit (by decide)⟩
  simp only [packSegment]
  split
  · rename_i hfits
    exact packed_join st hjoiner.1 hjoiner.2 hfits
  · split
    · rename_i hshort
      exact packed_next st hshort
    · rw [packed_splitOversizedSegment hn, packed_eq_tokens_flush]

/-- So are the words of the segments. -/
theorem packed_foldl_packSegment {n : Nat} (hn : 0 < n) :
    ∀ (segments : List (Segment α)) (st : Packing α),
      packed (segments.foldl (packSegment n) st)
        = packed st
          ++ (segments.flatMap fun s => words isSpace s.text).flatMap (cutEvery n) := by
  intro segments
  induction segments with
  | nil => intro st; simp
  | cons s segments ih =>
    intro st
    rw [List.foldl_cons, ih, packed_packSegment hn, List.flatMap_cons, List.flatMap_append,
      List.append_assoc]

/-! ### The whole text -/

/-- Normalisation keeps the words. -/
theorem words_normalized (text : List α) :
    words isSpace (normalized text) = words isSpace text := by
  have hold : ∀ n ∈ "\r\n".toList.map Char.toNat, isSpaceCode n = true :=
    List.all_eq_true.mp (by decide)
  rw [normalized, words_strip]
  exact words_replace (by simp) hold (by simp [lit]) (isSpace_of_mem_lit (by decide)) text

/-- Dropping empty strings drops no word. -/
theorem flatMap_words_filter (l : List (List α)) :
    (l.filter (!·.isEmpty)).flatMap (words isSpace) = l.flatMap (words isSpace) := by
  induction l with
  | nil => rfl
  | cons s l ih =>
    cases s with
    | nil => simpa using ih
    | cons c s => simp [ih]

/-- The paragraphs hold the words of the text. -/
theorem flatMap_words_paragraphs (text : List α) :
    (paragraphs text).flatMap (words isSpace) = words isSpace text := by
  have hclass : ∀ n, chr '\n' n = true → isSpaceCode n = true := by
    intro n hn
    have : n = '\n'.toNat := by simpa [chr] using hn
    subst this
    decide
  have hstrip : (fun s : List α => words isSpace (strip s)) = words isSpace :=
    funext words_strip
  rw [paragraphs, flatMap_words_filter, List.flatMap_map, hstrip, paragraphSplit,
    flatMap_words_reSplit (by omega) hclass, words_normalized]

/-- The segments of the whole text. -/
def segments (text : List α) (n : Nat) : List (Segment α) :=
  (paragraphs text).flatMap fun p => expandParagraph p n

/-- The tokens of the chunks are the words of the segments, cut where they are too long. -/
theorem tokens_chunkText {n : Nat} (hn : 0 < n) (text : List α) :
    tokens (chunkText text n)
      = ((segments text n).flatMap fun s => words isSpace s.text).flatMap (cutEvery n) := by
  unfold chunkText
  split
  · rename_i hempty
    have hpara : paragraphs text = [] := by
      rw [paragraphs, List.isEmpty_iff.mp hempty]
      rfl
    simp [segments, hpara, tokens]
  · have hfold := packed_foldl_packSegment hn (segments text n) ⟨[], []⟩
    rw [tokens, flatMap_words_filter]
    rw [packed_eq_tokens_flush] at hfold
    simpa [packed, tokens, segments] using hfold

/-- A positive limit raises nothing. -/
theorem chunkMessage_of_pos {maxLength : Int} (h : 1 ≤ maxLength) (text : List α) :
    chunkMessage text maxLength = .ok (chunkText text maxLength.toNat) := by
  rw [chunkMessage, if_neg (by omega)]

end SignalGateway.Proofs.Chunking
