import SignalGateway.Proofs.Sentences

/-!
# `SignalGateway.Proofs.ChunkContent`: which characters survive chunking

The characters other than whitespace come out of `chunkMessage` unchanged and in order
exactly when no paragraph that is split into sentences starts with a terminator
(`content_chunkMessage_iff`). `findall` drops the terminators in front of the first
sentence, and nothing else is lost.

The content of a text is the list of its characters that are no whitespace. The proof splits it
along the pipeline. Paragraphs lose nothing (`content_eq_flatMap_paragraphs`). A paragraph that
fits, or has no sentence end, is one segment and loses nothing either
(`words_expand_of_not_splits`). One that is split loses the run of terminators in front of its
first sentence and no more (`content_eq_lead_append`). The packing keeps all words of the
segments (`Proofs.Chunking`).

Since every paragraph can only lose characters, the lengths decide: the whole content is kept
exactly if no paragraph loses any.
-/

set_option autoImplicit false

namespace SignalGateway.Proofs.Chunking

open SignalGateway.Chunking
open Regex Words PyChar

variable {α : Type} [PyChar α]

/-- A paragraph longer than a chunk that has a terminator and another character. It is
split into sentences. -/
def SplitsIntoSentences (n : Nat) (p : List α) : Prop :=
  n < p.length ∧ (∃ c ∈ p, isTerminator c = true) ∧ ∃ c ∈ p, isTerminator c = false

/-! ### The segments of a paragraph -/

omit [PyChar α] in
/-- The segments are the texts, in order. -/
theorem map_text_enumerateSegments (texts : List (List α)) :
    (enumerateSegments texts).map Segment.text = texts := by
  refine List.ext_getElem? fun i => ?_
  simp only [enumerateSegments, List.getElem?_map, List.getElem?_mapIdx, Option.map_map]
  cases texts[i]? <;> rfl

/-- The words of the segments are the words of the texts. -/
theorem flatMap_words_enumerateSegments (texts : List (List α)) :
    ((enumerateSegments texts).flatMap fun s => words isSpace s.text)
      = texts.flatMap (words isSpace) := by
  conv_rhs => rw [← map_text_enumerateSegments texts, List.flatMap_map]

/-- The pattern `[.!?]` is found exactly in a text with a terminator. -/
theorem search_sentencePunct (p : List α) :
    (search (codes p) sentencePunct 0).isSome = true ↔ ∃ c ∈ p, isTerminator c = true := by
  rw [sentencePunct, isSome_search_one, codes, List.any_map, List.any_eq_true]
  rfl

/-- The sentences of a paragraph that is split, as the segments see them: `lead` is what the
pattern skips, `ss` are the sentences, and the segments have the words of `ss`. -/
theorem expandParagraph_sentences {n : Nat} {p : List α} (hp : SplitsIntoSentences n p)
    (hlast : ∀ c ∈ p.getLast?, isSpace c = false) :
    ∃ lead ss, p = lead ++ ss.flatten ∧ (∀ c ∈ lead, isTerminator c = true) ∧
      Sentences ss ∧
      ((expandParagraph p n).flatMap fun s => words isSpace s.text)
        = ss.flatMap (words isSpace) := by
  obtain ⟨lead, hsplit, hlead, hss⟩ := exists_sentences p
  refine ⟨lead, reFindall sentenceSplit p, hsplit, hlead, hss, ?_⟩
  obtain ⟨hlong, hterm, d, hd, hdterm⟩ := hp
  -- A stripped paragraph with a character other than a terminator has a sentence to keep.
  have hkeep : ((reFindall sentenceSplit p).map strip).filter (!·.isEmpty) ≠ [] := by
    intro hnil
    have hblank : (reFindall sentenceSplit p).flatMap (words isSpace) = [] := by
      have hstrip : (fun s : List α => words isSpace (strip s)) = words isSpace :=
        funext words_strip
      have := congrArg (fun l => List.flatMap (words isSpace) l) hnil
      simpa [flatMap_words_filter, List.flatMap_map, hstrip] using this
    have hne : (reFindall sentenceSplit p).flatten ≠ [] := by
      intro hflat
      rw [hflat, List.append_nil] at hsplit
      rw [hsplit] at hd
      rw [hlead d hd] at hdterm
      cases hdterm
    obtain ⟨c, hc⟩ : ∃ c, c ∈ (reFindall sentenceSplit p).flatten.getLast? :=
      ⟨_, List.getLast?_eq_some_getLast hne⟩
    have hcp : c ∈ p.getLast? := by
      rw [hsplit, List.getLast?_append, Option.mem_def.mp hc]
      rfl
    have hcs : isSpace c = false := hlast c hcp
    obtain ⟨s, hs, hcs'⟩ := List.mem_flatten.mp (List.mem_of_mem_getLast? hc)
    have hfilter : c ∈ (words isSpace s).flatten := by
      rw [flatten_words]
      exact List.mem_filter.mpr ⟨hcs', by simp [hcs]⟩
    rw [List.flatMap_eq_nil_iff.mp hblank s hs] at hfilter
    simp at hfilter
  have hstrip : (fun s : List α => words isSpace (strip s)) = words isSpace :=
    funext words_strip
  simp only [expandParagraph]
  rw [if_neg (by omega), if_pos ((search_sentencePunct p).mpr hterm),
    if_neg (by simpa using hkeep), flatMap_words_enumerateSegments, flatMap_words_filter,
    List.flatMap_map, hstrip]

/-- A paragraph that is not split into sentences keeps its words. -/
theorem words_expand_of_not_splits {n : Nat} {p : List α} (hp : ¬ SplitsIntoSentences n p) :
    ((expandParagraph p n).flatMap fun s => words isSpace s.text) = words isSpace p := by
  have hwords : ((enumerateSegments (reSplit whitespaceSplit p)).flatMap
      fun s => words isSpace s.text) = words isSpace p := by
    rw [flatMap_words_enumerateSegments, whitespaceSplit,
      flatMap_words_reSplit Nat.one_pos fun _ h => h]
  simp only [expandParagraph]
  split
  · simp
  · rename_i hlong
    split
    · rename_i hterm
      -- Only terminators: there is no sentence.
      have hall : ∀ c ∈ p, isTerminator c = true := by
        intro c hc
        by_contra hnot
        exact hp ⟨by omega, (search_sentencePunct p).mp hterm, c, hc, by simpa using hnot⟩
      obtain ⟨lead, hsplit, hlead, hss⟩ := exists_sentences p
      have hnil : reFindall sentenceSplit p = [] := by
        cases hss' : reFindall sentenceSplit p with
        | nil => rfl
        | cons s ss =>
          exfalso
          obtain ⟨c, hc⟩ : ∃ c, c ∈ (reFindall sentenceSplit p).flatten.head? := by
            cases hflat : (reFindall sentenceSplit p).flatten with
            | cons c l => exact ⟨c, by simp⟩
            | nil =>
              rw [hss'] at hss hflat
              cases hss with
              | last hne hu hv => simp [hne] at hflat
              | cons hne hu hv hvne rest => simp [hne] at hflat
          have hcp : c ∈ p := by
            rw [hsplit]
            exact List.mem_append_right _ (List.mem_of_mem_head? hc)
          have := hss.head c hc
          rw [hall c hcp] at this
          cases this
      simpa [hnil] using hwords
    · exact hwords

/-- The paragraphs do not end with whitespace. -/
theorem getLast?_of_mem_paragraphs {text p : List α} (hp : p ∈ paragraphs text) :
    ∀ c ∈ p.getLast?, isSpace c = false := by
  obtain ⟨q, -, rfl⟩ := List.mem_map.mp (List.mem_filter.mp hp).1
  exact getLast?_strip q

/-- The paragraphs do not start with whitespace. -/
theorem head?_of_mem_paragraphs {text p : List α} (hp : p ∈ paragraphs text) :
    ∀ c ∈ p.head?, isSpace c = false := by
  obtain ⟨q, -, rfl⟩ := List.mem_map.mp (List.mem_filter.mp hp).1
  exact head?_strip q

/-! ### The characters other than whitespace -/

/-- A string without its whitespace. -/
def content (s : List α) : List α := s.filter fun c => !isSpace c

/-- The words of a list, joined, are its content. -/
theorem flatten_flatMap_words (l : List (List α)) :
    (l.flatMap (words isSpace)).flatten = content l.flatten := by
  induction l with
  | nil => rfl
  | cons s l ih =>
    rw [List.flatMap_cons, List.flatten_append, ih, flatten_words, List.flatten_cons, content,
      content, List.filter_append]

omit [PyChar α] in
/-- Cutting words does not touch their characters. -/
theorem flatten_flatMap_cutEvery {n : Nat} (hn : 0 < n) (ws : List (List α)) :
    (ws.flatMap (cutEvery n)).flatten = ws.flatten := by
  induction ws with
  | nil => rfl
  | cons w ws ih =>
    rw [List.flatMap_cons, List.flatten_append, ih, flatten_cutEvery hn, List.flatten_cons]

/-- The characters the segments of a paragraph hold. -/
def expandedContent (n : Nat) (p : List α) : List α :=
  ((expandParagraph p n).flatMap fun s => words isSpace s.text).flatten

/-- What the segments of a split paragraph lack is the run of terminators in front. -/
theorem content_eq_lead_append {n : Nat} {p : List α} (hp : SplitsIntoSentences n p)
    (hlast : ∀ c ∈ p.getLast?, isSpace c = false) :
    ∃ lead, content p = lead ++ expandedContent n p ∧
      (lead = [] ↔ ∀ c ∈ p.head?, isTerminator c = false) := by
  obtain ⟨lead, ss, hsplit, hlead, hss, hwords⟩ := expandParagraph_sentences hp hlast
  refine ⟨lead, ?_, ?_⟩
  · -- the lead is terminators only, none of which is whitespace
    have hfilter : content lead = lead := by
      rw [content, List.filter_eq_self]
      intro c hc
      simp [isSpace_of_isTerminator (hlead c hc)]
    rw [expandedContent, hwords, flatten_flatMap_words, hsplit, content, List.filter_append]
    congr 1
  · constructor
    · rintro rfl
      rw [hsplit, List.nil_append]
      exact hss.head
    · intro hhead
      cases lead with
      | nil => rfl
      | cons c lead =>
        have h1 := hlead c (by simp)
        rw [hhead c (by simp [hsplit])] at h1
        cases h1

/-- A paragraph starts as the sentence pattern can keep it. -/
def StartsWithSentence (n : Nat) (p : List α) : Prop :=
  SplitsIntoSentences n p → ∀ c ∈ p.head?, isTerminator c = false

/-- A paragraph that begins with a sentence keeps its content. -/
theorem expandedContent_of_starts {n : Nat} {p : List α} (h : StartsWithSentence n p)
    (hlast : ∀ c ∈ p.getLast?, isSpace c = false) : expandedContent n p = content p := by
  by_cases hp : SplitsIntoSentences n p
  · obtain ⟨lead, hcontent, hnil⟩ := content_eq_lead_append hp hlast
    rw [hcontent, hnil.mpr (h hp), List.nil_append]
  · rw [expandedContent, words_expand_of_not_splits hp, flatten_words]
    rfl

/-- Any other paragraph loses some. -/
theorem length_expandedContent_lt {n : Nat} {p : List α} (h : ¬ StartsWithSentence n p)
    (hlast : ∀ c ∈ p.getLast?, isSpace c = false) :
    (expandedContent n p).length < (content p).length := by
  obtain ⟨hp, hhead⟩ := Classical.not_imp.mp h
  obtain ⟨lead, hcontent, hnil⟩ := content_eq_lead_append hp hlast
  have hpos : 0 < lead.length := List.length_pos_iff.mpr fun hlead => hhead (hnil.mp hlead)
  rw [hcontent, List.length_append]
  omega

/-- The segments of some paragraphs hold all their characters exactly when every paragraph
starts with a sentence. -/
theorem flatMap_expandedContent_iff {n : Nat} {ps : List (List α)}
    (hlast : ∀ p ∈ ps, ∀ c ∈ p.getLast?, isSpace c = false) :
    ps.flatMap (expandedContent n) = ps.flatMap content ↔ ∀ p ∈ ps, StartsWithSentence n p := by
  -- no paragraph gains content, so one that loses some makes the whole text lose some
  have hle : ∀ qs : List (List α), (∀ p ∈ qs, ∀ c ∈ p.getLast?, isSpace c = false) →
      (qs.flatMap (expandedContent n)).length ≤ (qs.flatMap content).length := by
    intro qs hqs
    induction qs with
    | nil => exact Nat.le_refl _
    | cons p qs ih =>
      have hrest := ih fun q hq => hqs q (by simp [hq])
      have hp : (expandedContent n p).length ≤ (content p).length := by
        by_cases h : StartsWithSentence n p
        · rw [expandedContent_of_starts h (hqs p (by simp))]
        · exact (length_expandedContent_lt h (hqs p (by simp))).le
      simp only [List.flatMap_cons, List.length_append]
      omega
  constructor
  · intro heq p hp
    by_contra hnot
    obtain ⟨a, b, rfl⟩ := List.append_of_mem hp
    have hlt := length_expandedContent_lt hnot (hlast p hp)
    have ha := hle a fun q hq => hlast q (by simp [hq])
    have hb := hle b fun q hq => hlast q (by simp [hq])
    have hlen := congrArg List.length heq
    simp only [List.flatMap_append, List.flatMap_cons, List.length_append] at hlen
    omega
  · intro h
    exact List.flatMap_congr fun p hp => expandedContent_of_starts (h p hp) (hlast p hp)

/-- The characters of a text are those of its paragraphs. -/
theorem content_eq_flatMap_paragraphs (text : List α) :
    content text = (paragraphs text).flatMap content := by
  calc content text = (words isSpace text).flatten := (flatten_words text).symm
    _ = ((paragraphs text).flatMap (words isSpace)).flatten := by
      rw [flatMap_words_paragraphs]
    _ = (paragraphs text).flatMap content := by
      simp only [List.flatten_eq_flatMap, List.flatMap_assoc]
      refine List.flatMap_congr fun p _ => ?_
      rw [← List.flatten_eq_flatMap, flatten_words]
      rfl

/-- The characters of the chunks and of the text agree exactly when every paragraph that is
split into sentences starts with one. -/
theorem content_chunkText_iff {n : Nat} (hn : 0 < n) (text : List α) :
    content (chunkText text n).flatten = content text ↔
      ∀ p ∈ paragraphs text, StartsWithSentence n p := by
  have hchunks : content (chunkText text n).flatten
      = (paragraphs text).flatMap (expandedContent n) := by
    rw [← flatten_flatMap_words, ← tokens, tokens_chunkText hn, flatten_flatMap_cutEvery hn,
      segments]
    simp only [List.flatten_eq_flatMap, List.flatMap_assoc]
    refine List.flatMap_congr fun p _ => ?_
    rw [expandedContent, List.flatten_eq_flatMap, List.flatMap_assoc]
  rw [hchunks, content_eq_flatMap_paragraphs]
  exact flatMap_expandedContent_iff fun p hp => getLast?_of_mem_paragraphs hp

/-- `chunk_message` keeps the characters other than whitespace, in order, exactly for the
texts in which every paragraph that is split into sentences starts with one. -/
theorem content_chunkMessage_iff (text : PyStr) {maxLength : Int} (h : 1 ≤ maxLength) :
    ∃ chunks, chunkMessage text maxLength = .ok chunks ∧
      (content chunks.flatten = content text ↔
        ∀ p ∈ paragraphs text, StartsWithSentence maxLength.toNat p) :=
  ⟨_, chunkMessage_of_pos h text, content_chunkText_iff (by omega) text⟩

/-- The law at a text of two words, in chunks of five characters. -/
theorem content_chunkMessage_iff_abc :
    ∃ chunks, chunkMessage (lit "abc. def" : PyStr) 5 = .ok chunks ∧
      (content chunks.flatten = content (lit "abc. def" : PyStr) ↔
        ∀ p ∈ paragraphs (lit "abc. def" : PyStr), StartsWithSentence 5 p) :=
  content_chunkMessage_iff (lit "abc. def") (by decide)

/-- An ellipsis in front of a long paragraph is lost. -/
theorem content_chunkMessage_ellipsis :
    ∃ chunks, chunkMessage (lit "...abc def" : PyStr) 8 = .ok chunks ∧
      content chunks.flatten ≠ content (lit "...abc def" : PyStr) :=
  ⟨[lit "abc def"], by decide, by decide⟩

end SignalGateway.Proofs.Chunking
