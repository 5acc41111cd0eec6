import SignalGateway.Proofs.ChunkContent

/-!
# `SignalGateway.Proofs.ChunkWords`: which words survive chunking

A word that fits into a chunk comes out uncut (`words_chunkMessage_iff`), unless it stands in
a paragraph that is split into sentences and either has a terminator directly in front of
another character, as in `3.14`, or opens that paragraph with a terminator.

"Uncut" is about a place in the text, not about a value: the same letters can occur
elsewhere. So the law runs the chunker on `text.zipIdx`, where each character carries its
position. `chunkText_map` says that the chunker does not look at the marks.

The proof has three parts:

* `mem_expandedWords` and `keepsWords_of_mem_tokens`: the two directions for one paragraph. A
  word without a cut lies in one sentence, and a word with a cut lies in none.
* `tokens_eq_flatMap`: the words of the chunks are the words of the paragraphs, one after the
  other, with the long ones cut.
* the lemmas with `_map` in their names: every function of the chunker commutes with a
  relabelling of the characters, up to `chunkText_map`.

On the text with its positions no two words are equal, so the list of words says of every word
of the text whether it has survived.
-/

set_option autoImplicit false

namespace SignalGateway.Proofs.Chunking

open SignalGateway.Chunking
open Regex Words PyChar

variable {α : Type} [PyChar α]

/-! ### Cuts inside a word -/

/-- A terminator stands directly in front of another character. The sentence pattern cuts
there. -/
def HasCut (w : List α) : Prop :=
  ∃ a c d b, w = a ++ c :: d :: b ∧ isTerminator c = true ∧ isTerminator d = false

/-- A cut in a part of a word is one in the word. -/
theorem HasCut.of_infix {v w : List α} (h : HasCut v) (hvw : v <:+: w) : HasCut w := by
  obtain ⟨x, y, rfl⟩ := hvw
  obtain ⟨a, c, d, b, rfl, hc, hd⟩ := h
  exact ⟨x ++ a, c, d, b ++ y, by simp, hc, hd⟩

/-- A sentence has no cut: its terminators stand at its end. -/
theorem not_hasCut_sentence {u v : List α} (hu : ∀ c ∈ u, isTerminator c = false)
    (hv : ∀ c ∈ v, isTerminator c = true) : ¬ HasCut (u ++ v) := by
  induction u with
  | nil =>
    rintro ⟨a, c, d, b, h, -, hd⟩
    have hdv : d ∈ v := by
      rw [List.nil_append] at h
      rw [h]
      simp
    rw [hv d hdv] at hd
    cases hd
  | cons e u ih =>
    rintro ⟨a, c, d, b, h, hc, hd⟩
    cases a with
    | nil =>
      obtain ⟨rfl, -⟩ := List.cons.inj h
      rw [hu e (by simp)] at hc
      cases hc
    | cons x a =>
      obtain ⟨-, h⟩ := List.cons.inj h
      exact ih (fun c hc => hu c (by simp [hc])) ⟨a, c, d, b, h, hc, hd⟩

/-- No sentence has a cut inside. -/
theorem Sentences.not_hasCut {ss : List (List α)} (h : Sentences ss) :
    ∀ s ∈ ss, ¬ HasCut s := by
  induction h with
  | nil => simp
  | last hne hu hv =>
    intro s hs
    rw [List.mem_singleton.mp hs]
    exact not_hasCut_sentence hu hv
  | cons hne hu hv hvne rest ih =>
    intro s hs
    rcases List.mem_cons.mp hs with rfl | hs
    · exact not_hasCut_sentence hu hv
    · exact ih s hs

/-- A word of successive sentences is a word of one of them, unless it has a cut. -/
theorem Sentences.mem_words {ss : List (List α)} (h : Sentences ss) {w : List α}
    (hw : w ∈ words isSpace ss.flatten) (hcut : ¬ HasCut w) :
    w ∈ ss.flatMap (words isSpace) := by
  induction h with
  | nil => simp at hw
  | last hne hu hv => simpa using hw
  | @cons u v ss hne hu hv hvne rest ih =>
    rw [List.flatten_cons] at hw
    rw [List.flatMap_cons, List.mem_append]
    rcases mem_words_append hw with hw | hw | ⟨x, y, rfl, hx, hy, hxs, hyp⟩
    · exact Or.inl hw
    · exact Or.inr (ih hw)
    · exfalso
      -- The word runs across the end of a sentence.
      obtain ⟨x', c, rfl⟩ := (List.eq_nil_or_concat x).resolve_left hx
      obtain ⟨v', e, rfl⟩ := (List.eq_nil_or_concat v).resolve_left hvne
      obtain ⟨d, y', rfl⟩ := List.exists_cons_of_ne_nil hy
      have hce : c = e := by
        obtain ⟨z, hz⟩ := hxs
        have := congrArg List.getLast? hz
        simpa [List.getLast?_append] using this
      obtain ⟨z, hz⟩ := hyp
      refine hcut ⟨x', c, d, y', by simp, ?_, ?_⟩
      · rw [hce]
        exact hv e (by simp)
      · exact rest.head d (by rw [← hz]; simp)

/-! ### Words that survive -/

/-- The words of a text with a separator-free part in front: the first one starts with that
part, and the others are words of the rest. -/
theorem words_append_of_free {lead : List α} (hne : lead ≠ [])
    (hfree : ∀ c ∈ lead, isSpace c = false) (body : List α) :
    ∃ x ws, words isSpace (lead ++ body) = (lead ++ x) :: ws ∧
      ∀ w ∈ ws, w ∈ words isSpace body := by
  have hword : ∀ x : List α, (∀ c ∈ x, isSpace c = false) →
      words isSpace (lead ++ x) = [lead ++ x] := by
    intro x hx
    refine words_eq_singleton (by simp [hne]) ?_
    intro c hc
    rcases List.mem_append.mp hc with hc | hc
    · exact hfree c hc
    · exact hx c hc
  rcases free_or_split isSpace body with hbody | ⟨x, c, b, rfl, hx, hc⟩
  · exact ⟨body, [], hword body hbody, by simp⟩
  · refine ⟨x, words isSpace b, ?_, ?_⟩
    · rw [← List.append_assoc, words_append_cons _ _ hc, hword x hx]
      rfl
    · intro w hw
      rw [words_append_cons _ _ hc]
      exact List.mem_append_right _ hw

/-- A paragraph whose words of up to `n` characters survive: if it is split into sentences,
none of them has a cut, and the first one does not start with a terminator. -/
def KeepsWords (n : Nat) (p : List α) : Prop :=
  SplitsIntoSentences n p →
    (∀ w ∈ words isSpace p, w.length ≤ n → ¬ HasCut w) ∧
      ∀ w ∈ (words isSpace p).head?, w.length ≤ n → ∀ c ∈ w.head?, isTerminator c = false

/-- The words of the segments of a paragraph. -/
def expandedWords (n : Nat) (p : List α) : List (List α) :=
  (expandParagraph p n).flatMap fun s => words isSpace s.text

/-- A word that fits survives in a paragraph that keeps its words. -/
theorem mem_expandedWords {n : Nat} {p w : List α} (hp : KeepsWords n p)
    (hlast : ∀ c ∈ p.getLast?, isSpace c = false) (hw : w ∈ words isSpace p)
    (hlen : w.length ≤ n) : w ∈ expandedWords n p := by
  by_cases hsplits : SplitsIntoSentences n p
  · obtain ⟨hcut, hfirst⟩ := hp hsplits
    obtain ⟨lead, ss, rfl, hlead, hss, hwords⟩ := expandParagraph_sentences hsplits hlast
    rw [expandedWords, hwords]
    refine hss.mem_words ?_ (hcut w hw hlen)
    cases lead with
    | nil => exact hw
    | cons c lead =>
      obtain ⟨x, ws, hsplit, hrest⟩ := words_append_of_free (show c :: lead ≠ [] by simp)
        (fun d hd => isSpace_of_isTerminator (hlead d hd)) ss.flatten
      rw [hsplit] at hw
      rcases List.mem_cons.mp hw with rfl | hw
      · have hc := hfirst _ (by rw [hsplit]; simp) hlen c (by simp)
        rw [hlead c (by simp)] at hc
        cases hc
      · exact hrest w hw
  · rw [expandedWords, words_expand_of_not_splits hsplits]
    exact hw

/-- The tokens of the chunks are the words of the paragraphs, the long ones cut. -/
theorem tokens_eq_flatMap {n : Nat} (hn : 0 < n) (text : List α) :
    tokens (chunkText text n)
      = (paragraphs text).flatMap fun p => (expandedWords n p).flatMap (cutEvery n) := by
  rw [tokens_chunkText hn, segments, List.flatMap_assoc, List.flatMap_assoc]
  refine List.flatMap_congr fun p _ => ?_
  rw [expandedWords, List.flatMap_assoc]

/-- Words that fit survive, in a text whose paragraphs keep their words. -/
theorem mem_tokens {n : Nat} (hn : 0 < n) {text w : List α}
    (htext : ∀ p ∈ paragraphs text, KeepsWords n p) (hw : w ∈ words isSpace text)
    (hlen : w.length ≤ n) : w ∈ tokens (chunkText text n) := by
  rw [← flatMap_words_paragraphs] at hw
  obtain ⟨p, hp, hwp⟩ := List.mem_flatMap.mp hw
  have hne := (of_mem_words hwp).1
  rw [tokens_eq_flatMap hn]
  refine List.mem_flatMap.mpr ⟨p, hp, List.mem_flatMap.mpr ⟨w, ?_, ?_⟩⟩
  · exact mem_expandedWords (htext p hp) (getLast?_of_mem_paragraphs hp) hwp hlen
  · rw [cutEvery_of_le hne hlen]
    simp

/-! ### Words that are cut

The converse needs to know where a token comes from, so the characters are now distinct. -/

/-- The characters of a word are content. -/
theorem mem_of_mem_words {w p : List α} (hw : w ∈ words isSpace p) {c : α} (hc : c ∈ w) :
    c ∈ content p := by
  have : c ∈ (words isSpace p).flatten := List.mem_flatten.mpr ⟨w, hw, hc⟩
  rwa [flatten_words] at this

/-- The segments of a paragraph hold only characters of it. -/
theorem mem_content_of_mem_expandedWords {n : Nat} {p w : List α}
    (hlast : ∀ c ∈ p.getLast?, isSpace c = false) (hw : w ∈ expandedWords n p) {c : α}
    (hc : c ∈ w) : c ∈ content p := by
  have hmem : c ∈ expandedContent n p := List.mem_flatten.mpr ⟨w, hw, hc⟩
  by_cases hp : SplitsIntoSentences n p
  · obtain ⟨lead, hcontent, -⟩ := content_eq_lead_append hp hlast
    rw [hcontent]
    exact List.mem_append_right _ hmem
  · rw [expandedContent, words_expand_of_not_splits hp, flatten_words] at hmem
    exact hmem

/-- Paragraphs of a text with distinct characters share none. -/
theorem eq_of_mem_paragraphs {text : List α} (hdistinct : (content text).Nodup)
    {p q : List α} (hp : p ∈ paragraphs text) (hq : q ∈ paragraphs text) {c : α}
    (hcp : c ∈ content p) (hcq : c ∈ content q) : p = q := by
  rw [content_eq_flatMap_paragraphs, List.nodup_flatMap] at hdistinct
  by_contra hne
  have : Std.Symm (Function.onFun List.Disjoint (content (α := α))) :=
    ⟨fun _ _ h => h.symm⟩
  exact hdistinct.2.forall hp hq hne hcp hcq

/-- A token of the chunks that is a word of a paragraph comes out of that paragraph. -/
theorem exists_of_mem_tokens {n : Nat} (hn : 0 < n) {text w p : List α}
    (hdistinct : (content text).Nodup) (hp : p ∈ paragraphs text) (hw : w ∈ words isSpace p)
    (htoken : w ∈ tokens (chunkText text n)) : ∃ v ∈ expandedWords n p, w <:+: v := by
  rw [tokens_eq_flatMap hn] at htoken
  obtain ⟨q, hq, hmem⟩ := List.mem_flatMap.mp htoken
  obtain ⟨v, hv, hcut⟩ := List.mem_flatMap.mp hmem
  have hpart := infix_of_mem_cutEvery hcut
  obtain ⟨c, hc⟩ := List.exists_mem_of_ne_nil _ (of_mem_words hw).1
  have hcq : c ∈ content q :=
    mem_content_of_mem_expandedWords (getLast?_of_mem_paragraphs hq) hv
      (hpart.sublist.subset hc)
  obtain rfl := eq_of_mem_paragraphs hdistinct hp hq (mem_of_mem_words hw hc) hcq
  exact ⟨v, hv, hpart⟩

/-- If every word that fits is a token, the paragraph keeps its words. -/
theorem keepsWords_of_mem_tokens {n : Nat} (hn : 0 < n) {text p : List α}
    (hdistinct : (content text).Nodup) (hp : p ∈ paragraphs text)
    (htokens : ∀ w ∈ words isSpace text, w.length ≤ n → w ∈ tokens (chunkText text n)) :
    KeepsWords n p := by
  intro hsplits
  have hlast := getLast?_of_mem_paragraphs hp
  obtain ⟨lead, ss, hsplit, hlead, hss, hwords⟩ := expandParagraph_sentences hsplits hlast
  -- A word that fits comes out of one sentence.
  have hsentence : ∀ w ∈ words isSpace p, w.length ≤ n → ∃ s ∈ ss, w <:+: s := by
    intro w hw hlen
    have htext : w ∈ words isSpace text := by
      rw [← flatMap_words_paragraphs]
      exact List.mem_flatMap.mpr ⟨p, hp, hw⟩
    obtain ⟨v, hv, hpart⟩ := exists_of_mem_tokens hn hdistinct hp hw (htokens w htext hlen)
    rw [expandedWords, hwords] at hv
    obtain ⟨s, hs, hvs⟩ := List.mem_flatMap.mp hv
    obtain ⟨a, b, rfl, -⟩ := Words.mem_words.mp hvs
    exact ⟨_, hs, hpart.trans ⟨a, b, by simp⟩⟩
  refine ⟨?_, ?_⟩
  · intro w hw hlen hcut
    obtain ⟨s, hs, hpart⟩ := hsentence w hw hlen
    exact hss.not_hasCut s hs (hcut.of_infix hpart)
  · intro w hw hlen c hc
    by_contra hterm
    have hterm : isTerminator c = true := by simpa using hterm
    have hwp : w ∈ words isSpace p := List.mem_of_mem_head? hw
    obtain ⟨s, hs, hpart⟩ := hsentence w hwp hlen
    have hcw : c ∈ w := List.mem_of_mem_head? hc
    have hcs : c ∈ ss.flatten := List.mem_flatten.mpr ⟨s, hs, hpart.sublist.subset hcw⟩
    -- The first word starts the paragraph, so `c` is also among the skipped terminators.
    have hhead : c ∈ p.head? := by
      cases hpl : p with
      | nil => simp [hpl] at hw
      | cons d p' =>
        have hd : isSpace d = false := by
          refine head?_of_mem_paragraphs hp d ?_
          rw [hpl]
          rfl
        obtain ⟨x, ws, hws, -⟩ := words_append_of_free (show [d] ≠ [] by simp)
          (by simpa using hd) p'
        rw [hpl, ← List.singleton_append, hws] at hw
        simp only [List.head?_cons, Option.mem_some_iff] at hw
        rw [← hw] at hc
        simpa using hc
    have hclead : c ∈ lead := by
      cases lead with
      | nil =>
        rw [hsplit, List.nil_append] at hhead
        rw [hss.head c hhead] at hterm
        cases hterm
      | cons d lead =>
        rw [hsplit] at hhead
        simp only [List.cons_append, List.head?_cons, Option.mem_some_iff] at hhead
        simp [hhead]
    have hspace : isSpace c = false := isSpace_of_isTerminator hterm
    have hnodup : (content p).Nodup := by
      rw [content_eq_flatMap_paragraphs, List.nodup_flatMap] at hdistinct
      exact hdistinct.1 p hp
    rw [hsplit, content, List.filter_append] at hnodup
    refine (List.nodup_append.mp hnodup).2.2 c ?_ c ?_ rfl
    · exact List.mem_filter.mpr ⟨hclead, by simp [hspace]⟩
    · exact List.mem_filter.mpr ⟨hcs, by simp [hspace]⟩

/-! ### Marked characters

The chunker looks at code points only, so it commutes with a relabelling that keeps them. -/

section
variable {β : Type} [PyChar β] {f : α → β}

/-- A relabelling keeps the ends of sentences. -/
theorem isTerminator_map (hf : KeepsCode f) (c : α) : isTerminator (f c) = isTerminator c := by
  simp [isTerminator, hf.code_eq]

/-- A relabelling keeps the words. -/
theorem words_isSpace_map (hf : KeepsCode f) (s : List α) :
    words isSpace (s.map f) = (words isSpace s).map (List.map f) :=
  words_map f (isSpace_map hf) s

omit [PyChar α] [PyChar β] in
/-- A relabelling keeps which pieces are empty. -/
theorem filter_isEmpty_map (l : List (List α)) :
    (l.map (List.map f)).filter (!·.isEmpty) = (l.filter (!·.isEmpty)).map (List.map f) := by
  rw [List.filter_map]
  congr 2
  funext s
  cases s <;> rfl

/-- A relabelling commutes with the normalisation of newlines. -/
theorem normalized_map (hf : KeepsCode f) (text : List α) :
    normalized (text.map f) = (normalized text).map f := by
  rw [normalized, ← lit_map hf "\n", replace_map hf, strip_map hf, normalized]

/-- A relabelling keeps the paragraphs. -/
theorem paragraphs_map (hf : KeepsCode f) (text : List α) :
    paragraphs (text.map f) = (paragraphs text).map (List.map f) := by
  rw [paragraphs, normalized_map hf, reSplit_map hf, paragraphs, ← filter_isEmpty_map, List.map_map,
    List.map_map]
  congr 2
  funext s
  exact strip_map hf s

/-- A relabelled segment. -/
def mapSegment (f : α → β) (s : Segment α) : Segment β := ⟨s.text.map f, s.separator⟩

/-- A relabelled packing. -/
def mapPacking (f : α → β) (st : Packing α) : Packing β :=
  ⟨st.chunks.map (List.map f), st.current.map f⟩

omit [PyChar α] [PyChar β] in
/-- A relabelling keeps the segments. -/
theorem enumerateSegments_map (texts : List (List α)) :
    enumerateSegments (texts.map (List.map f))
      = (enumerateSegments texts).map (mapSegment f) := by
  refine List.ext_getElem? fun i => ?_
  simp only [enumerateSegments, List.getElem?_map, List.getElem?_mapIdx, Option.map_map]
  cases texts[i]? <;> rfl

/-- A relabelling commutes with the expansion of a paragraph. -/
theorem expandParagraph_map (hf : KeepsCode f) (p : List α) (n : Nat) :
    expandParagraph (p.map f) n = (expandParagraph p n).map (mapSegment f) := by
  have hstrip : strip ∘ List.map f = List.map f ∘ strip := funext fun s => strip_map hf s
  simp only [expandParagraph, List.length_map, codes_map hf, reSplit_map hf, reFindall_map hf,
    List.map_map, hstrip]
  rw [← List.map_map, filter_isEmpty_map, enumerateSegments_map, enumerateSegments_map,
    List.isEmpty_map]
  split
  · rfl
  · split
    · split <;> rfl
    · rfl

omit [PyChar α] [PyChar β] in
/-- A relabelling commutes with a flush. -/
theorem flush_map (st : Packing α) : (mapPacking f st).flush = mapPacking f st.flush := by
  simp only [Packing.flush, mapPacking, List.isEmpty_map]
  split <;> simp

omit [PyChar α] [PyChar β] in
/-- A relabelling commutes with the candidate. -/
theorem candidate_map (current joiner text : List α) :
    candidate (current.map f) (joiner.map f) (text.map f)
      = (candidate current joiner text).map f := by
  simp only [candidate, List.isEmpty_map]
  split <;> simp

omit [PyChar α] [PyChar β] in
/-- A relabelling commutes with the hard cut. -/
theorem cutEvery_map (n : Nat) (w : List α) :
    cutEvery n (w.map f) = (cutEvery n w).map (List.map f) := by
  have hfrom : ∀ (fuel : Nat) (v : List α),
      cutEveryFrom n fuel (v.map f) = (cutEveryFrom n fuel v).map (List.map f) := by
    intro fuel
    induction fuel with
    | zero => intro v; rfl
    | succ fuel ih =>
      intro v
      simp only [cutEveryFrom, List.isEmpty_map]
      split
      · rfl
      · rw [← List.map_drop, ih, List.map_cons, List.map_take]
  rw [cutEvery, List.length_map, hfrom, cutEvery]

omit [PyChar α] [PyChar β] in
/-- A relabelling commutes with the packing of a piece. -/
theorem hardSplitPiece_map (n : Nat) (st : Packing α) (piece : List α) :
    hardSplitPiece n (mapPacking f st) (piece.map f)
      = mapPacking f (hardSplitPiece n st piece) := by
  simp only [hardSplitPiece, List.length_map]
  split <;> simp [mapPacking]

omit [PyChar α] [PyChar β] in
/-- A loop whose body commutes with a relabelling commutes with it. -/
theorem foldl_map_packing {γ δ : Type} {g : γ → δ} {bodyα : Packing α → γ → Packing α}
    {bodyβ : Packing β → δ → Packing β}
    (h : ∀ st x, bodyβ (mapPacking f st) (g x) = mapPacking f (bodyα st x)) (xs : List γ) :
    ∀ st, (xs.map g).foldl bodyβ (mapPacking f st) = mapPacking f (xs.foldl bodyα st) := by
  induction xs with
  | nil => intro st; rfl
  | cons x xs ih =>
    intro st
    rw [List.map_cons, List.foldl_cons, h, ih, List.foldl_cons]

/-- A relabelling commutes with the packing of a word. -/
theorem packWord_map (hf : KeepsCode f) (n : Nat) (st : Packing α) (word : List α) :
    packWord n (mapPacking f st) (word.map f) = mapPacking f (packWord n st word) := by
  have hjoined : candidate (mapPacking f st).current (lit " ") (word.map f)
      = (candidate st.current (lit " ") word).map f := by
    rw [← lit_map hf " "]
    exact candidate_map _ _ _
  simp only [packWord, hjoined, List.length_map, cutEvery_map, flush_map]
  split
  · rfl
  · split
    · exact foldl_map_packing (hardSplitPiece_map n) _ _
    · rfl

/-- A relabelling commutes with the packing of a segment. -/
theorem packSegment_map (hf : KeepsCode f) (n : Nat) (st : Packing α) (s : Segment α) :
    packSegment n (mapPacking f st) (mapSegment f s) = mapPacking f (packSegment n st s) := by
  have hjoiner : ((mapSegment f s).separator.joiner : List β)
      = (s.separator.joiner : List α).map f := by
    cases h : s.separator <;> simp [mapSegment, Separator.joiner, h, lit_map hf]
  have hjoined : candidate (mapPacking f st).current (mapSegment f s).separator.joiner
      (mapSegment f s).text
      = (candidate st.current s.separator.joiner s.text).map f := by
    rw [hjoiner]
    exact candidate_map _ _ _
  have hlen : (mapSegment f s).text.length = s.text.length := List.length_map _
  simp only [packSegment, hjoined, hlen, List.length_map, flush_map, splitOversizedSegment]
  split
  · rfl
  · split
    · rfl
    · show (reSplit whitespaceSplit (s.text.map f)).foldl (packWord n)
        (mapPacking f ⟨st.flush.chunks, []⟩) = _
      rw [reSplit_map hf]
      exact foldl_map_packing (packWord_map hf n) _ _

/-- Chunking commutes with a relabelling. -/
theorem chunkText_map (hf : KeepsCode f) (text : List α) (n : Nat) :
    chunkText (text.map f) n = (chunkText text n).map (List.map f) := by
  have hsegments : ((paragraphs (text.map f)).flatMap fun p => expandParagraph p n)
      = ((paragraphs text).flatMap fun p => expandParagraph p n).map (mapSegment f) := by
    rw [paragraphs_map hf, List.flatMap_map, List.map_flatMap]
    exact List.flatMap_congr fun p _ => expandParagraph_map hf p n
  simp only [chunkText, normalized_map hf, List.isEmpty_map, hsegments]
  split
  · rfl
  · have hempty : (⟨[], []⟩ : Packing β) = mapPacking f ⟨[], []⟩ := rfl
    rw [hempty, foldl_map_packing (packSegment_map hf n), flush_map, mapPacking,
      filter_isEmpty_map]

/-- A relabelling keeps which paragraphs are split. -/
theorem splitsIntoSentences_map (hf : KeepsCode f) (n : Nat) (p : List α) :
    SplitsIntoSentences n (p.map f) ↔ SplitsIntoSentences n p := by
  simp [SplitsIntoSentences, isTerminator_map hf]

/-- A relabelling keeps the cuts. -/
theorem hasCut_map (hf : KeepsCode f) (w : List α) : HasCut (w.map f) ↔ HasCut w := by
  constructor
  · rintro ⟨a, c, d, b, h, hc, hd⟩
    obtain ⟨a', rc, rfl, rfl, hrc⟩ := List.map_eq_append_iff.mp h
    obtain ⟨c', rd, rfl, rfl, hrd⟩ := List.map_eq_cons_iff.mp hrc
    obtain ⟨d', b', rfl, rfl, rfl⟩ := List.map_eq_cons_iff.mp hrd
    rw [isTerminator_map hf] at hc hd
    exact ⟨a', c', d', b', rfl, hc, hd⟩
  · rintro ⟨a, c, d, b, rfl, hc, hd⟩
    rw [← isTerminator_map hf] at hc hd
    exact ⟨a.map f, f c, f d, b.map f, by simp, hc, hd⟩

/-- A relabelling keeps which paragraphs keep their words. -/
theorem keepsWords_map (hf : KeepsCode f) (n : Nat) (p : List α) :
    KeepsWords n (p.map f) ↔ KeepsWords n p := by
  simp [KeepsWords, splitsIntoSentences_map hf, words_isSpace_map hf, hasCut_map hf,
    isTerminator_map hf]

end

/-- Which words survive, for a text with distinct characters. -/
theorem mem_tokens_iff {n : Nat} (hn : 0 < n) {text : List α}
    (hdistinct : (content text).Nodup) :
    (∀ w ∈ words isSpace text, w.length ≤ n → w ∈ tokens (chunkText text n)) ↔
      ∀ p ∈ paragraphs text, KeepsWords n p :=
  ⟨fun h _ hp => keepsWords_of_mem_tokens hn hdistinct hp h,
    fun h _ hw hlen => mem_tokens hn h hw hlen⟩

/-- No two characters have the same position. -/
theorem nodup_content_zipIdx (text : List α) : (content text.zipIdx).Nodup := by
  have hnodup : text.zipIdx.Nodup := List.Nodup.of_map Prod.snd (List.nodup_zipIdx_map_snd text)
  exact hnodup.filter _

/-- A token is a word of a chunk. -/
theorem mem_tokens_def {w : List α} {chunks : List (List α)} :
    w ∈ tokens chunks ↔ ∃ chunk ∈ chunks, w ∈ words isSpace chunk := List.mem_flatMap

/-- `chunk_message` run on a text with its positions returns the chunks of the text, with
the position of every character. There, every word of up to `maxLength` characters is a word
of a chunk exactly for the texts whose paragraphs all keep their words. -/
theorem words_chunkMessage_iff (text : PyStr) {maxLength : Int} (h : 1 ≤ maxLength) :
    ∃ chunks, chunkMessage text.zipIdx maxLength = .ok chunks ∧
      chunkMessage text maxLength = .ok (chunks.map (List.map Prod.fst)) ∧
      ((∀ w ∈ words isSpace text.zipIdx, (w.length : Int) ≤ maxLength →
          ∃ chunk ∈ chunks, w ∈ words isSpace chunk) ↔
        ∀ p ∈ paragraphs text, KeepsWords maxLength.toNat p) := by
  -- The marks of the characters are their positions.
  have hfst : text.zipIdx.map Prod.fst = text := List.zipIdx_map_fst 0 text
  refine ⟨_, chunkMessage_of_pos h _, ?_, ?_⟩
  · rw [← chunkText_map keepsCode_fst, hfst]
    exact chunkMessage_of_pos h _
  · have hiff := mem_tokens_iff (n := maxLength.toNat) (by omega) (nodup_content_zipIdx text)
    -- Whether a paragraph keeps its words does not depend on the marks.
    have hparagraphs : (∀ p ∈ paragraphs text.zipIdx, KeepsWords maxLength.toNat p) ↔
        ∀ p ∈ paragraphs text, KeepsWords maxLength.toNat p := by
      conv_rhs => rw [← hfst, paragraphs_map keepsCode_fst]
      simp [keepsWords_map keepsCode_fst]
    rw [← hparagraphs, ← hiff]
    refine forall₂_congr fun w _ => ?_
    rw [mem_tokens_def]
    have hle : (w.length : Int) ≤ maxLength ↔ w.length ≤ maxLength.toNat := by omega
    rw [hle]

/-- The law at a decimal number, in chunks of eight characters. -/
theorem words_chunkMessage_iff_pi :
    ∃ chunks, chunkMessage (lit "3.14 is pi" : PyStr).zipIdx 8 = .ok chunks ∧
      chunkMessage (lit "3.14 is pi" : PyStr) 8 = .ok (chunks.map (List.map Prod.fst)) ∧
      ((∀ w ∈ words isSpace (lit "3.14 is pi" : PyStr).zipIdx, (w.length : Int) ≤ 8 →
          ∃ chunk ∈ chunks, w ∈ words isSpace chunk) ↔
        ∀ p ∈ paragraphs (lit "3.14 is pi" : PyStr), KeepsWords 8 p) :=
  words_chunkMessage_iff (lit "3.14 is pi") (by decide)

/-- The number is a word of four characters, and no chunk has it as a word. -/
theorem words_chunkMessage_decimal :
    ∃ chunks, chunkMessage (lit "3.14 is pi" : PyStr) 8 = .ok chunks ∧
      (lit "3.14" : PyStr) ∈ words isSpace (lit "3.14 is pi" : PyStr) ∧
      ∀ chunk ∈ chunks, (lit "3.14" : PyStr) ∉ words isSpace chunk :=
  ⟨[lit "3.", lit "14 is pi"], by decide, by decide, by decide⟩

end SignalGateway.Proofs.Chunking
