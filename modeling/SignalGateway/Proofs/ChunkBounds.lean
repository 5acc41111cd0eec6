import SignalGateway.Proofs.Chunking

/-!
# `SignalGateway.Proofs.ChunkBounds`: every chunk is well formed

The chunks are not empty, fit the limit, and neither start nor end with whitespace
(`wellFormed_chunkMessage`). The segments are trimmed, and the invariant `Sound` of the
packing loops covers the finished chunks and the open one, which `_split_oversized_segment`
hands back.

The theorems follow the functions of `chunking.py` from the inside:

* `trimmed_of_mem_reSplit`, `trimmed_of_mem_paragraphs`: what is packed begins and ends with a
  character that is no whitespace.
* `Sound.candidate`, `Sound.flush`, `Sound.hardSplitPiece`: the small steps on the open chunk.
* `Sound.packWord`, `sound_splitOversizedSegment`, `Sound.packSegment`: the loops.
* `wellFormed_chunkMessage`: the result, for every text and every limit of at least one.
-/

set_option autoImplicit false

namespace SignalGateway.Proofs.Chunking

open SignalGateway.Chunking
open Regex Words PyChar

variable {α : Type} [PyChar α]

/-! ### Trimmed strings -/

/-- A string that is not empty and neither starts nor ends with whitespace. -/
structure Trimmed (s : List α) : Prop where
  ne_nil : s ≠ []
  head : ∀ c ∈ s.head?, isSpace c = false
  last : ∀ c ∈ s.getLast?, isSpace c = false

/-- What `strip` leaves begins and ends with no space. -/
theorem trimmed_strip {s : List α} (h : strip s ≠ []) : Trimmed (strip s) :=
  ⟨h, head?_strip s, getLast?_strip s⟩

/-- A text without spaces is trimmed. -/
theorem trimmed_of_free {s : List α} (hne : s ≠ []) (h : ∀ c ∈ s, isSpace c = false) :
    Trimmed s :=
  ⟨hne, fun c hc => h c (List.mem_of_mem_head? hc), fun c hc => h c (List.mem_of_mem_getLast? hc)⟩

/-- The ends of a join are the ends of its parts. -/
theorem Trimmed.append {a b : List α} (ha : Trimmed a) (joiner : List α) (hb : Trimmed b) :
    Trimmed (a ++ joiner ++ b) := by
  refine ⟨by simp [ha.ne_nil], fun c hc => ha.head c ?_, fun c hc => hb.last c ?_⟩
  · rwa [List.append_assoc, List.head?_append_of_ne_nil _ ha.ne_nil] at hc
  · rwa [List.getLast?_append_of_ne_nil _ hb.ne_nil] at hc

/-- A split at whitespace cuts a trimmed string into trimmed pieces. -/
theorem trimmed_of_mem_reSplit {s w : List α} (hs : Trimmed s)
    (hw : w ∈ reSplit whitespaceSplit s) : Trimmed w :=
  trimmed_of_free (ne_nil_of_mem_reSplit hs.ne_nil hs.head hs.last w hw)
    (free_of_mem_reSplit s w hw)

/-- The stripped pieces that are kept are trimmed. -/
theorem trimmed_of_mem_filter {ss : List (List α)} {s : List α}
    (h : s ∈ (ss.map strip).filter (!·.isEmpty)) : Trimmed s := by
  obtain ⟨hmem, hne⟩ := List.mem_filter.mp h
  obtain ⟨t, -, rfl⟩ := List.mem_map.mp hmem
  exact trimmed_strip (by simpa using hne)

/-- The paragraphs are trimmed. -/
theorem trimmed_of_mem_paragraphs {text p : List α} (h : p ∈ paragraphs text) : Trimmed p :=
  trimmed_of_mem_filter h

omit [PyChar α] in
/-- The text of a segment is one of the texts. -/
theorem mem_of_mem_enumerateSegments {texts : List (List α)} {s : Segment α}
    (h : s ∈ enumerateSegments texts) : s.text ∈ texts := by
  obtain ⟨i, hi, rfl⟩ := List.mem_mapIdx.mp h
  exact List.getElem_mem hi

/-- The segments of a paragraph are trimmed, at each of the three levels. -/
theorem trimmed_of_mem_expandParagraph {n : Nat} {p : List α} (hp : Trimmed p) :
    ∀ s ∈ expandParagraph p n, Trimmed s.text := by
  intro s hs
  have hwords : s ∈ enumerateSegments (reSplit whitespaceSplit p) → Trimmed s.text :=
    fun h => trimmed_of_mem_reSplit hp (mem_of_mem_enumerateSegments h)
  simp only [expandParagraph] at hs
  split at hs
  · rw [List.mem_singleton.mp hs]
    exact hp
  · split at hs
    · split at hs
      · exact hwords hs
      · exact trimmed_of_mem_filter (mem_of_mem_enumerateSegments hs)
    · exact hwords hs

/-! ### The packing loops -/

/-- A chunk as it may be sent. -/
structure WellFormed (n : Nat) (chunk : List α) : Prop extends Trimmed chunk where
  length_le : chunk.length ≤ n

/-- The finished chunks are well formed, and so is the open one unless it is empty. -/
structure Sound (n : Nat) (st : Packing α) : Prop where
  chunks : ∀ chunk ∈ st.chunks, WellFormed n chunk
  current : st.current ≠ [] → WellFormed n st.current

/-- A flush moves a chunk that is well formed. -/
theorem Sound.flush {n : Nat} {st : Packing α} (h : Sound n st) : Sound n st.flush := by
  unfold Packing.flush
  split
  · exact h
  · rename_i hne
    refine ⟨fun chunk hchunk => ?_, fun hnil => absurd rfl hnil⟩
    rcases List.mem_append.mp hchunk with hold | hnew
    · exact h.chunks chunk hold
    · rw [List.mem_singleton.mp hnew]
      exact h.current fun hnil => hne (List.isEmpty_iff.mpr hnil)

/-- The open chunk may become any well formed string. -/
theorem Sound.setCurrent {n : Nat} {st : Packing α} (h : Sound n st) {text : List α}
    (ht : WellFormed n text) : Sound n { st with current := text } :=
  ⟨h.chunks, fun _ => ht⟩

/-- The candidate chunk is well formed as soon as it fits. -/
theorem Sound.candidate {n : Nat} {st : Packing α} (h : Sound n st) (joiner : List α)
    {text : List α} (ht : Trimmed text)
    (hfits : (candidate st.current joiner text).length ≤ n) :
    WellFormed n (candidate st.current joiner text) := by
  refine ⟨?_, hfits⟩
  unfold SignalGateway.Chunking.candidate
  split
  · exact ht
  · rename_i hne
    exact (h.current fun hnil => hne (List.isEmpty_iff.mpr hnil)).toTrimmed.append joiner ht

omit [PyChar α] in
/-- The pieces of a word are not empty and fit. -/
theorem length_of_mem_cutEvery {n : Nat} (hn : 0 < n) {w x : List α} (h : x ∈ cutEvery n w) :
    x ≠ [] ∧ x.length ≤ n := by
  have hfrom : ∀ {fuel : Nat} {v : List α}, x ∈ cutEveryFrom n fuel v →
      x ≠ [] ∧ x.length ≤ n := by
    intro fuel
    induction fuel with
    | zero => intro v hv; simp [cutEveryFrom] at hv
    | succ fuel ih =>
      intro v hv
      rw [cutEveryFrom] at hv
      split at hv
      · simp at hv
      · rename_i hne
        rcases List.mem_cons.mp hv with rfl | hv
        · refine ⟨?_, List.length_take_le _ _⟩
          rw [Ne, List.take_eq_nil_iff]
          rintro (hzero | hnil)
          · omega
          · exact hne (List.isEmpty_iff.mpr hnil)
        · exact ih hv
  exact hfrom h

/-- The pieces of a word without whitespace are well formed. -/
theorem wellFormed_of_mem_cutEvery {n : Nat} (hn : 0 < n) {w x : List α}
    (hw : ∀ c ∈ w, isSpace c = false) (h : x ∈ cutEvery n w) : WellFormed n x := by
  obtain ⟨hne, hle⟩ := length_of_mem_cutEvery hn h
  refine ⟨trimmed_of_free hne fun c hc => hw c ?_, hle⟩
  exact (infix_of_mem_cutEvery h).sublist.subset hc

/-- A piece of a long word is a chunk or begins one. -/
theorem Sound.hardSplitPiece {n : Nat} {st : Packing α} (h : Sound n st) {piece : List α}
    (hp : WellFormed n piece) : Sound n (hardSplitPiece n st piece) := by
  unfold SignalGateway.Chunking.hardSplitPiece
  split
  · refine ⟨fun chunk hchunk => ?_, h.current⟩
    rcases List.mem_append.mp hchunk with hold | hnew
    · exact h.chunks chunk hold
    · rw [List.mem_singleton.mp hnew]
      exact hp
  · exact h.setCurrent hp

/-- One word of `_split_oversized_segment`. -/
theorem Sound.packWord {n : Nat} (hn : 0 < n) {st : Packing α} (h : Sound n st)
    {word : List α} (hne : word ≠ []) (hfree : ∀ c ∈ word, isSpace c = false) :
    Sound n (packWord n st word) := by
  have hword := trimmed_of_free hne hfree
  simp only [SignalGateway.Chunking.packWord]
  split
  · rename_i hfits
    exact h.setCurrent (h.candidate _ hword hfits)
  · split
    · exact List.foldlRecOn _ _ h.flush fun st hst piece hp =>
        hst.hardSplitPiece (wellFormed_of_mem_cutEvery hn hfree hp)
    · rename_i hshort
      exact h.flush.setCurrent ⟨hword, Nat.not_lt.mp hshort⟩

/-- `_split_oversized_segment` keeps the invariant, also for the remainder it returns. -/
theorem sound_splitOversizedSegment {n : Nat} (hn : 0 < n) {chunks : List (List α)}
    (hchunks : ∀ chunk ∈ chunks, WellFormed n chunk) {text : List α} (ht : Trimmed text) :
    Sound n (splitOversizedSegment text n chunks) := by
  refine List.foldlRecOn _ _ ⟨hchunks, fun hnil => absurd rfl hnil⟩ fun st hst word hw => ?_
  exact hst.packWord hn (trimmed_of_mem_reSplit ht hw).ne_nil (free_of_mem_reSplit text word hw)

/-- One segment of `chunk_message`. -/
theorem Sound.packSegment {n : Nat} (hn : 0 < n) {st : Packing α} (h : Sound n st)
    {segment : Segment α} (ht : Trimmed segment.text) : Sound n (packSegment n st segment) := by
  simp only [SignalGateway.Chunking.packSegment]
  split
  · rename_i hfits
    exact h.setCurrent (h.candidate _ ht hfits)
  · split
    · rename_i hshort
      exact h.flush.setCurrent ⟨ht, hshort⟩
    · exact sound_splitOversizedSegment hn h.flush.chunks ht

/-! ### The whole text -/

/-- Every chunk is well formed. -/
theorem wellFormed_chunkText {n : Nat} (hn : 0 < n) (text : List α) :
    ∀ chunk ∈ chunkText text n, WellFormed n chunk := by
  intro chunk hchunk
  unfold chunkText at hchunk
  split at hchunk
  · cases hchunk
  · have hsound : Sound n ((segments text n).foldl (packSegment n) ⟨[], []⟩) := by
      refine List.foldlRecOn _ _ ⟨by simp, fun hnil => absurd rfl hnil⟩
        fun st hst segment hs => ?_
      obtain ⟨p, hp, hsegment⟩ := List.mem_flatMap.mp hs
      exact hst.packSegment hn
        (trimmed_of_mem_expandParagraph (trimmed_of_mem_paragraphs hp) segment hsegment)
    exact hsound.flush.chunks chunk (List.mem_filter.mp hchunk).1

/-- Every chunk of every text is not empty, fits the limit, and neither starts nor ends with
whitespace. -/
theorem wellFormed_chunkMessage (text : PyStr) {maxLength : Int} (h : 1 ≤ maxLength) :
    ∃ chunks, chunkMessage text maxLength = .ok chunks ∧ ∀ chunk ∈ chunks,
      chunk ≠ [] ∧ (chunk.length : Int) ≤ maxLength ∧
        (∀ c ∈ chunk.head?, isSpace c = false) ∧ ∀ c ∈ chunk.getLast?, isSpace c = false := by
  refine ⟨_, chunkMessage_of_pos h text, fun chunk hchunk => ?_⟩
  have hn : 0 < maxLength.toNat := by omega
  have hwf := wellFormed_chunkText hn text chunk hchunk
  have hle := hwf.length_le
  exact ⟨hwf.ne_nil, by omega, hwf.head, hwf.last⟩

/-- A text of one long word and one short one, in chunks of three characters. -/
theorem wellFormed_chunkMessage_longWord :
    ∃ chunks, chunkMessage (lit "abcdefg h" : PyStr) 3 = .ok chunks ∧ ∀ chunk ∈ chunks,
      chunk ≠ [] ∧ (chunk.length : Int) ≤ 3 ∧
        (∀ c ∈ chunk.head?, isSpace c = false) ∧ ∀ c ∈ chunk.getLast?, isSpace c = false :=
  wellFormed_chunkMessage (lit "abcdefg h") (by decide)

end SignalGateway.Proofs.Chunking
