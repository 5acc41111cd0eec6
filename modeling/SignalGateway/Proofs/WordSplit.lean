import SignalGateway.Proofs.ChunkBounds

/-!
# `SignalGateway.Proofs.WordSplit`: an oversized segment, word by word

`_split_oversized_segment` appends to a chunk list that it shares with its caller, and hands
back the open chunk. `splitOversizedSegment_lossless` reads the appended chunks and the
remainder back: split at spaces, they are the words of the segment, each cut into its pieces
(`CutInto`).

The words in terms of whitespace are those of `packed_splitOversizedSegment`. The loop joins
words by single spaces only, so a split at spaces finds the same words (`Spaced`).

The function is given a chunk list that is not empty in general. `splitOversizedSegment_eq_prepend`
says that it never reads the list: it does what it does to an empty one, behind what is there.
-/

set_option autoImplicit false

namespace SignalGateway.Proofs.Chunking

open SignalGateway.Chunking
open Regex Words PyChar

variable {α : Type}

/-! ### The pieces of a word -/

/-- The pieces `ps` of a word for the limit `n`: the word itself if it fits, otherwise
consecutive pieces of `n` characters, of which the last may be shorter. -/
structure CutInto (n : Nat) (word : List α) (ps : List (List α)) : Prop where
  flatten_eq : ps.flatten = word
  whole : word.length ≤ n → ps = [word]
  full : ∀ p ∈ ps.dropLast, p.length = n
  last : ∀ p ∈ ps.getLast?, 1 ≤ p.length ∧ p.length ≤ n

/-- All pieces of a cut but the last are full. -/
theorem length_of_mem_dropLast_cutEveryFrom {n : Nat} :
    ∀ {fuel : Nat} {w p : List α}, p ∈ (cutEveryFrom n fuel w).dropLast → p.length = n := by
  intro fuel
  induction fuel with
  | zero => intro w p hp; cases hp
  | succ fuel ih =>
    intro w p hp
    rw [cutEveryFrom] at hp
    split at hp
    · cases hp
    · cases hrest : cutEveryFrom n fuel (w.drop n) with
      | nil =>
        rw [hrest] at hp
        cases hp
      | cons q ps =>
        rw [hrest, List.dropLast_cons_cons] at hp
        -- A piece with another one behind it is full.
        have hlong : n < w.length := by
          by_contra hle
          have hdrop : w.drop n = [] := List.drop_eq_nil_of_le (not_lt.mp hle)
          rw [hdrop] at hrest
          cases fuel <;> cases hrest
        rcases List.mem_cons.mp hp with rfl | hp
        · rw [List.length_take, min_eq_left hlong.le]
        · rw [← hrest] at hp
          exact ih hp

/-- The slices of a word are its pieces. -/
theorem cutInto_cutEvery {n : Nat} (hn : 0 < n) {w : List α} (hne : w ≠ []) :
    CutInto n w (cutEvery n w) := by
  refine ⟨flatten_cutEvery hn w, cutEvery_of_le hne, fun p hp => ?_, fun p hp => ?_⟩
  · exact length_of_mem_dropLast_cutEveryFrom hp
  · obtain ⟨hpne, hle⟩ := length_of_mem_cutEvery hn (List.mem_of_mem_getLast? hp)
    exact ⟨List.length_pos_iff.mpr hpne, hle⟩

/-! ### The chunks in front -/

/-- More chunks in front. -/
def prepend (chunks : List (List α)) (st : Packing α) : Packing α :=
  ⟨chunks ++ st.chunks, st.current⟩

/-- Earlier chunks stay in front of a flush. -/
theorem flush_prepend (chunks : List (List α)) (st : Packing α) :
    (prepend chunks st).flush = prepend chunks st.flush := by
  unfold Packing.flush prepend
  split
  · rfl
  · simp

/-- Earlier chunks stay in front of a hard split. -/
theorem hardSplitPiece_prepend (n : Nat) (chunks : List (List α)) (st : Packing α)
    (piece : List α) :
    hardSplitPiece n (prepend chunks st) piece = prepend chunks (hardSplitPiece n st piece) := by
  unfold hardSplitPiece prepend
  split
  · simp
  · rfl

variable [PyChar α]

/-- Earlier chunks stay in front of a packed word. -/
theorem packWord_prepend (n : Nat) (chunks : List (List α)) (st : Packing α) (word : List α) :
    packWord n (prepend chunks st) word = prepend chunks (packWord n st word) := by
  have hcurrent : (prepend chunks st).current = st.current := rfl
  simp only [packWord, hcurrent, flush_prepend]
  split
  · rfl
  · split
    · exact List.foldl_hom (prepend chunks) (hardSplitPiece_prepend n chunks)
    · rfl

/-- `_split_oversized_segment` only appends, and does not look at what is there. -/
theorem splitOversizedSegment_eq_prepend (segment : List α) (n : Nat) (chunks : List (List α)) :
    splitOversizedSegment segment n chunks
      = prepend chunks (splitOversizedSegment segment n []) := by
  have hstart : (⟨chunks, []⟩ : Packing α) = prepend chunks ⟨[], []⟩ := by
    simp [prepend]
  rw [splitOversizedSegment, hstart]
  exact List.foldl_hom (prepend chunks) (packWord_prepend n chunks)

/-! ### Spaces -/

/-- `s.split(" ")`, with no word for an empty string. -/
def splitSpaces (s : List α) : List (List α) :=
  if s.isEmpty then [] else s.splitOnP (isChr ' ')

/-- A split at spaces finds the words. -/
def Spaced (s : List α) : Prop := s.splitOnP (isChr ' ') = words isSpace s

/-- What is no space is not the blank. -/
theorem isChr_space_of_not_isSpace {c : α} (h : isSpace c = false) : isChr ' ' c = false := by
  by_contra hchr
  have hcode : code c = ' '.toNat := by simpa [isChr] using hchr
  rw [isSpace, hcode] at h
  revert h
  decide

/-- A text without spaces is spaced. -/
theorem spaced_of_free {w : List α} (hne : w ≠ []) (h : ∀ c ∈ w, isSpace c = false) :
    Spaced w := by
  rw [Spaced, words_eq_singleton hne h]
  exact List.splitOnP_eq_singleton fun c hc => isChr_space_of_not_isSpace (h c hc)

/-- Joining by a space keeps the words apart. -/
theorem Spaced.candidate {current word : List α} (h : current ≠ [] → Spaced current)
    (hword : Spaced word) : Spaced (candidate current (lit " ") word) := by
  unfold SignalGateway.Chunking.candidate
  split
  · exact hword
  · rename_i hne
    have hcurrent := h fun hnil => hne (List.isEmpty_iff.mpr hnil)
    have hspace : isSpace (ofChar ' ' : α) = true := by
      rw [isSpace, code_ofChar]
      decide
    have hchr : isChr ' ' (ofChar ' ' : α) = true := by
      rw [isChr, code_ofChar]
      decide
    have hlit : current ++ lit " " ++ word = current ++ ofChar ' ' :: word := by
      simp [lit]
    rw [Spaced] at hcurrent hword ⊢
    rw [hlit, List.splitOnP_append_cons _ _ hchr, words_append_cons _ _ hspace, hcurrent, hword]

/-- Every chunk is spaced, and so is the open one unless it is empty. -/
structure SpacedPacking (st : Packing α) : Prop where
  chunks : ∀ chunk ∈ st.chunks, Spaced chunk
  current : st.current ≠ [] → Spaced st.current

/-- A spaced chunk is added to spaced ones. -/
theorem SpacedPacking.push {st : Packing α} (h : SpacedPacking st) {chunk : List α}
    (hchunk : Spaced chunk) : ∀ c ∈ st.chunks ++ [chunk], Spaced c := by
  intro c hc
  rcases List.mem_append.mp hc with hold | hnew
  · exact h.chunks c hold
  · rw [List.mem_singleton.mp hnew]
    exact hchunk

/-- A flush keeps the packing spaced. -/
theorem SpacedPacking.flush {st : Packing α} (h : SpacedPacking st) : SpacedPacking st.flush := by
  unfold Packing.flush
  split
  · exact h
  · rename_i hne
    exact ⟨h.push (h.current fun hnil => hne (List.isEmpty_iff.mpr hnil)),
      fun hnil => absurd rfl hnil⟩

/-- So does a word. -/
theorem SpacedPacking.packWord {n : Nat} (hn : 0 < n) {st : Packing α} (h : SpacedPacking st)
    {word : List α} (hne : word ≠ []) (hfree : ∀ c ∈ word, isSpace c = false) :
    SpacedPacking (packWord n st word) := by
  have hword := spaced_of_free hne hfree
  simp only [SignalGateway.Chunking.packWord]
  split
  · exact ⟨h.chunks, fun _ => .candidate h.current hword⟩
  · split
    · -- a piece of the word becomes a chunk or the open one
      refine List.foldlRecOn _ _ h.flush fun st hst piece hp => ?_
      have hpiece : Spaced piece :=
        spaced_of_free (length_of_mem_cutEvery hn hp).1 fun c hc =>
          hfree c ((infix_of_mem_cutEvery hp).sublist.subset hc)
      unfold SignalGateway.Chunking.hardSplitPiece
      split
      · exact ⟨hst.push hpiece, hst.current⟩
      · exact ⟨hst.chunks, fun _ => hpiece⟩
    · exact ⟨h.flush.chunks, fun _ => hword⟩

/-- The chunks of a segment are spaced. -/
theorem spacedPacking_splitOversizedSegment {n : Nat} (hn : 0 < n) {segment : List α}
    (hsegment : Trimmed segment) : SpacedPacking (splitOversizedSegment segment n []) := by
  refine List.foldlRecOn _ _ ⟨by simp, fun hnil => absurd rfl hnil⟩ fun st hst word hw => ?_
  exact hst.packWord hn (trimmed_of_mem_reSplit hsegment hw).ne_nil
    (free_of_mem_reSplit segment word hw)

/-- The pieces between the blanks of a spaced text are its words. -/
theorem splitSpaces_eq {s : List α} (h : s ≠ [] → Spaced s) : splitSpaces s = words isSpace s := by
  unfold splitSpaces
  split
  · rename_i hnil
    rw [List.isEmpty_iff.mp hnil]
    rfl
  · rename_i hne
    exact h fun hnil => hne (List.isEmpty_iff.mpr hnil)

/-- The words of a segment, each with its pieces. -/
theorem forall₂_cutInto {n : Nat} (hn : 0 < n) (segment : List α) :
    List.Forall₂ (CutInto n) (words isSpace segment)
      ((words isSpace segment).map (cutEvery n)) := by
  rw [List.forall₂_map_right_iff, List.forall₂_same]
  intro w hw
  exact cutInto_cutEvery hn (of_mem_words hw).1

/-- The appended chunks and the remainder, split at spaces, are the words of the segment, each
cut into its pieces. The chunks that were there stay as they are. -/
theorem splitOversizedSegment_lossless {segment : PyStr} (hne : segment ≠ [])
    (hhead : ∀ c ∈ segment.head?, isSpace c = false)
    (hlast : ∀ c ∈ segment.getLast?, isSpace c = false) {maxLength : Nat} (hn : 1 ≤ maxLength)
    (chunks : List PyStr) :
    ∃ appended pieces,
      (splitOversizedSegment segment maxLength chunks).chunks = chunks ++ appended ∧
      List.Forall₂ (CutInto maxLength) (words isSpace segment) pieces ∧
      appended.flatMap splitSpaces
          ++ splitSpaces (splitOversizedSegment segment maxLength chunks).current
        = pieces.flatten ∧
      (∀ chunk ∈ appended, 1 ≤ chunk.length ∧ chunk.length ≤ maxLength) ∧
      (splitOversizedSegment segment maxLength chunks).current.length ≤ maxLength := by
  have hsegment : Trimmed segment := ⟨hne, hhead, hlast⟩
  have hsound : Sound maxLength (splitOversizedSegment segment maxLength []) :=
    sound_splitOversizedSegment hn (by simp) hsegment
  have hspaced := spacedPacking_splitOversizedSegment hn hsegment
  -- The chunks that were there stay in front, so there may as well be none.
  rw [splitOversizedSegment_eq_prepend]
  refine ⟨_, _, rfl, forall₂_cutInto hn segment, ?_, fun chunk hchunk => ?_, ?_⟩
  · have hchunks : (splitOversizedSegment segment maxLength []).chunks.flatMap splitSpaces
        = tokens (splitOversizedSegment segment maxLength []).chunks :=
      List.flatMap_congr fun chunk hchunk => splitSpaces_eq fun _ => hspaced.chunks chunk hchunk
    have hpacked := packed_splitOversizedSegment hn segment []
    rw [packed] at hpacked
    rw [hchunks, prepend, splitSpaces_eq hspaced.current, hpacked, List.flatMap_def]
    rfl
  · have hwf := hsound.chunks chunk hchunk
    exact ⟨List.length_pos_iff.mpr hwf.ne_nil, hwf.length_le⟩
  · -- an empty remainder is no chunk, but within the limit
    by_cases hnil : (splitOversizedSegment segment maxLength []).current = []
    · rw [prepend, hnil]
      exact Nat.zero_le _
    · exact (hsound.current hnil).length_le

/-- A long word whose last piece takes in the next word, behind a chunk that was there. -/
theorem splitOversizedSegment_lossless_longWord :
    ∃ appended pieces,
      (splitOversizedSegment (lit "abcdefg h") 3 [lit "x"] : Packing CodePoint).chunks
        = [lit "x"] ++ appended ∧
      List.Forall₂ (CutInto 3) (words isSpace (lit "abcdefg h" : PyStr)) pieces ∧
      appended.flatMap splitSpaces
          ++ splitSpaces (splitOversizedSegment (lit "abcdefg h") 3 [lit "x"]).current
        = pieces.flatten ∧
      (∀ chunk ∈ appended, 1 ≤ chunk.length ∧ chunk.length ≤ 3) ∧
      (splitOversizedSegment (lit "abcdefg h") 3 [lit "x"] : Packing CodePoint).current.length
        ≤ 3 :=
  splitOversizedSegment_lossless (by decide) (by rintro c ⟨rfl⟩; decide)
    (by rintro c ⟨rfl⟩; decide) (by decide) [lit "x"]

end SignalGateway.Proofs.Chunking
