import SignalGateway.Lib.Groups
import SignalGateway.Proofs.ChunkBounds

/-!
# `SignalGateway.Proofs.Paragraphs`: packing short paragraphs

When every paragraph fits into a chunk, the segments are the paragraphs, and the packing loop
is greedy grouping (`chunkText_eq_greedy`). So the chunks are groups of consecutive
paragraphs joined by an empty line, and no other grouping has fewer (`packs_paragraphs`).

`joinLength 2` is the length of paragraphs that are joined with an empty line, so `Fits` is the
condition for one chunk. `chunks_foldl_packSegment` is the invariant of the packing loop: its
chunks are the closed groups, and its open chunk is the group under way. That greedy grouping is
minimal is a theorem of `SignalGateway.Lib.Greedy`.
-/

set_option autoImplicit false

namespace SignalGateway.Proofs.Chunking

open SignalGateway.Chunking
open Regex Words PyChar Groups

variable {α : Type} [PyChar α]

/-- Paragraphs joined by empty lines. -/
def joinParagraphs (ps : List (List α)) : List α := List.intercalate (lit "\n\n") ps

/-- The length of joined paragraphs. -/
theorem length_joinParagraphs (ps : List (List α)) :
    (joinParagraphs ps).length = joinLength 2 ps := by
  rw [joinParagraphs, length_intercalate]
  rfl

/-- Joined paragraphs are not empty. -/
theorem joinParagraphs_ne_nil {ps : List (List α)} (hne : ps ≠ []) (hps : ∀ p ∈ ps, p ≠ []) :
    joinParagraphs ps ≠ [] := by
  cases ps with
  | nil => exact absurd rfl hne
  | cons q ps =>
    have hq := List.length_pos_iff.mpr (hps q List.mem_cons_self)
    rw [← List.length_pos_iff, length_joinParagraphs, joinLength, List.map_cons, List.sum_cons]
    omega

/-- The open chunk and one more paragraph. -/
theorem candidate_joinParagraphs {ps : List (List α)} (hps : ∀ p ∈ ps, p ≠ []) (p : List α) :
    candidate (joinParagraphs ps) (lit "\n\n") p = joinParagraphs (ps ++ [p]) := by
  have happend : ∀ qs : List (List α), qs ≠ [] →
      joinParagraphs (qs ++ [p]) = joinParagraphs qs ++ lit "\n\n" ++ p := by
    intro qs
    induction qs with
    | nil => exact fun h => absurd rfl h
    | cons q qs ih =>
      intro _
      cases qs with
      | nil => simp [joinParagraphs]
      | cons q' qs =>
        have hrest := ih (List.cons_ne_nil _ _)
        simp only [joinParagraphs, List.cons_append, List.intercalate_cons_cons,
          List.append_assoc] at hrest ⊢
        rw [hrest]
  cases ps with
  | nil => simp [candidate, joinParagraphs]
  | cons q ps =>
    have hopen := joinParagraphs_ne_nil (List.cons_ne_nil q ps) hps
    rw [candidate, if_neg (by simpa using hopen), happend _ (List.cons_ne_nil _ _)]

/-! ### The packing loop -/

/-- A segment that fits is appended. -/
theorem packSegment_of_fits {n : Nat} {st : Packing α} {segment : Segment α}
    (h : (candidate st.current segment.separator.joiner segment.text).length ≤ n) :
    packSegment n st segment
      = ⟨st.chunks, candidate st.current segment.separator.joiner segment.text⟩ := by
  simp only [packSegment]
  rw [if_pos h]

/-- A segment that does not fit begins a chunk. -/
theorem packSegment_of_short {n : Nat} {st : Packing α} {segment : Segment α}
    (h : ¬ (candidate st.current segment.separator.joiner segment.text).length ≤ n)
    (hshort : segment.text.length ≤ n) :
    packSegment n st segment = ⟨st.flush.chunks, segment.text⟩ := by
  simp only [packSegment]
  rw [if_neg h, if_pos hshort]

/-- A group of paragraphs fits into a chunk. -/
abbrev Fits (n : Nat) (ps : List (List α)) : Prop := joinLength 2 ps ≤ n

/-- A paragraph as a segment. -/
abbrev blankSegment (p : List α) : Segment α := ⟨p, .blank⟩

/-- The loop of `chunk_message` over short paragraphs is greedy grouping. The open chunk is
the join of the open group. -/
theorem chunks_foldl_packSegment {n : Nat} {ps : List (List α)}
    (hps : ∀ p ∈ ps, p ≠ [] ∧ p.length ≤ n) :
    ∀ {cur : List (List α)} (chunks : List (List α)), (∀ p ∈ cur, p ≠ []) →
      ((ps.map blankSegment).foldl (packSegment n) ⟨chunks, joinParagraphs cur⟩).flush.chunks
        = chunks ++ (greedyFrom (Fits n) cur ps).map joinParagraphs := by
  induction ps with
  | nil =>
    intro cur chunks hcur
    cases cur with
    | nil => simp [Packing.flush, greedyFrom, joinParagraphs]
    | cons q cur =>
      have hopen := joinParagraphs_ne_nil (List.cons_ne_nil q cur) hcur
      simp [Packing.flush, greedyFrom, hopen]
  | cons p ps ih =>
    intro cur chunks hcur
    obtain ⟨hne, hshort⟩ := hps p List.mem_cons_self
    have hrest : ∀ q ∈ ps, q ≠ [] ∧ q.length ≤ n := fun q hq => hps q (List.mem_cons_of_mem _ hq)
    have hjoined := candidate_joinParagraphs hcur p
    have hlen := length_joinParagraphs (cur ++ [p])
    rw [List.map_cons, List.foldl_cons, greedyFrom]
    by_cases hfits : Fits n (cur ++ [p])
    · -- The paragraph joins the open chunk.
      have hshort' : (candidate (joinParagraphs cur) (lit "\n\n") p).length ≤ n := by
        rw [hjoined, hlen]
        exact hfits
      have hstep : packSegment n ⟨chunks, joinParagraphs cur⟩ (blankSegment p)
          = ⟨chunks, candidate (joinParagraphs cur) (lit "\n\n") p⟩ := packSegment_of_fits hshort'
      rw [hstep, hjoined, if_pos hfits]
      refine ih hrest chunks fun q hq => ?_
      rcases List.mem_append.mp hq with hq | hq
      · exact hcur q hq
      · rw [List.mem_singleton.mp hq]
        exact hne
    · -- The open chunk is closed. It is not empty, since the paragraph alone fits.
      have hlong : ¬ (candidate (joinParagraphs cur) (lit "\n\n") p).length ≤ n := by
        rw [hjoined, hlen]
        exact hfits
      have hopen : joinParagraphs cur ≠ [] := by
        intro hnil
        rw [hnil] at hlong
        exact hlong hshort
      have hstep : packSegment n ⟨chunks, joinParagraphs cur⟩ (blankSegment p)
          = ⟨chunks ++ [joinParagraphs cur], joinParagraphs [p]⟩ := by
        have hone : joinParagraphs [p] = p := List.intercalate_singleton
        refine (packSegment_of_short hlong hshort).trans ?_
        simp [Packing.flush, hopen, hone]
      rw [hstep, if_neg hfits, ih hrest _ (by simpa using hne), List.map_cons,
        List.append_assoc, List.singleton_append]

/-- The chunks of a text with short paragraphs are the joins of the greedy groups. -/
theorem chunkText_eq_greedy {n : Nat} {text : List α}
    (hshort : ∀ p ∈ paragraphs text, p.length ≤ n) :
    chunkText text n = (greedy (Fits n) (paragraphs text)).map joinParagraphs := by
  have hpara : ∀ p ∈ paragraphs text, p ≠ [] ∧ p.length ≤ n := fun p hp =>
    ⟨(trimmed_of_mem_paragraphs hp).ne_nil, hshort p hp⟩
  -- no paragraph is expanded, so each is one segment
  have hsegments : ((paragraphs text).flatMap fun p => expandParagraph p n)
      = (paragraphs text).map blankSegment := by
    rw [List.map_eq_flatMap]
    refine List.flatMap_congr fun p hp => ?_
    rw [expandParagraph, if_pos (hshort p hp)]
  have hgroups : ∀ g ∈ greedy (Fits n) (paragraphs text), g ≠ [] ∧ Fits n g :=
    of_mem_greedy fun p hp => by simpa [joinLength] using hshort p hp
  have hloop : ((segments text n).foldl (packSegment n) ⟨[], []⟩).flush.chunks
      = (greedy (Fits n) (paragraphs text)).map joinParagraphs := by
    have hfold := @chunks_foldl_packSegment α _ n _ hpara [] [] (by simp)
    rw [List.nil_append] at hfold
    rw [segments, hsegments]
    exact hfold
  unfold chunkText
  split
  · rename_i hempty
    have hnone : paragraphs text = [] := by
      rw [paragraphs, List.isEmpty_iff.mp hempty]
      rfl
    rw [hnone]
    rfl
  · show ((segments text n).foldl (packSegment n) ⟨[], []⟩).flush.chunks.filter (!·.isEmpty) = _
    rw [hloop, List.filter_eq_self]
    intro chunk hchunk
    obtain ⟨g, hg, rfl⟩ := List.mem_map.mp hchunk
    -- no chunk is filtered out, as a group is not empty and neither are its paragraphs
    have hmem : ∀ p ∈ g, p ≠ [] := fun p hp => (hpara p (by
      rw [← flatten_greedy (Fits n) (paragraphs text)]
      exact List.mem_flatten.mpr ⟨g, hg, hp⟩)).1
    simpa using joinParagraphs_ne_nil (hgroups g hg).1 hmem

/-! ### The length of a normalized text -/

omit [PyChar α] in
/-- The pieces of a scan with long matches are short. -/
theorem joinLength_pieces {σ : Type} {t : List σ} {r : Re σ} {xs : List α} {k : Nat}
    (hlen : xs.length = t.length)
    (hk : ∀ m : Match, m.start ≤ t.length → matchAt t r m.start = some m → m.start + k ≤ m.stop)
    {i : Nat} {ms : List Match} (h : Scan t r i ms) (hi : i ≤ t.length) :
    joinLength k (pieces xs i ms) ≤ xs.length - i := by
  induction h with
  | done gap => simp [pieces, joinLength]
  | @next i m ms le found start_le gap rest ih =>
    obtain ⟨-, -, hstop, -⟩ := matchAt_spec start_le found
    have hrest := ih hstop
    have hlong := hk m start_le found
    obtain ⟨q, qs, hqs⟩ : ∃ q qs, pieces xs m.stop ms = q :: qs := by
      cases ms <;> exact ⟨_, _, rfl⟩
    rw [hqs] at hrest
    rw [pieces, hqs]
    simp only [joinLength, List.map_cons, List.sum_cons, List.length_cons, length_slice,
      Nat.add_sub_cancel, Nat.mul_succ] at hrest ⊢
    omega

/-- The paragraphs of a text, joined, are not longer than the normalized text. -/
theorem joinLength_paragraphs (text : List α) :
    joinLength 2 (paragraphs text) ≤ (normalized text).length := by
  have hscan := scan_finditer (t := codes (normalized text)) (r := paragraphSplit) Nat.two_pos
  have hlong : ∀ m : Match, m.start ≤ (codes (normalized text)).length →
      matchAt (codes (normalized text)) paragraphSplit m.start = some m →
      m.start + 2 ≤ m.stop := by
    intro m hstart hm
    rw [paragraphSplit, matchAt_rep_greedy] at hm
    split at hm
    · have hstop : m.stop = m.start + runLength (chr '\n') (codes (normalized text)) m.start :=
        (congrArg Match.stop (Option.some.inj hm)).symm
      omega
    · cases hm
  have hpieces : joinLength 2 (reSplit paragraphSplit (normalized text))
      ≤ (normalized text).length :=
    joinLength_pieces (length_codes _).symm hlong hscan (Nat.zero_le _)
  refine le_trans (joinLength_le_of_sublist 2 List.filter_sublist) (le_trans ?_ hpieces)
  refine joinLength_le ?_ (List.length_map _).le
  rw [List.map_map]
  exact List.sum_le_sum fun s _ => length_strip_le s

/-- Groups of consecutive paragraphs, in order, whose joins fit. -/
structure Grouping (text : List α) (maxLength : Int) (groups : List (List (List α))) : Prop where
  flatten_eq : groups.flatten = paragraphs text
  fits : ∀ g ∈ groups, ((joinParagraphs g).length : Int) ≤ maxLength

/-- A text of short paragraphs is cut into as few groups as possible. -/
theorem exists_grouping {text : List α} {maxLength : Int} (h : 1 ≤ maxLength)
    (hshort : ∀ p ∈ paragraphs text, (p.length : Int) ≤ maxLength) :
    ∃ groups, Grouping text maxLength groups ∧ (∀ g ∈ groups, g ≠ []) ∧
      chunkMessage text maxLength = .ok (groups.map joinParagraphs) ∧
      ∀ other, Grouping text maxLength other → groups.length ≤ other.length := by
  have hfits : ∀ g : List (List α), Fits maxLength.toNat g ↔
      ((joinParagraphs g).length : Int) ≤ maxLength := by
    intro g
    rw [Fits, length_joinParagraphs]
    omega
  have hpara : ∀ p ∈ paragraphs text, p.length ≤ maxLength.toNat := by
    intro p hp
    have := hshort p hp
    omega
  have hgroups : ∀ g ∈ greedy (Fits maxLength.toNat) (paragraphs text),
      g ≠ [] ∧ Fits maxLength.toNat g :=
    of_mem_greedy fun p hp => by simpa [joinLength] using hpara p hp
  refine ⟨_, ⟨flatten_greedy _ _, fun g hg => (hfits g).mp (hgroups g hg).2⟩,
    fun g hg => (hgroups g hg).1, ?_, fun other hother => ?_⟩
  · rw [chunkMessage_of_pos h, chunkText_eq_greedy hpara]
  · -- a part of a group that fits, fits, so the greedy grouping is a shortest one
    rw [← hother.flatten_eq]
    exact length_greedy_le (hereditary_joinLength 2 _)
      fun g hg => (hfits g).mpr (hother.fits g hg)

/-- A text whose normalized form fits is one group. -/
theorem grouping_of_normalized {text : List α} {maxLength : Int}
    (h : ((normalized text).length : Int) ≤ maxLength) :
    Grouping text maxLength [paragraphs text] := by
  refine ⟨List.flatten_singleton, fun g hg => ?_⟩
  have hlen := joinLength_paragraphs text
  rw [List.mem_singleton.mp hg, length_joinParagraphs]
  omega

/-- The paragraphs of a text whose normalized form fits are short. -/
theorem short_of_normalized {text : List α} {maxLength : Int}
    (h : ((normalized text).length : Int) ≤ maxLength) :
    ∀ p ∈ paragraphs text, (p.length : Int) ≤ maxLength := by
  intro p hp
  have hone : joinLength 2 [p] ≤ joinLength 2 (paragraphs text) :=
    joinLength_le_of_sublist 2 (List.singleton_sublist.mpr hp)
  have hlen := joinLength_paragraphs text
  have hp : joinLength 2 [p] = p.length := by simp [joinLength]
  omega

/-- If all paragraphs of a text fit, `chunk_message` returns the joins of groups of
consecutive paragraphs, and no other grouping into joins that fit has fewer groups. If the
normalized text fits, there is at most one chunk. -/
theorem packs_paragraphs (text : PyStr) {maxLength : Int} (h : 1 ≤ maxLength) :
    ((∀ p ∈ paragraphs text, (p.length : Int) ≤ maxLength) →
      ∃ groups, Grouping text maxLength groups ∧ (∀ g ∈ groups, g ≠ []) ∧
        chunkMessage text maxLength = .ok (groups.map joinParagraphs) ∧
        ∀ other, Grouping text maxLength other → groups.length ≤ other.length) ∧
    (((normalized text).length : Int) ≤ maxLength →
      ∃ chunks, chunkMessage text maxLength = .ok chunks ∧ chunks.length ≤ 1) := by
  refine ⟨exists_grouping h, fun hfits => ?_⟩
  obtain ⟨groups, -, -, hchunks, hleast⟩ := exists_grouping h (short_of_normalized hfits)
  refine ⟨_, hchunks, ?_⟩
  rw [List.length_map]
  exact hleast _ (grouping_of_normalized hfits)

/-- Three paragraphs, two of which fit into one chunk. -/
theorem packs_paragraphs_abc :
    (∃ groups, Grouping (lit "ab\n\n\ncd\r\n\r\nefg" : PyStr) 6 groups ∧
      chunkMessage (lit "ab\n\n\ncd\r\n\r\nefg" : PyStr) 6
        = .ok (groups.map joinParagraphs)) ∧
      ∃ chunks, chunkMessage (lit " ab\n\ncd " : PyStr) 6 = .ok chunks ∧ chunks.length ≤ 1 := by
  have hshort : ∀ p ∈ paragraphs (lit "ab\n\n\ncd\r\n\r\nefg" : PyStr), (p.length : Int) ≤ 6 := by
    decide
  obtain ⟨groups, hgrouping, -, hchunks, -⟩ :=
    (packs_paragraphs (lit "ab\n\n\ncd\r\n\r\nefg") (by decide)).1 hshort
  exact ⟨⟨groups, hgrouping, hchunks⟩,
    (packs_paragraphs (lit " ab\n\ncd ") (by decide)).2 (by decide)⟩

end SignalGateway.Proofs.Chunking
