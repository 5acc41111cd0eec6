import SignalGateway.Proofs.Document

/-!
# `SignalGateway.Proofs.Blocks`: documents as lists of blocks

A document is a list of lines and fenced code blocks, joined by newlines. `toFenced` cuts
it into the text in front of the first fence and `Fenced` stretches (`toFenced_text`), and
`fencedCode` lists the code of its fences with their positions (`fencedCode_eq`).
`exists_fenced_of_map` carries the cut over to the document with positions.

The rest of the project knows only `Fenced` stretches. This module is the bridge to documents as
a user writes them:

* `toFenced_front`, `toFenced_standing`: a document whose lines have no formatting markers, and
  whose contents have no line that begins with a hash, is cut into stretches of the right kind.
* `mem_contentsFrom`: a position in `fencedCode` is that of the content of one fence.
* `exists_fenced_of_map`: the document with positions has the same cut, so the law about places
  in the text is proved on it.
-/

set_option autoImplicit false

namespace SignalGateway.Proofs.Markdown

open SignalGateway.Markdown
open Regex PyChar

/-- A line, or a fenced code block with its language tag. -/
inductive Block (α : Type) where
  | line (text : List α)
  | fence (tag content : List α)

variable {α : Type} [PyChar α]

/-- The markdown of a block. -/
def Block.text : Block α → List α
  | .line text => text
  | .fence tag content =>
      lit "```" ++ tag ++ [ofChar '\n'] ++ content ++ [ofChar '\n'] ++ lit "```"

/-- The markdown of a document. -/
def document (blocks : List (Block α)) : List α :=
  [ofChar '\n'].intercalate (blocks.map Block.text)

/-- Lines and contents have no formatting markers, and no line of a content begins with a
hash. -/
def Block.Ok : Block α → Prop
  | .line text => ∀ x ∈ text, isMarker x = false ∧ isNewline x = false
  | .fence tag content =>
      (∀ x ∈ tag, isTagCode (code x) = true) ∧ (∀ x ∈ content, isMarker x = false) ∧
        ∀ i, LineStart (codes content) i → ((codes content)[i]?).any (chr '#') = false

/-- The contents of the fences with their positions in the document. The number is the
position of the first block. -/
def fencedCode : Nat → List (Block α) → List (Nat × List α)
  | _, [] => []
  | i, .line text :: blocks => fencedCode (i + (text.length + 1)) blocks
  | i, .fence tag content :: blocks =>
      (i + (3 + tag.length + 1), content)
        :: fencedCode (i + ((Block.fence tag content).text.length + 1)) blocks

/-! ### Blocks as fences with the text between them -/

/-- The text in front of the first fence, and the fences. Every block ends its line. -/
def toFenced : List (Block α) → List α × List (Fenced α)
  | [] => ([], [])
  | .line text :: blocks =>
      (text ++ ofChar '\n' :: (toFenced blocks).1, (toFenced blocks).2)
  | .fence tag content :: blocks =>
      ([], ⟨lit "```" ++ tag ++ [ofChar '\n'], content ++ [ofChar '\n'], lit "```",
        ofChar '\n' :: (toFenced blocks).1⟩ :: (toFenced blocks).2)

/-- A document is the text in front of its fences and the fences. -/
theorem document_concat {blocks : List (Block α)} (hne : blocks ≠ []) :
    document blocks ++ [ofChar '\n']
      = (toFenced blocks).1 ++ ((toFenced blocks).2.map Fenced.text).flatten := by
  have hlines : ∀ blocks : List (Block α),
      (blocks.map fun b => b.text ++ [ofChar '\n']).flatten
        = (toFenced blocks).1 ++ ((toFenced blocks).2.map Fenced.text).flatten := by
    intro blocks
    induction blocks with
    | nil => rfl
    | cons b blocks ih =>
      rw [List.map_cons, List.flatten_cons, ih]
      cases b with
      | line text => simp [toFenced, Block.text]
      | fence tag content => simp [toFenced, Block.text, Fenced.text]
  -- `join` leaves out the last newline, so the rest is an induction that ends in a single block
  rw [← hlines]
  clear hlines
  induction blocks with
  | nil => exact absurd rfl hne
  | cons b blocks ih =>
    cases blocks with
    | nil => simp [document]
    | cons c blocks =>
      have hrest := ih (List.cons_ne_nil _ _)
      rw [List.map_cons, List.flatten_cons, ← hrest]
      simp [document, List.intercalate]

/-- A newline is no marker. -/
theorem isMarker_ofChar_newline : isMarker (ofChar '\n' : α) = false :=
  not_isMarker_of_isNewline isNewline_ofChar

/-- The code points of the ticks of a fence. -/
theorem codes_ticks : codes (lit "```" : List α) = ticks := by
  rw [codes_lit]
  decide

/-- A content without hashes at the start of its lines has no heading marker. -/
theorem not_hasMarker_content {content : List α}
    (h : ∀ i, LineStart (codes content) i →
      ((codes content)[i]?).any (chr '#') = false) :
    ¬ HasMarker true (codes (content ++ [ofChar '\n'])) := by
  have hnl : codes [(ofChar '\n' : α)] = ['\n'.toNat] := by
    rw [codes, List.map_singleton, code_ofChar]
  rw [hasMarker_iff, codes_append, hnl]
  rintro ⟨i, hi⟩
  have hhash := runLength_spec (chr '#') _ i 0 hi.hashes_pos
  have hlt := hi.lt_length
  rw [List.length_append, List.length_singleton] at hlt
  rw [Nat.add_zero] at hhash
  -- the heading is in the content, or starts at the newline after it, which is no hash
  by_cases hin : i < (codes content).length
  · rw [List.getElem?_append_left hin] at hhash
    have hline : LineStart (codes content) i := by
      rcases hi.lineStart with hzero | hnl
      · exact Or.inl hzero
      · rw [List.getElem?_append_left (by omega)] at hnl
        exact Or.inr hnl
    rw [h i hline] at hhash
    cases hhash
  · have hend : i = (codes content).length := by omega
    rw [hend, List.getElem?_concat_length, Option.any_some] at hhash
    exact absurd hhash (by decide)

/-- The text in front of the first fence has whole lines and no markers. -/
theorem toFenced_front {blocks : List (Block α)} (h : ∀ b ∈ blocks, b.Ok) :
    EndsLine (toFenced blocks).1 ∧ ∀ x ∈ (toFenced blocks).1, isMarker x = false := by
  induction blocks with
  | nil => exact ⟨by simp [toFenced, EndsLine], by simp [toFenced]⟩
  | cons b blocks ih =>
    obtain ⟨hends, hmark⟩ := ih fun b hb => h b (List.mem_cons_of_mem _ hb)
    have hb := h b List.mem_cons_self
    cases b with
    | fence tag content => exact ⟨by simp [toFenced, EndsLine], by simp [toFenced]⟩
    | line text =>
      -- the line ends where the front of the other blocks does, or in its own newline
      have hlast : EndsLine (ofChar '\n' :: (toFenced blocks).1) := by
        by_cases hnil : (toFenced blocks).1 = []
        · rw [hnil]
          intro c hc
          cases hc
          exact isNewline_ofChar
        · exact (endsLine_cons hnil).mpr hends
      refine ⟨?_, ?_⟩
      · intro c hc
        rw [toFenced, List.getLast?_append_of_ne_nil _ (List.cons_ne_nil _ _)] at hc
        exact hlast c hc
      · intro x hx
        rcases List.mem_append.mp hx with hx | hx
        · exact (hb x hx).1
        · rcases List.mem_cons.mp hx with rfl | hx
          · exact isMarker_ofChar_newline
          · exact hmark x hx

/-- A text without markers has no backtick. -/
theorem noBacktick_of_unmarked {s : List α} (h : ∀ x ∈ s, isMarker x = false) :
    NoBacktick s := by
  intro x hx
  have hmark := h x hx
  rw [isMarker, isMarkerCode] at hmark
  simp only [Bool.or_eq_false_iff] at hmark
  exact hmark.1.1.1

/-- The fences of a document stand on lines of their own. -/
theorem toFenced_standing {blocks : List (Block α)} (h : ∀ b ∈ blocks, b.Ok) :
    ∀ f ∈ (toFenced blocks).2, f.Standing := by
  induction blocks with
  | nil => simp [toFenced]
  | cons b blocks ih =>
    have hblocks : ∀ b ∈ blocks, b.Ok := fun b hb => h b (List.mem_cons_of_mem _ hb)
    have hb := h b List.mem_cons_self
    cases b with
    | line text => exact ih hblocks
    | fence tag content =>
      obtain ⟨htag, hcontent, hhash⟩ := hb
      obtain ⟨hends, hmark⟩ := toFenced_front hblocks
      intro f hf
      rcases List.mem_cons.mp hf with rfl | hf
      · have hbody : ∀ x ∈ content ++ [(ofChar '\n' : α)], isMarker x = false := by
          intro x hx
          rcases List.mem_append.mp hx with hx | hx
          · exact hcontent x hx
          · rw [List.mem_singleton.mp hx]
            exact isMarker_ofChar_newline
        have hrest : ∀ x ∈ (ofChar '\n' : α) :: (toFenced blocks).1, isMarker x = false := by
          intro x hx
          rcases List.mem_cons.mp hx with rfl | hx
          · exact isMarker_ofChar_newline
          · exact hmark x hx
        exact {
          opening := by
            -- the opening is the ticks, the tag and the newline
            refine ⟨codes tag, ?_, ?_⟩
            · have hnl : codes [(ofChar '\n' : α)] = ['\n'.toNat] := by
                rw [codes, List.map_singleton, code_ofChar]
              show codes (lit "```" ++ tag ++ [ofChar '\n']) = _
              rw [codes_append, codes_append, codes_ticks, hnl, List.append_assoc]
            · intro n hn
              obtain ⟨x, hx, rfl⟩ := List.mem_map.mp hn
              exact htag x hx
          closing := codes_ticks
          body := noBacktick_of_unmarked hbody
          rest := noBacktick_of_unmarked hrest
          body_ne := by simp
          body_line := by
            intro c hc
            rw [List.getLast?_concat] at hc
            cases hc
            exact isNewline_ofChar
          body_marker := not_hasMarker_content hhash
          body_unmarked := hbody
          rest_line := ⟨_, _, rfl, isNewline_ofChar, hends⟩
          rest_unmarked := hrest }
      · exact ih hblocks f hf

/-! ### Positions -/

/-- The contents of fences with their positions, behind `i` characters. -/
def contentsFrom : Nat → List (Fenced α) → List (Nat × List α)
  | _, [] => []
  | i, f :: fs => (i + f.opening.length, f.content) :: contentsFrom (i + f.text.length) fs

omit [PyChar α] in
/-- The contents with their positions, one for each fence. -/
theorem mem_contentsFrom {fs : List (Fenced α)} {p : Nat × List α} : ∀ {i : Nat},
    p ∈ contentsFrom i fs ↔ ∃ gs f hs, fs = gs ++ f :: hs ∧
      p = (i + ((gs.map Fenced.text).flatten ++ f.opening).length, f.content) := by
  induction fs with
  | nil => intro i; simp [contentsFrom]
  | cons f fs ih =>
    intro i
    rw [contentsFrom, List.mem_cons, ih, exists_split_cons]
    simp [Nat.add_assoc]

/-- The contents of the fences stand where the blocks put them. -/
theorem fencedCode_eq (blocks : List (Block α)) : ∀ i,
    fencedCode i blocks
      = contentsFrom (i + (toFenced blocks).1.length) (toFenced blocks).2 := by
  induction blocks with
  | nil => intro i; rfl
  | cons b blocks ih =>
    intro i
    cases b with
    | line text =>
      rw [fencedCode, ih, toFenced]
      simp [Nat.add_assoc, Nat.add_comm 1]
    | fence tag content =>
      -- the content starts after the ticks, the tag and the newline
      have hopening : (lit "```" ++ tag ++ [(ofChar '\n' : α)]).length = 3 + tag.length + 1 := by
        simp [lit]
        omega
      have hcontent : (content ++ [(ofChar '\n' : α)]).dropLast = content :=
        List.dropLast_concat
      rw [fencedCode, ih, toFenced, contentsFrom, Fenced.content]
      simp only [List.length_nil, Nat.add_zero, hopening, hcontent, List.cons.injEq, true_and]
      congr 1
      simp [Fenced.text, Block.text]
      omega

/-- A document with fenced code has a fence. -/
theorem toFenced_ne_nil {blocks : List (Block α)} {i : Nat} {p : Nat × List α}
    (hp : p ∈ fencedCode i blocks) : (toFenced blocks).2 ≠ [] := by
  intro hnil
  rw [fencedCode_eq, hnil] at hp
  cases hp

/-! ### The document with positions -/

section
variable {β : Type} [PyChar β] {g : α → β}

/-- The fence with its characters relabelled. -/
def Fenced.map (g : α → β) (f : Fenced α) : Fenced β :=
  ⟨f.opening.map g, f.body.map g, f.closing.map g, f.rest.map g⟩

omit [PyChar α] [PyChar β] in
/-- A cut of the relabelled text is a cut of the text. -/
theorem exists_fenced_of_map {fs : List (Fenced β)} : ∀ {text : List α} {front : List β},
    text.map g = front ++ (fs.map Fenced.text).flatten →
    ∃ (front' : List α) (fs' : List (Fenced α)),
      text = front' ++ (fs'.map Fenced.text).flatten ∧ front'.map g = front ∧
        fs'.map (Fenced.map g) = fs := by
  induction fs with
  | nil =>
    intro text front h
    exact ⟨text, [], by simp, by simpa using h, rfl⟩
  | cons f fs ih =>
    intro text front h
    rw [List.map_cons, List.flatten_cons, Fenced.text] at h
    obtain ⟨front', rest, rfl, hfront, hrest⟩ := List.map_eq_append_iff.mp h
    obtain ⟨back, fs', hsplit, hback, hfs⟩ := ih hrest
    obtain ⟨obc, r, rfl, hobc, hr⟩ := List.map_eq_append_iff.mp hback
    obtain ⟨ob, c, rfl, hob, hc⟩ := List.map_eq_append_iff.mp hobc
    obtain ⟨o, b, rfl, ho, hb⟩ := List.map_eq_append_iff.mp hob
    refine ⟨front', ⟨o, b, c, r⟩ :: fs', ?_, hfront, ?_⟩
    · rw [hsplit, List.map_cons, List.flatten_cons, Fenced.text]
    · rw [List.map_cons, hfs, Fenced.map, ho, hb, hc, hr]

/-- A relabelling keeps newlines. -/
theorem isNewline_map (hg : KeepsCode g) (c : α) : isNewline (g c) = isNewline c :=
  isChr_map hg '\n' c

/-- A relabelling keeps markers. -/
theorem isMarker_map (hg : KeepsCode g) (c : α) : isMarker (g c) = isMarker c := by
  rw [isMarker, isMarker, hg.code_eq]

/-- A relabelling keeps the end of a line. -/
theorem EndsLine.of_map (hg : KeepsCode g) {s : List α} (h : EndsLine (s.map g)) :
    EndsLine s := by
  intro c hc
  rw [← isNewline_map hg]
  refine h (g c) ?_
  rw [List.getLast?_map, Option.mem_def.mp hc]
  rfl

/-- A relabelling keeps where a fence stands. -/
theorem Fenced.Standing.of_map (hg : KeepsCode g) {f : Fenced α}
    (h : (f.map g).Standing) : f.Standing := by
  have hunmarked : ∀ {s : List α}, (∀ x ∈ s.map g, isMarker x = false) →
      ∀ x ∈ s, isMarker x = false := by
    intro s hs x hx
    rw [← isMarker_map hg]
    exact hs _ (List.mem_map_of_mem hx)
  have hopening : codes (f.opening.map g) = codes f.opening := codes_map hg _
  have hclosing : codes (f.closing.map g) = codes f.closing := codes_map hg _
  have hbody : codes (f.body.map g) = codes f.body := codes_map hg _
  -- every field is about the codes, which `g` keeps
  exact {
    opening := by
      obtain ⟨tag, htag, hall⟩ := h.opening
      exact ⟨tag, hopening.symm.trans htag, hall⟩
    closing := hclosing.symm.trans h.closing
    body := noBacktick_of_unmarked (hunmarked h.body_unmarked)
    rest := noBacktick_of_unmarked (hunmarked h.rest_unmarked)
    body_ne := by
      intro hnil
      have hne := h.body_ne
      simp [Fenced.map, hnil] at hne
    body_line := h.body_line.of_map hg
    body_marker := by
      rw [← hbody]
      exact h.body_marker
    body_unmarked := hunmarked h.body_unmarked
    rest_line := by
      obtain ⟨nl, w, hrest, hnl, hw⟩ := h.rest_line
      obtain ⟨nl', w', hsplit, rfl, rfl⟩ := List.map_eq_cons_iff.mp hrest
      exact ⟨nl', w', hsplit, by rwa [isNewline_map hg] at hnl, hw.of_map hg⟩
    rest_unmarked := hunmarked h.rest_unmarked }

end

end SignalGateway.Proofs.Markdown
