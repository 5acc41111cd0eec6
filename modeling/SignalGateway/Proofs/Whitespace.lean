import SignalGateway.Proofs.Fences
import SignalGateway.Proofs.Headings

/-!
# `SignalGateway.Proofs.Whitespace`: normalisation in front of the phases

Collapsing newlines and stripping commute (`normalize_eq`), and both work stretch by
stretch on a text with fences, because a fence starts and ends with a backtick.
`fences_normalize_eq` is the text in front of the heading phase, with the spans of the
fences. `rstrip_collapse_eq_iff` says which code comes through unchanged.

The result is a `Fenced.normal` for each fence of the text: the same fence with its newlines
collapsed. Its opening and closing lines stay as they are (`Fenced.Ok.opening_eq`,
`code_of_mem_closing`), so what was a fence before normalisation is one behind it
(`Fenced.Ok.normal`). `Intact` says of a code that it has no run of three newlines and no
whitespace at its end.
-/

set_option autoImplicit false

namespace SignalGateway.Proofs.Markdown

open SignalGateway.Markdown
open Regex PyChar

variable {α : Type} [PyChar α]

/-- A newline. -/
def isNewline (c : α) : Bool := isChr '\n' c

/-- The code point of a newline. -/
theorem code_of_isNewline {c : α} (h : isNewline c = true) : code c = '\n'.toNat :=
  beq_iff_eq.mp h

/-- The code points of a text behind a newline. -/
theorem codes_cons_newline {c : α} (h : isNewline c = true) (s : List α) :
    codes (c :: s) = '\n'.toNat :: codes s := by
  rw [codes, List.map_cons, code_of_isNewline h]
  rfl

/-- The code points of a text that ends with a newline. -/
theorem codes_concat_newline {c : α} (h : isNewline c = true) (s : List α) :
    codes (s ++ [c]) = codes s ++ ['\n'.toNat] := by
  rw [codes_append, codes_cons_newline h]
  rfl

/-- A newline is a space. -/
theorem isSpace_of_isNewline {c : α} (h : isNewline c = true) : isSpace c = true := by
  rw [isSpace, code_of_isNewline h]
  exact isSpaceCode_newline

/-- What is no space is no newline. -/
theorem isNewline_of_not_isSpace {c : α} (h : isSpace c = false) : isNewline c = false := by
  by_contra hnl
  rw [isSpace_of_isNewline (by simpa using hnl)] at h
  cases h

/-! ### Collapsing -/

/-- A character that is no newline is kept. -/
theorem collapseFrom_cons {c : α} (hc : isNewline c = false) (kept : Nat) (s : List α) :
    collapseFrom kept (c :: s) = c :: collapseFrom 0 s := by
  rw [isNewline] at hc
  simp [collapseFrom, hc]

/-- A text that does not start with a newline is collapsed on its own. -/
theorem collapseFrom_append {v : List α} (hv : ∀ c ∈ v.head?, isNewline c = false)
    (u : List α) : ∀ kept,
      collapseFrom kept (u ++ v) = collapseFrom kept u ++ collapseFrom 0 v := by
  induction u with
  | nil =>
    intro kept
    cases v with
    | nil => rfl
    | cons c v =>
      have hc := hv c rfl
      rw [List.nil_append, collapseFrom_cons hc, collapseFrom_cons hc]
      rfl
  | cons c u ih =>
    intro kept
    simp only [List.cons_append, collapseFrom, ih]
    split
    · split <;> rfl
    · rfl

/-- Whatever stands in front only sets the counter. -/
theorem exists_collapseFrom_append (u v : List α) : ∀ kept, ∃ kept',
    collapseFrom kept (u ++ v) = collapseFrom kept u ++ collapseFrom kept' v := by
  induction u with
  | nil => intro kept; exact ⟨kept, rfl⟩
  | cons c u ih =>
    intro kept
    by_cases hc : isChr '\n' c = true
    · by_cases hk : kept < 2
      · obtain ⟨kept', h⟩ := ih (kept + 1)
        exact ⟨kept', by simp [collapseFrom, hc, hk, h]⟩
      · obtain ⟨kept', h⟩ := ih kept
        exact ⟨kept', by simp [collapseFrom, hc, hk, h]⟩
    · obtain ⟨kept', h⟩ := ih 0
      exact ⟨kept', by simp [collapseFrom, hc, h]⟩

/-- A line is not touched. -/
theorem collapseFrom_line {u : List α} (hu : ∀ c ∈ u, isNewline c = false) (v : List α) :
    collapseFrom 0 (u ++ v) = u ++ collapseFrom 0 v := by
  induction u with
  | nil => rfl
  | cons c u ih =>
    rw [List.cons_append, collapseFrom_cons (hu c List.mem_cons_self),
      ih fun d hd => hu d (List.mem_cons_of_mem c hd)]
    rfl

/-- The text is empty or ends with a newline. -/
def EndsLine (s : List α) : Prop := ∀ c ∈ s.getLast?, isNewline c = true

/-- The first character does not matter for the end of a line. -/
theorem endsLine_cons {c : α} {s : List α} (hne : s ≠ []) :
    EndsLine (c :: s) ↔ EndsLine s := by
  rw [EndsLine, EndsLine, List.getLast?_cons_of_ne_nil hne]

/-- Of a text that is there something is kept. -/
theorem collapseFrom_ne_nil {s : List α} (hne : s ≠ []) {kept : Nat} (hk : kept < 2) :
    collapseFrom kept s ≠ [] := by
  cases s with
  | nil => exact absurd rfl hne
  | cons c s =>
    rw [collapseFrom, if_pos hk]
    split <;> exact List.cons_ne_nil _ _

/-- Collapsing keeps the newline at the end. -/
theorem EndsLine.collapseFrom {s : List α} (h : EndsLine s) :
    ∀ kept, EndsLine (collapseFrom kept s) := by
  induction s with
  | nil => intro kept; exact h
  | cons c s ih =>
    intro kept
    rcases List.eq_nil_or_concat s with rfl | ⟨init, last, hs⟩
    · have hc : isNewline c = true := h c rfl
      intro d hd
      have hmem := (collapseFrom_sublist [c] kept).subset (List.mem_of_mem_getLast? hd)
      rw [List.mem_singleton.mp hmem]
      exact hc
    · have hne : s ≠ [] := by simp [hs]
      have hrest := ih ((endsLine_cons hne).mp h)
      rw [Markdown.collapseFrom]
      split
      · rename_i hnl
        -- a newline is kept while its run is short, and a run that is cut ends in one too
        split
        · by_cases hnil : Markdown.collapseFrom (kept + 1) s = []
          · rw [hnil]
            intro d hd
            cases hd
            exact hnl
          · exact (endsLine_cons hnil).mpr (hrest _)
        · exact hrest _
      · exact (endsLine_cons (collapseFrom_ne_nil hne (by omega))).mpr (hrest 0)

/-- A text that ends a line is empty, or ends with a newline. -/
theorem codes_endsLine {s : List α} (h : EndsLine s) :
    s = [] ∨ ∃ w, codes s = w ++ ['\n'.toNat] := by
  rcases List.eq_nil_or_concat' s with hnil | ⟨init, last, rfl⟩
  · exact Or.inl hnil
  · exact Or.inr ⟨codes init, codes_concat_newline (h last (by simp)) init⟩

/-- The end of a text that ends a line. -/
theorem EndsLine.suffix {s t : List α} (h : EndsLine t) (hst : s <:+ t) : EndsLine s := by
  intro c hc
  obtain ⟨u, rfl⟩ := hst
  refine h c ?_
  have hne : s ≠ [] := by
    intro hnil
    rw [hnil] at hc
    simp at hc
  rwa [List.getLast?_append_of_ne_nil _ hne]

/-- Every character that is no newline is kept. -/
theorem mem_collapseFrom {s : List α} {c : α} (hc : isNewline c = false) (h : c ∈ s) :
    ∀ kept, c ∈ collapseFrom kept s := by
  induction s with
  | nil => cases h
  | cons d s ih =>
    intro kept
    rw [collapseFrom]
    rcases List.mem_cons.mp h with rfl | h
    · rw [isNewline] at hc
      simp [hc]
    · split
      · split
        · exact List.mem_cons_of_mem d (ih h _)
        · exact ih h _
      · exact List.mem_cons_of_mem d (ih h 0)

/-- A text that begins with no space keeps its first character. -/
theorem head?_collapseFrom {s : List α} (hs : ∀ c ∈ s.head?, isSpace c = false)
    (kept : Nat) : (collapseFrom kept s).head? = s.head? := by
  cases s with
  | nil => rfl
  | cons c s =>
    rw [collapseFrom_cons (isNewline_of_not_isSpace (hs c rfl))]
    rfl

/-! ### Stripping -/

/-- Spaces in front are stripped. -/
theorem lstrip_append {u v : List α} (hv : ∀ c ∈ v.head?, isSpace c = false)
    (hu : ∀ c ∈ u, isSpace c = true) : lstrip (u ++ v) = v := by
  rw [lstrip, List.dropWhile_append_of_pos hu]
  cases v with
  | nil => rfl
  | cons c v => simp [hv c rfl]

/-- A text that starts with something else than whitespace is not touched by a strip on
the left. -/
theorem lstrip_append_of_head {u v : List α} (hne : v ≠ [])
    (hv : ∀ c ∈ v.head?, isSpace c = false) : lstrip (u ++ v) = lstrip u ++ v := by
  rw [lstrip, List.dropWhile_append]
  split
  · rename_i hnil
    have hnil : lstrip u = [] := by simpa [lstrip] using hnil
    rw [hnil, List.nil_append]
    cases v with
    | nil => exact absurd rfl hne
    | cons c v => simp [hv c rfl]
  · rfl

/-- Spaces at the end are stripped. -/
theorem rstrip_append_of_spaces {u v : List α} (hv : ∀ c ∈ v, isSpace c = true) :
    rstrip (u ++ v) = rstrip u := by
  simp only [rstrip, List.rdropWhile, List.reverse_append]
  rw [List.dropWhile_append_of_pos fun c hc => hv c (List.mem_reverse.mp hc)]

/-- A text that ends with something else than whitespace is not touched by a strip on the
right. -/
theorem rstrip_append_of_last {u : List α} (hu : ∀ c ∈ u.getLast?, isSpace c = false)
    (v : List α) : rstrip (u ++ v) = u ++ rstrip v := by
  have hu' : rstrip u = u := by
    rw [rstrip, List.rdropWhile_eq_self_iff]
    intro hne
    rw [hu _ (List.getLast?_eq_some_getLast hne)]
    simp
  rw [rstrip, List.rdropWhile, List.reverse_append, List.dropWhile_append]
  split
  · rename_i hnil
    have hnil : rstrip v = [] := by
      rw [rstrip, List.rdropWhile]
      simpa using hnil
    rw [hnil, List.append_nil]
    exact hu'
  · rw [List.reverse_append, List.reverse_reverse]
    rfl

/-- A text that is no space stops the stripping. -/
theorem rstrip_append_of_ne_nil {u v : List α} (hne : rstrip v ≠ []) :
    rstrip (u ++ v) = u ++ rstrip v := by
  rw [rstrip, List.rdropWhile, List.reverse_append, List.dropWhile_append, if_neg]
  · rw [List.reverse_append, List.reverse_reverse]
    rfl
  · intro hnil
    apply hne
    rw [rstrip, List.rdropWhile]
    simpa using hnil

/-- A character that is no space is not stripped. -/
theorem mem_lstrip {s : List α} {c : α} (hc : isSpace c = false) (h : c ∈ s) :
    c ∈ lstrip s := by
  rw [← List.takeWhile_append_dropWhile (p := isSpace) (l := s)] at h
  rcases List.mem_append.mp h with h | h
  · rw [List.mem_takeWhile_imp h] at hc
    cases hc
  · exact h

/-- Collapsing and stripping commute. -/
theorem normalize_eq (text : List α) :
    normalizeWhitespace text = collapseFrom 0 (strip text) := by
  have hleft : lstrip (collapseFrom 0 text) = collapseFrom 0 (lstrip text) := by
    have hhead : ∀ c ∈ (lstrip text).head?, isSpace c = false := by
      intro c hc
      have hfind := List.head?_dropWhile_not isSpace text
      rw [lstrip, Option.mem_def] at hc
      rw [hc] at hfind
      simpa using hfind
    conv_lhs => rw [← List.takeWhile_append_dropWhile (p := isSpace) (l := text)]
    have hnewline : ∀ c ∈ (List.dropWhile isSpace text).head?, isNewline c = false :=
      fun c hc => isNewline_of_not_isSpace (hhead c hc)
    rw [collapseFrom_append hnewline]
    refine lstrip_append ?_ ?_
    · have hhead' := head?_collapseFrom hhead 0
      rw [lstrip] at hhead'
      rw [hhead']
      exact hhead
    · intro c hc
      exact List.mem_takeWhile_imp ((collapseFrom_sublist _ 0).subset hc)
  have hright : ∀ s : List α, rstrip (collapseFrom 0 s) = collapseFrom 0 (rstrip s) := by
    intro s
    obtain ⟨kept, hsplit⟩ :=
      exists_collapseFrom_append (rstrip s) (s.rtakeWhile isSpace) 0
    conv_lhs => rw [← List.rdropWhile_append_rtakeWhile (p := isSpace) (l := s)]
    rw [rstrip] at hsplit
    rw [hsplit, rstrip_append_of_spaces fun c hc =>
      List.mem_rtakeWhile_imp ((collapseFrom_sublist _ _).subset hc)]
    -- What is left ends with something else than whitespace, and so does its collapse.
    have hlast : ∀ c ∈ (collapseFrom 0 (rstrip s)).getLast?, isSpace c = false := by
      rcases List.eq_nil_or_concat (rstrip s) with hnil | ⟨init, last, hinit⟩
      · rw [hnil]
        simp [collapseFrom]
      · have hspace : isSpace last = false := by
          have := List.rdropWhile_last_not isSpace s (by
            rw [show s.rdropWhile isSpace = rstrip s from rfl, hinit]
            simp)
          simp only [show s.rdropWhile isSpace = rstrip s from rfl, hinit] at this
          simpa using this
        rw [hinit, List.concat_eq_append, collapseFrom_append (by
          intro c hc
          cases hc
          exact isNewline_of_not_isSpace hspace)]
        rw [collapseFrom_cons (isNewline_of_not_isSpace hspace)]
        intro c hc
        simp [collapseFrom] at hc
        rw [← hc]
        exact hspace
    have := rstrip_append_of_last hlast []
    simpa [rstrip] using this
  rw [normalizeWhitespace, strip, hleft, hright]
  rfl

/-! ### Texts with fences -/

/-- The fence with the newlines inside and behind it collapsed. -/
def Fenced.normal (f : Fenced α) : Fenced α :=
  { f with body := collapseFrom 1 f.body, rest := collapseFrom 0 f.rest }

/-- The fence with the whitespace behind it stripped. -/
def Fenced.stripRest (f : Fenced α) : Fenced α := { f with rest := rstrip f.rest }

/-- A collapsed fence is a fence. -/
theorem Fenced.Ok.normal {f : Fenced α} (h : f.Ok) : f.normal.Ok :=
  ⟨h.opening, h.closing, h.body.sublist (collapseFrom_sublist _ _),
    h.rest.sublist (collapseFrom_sublist _ _)⟩

/-- A stripped fence is a fence. -/
theorem Fenced.Ok.stripRest {f : Fenced α} (h : f.Ok) : f.stripRest.Ok :=
  ⟨h.opening, h.closing, h.body, h.rest.sublist (List.rdropWhile_prefix _ _).sublist⟩

/-- A tick is no space. -/
theorem isSpace_of_code_tick {c : α} (h : code c = 0x60) : isSpace c = false := by
  rw [isSpace, h]
  decide

/-- Only the newline is a newline. -/
theorem isNewline_of_code_ne {c : α} (h : code c ≠ '\n'.toNat) : isNewline c = false := by
  rw [isNewline, isChr, beq_eq_false_iff_ne]
  exact h

/-- The opening of a fence is one line with its newline. -/
theorem Fenced.Ok.opening_eq {f : Fenced α} (h : f.Ok) :
    ∃ line c, f.opening = line ++ [c] ∧ (∀ d ∈ line, isNewline d = false) ∧
      isNewline c = true ∧ ∀ d ∈ f.opening.head?, code d = 0x60 := by
  obtain ⟨tag, hopening, htag⟩ := h.opening
  have hcodes : f.opening.map code = (ticks ++ tag) ++ ['\n'.toNat] := by
    rw [List.append_assoc]
    exact hopening
  obtain ⟨line, last, hsplit, hline, hlast⟩ := List.map_eq_append_iff.mp hcodes
  obtain ⟨c, rest, rfl, hc, hrest⟩ := List.map_eq_cons_iff.mp hlast
  obtain rfl := List.map_eq_nil_iff.mp hrest
  refine ⟨line, c, hsplit, ?_, ?_, ?_⟩
  · intro d hd
    refine isNewline_of_code_ne ?_
    -- neither the ticks nor the tag has a newline
    have hmem : code d ∈ ticks ++ tag := by
      rw [← hline]
      exact List.mem_map_of_mem hd
    rcases List.mem_append.mp hmem with hd | hd
    · intro hnl
      rw [hnl] at hd
      exact absurd hd (by decide)
    · intro hnl
      rw [hnl] at hd
      exact absurd (htag _ hd) (by decide)
  · exact beq_iff_eq.mpr hc
  · intro d hd
    have := congrArg List.head? hopening
    rw [codes, List.head?_map, Option.mem_def.mp hd] at this
    exact Option.some.inj this

/-- The closing line holds ticks. -/
theorem code_of_mem_closing {f : Fenced α} (h : f.Ok) {c : α} (hc : c ∈ f.closing) :
    code c = 0x60 := by
  have hmem : code c ∈ ticks := by
    rw [← h.closing]
    exact List.mem_map_of_mem hc
  simpa [ticks] using hmem

/-- There is a closing line. -/
theorem closing_ne_nil {f : Fenced α} (h : f.Ok) : f.closing ≠ [] := by
  intro hnil
  have := h.closing
  rw [hnil] at this
  cases this

/-- A text of fences starts with a backtick. -/
theorem head?_texts {fs : List (Fenced α)} (hfs : ∀ f ∈ fs, f.Ok) :
    ∀ c ∈ (fs.map Fenced.text).flatten.head?, code c = 0x60 := by
  cases fs with
  | nil => simp
  | cons f fs =>
    obtain ⟨line, last, hsplit, -, -, hhead⟩ := (hfs f List.mem_cons_self).opening_eq
    intro c hc
    refine hhead c ?_
    have hne : f.opening ≠ [] := by simp [hsplit]
    rw [List.map_cons, List.flatten_cons, Fenced.text, List.append_assoc, List.append_assoc,
      List.append_assoc, List.head?_append_of_ne_nil _ hne] at hc
    exact hc

/-- A fence is collapsed on its own. -/
theorem collapseFrom_text {f : Fenced α} (hf : f.Ok) {back : List α}
    (hback : ∀ c ∈ back.head?, isNewline c = false) :
    collapseFrom 0 (f.text ++ back) = f.normal.text ++ collapseFrom 0 back := by
  obtain ⟨line, nl, hsplit, hline, hnl, -⟩ := hf.opening_eq
  have hopen : ∀ s : List α, collapseFrom 0 (f.opening ++ s)
      = f.opening ++ collapseFrom 1 s := by
    intro s
    rw [isNewline] at hnl
    rw [hsplit, List.append_assoc, collapseFrom_line hline]
    simp [collapseFrom, hnl]
  have hclosing : ∀ c ∈ f.closing, isNewline c = false := fun c hc =>
    isNewline_of_not_isSpace (isSpace_of_code_tick (code_of_mem_closing hf hc))
  -- the closing ticks are no newlines, so the count starts again after them
  have hclose : ∀ (s : List α) (kept : Nat), collapseFrom kept (f.body ++ (f.closing ++ s))
      = collapseFrom kept f.body ++ (f.closing ++ collapseFrom 0 s) := by
    intro s kept
    rw [collapseFrom_append, collapseFrom_line hclosing]
    intro c hc
    obtain ⟨d, rest, hd⟩ := List.exists_cons_of_ne_nil (closing_ne_nil hf)
    refine hclosing c ?_
    rw [hd] at hc ⊢
    cases hc
    exact List.mem_cons_self
  have htext : f.text ++ back = f.opening ++ (f.body ++ (f.closing ++ (f.rest ++ back))) := by
    simp [Fenced.text]
  rw [htext, hopen, hclose, collapseFrom_append hback]
  simp [Fenced.text, Fenced.normal]

/-- So are all fences. -/
theorem collapseFrom_texts {fs : List (Fenced α)} (hfs : ∀ f ∈ fs, f.Ok) :
    collapseFrom 0 (fs.map Fenced.text).flatten
      = ((fs.map Fenced.normal).map Fenced.text).flatten := by
  induction fs with
  | nil => rfl
  | cons f fs ih =>
    have hrest : ∀ g ∈ fs, g.Ok := fun g hg => hfs g (List.mem_cons_of_mem f hg)
    rw [List.map_cons, List.flatten_cons, collapseFrom_text (hfs f List.mem_cons_self), ih hrest]
    · rfl
    · intro c hc
      exact isNewline_of_not_isSpace (isSpace_of_code_tick (head?_texts hrest c hc))

/-- The normalised form of a text with fences. -/
theorem normalize_texts {front : List α} {fs : List (Fenced α)} {g : Fenced α}
    (hfs : ∀ f ∈ fs, f.Ok) (hg : g.Ok) :
    normalizeWhitespace (front ++ ((fs ++ [g]).map Fenced.text).flatten)
      = collapseFrom 0 (lstrip front)
        ++ (((fs ++ [g.stripRest]).map Fenced.normal).map Fenced.text).flatten := by
  have hall : ∀ f ∈ fs ++ [g], f.Ok := by
    intro f hf
    rcases List.mem_append.mp hf with hf | hf
    · exact hfs f hf
    · rw [List.mem_singleton.mp hf]
      exact hg
  have hall' : ∀ f ∈ fs ++ [g.stripRest], f.Ok := by
    intro f hf
    rcases List.mem_append.mp hf with hf | hf
    · exact hfs f hf
    · rw [List.mem_singleton.mp hf]
      exact hg.stripRest
  have hhead := head?_texts hall
  have hne : ((fs ++ [g]).map Fenced.text).flatten ≠ [] := by
    intro hnil
    have := List.flatten_eq_nil_iff.mp hnil g.text (List.mem_map_of_mem (by simp))
    simp only [Fenced.text, List.append_eq_nil_iff] at this
    exact closing_ne_nil hg this.1.2
  -- Only the text behind the last fence is stripped on the right.
  have hstrip : strip (front ++ ((fs ++ [g]).map Fenced.text).flatten)
      = lstrip front ++ ((fs ++ [g.stripRest]).map Fenced.text).flatten := by
    rw [strip, lstrip_append_of_head hne fun c hc => isSpace_of_code_tick (hhead c hc)]
    have hsplit : lstrip front ++ ((fs ++ [g]).map Fenced.text).flatten
        = lstrip front ++ (fs.map Fenced.text).flatten ++ g.opening ++ g.body ++ g.closing
          ++ g.rest := by
      simp [Fenced.text]
    rw [hsplit, rstrip_append_of_last]
    · simp [Fenced.text, Fenced.stripRest]
    · intro c hc
      rw [List.getLast?_append_of_ne_nil _ (closing_ne_nil hg)] at hc
      exact isSpace_of_code_tick (code_of_mem_closing hg (List.mem_of_mem_getLast? hc))
  rw [normalize_eq, hstrip, collapseFrom_append, collapseFrom_texts hall']
  exact fun c hc => isNewline_of_not_isSpace (isSpace_of_code_tick (head?_texts hall' c hc))

/-- The text in front of the heading phase and the spans of the fences. -/
theorem fences_normalize_eq {front : List α} {fs : List (Fenced α)} {g : Fenced α}
    (hfront : NoBacktick front) (hfs : ∀ f ∈ fs, f.Ok) (hg : g.Ok) :
    fences (normalizeWhitespace (front ++ ((fs ++ [g]).map Fenced.text).flatten))
      = (collapseFrom 0 (lstrip front)
          ++ (((fs ++ [g.stripRest]).map Fenced.normal).map Fenced.plain).flatten,
        fenceSpans (collapseFrom 0 (lstrip front)).length
          ((fs ++ [g.stripRest]).map Fenced.normal)) := by
  rw [normalize_texts hfs hg, fences_eq]
  · exact hfront.sublist
      ((collapseFrom_sublist _ _).trans (List.dropWhile_suffix _).sublist)
  · intro f hf
    obtain ⟨f', hf', rfl⟩ := List.mem_map.mp hf
    rcases List.mem_append.mp hf' with hf' | hf'
    · exact (hfs f' hf').normal
    · rw [List.mem_singleton.mp hf']
      exact hg.stripRest.normal

/-! ### Code that comes through -/

/-- Three newlines in a row. -/
def tripleNewline : List Nat := ['\n'.toNat, '\n'.toNat, '\n'.toNat]

/-- Collapsing keeps exactly the texts without three newlines in a row. -/
theorem collapseFrom_eq_self_iff {s : List α} : ∀ {kept : Nat}, kept ≤ 2 →
    (collapseFrom kept s = s ↔
      ¬ tripleNewline <:+: List.replicate kept '\n'.toNat ++ codes s) := by
  induction s with
  | nil =>
    intro kept hk
    simp only [collapseFrom, true_iff]
    intro hinfix
    have := hinfix.length_le
    simp [tripleNewline, codes] at this
    omega
  | cons c s ih =>
    intro kept hk
    by_cases hc : isNewline c = true
    · have hshift : List.replicate kept '\n'.toNat ++ codes (c :: s)
          = List.replicate (kept + 1) '\n'.toNat ++ codes s := by
        rw [List.replicate_succ', List.append_assoc, codes_cons_newline hc]
        rfl
      rw [isNewline] at hc
      by_cases hlt : kept < 2
      · rw [hshift, ← ih (by omega)]
        simp [collapseFrom, hc, hlt]
      · obtain rfl : kept = 2 := by omega
        rw [hshift]
        constructor
        · intro heq
          exfalso
          have := (collapseFrom_sublist s 2).length_le
          simp only [collapseFrom, hc, if_true, lt_irrefl, if_false] at heq
          rw [heq] at this
          simp at this
        · intro hno
          exact absurd ⟨[], codes s, rfl⟩ hno
    · have hc : isNewline c = false := by simpa using hc
      rw [collapseFrom_cons hc, List.cons_inj_right, ih (Nat.zero_le 2)]
      have hcode : code c ≠ '\n'.toNat := by
        rw [isNewline, isChr, beq_eq_false_iff_ne] at hc
        exact hc
      -- A run of newlines cannot reach over `c`.
      have hover : ∀ k ≤ 2, ∀ t : List Nat,
          tripleNewline <:+: List.replicate k '\n'.toNat ++ code c :: t
            ↔ tripleNewline <:+: t := by
        intro k hk t
        have hzero : tripleNewline <:+: code c :: t ↔ tripleNewline <:+: t := by
          rw [List.infix_cons_iff, tripleNewline, List.cons_prefix_cons]
          exact or_iff_right fun h => hcode h.1.symm
        have hone : tripleNewline <:+: '\n'.toNat :: code c :: t ↔ tripleNewline <:+: t := by
          rw [List.infix_cons_iff, hzero, tripleNewline, List.cons_prefix_cons,
            List.cons_prefix_cons]
          exact or_iff_right fun h => hcode h.2.1.symm
        have htwo : tripleNewline <:+: '\n'.toNat :: '\n'.toNat :: code c :: t
            ↔ tripleNewline <:+: t := by
          rw [List.infix_cons_iff, hone, tripleNewline, List.cons_prefix_cons,
            List.cons_prefix_cons, List.cons_prefix_cons]
          exact or_iff_right fun h => hcode h.2.2.1.symm
        have hk' : k = 0 ∨ k = 1 ∨ k = 2 := by omega
        rcases hk' with rfl | rfl | rfl
        · exact hzero
        · exact hone
        · exact htwo
      rw [not_iff_not]
      have hzero : tripleNewline <:+: List.replicate 0 '\n'.toNat ++ codes s
          ↔ tripleNewline <:+: codes s := Iff.rfl
      exact hzero.trans (hover kept hk (codes s)).symm

/-- The code comes through the normalisation and the fence phase: it does not end with a
newline, and there is no run of three newlines in it or at its start, the newline of the
opening line included. -/
structure Intact (code : List α) : Prop where
  last : ∀ c ∈ code.getLast?, isNewline c = false
  runs : ¬ tripleNewline <:+: '\n'.toNat :: codes code

/-- A newline at the end is stripped. -/
theorem rstripChr_append_newline {s : List α} {c : α} (hc : isNewline c = true) :
    rstripChr '\n' (s ++ [c]) = rstripChr '\n' s := by
  rw [isNewline] at hc
  rw [rstripChr, List.rdropWhile_concat, if_pos hc]
  rfl

/-- What is left of code that stands on lines of its own. -/
theorem inner_normal {f : Fenced α} {code : List α} {nl : α} (hbody : f.body = code ++ [nl])
    (hnl : isNewline nl = true) :
    f.normal.inner = rstripChr '\n' (collapseFrom 1 code) := by
  rw [Fenced.inner, Fenced.normal, hbody]
  obtain ⟨kept, hsplit⟩ := exists_collapseFrom_append code [nl] 1
  have hnl' : isChr '\n' nl = true := hnl
  rw [hsplit]
  by_cases hk : kept < 2
  · simp only [collapseFrom, hnl', hk, if_true]
    exact rstripChr_append_newline hnl
  · simp [collapseFrom, hnl', hk]

/-- Code comes through exactly if it is intact. -/
theorem rstrip_collapse_eq_iff (code : List α) :
    rstripChr '\n' (collapseFrom 1 code) = code ↔ Intact code := by
  have hsub : (rstripChr '\n' (collapseFrom 1 code)).Sublist (collapseFrom 1 code) :=
    (List.rdropWhile_prefix _ _).sublist
  have hruns : collapseFrom 1 code = code ↔
      ¬ tripleNewline <:+: '\n'.toNat :: codes code :=
    collapseFrom_eq_self_iff (by omega)
  have hlast : rstripChr '\n' code = code ↔ ∀ c ∈ code.getLast?, isNewline c = false := by
    rw [rstripChr, List.rdropWhile_eq_self_iff]
    constructor
    · intro h c hc
      have hne : code ≠ [] := by
        intro hnil
        rw [hnil] at hc
        simp at hc
      rw [Option.mem_def, List.getLast?_eq_some_getLast hne] at hc
      cases hc
      simpa [isNewline] using h hne
    · intro h hne
      have := h _ (List.getLast?_eq_some_getLast hne)
      simpa [isNewline] using this
  constructor
  · intro heq
    -- Both steps delete, so neither deleted anything.
    have hcollapse : collapseFrom 1 code = code := by
      refine (collapseFrom_sublist code 1).eq_of_length_le ?_
      have := hsub.length_le
      rwa [heq] at this
    rw [hcollapse] at heq
    exact ⟨hlast.mp heq, hruns.mp hcollapse⟩
  · intro h
    rw [hruns.mpr h.runs]
    exact hlast.mpr h.last

end SignalGateway.Proofs.Markdown
