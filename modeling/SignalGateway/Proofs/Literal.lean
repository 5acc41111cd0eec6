import SignalGateway.Proofs.HashLoss
import SignalGateway.Proofs.Utf16

/-!
# `SignalGateway.Proofs.Literal`: when fenced code comes out literally

Fenced code between plain text reaches the heading phase unchanged
(`fences_fencedDocument`). The ranges of the fences keep the inline phase away from it
(`inlines_eq_self`), but nothing keeps the heading phase away. `fenced_literal_iff`: the
code comes out literally exactly when no line of it is a heading marker. Lone surrogates
are the other condition, because their UTF-16 length is not defined.

The law is about a document with one fence, any text without formatting markers in front of it,
and any such text behind it. `frontOf` and `backOf` are what is left of these texts.

The direction from the result to the condition uses `Proofs.HashLoss`: if the heading phase finds
a marker, the code is not part of its output, so the result cannot be the literal one. The other
direction is a computation (`markdownToSignal_fencedDocument`).
-/

set_option autoImplicit false

namespace SignalGateway.Proofs.Markdown

open SignalGateway.Markdown
open Regex PyChar

/-! ### An inline phase without matches -/

/-- A match of an inline pattern starts at a formatting marker. -/
theorem isMarkerCode_of_matchAt {isWord : Nat → Bool} {p : Re Nat × Style}
    (hp : p ∈ inlinePatterns isWord) {t : List Nat} {i : Nat} {m : Match}
    (h : matchAt t p.1 i = some m) : (t[i]?).any isMarkerCode = true := by
  have hone : ∀ (q : Nat → Bool) (b : Re Nat), (∀ n, q n = true → isMarkerCode n = true) →
      outcomes t (.seq (.one q) b) i ≠ [] → (t[i]?).any isMarkerCode = true := by
    intro q b hq hne
    rw [outcomes_one_seq] at hne
    split at hne
    · rename_i hany
      obtain ⟨c, hc, hqc⟩ := (Option.any_eq_true _ _).mp hany
      exact (Option.any_eq_true _ _).mpr ⟨c, hc, hq c hqc⟩
    · exact absurd rfl hne
  have hbehind : ∀ (r q : Nat → Bool) (b : Re Nat), (∀ n, q n = true → isMarkerCode n = true) →
      outcomes t (.seq (.notBehind r) (.seq (.one q) b)) i ≠ [] →
      (t[i]?).any isMarkerCode = true := by
    intro r q b hq hne
    rw [outcomes_notBehind_seq] at hne
    split at hne
    · exact absurd rfl hne
    · exact hone q b hq hne
  have hne : outcomes t p.1 i ≠ [] := by
    intro hnil
    rw [matchAt_eq_none.mpr hnil] at h
    cases h
  have hclass : ∀ n, (backtick n = true → isMarkerCode n = true) ∧
      (chr '*' n = true → isMarkerCode n = true) ∧ (chr '_' n = true → isMarkerCode n = true) ∧
      (chr '~' n = true → isMarkerCode n = true) := by
    intro n
    simp +contextual [isMarkerCode]
  -- each of the patterns starts with one of the four markers, two after a look behind
  simp only [inlinePatterns, List.mem_cons, List.not_mem_nil, or_false] at hp
  rcases hp with rfl | rfl | rfl | rfl | rfl | rfl
  · exact hone _ _ (fun n => (hclass n).1) hne
  · exact hone _ _ (fun n => (hclass n).2.1) hne
  · exact hone _ _ (fun n => (hclass n).2.2.1) hne
  · exact hone _ _ (fun n => (hclass n).2.2.2) hne
  · exact hbehind _ _ _ (fun n => (hclass n).2.1) hne
  · exact hbehind _ _ _ (fun n => (hclass n).2.2.1) hne

variable {α : Type} [PyChar α]

/-- Markers inside occupied ranges are not collected. -/
theorem collect_eq_nil {isWord : Nat → Bool} {text : List α} {occupied : List (Nat × Nat)}
    (h : ∀ i, ((codes text)[i]?).any isMarkerCode = true →
      ∃ o ∈ occupied, o.1 ≤ i ∧ i < o.2) : collect isWord text occupied = [] := by
  have hpatterns : ∀ (ps : List (Re Nat × Style)), (∀ p ∈ ps, p ∈ inlinePatterns isWord) →
      ps.foldl (fun st (p : Re Nat × Style) =>
        (finditer (codes text) p.1).foldl (collectMatch p.2) st) ([], occupied)
          = ([], occupied) := by
    intro ps
    induction ps with
    | nil => intro _; rfl
    | cons p ps ih =>
      intro hps
      have hp := hps p List.mem_cons_self
      have hmatches : ∀ ms : List Match,
          (∀ m ∈ ms, m.start < m.stop ∧ matchAt (codes text) p.1 m.start = some m) →
          ms.foldl (collectMatch p.2) ([], occupied) = ([], occupied) := by
        intro ms
        induction ms with
        | nil => intro _; rfl
        | cons m ms ihm =>
          intro hms
          obtain ⟨hlt, hm⟩ := hms m List.mem_cons_self
          obtain ⟨o, ho, h1, h2⟩ := h _ (isMarkerCode_of_matchAt hp hm)
          -- The match starts inside the range `o`.
          have hoverlap : overlaps occupied m = true := by
            rw [overlaps, List.any_eq_true]
            exact ⟨o, ho, by simp only [Bool.and_eq_true, decide_eq_true_eq]; omega⟩
          rw [List.foldl_cons, collectMatch, if_pos hoverlap]
          exact ihm fun m' hm' => hms m' (List.mem_cons_of_mem m hm')
      rw [List.foldl_cons, hmatches]
      · exact ih fun q hq => hps q (List.mem_cons_of_mem p hq)
      · intro m hm
        have hlen := (inlinePatterns_spec isWord p hp).1
        obtain ⟨-, hstart, hfound⟩ := mem_scan (scan_finditer hlen) m hm
        have := (matchAt_spec hstart hfound).2.1
        exact ⟨by omega, hfound⟩
  rw [collect, hpatterns _ fun _ hp => hp]

/-- Markers inside fenced code are left alone, and the spans stay. -/
theorem inlines_eq_self {isWord : Nat → Bool} {text : List α} {spans : List Span}
    (h : ∀ i, ((codes text)[i]?).any isMarkerCode = true →
      ∃ s ∈ spans, s.style = .monospace ∧ s.start ≤ i ∧ i < s.start + s.length) :
    inlines isWord text spans = (text, spans.filter fun s => 0 < s.length) := by
  have hnil : collect isWord text ((spans.filter fun s => s.style = .monospace).map
      fun s => (s.start, s.start + s.length)) = [] := by
    refine collect_eq_nil fun i hi => ?_
    obtain ⟨s, hs, hstyle, h1, h2⟩ := h i hi
    refine ⟨(s.start, s.start + s.length), ?_, h1, h2⟩
    exact List.mem_map.mpr ⟨s, List.mem_filter.mpr ⟨hs, by simpa using hstyle⟩, rfl⟩
  have hadjust : ∀ s : Span, adjustSpan [] s = if 0 < s.length then some s else none := by
    intro s
    simp [adjustSpan, adj, shiftBefore]
  have hfilter : spans.filterMap (adjustSpan []) = spans.filter fun s => 0 < s.length := by
    rw [← List.filterMap_eq_filter]
    refine List.filterMap_congr fun s _ => ?_
    rw [hadjust, Option.guard_apply]
    simp
  rw [inlines, hnil]
  show (([] : List α) ++ text.drop 0, spans.filterMap (adjustSpan []) ++ []) = _
  rw [List.nil_append, List.drop_zero, List.append_nil, hfilter]

/-! ### Fenced code between plain text -/

/-- The document with the code `c` in a fence between `p` and `s`. -/
def fencedDocument (p c s : List α) : List α :=
  p ++ lit "\n```\n" ++ c ++ lit "\n```\n" ++ s

/-- Text without formatting markers and hashes. -/
def PlainText (s : List α) : Prop := ∀ x ∈ s, isMarker x = false ∧ isHash x = false

/-- The text in front of the code when the fence is taken away. -/
def frontOf (p : List α) : List α := collapseFrom 0 (lstrip (p ++ [ofChar '\n']))

/-- The text behind the code when the fence is taken away. -/
def backOf (s : List α) : List α := collapseFrom 0 (rstrip (ofChar '\n' :: s))

/-- A newline is one. -/
theorem isNewline_ofChar : isNewline (ofChar '\n' : α) = true := by
  rw [isNewline, isChr, code_ofChar]
  decide

/-- Plain text has no backtick. -/
theorem noBacktick_of_plainText {s : List α} (h : PlainText s) : NoBacktick s := by
  intro x hx
  have hmark := (h x hx).1
  rw [isMarker, isMarkerCode] at hmark
  simp only [Bool.or_eq_false_iff] at hmark
  exact hmark.1.1.1

/-- A newline is plain text. -/
theorem plainText_newline : PlainText [(ofChar '\n' : α)] := by
  intro x hx
  rw [List.mem_singleton.mp hx, isMarker, isHash, isChr, code_ofChar]
  decide

/-- Two plain texts. -/
theorem PlainText.append {u v : List α} (hu : PlainText u) (hv : PlainText v) :
    PlainText (u ++ v) := by
  intro x hx
  rcases List.mem_append.mp hx with hx | hx
  · exact hu x hx
  · exact hv x hx

/-- A part of a plain text. -/
theorem PlainText.sublist {u v : List α} (hv : PlainText v) (h : u.Sublist v) : PlainText u :=
  fun x hx => hv x (h.subset hx)

/-- What is left in front of the code is plain. -/
theorem plainText_frontOf {p : List α} (hp : PlainText p) : PlainText (frontOf p) :=
  (hp.append plainText_newline).sublist
    ((collapseFrom_sublist _ _).trans (List.dropWhile_suffix _).sublist)

/-- What is left behind the code is plain. -/
theorem plainText_backOf {s : List α} (hs : PlainText s) : PlainText (backOf s) :=
  (plainText_newline.append hs).sublist
    ((collapseFrom_sublist _ _).trans (List.rdropWhile_prefix _ _).sublist)

/-- Intact code reaches the heading phase unchanged, with its range. -/
theorem fences_fencedDocument {p c s : List α} (hp : PlainText p) (hs : PlainText s)
    (hc : NoBacktick c) (hintact : Intact c) :
    fences (normalizeWhitespace (fencedDocument p c s))
      = (frontOf p ++ c ++ backOf s, [⟨(frontOf p).length, c.length, .monospace⟩]) := by
  have hcodes : codes (lit "```" : List α) = ticks := by
    rw [codes_lit]
    decide
  have hnlcodes : codes [(ofChar '\n' : α)] = ['\n'.toNat] := by
    rw [codes, List.map_singleton, code_ofChar]
  -- the document is one fence after a front without a tick
  let f : Fenced α := ⟨lit "```" ++ [ofChar '\n'], c ++ [ofChar '\n'], lit "```",
    ofChar '\n' :: s⟩
  have hf : f.Ok := by
    refine ⟨⟨[], ?_, by simp⟩, hcodes, ?_, ?_⟩
    · show codes (lit "```" ++ [ofChar '\n']) = _
      rw [codes_append, hcodes, hnlcodes]
      rfl
    · exact hc.append (noBacktick_of_plainText plainText_newline)
    · exact (noBacktick_of_plainText plainText_newline).append (noBacktick_of_plainText hs)
  have hdoc : fencedDocument p c s
      = (p ++ [ofChar '\n']) ++ (([] ++ [f]).map Fenced.text).flatten := by
    have hlit : (lit "\n```\n" : List α) = ofChar '\n' :: (lit "```" ++ [ofChar '\n']) := by
      rfl
    simp [fencedDocument, hlit, f, Fenced.text]
  -- the body keeps its content, as normalizing does not change it
  have hinner : f.stripRest.normal.inner = c := by
    rw [inner_normal (f := f.stripRest) rfl isNewline_ofChar, rstrip_collapse_eq_iff]
    exact hintact
  have hfront : NoBacktick (p ++ [(ofChar '\n' : α)]) :=
    noBacktick_of_plainText (hp.append plainText_newline)
  rw [hdoc, fences_normalize_eq hfront (by simp) hf]
  have hrest : f.stripRest.normal.rest = backOf s := rfl
  simp only [List.nil_append, List.map_cons, List.map_nil, List.flatten_cons, List.flatten_nil,
    List.append_nil, fenceSpans, Fenced.plain, hinner, hrest]
  rw [frontOf, List.append_assoc]

/-! ### Heading markers in the code -/

/-- The line end behind the code: there is none if nothing but whitespace follows. -/
def lineEnd (s : List α) : List Nat := if s.all isSpace then [] else ['\n'.toNat]

/-- What is left in front of the code is nothing, or ends with a newline. -/
theorem codes_frontOf (p : List α) :
    frontOf p = [] ∨ ∃ w, codes (frontOf p) = w ++ ['\n'.toNat] := by
  have hends : EndsLine (frontOf p) := by
    refine EndsLine.collapseFrom (EndsLine.suffix (t := p ++ [ofChar '\n']) ?_
      (List.dropWhile_suffix _)) 0
    intro c hc
    rw [List.getLast?_append_of_ne_nil _ (by simp)] at hc
    cases hc
    exact isNewline_ofChar
  exact codes_endsLine hends

/-- What is left behind the code is nothing, or begins with a newline. -/
theorem codes_backOf (s : List α) :
    (codes (backOf s) = [] ∧ lineEnd s = []) ∨
      (lineEnd s = ['\n'.toNat] ∧ ∃ w, codes (backOf s) = '\n'.toNat :: w) := by
  by_cases hall : s.all isSpace = true
  · left
    have hspaces : ∀ x ∈ ofChar '\n' :: s, isSpace x = true := by
      intro x hx
      rcases List.mem_cons.mp hx with rfl | hx
      · exact isSpace_of_isNewline isNewline_ofChar
      · exact List.all_eq_true.mp hall x hx
    have hnil : rstrip (ofChar '\n' :: s) = [] := by
      rw [rstrip, List.rdropWhile_eq_nil_iff]
      exact hspaces
    rw [backOf, hnil, lineEnd, if_pos hall]
    exact ⟨rfl, rfl⟩
  · right
    -- the newline after the fence stays, as `s` is not stripped away
    have hne : rstrip s ≠ [] := by
      intro hnil
      rw [rstrip, List.rdropWhile_eq_nil_iff] at hnil
      exact hall (List.all_eq_true.mpr hnil)
    have hsplit : rstrip (ofChar '\n' :: s) = ofChar '\n' :: rstrip s :=
      rstrip_append_of_ne_nil (u := [ofChar '\n']) hne
    have hnl : isChr '\n' (ofChar '\n' : α) = true := isNewline_ofChar
    refine ⟨by rw [lineEnd, if_neg hall], codes (collapseFrom 1 (rstrip s)), ?_⟩
    rw [backOf, hsplit, collapseFrom, if_pos hnl, if_pos (by omega)]
    rw [codes, List.map_cons, code_ofChar]
    rfl

/-- The heading markers of the text in front of the heading phase are those of the code. -/
theorem exists_headingAt_iff {p c s : List α} (hp : PlainText p) (hs : PlainText s) :
    (∃ i, HeadingAt (codes (frontOf p ++ c ++ backOf s)) i)
      ↔ ∃ i, HeadingAt (codes c ++ lineEnd s) i := by
  have hnohash : ∀ {u : List α}, PlainText u → ∀ n ∈ codes u, chr '#' n = false := by
    intro u hu n hn
    obtain ⟨x, hx, rfl⟩ := List.mem_map.mp hn
    exact (hu x hx).2
  -- the front has no hash and ends a line
  have hfront : ∀ w, HasMarker true (codes (frontOf p) ++ w) ↔ HasMarker true w := by
    intro w
    rcases codes_frontOf p with hnil | ⟨u, hu⟩
    · rw [hnil]
      rfl
    · have hno := not_hasMarker (hnohash (plainText_frontOf hp)) true
      rw [hu] at hno ⊢
      rw [List.append_assoc, List.singleton_append, hasMarker_append]
      exact or_iff_right hno
  rw [← hasMarker_iff, ← hasMarker_iff, codes_append, codes_append, List.append_assoc, hfront]
  rcases codes_backOf s with ⟨hback, hend⟩ | ⟨hend, w, hback⟩
  · rw [hback, hend]
  · have hno := not_hasMarker (hnohash (plainText_backOf hs)) true
    rw [hback] at hno ⊢
    rw [hend, hasMarker_append]
    -- what is left after the fence has no hash either
    refine or_iff_left fun hw => hno ?_
    rw [HasMarker]
    exact Or.inr hw

/-! ### The law -/

/-- Without heading markers the whole document passes through the phases. -/
theorem spansOf_fencedDocument (isWord : Nat → Bool) {p c s : List α} (hp : PlainText p)
    (hs : PlainText s) (hc : NoBacktick c) (hne : c ≠ []) (hintact : Intact c)
    (hno : ∀ i, ¬ HeadingAt (codes c ++ lineEnd s) i) :
    spansOf isWord (fencedDocument p c s)
      = (frontOf p ++ c ++ backOf s, [⟨(frontOf p).length, c.length, .monospace⟩]) := by
  have hfences := fences_fencedDocument hp hs hc hintact
  have hheadings : headings (frontOf p ++ c ++ backOf s) = (frontOf p ++ c ++ backOf s, []) := by
    refine headings_eq_self fun i hi => ?_
    obtain ⟨j, hj⟩ := (exists_headingAt_iff hp hs).mp ⟨i, hi⟩
    exact hno j hj
  rw [spansOf_eq, unfenced, hfences]
  simp only [hheadings, List.append_nil]
  rw [inlines_eq_self]
  · have hpos : 0 < c.length := List.length_pos_iff.mpr hne
    simp [hpos]
  · -- All formatting markers stand in the code.
    intro i hi
    rw [getElem?_codes, Option.any_map] at hi
    obtain ⟨x, hx, hmark⟩ := (Option.any_eq_true _ _).mp hi
    have hmark : isMarker x = true := hmark
    refine ⟨_, List.mem_singleton_self _, rfl, ?_, ?_⟩
    · by_contra hlt
      rw [List.append_assoc, List.getElem?_append_left (by simpa using hlt)] at hx
      rw [(plainText_frontOf hp x (List.mem_of_getElem? hx)).1] at hmark
      cases hmark
    · by_contra hge
      rw [List.getElem?_append_right (by simpa using hge)] at hx
      rw [(plainText_backOf hs x (List.mem_of_getElem? hx)).1] at hmark
      cases hmark

/-- The conversion of a fence between plain texts. -/
theorem markdownToSignal_fencedDocument (isWord : Nat → Bool) {p c s : List α}
    (hp : PlainText p) (hs : PlainText s) (hc : NoBacktick c) (hne : c ≠ [])
    (hintact : Intact c) (hno : ∀ i, ¬ HeadingAt (codes c ++ lineEnd s) i) :
    markdownToSignal isWord (fencedDocument p c s) = (do
      let start ← utf16Len (frontOf p)
      let length ← utf16Len c
      return (frontOf p ++ c ++ backOf s, [⟨start, length, .monospace⟩])) := by
  rw [markdownToSignal_eq, spansOf_fencedDocument isWord hp hs hc hne hintact hno]
  have hsort : sortSpans [⟨(frontOf p).length, c.length, .monospace⟩]
      = [⟨(frontOf p).length, c.length, .monospace⟩] := rfl
  have htake : (frontOf p ++ c ++ backOf s).take (frontOf p).length = frontOf p := by
    rw [List.append_assoc, List.take_left]
  have hslice : slice (frontOf p ++ c ++ backOf s) (frontOf p).length
      ((frontOf p).length + c.length) = c := by
    rw [slice, ← List.length_append, List.take_left, List.drop_left]
  -- the two lengths of the only range
  have hrange : toRange (frontOf p ++ c ++ backOf s)
      ⟨(frontOf p).length, c.length, .monospace⟩ = (do
        let start ← utf16Len (frontOf p)
        let length ← utf16Len c
        return ⟨start, length, .monospace⟩) := by
    rw [toRange, htake, hslice]
  simp only [hsort]
  rw [List.filter_cons_of_pos (by simp), List.filter_nil, List.mapM_cons, List.mapM_nil, hrange]
  cases utf16Len (frontOf p) with
  | error e => rfl
  | ok a => cases utf16Len c <;> rfl

/-- A surrogate is no space. -/
theorem isSpace_of_isSurrogate {x : α} (h : isSurrogate (code x) = true) :
    isSpace x = false := by
  rw [isSurrogate, Bool.and_eq_true, decide_eq_true_eq, decide_eq_true_eq] at h
  rw [isSpace, isSpaceCode]
  simp only [Bool.or_eq_false_iff, Bool.and_eq_false_iff, decide_eq_false_iff_not,
    beq_eq_false_iff_ne]
  omega

/-- Code without newlines at its ends and without triples inside is intact. -/
theorem intact_of_trimmed {c : List α} (hhead : ∀ x ∈ c.head?, isNewline x = false)
    (hlast : ∀ x ∈ c.getLast?, isNewline x = false) (hruns : ¬ tripleNewline <:+: codes c) :
    Intact c := by
  refine ⟨hlast, ?_⟩
  rw [List.infix_cons_iff]
  rintro (hpre | hinfix)
  · cases c with
    | nil => simp [tripleNewline, codes] at hpre
    | cons x c =>
      rw [tripleNewline, List.cons_prefix_cons, codes, List.map_cons,
        List.cons_prefix_cons] at hpre
      have := hhead x rfl
      rw [isNewline, isChr, beq_eq_false_iff_ne] at this
      exact this hpre.2.1.symm
  · exact hruns hinfix

/-- Fenced code between plain text comes out literally exactly when no line of it is a
heading marker, and what is in front of its end can be measured in UTF-16. -/
theorem fenced_literal_iff (isWord : Nat → Bool) {p c s : PyStr} (hp : PlainText p)
    (hs : PlainText s) (hne : c ≠ []) (hc : NoBacktick c)
    (hhead : ∀ x ∈ c.head?, isNewline x = false) (hlast : ∀ x ∈ c.getLast?, isNewline x = false)
    (hruns : ¬ tripleNewline <:+: codes c) :
    (∃ plain ranges, markdownToSignal isWord (p ++ lit "\n```\n" ++ c ++ lit "\n```\n" ++ s)
        = .ok (plain, ranges) ∧ c <:+: plain) ↔
      (∀ i, ¬ HeadingAt (codes c ++ lineEnd s) i) ∧
        ∀ x ∈ p ++ c, isSurrogate (code x) = false := by
  have hintact := intact_of_trimmed hhead hlast hruns
  constructor
  · rintro ⟨plain, ranges, hok, hinfix⟩
    have hno : ∀ i, ¬ HeadingAt (codes c ++ lineEnd s) i := by
      intro i hi
      have hheading := (exists_headingAt_iff (c := c) hp hs).mpr ⟨i, hi⟩
      refine not_infix_headings (fun x hx => (plainText_frontOf hp x hx).2)
        (fun x hx => (plainText_backOf hs x hx).2) hheading ?_
      -- only the headings take characters away that are no marker
      have hplain : unmarked plain = unmarked (headings (frontOf p ++ c ++ backOf s)).1 := by
        have hfences := fences_fencedDocument hp hs hc hintact
        rw [plain_eq hok, spansOf_eq, unmarked, filter_inlines]
        show (headings (fences (normalizeWhitespace (fencedDocument p c s))).1).1.filter _ = _
        rw [hfences]
        rfl
      rw [← hplain]
      exact hinfix.filter _
    refine ⟨hno, ?_⟩
    -- a surrogate before the end of the code makes a length raise
    intro x hx
    by_contra hsurr
    have hbad : isSurrogate (code x) = true := by simpa using hsurr
    have hspace := isSpace_of_isSurrogate hbad
    have hrun := markdownToSignal_fencedDocument isWord hp hs hc hne hintact hno
    rw [fencedDocument, hok] at hrun
    rcases List.mem_append.mp hx with hx | hx
    · have hmem : x ∈ frontOf p :=
        mem_collapseFrom (isNewline_of_not_isSpace hspace)
          (mem_lstrip hspace (List.mem_append_left _ hx)) 0
      rw [utf16Len_of_surrogate ⟨x, hmem, hbad⟩] at hrun
      cases hrun
    · rw [utf16Len_of_surrogate ⟨x, hx, hbad⟩] at hrun
      cases hfront : utf16Len (frontOf p) <;> rw [hfront] at hrun <;> cases hrun
  · rintro ⟨hno, hsurr⟩
    have hfront : ∀ x ∈ frontOf p, isSurrogate (code x) = false := by
      intro x hx
      have hmem := ((collapseFrom_sublist _ _).trans (List.dropWhile_suffix _).sublist).subset hx
      rcases List.mem_append.mp hmem with hmem | hmem
      · exact hsurr x (List.mem_append_left _ hmem)
      · rw [List.mem_singleton.mp hmem, code_ofChar]
        decide
    have hrun := markdownToSignal_fencedDocument isWord hp hs hc hne hintact hno
    rw [utf16Len_of_no_surrogate hfront,
      utf16Len_of_no_surrogate fun x hx => hsurr x (List.mem_append_right _ hx)] at hrun
    exact ⟨frontOf p ++ c ++ backOf s, _, hrun, ⟨frontOf p, backOf s, rfl⟩⟩

/-- The law for a command between two words. -/
theorem fenced_literal_iff_ls :
    (∃ plain ranges, markdownToSignal asciiWord
        ((lit "a" : PyStr) ++ lit "\n```\n" ++ lit "ls" ++ lit "\n```\n" ++ lit "b")
          = .ok (plain, ranges) ∧ (lit "ls" : PyStr) <:+: plain) ↔
      (∀ i, ¬ HeadingAt (codes (lit "ls" : PyStr) ++ lineEnd (lit "b" : PyStr)) i) ∧
        ∀ x ∈ (lit "a" : PyStr) ++ lit "ls", isSurrogate (code x) = false :=
  fenced_literal_iff asciiWord (fun x hx => by fin_cases hx; decide)
    (fun x hx => by fin_cases hx; decide) (by decide)
    (fun x hx => by fin_cases hx <;> decide) (fun x hx => by cases hx; decide)
    (fun x hx => by cases hx; decide) (by decide)

/-- A shell comment in fenced code loses its hash. -/
theorem markdownToSignal_comment :
    ∃ plain ranges, markdownToSignal asciiWord
        ((lit "a" : PyStr) ++ lit "\n```\n" ++ lit "# run" ++ lit "\n```\n" ++ lit "b")
          = .ok (plain, ranges) ∧ ¬ (lit "# run" : PyStr) <:+: plain :=
  ⟨lit "a\nrun\nb", [⟨2, 3, .bold⟩, ⟨2, 5, .monospace⟩], by decide +kernel, by decide⟩

end SignalGateway.Proofs.Markdown
