import SignalGateway.Proofs.Literal

/-!
# `SignalGateway.Proofs.Document`: fences on lines of their own

`Fenced.Standing` describes a fence that stands on lines of its own, between other lines.
`exists_unfenced` is the text in front of the heading phase around one such fence, and
`mem_fenceSpans` are the spans of all of them. `hasMarker_plainFront_iff`: a heading marker
stands in front of the code there exactly when one stands in front of it in the document.

The definitions follow what the heading phase can see. `EndsLine` is a text that ends with a
newline, or nothing: behind such a text the heading markers are those of what follows
(`headingAt_add_iff`), and in front of a line end they do not depend on what follows
(`headingAt_append_newline`).

Whitespace is normalised before the fences are cut. `Fenced.Standing.inner_eq` says what that does
to the code of a fence, and `markerHere_collapse` that it makes no marker and removes none.
`stripLast` is needed because the text is stripped at its end, where the rest behind the last
fence is.
-/

set_option autoImplicit false

namespace SignalGateway.Proofs.Markdown

open SignalGateway.Markdown
open Regex PyChar

variable {α : Type} [PyChar α]

/-! ### Markers in texts that are put together -/

/-- Text behind a line end is read on its own. -/
theorem hasMarker_append_of_endsLine {u : List α} (hu : EndsLine u) (w : List Nat) :
    HasMarker true (codes u ++ w) ↔ HasMarker true (codes u) ∨ HasMarker true w := by
  rcases codes_endsLine hu with rfl | ⟨v, hv⟩
  · exact (or_iff_right fun h => h).symm
  · rw [hv, List.append_assoc, List.singleton_append, hasMarker_append]

/-- A heading marker stays one when text is added behind it. -/
theorem HeadingAt.append {u : List Nat} {i : Nat} (h : HeadingAt u i) (v : List Nat) :
    HeadingAt (u ++ v) i := by
  rw [headingAt_iff_drop] at h ⊢
  obtain ⟨hline, hhash, hle, hgap⟩ := h
  have hpos : i < u.length := by
    by_contra hge
    rw [List.drop_eq_nil_of_le (by omega)] at hhash
    exact absurd hhash (by decide)
  have hnext := (one_le_runLength_iff _ _ _).mp hgap
  rw [Nat.zero_add] at hnext
  obtain ⟨c, hc, hspace⟩ := (Option.any_eq_true _ _).mp hnext
  have hlen : hashes (u.drop i) 0 < (u.drop i).length := (List.getElem?_eq_some_iff.mp hc).1
  -- The run of hashes ends inside `u`.
  have hrun : hashes (u.drop i ++ v) 0 = hashes (u.drop i) 0 := by
    have htake : (u.drop i ++ v).takeWhile (chr '#') = (u.drop i).takeWhile (chr '#') := by
      rw [List.takeWhile_append, if_neg]
      intro hall
      rw [hashes, runLength, List.drop_zero, hall] at hlen
      omega
    rw [hashes, runLength, List.drop_zero, htake]
    rfl
  rw [List.drop_append_of_le_length hpos.le]
  refine ⟨?_, by rw [hrun]; exact hhash, by rw [hrun]; exact hle, ?_⟩
  · rcases hline with hzero | hnl
    · exact Or.inl hzero
    · refine Or.inr ?_
      rw [List.getElem?_append_left (by omega)]
      exact hnl
  · rw [gap, one_le_runLength_iff, hrun, Nat.zero_add, List.getElem?_append_left hlen, hc]
    exact hspace

/-- A heading marker in front of a line end does not depend on what follows. -/
theorem headingAt_append_newline {u v : List Nat} {i : Nat} (hi : i ≤ u.length) :
    HeadingAt (u ++ '\n'.toNat :: v) i ↔ HeadingAt (u ++ ['\n'.toNat]) i := by
  have hline : LineStart (u ++ '\n'.toNat :: v) i ↔ LineStart (u ++ ['\n'.toNat]) i := by
    rw [LineStart, LineStart]
    refine or_congr_right' fun hne => ?_
    rw [List.getElem?_append_left (by omega), List.getElem?_append_left (by omega)]
  rw [headingAt_iff_drop, headingAt_iff_drop, hline, List.drop_append_of_le_length hi,
    List.drop_append_of_le_length hi, markerHere_append]

/-- The heading markers in front of a line end are those of the text in front of it. -/
theorem headingAt_iff_of_endsLine {u : List α} (hu : EndsLine u) {w : List Nat} {i : Nat}
    (hi : i < u.length) : HeadingAt (codes u ++ w) i ↔ HeadingAt (codes u) i := by
  rcases codes_endsLine hu with rfl | ⟨v, hv⟩
  · exact absurd hi (Nat.not_lt_zero i)
  · have hlen : u.length = v.length + 1 := by
      rw [← length_codes, hv, List.length_append]
      rfl
    rw [hv, List.append_assoc, List.singleton_append, headingAt_append_newline (by omega)]

/-- Behind a line end the heading markers are those of the text behind it. -/
theorem headingAt_add_iff {u : List α} (hu : EndsLine u) {w : List Nat} {i : Nat} :
    HeadingAt (codes u ++ w) (u.length + i) ↔ HeadingAt w i := by
  have hdrop : (codes u ++ w).drop (u.length + i) = w.drop i := by
    rw [← length_codes u, List.drop_length_add_append]
  have hline : LineStart (codes u ++ w) (u.length + i) ↔ LineStart w i := by
    -- `u` is empty or ends in a newline, so a line of `w` starts a line of both
    rcases codes_endsLine hu with rfl | ⟨v, hv⟩
    · simp [codes]
    · have hlen : u.length = v.length + 1 := by
        rw [← length_codes, hv, List.length_append]
        rfl
      rw [LineStart, LineStart, hlen, hv]
      cases i with
      | zero =>
        rw [Nat.add_zero, Nat.add_sub_cancel, List.append_assoc,
          List.getElem?_append_right le_rfl, Nat.sub_self]
        have hnl : chr '\n' '\n'.toNat = true := by decide
        exact iff_of_true (Or.inr hnl) (Or.inl rfl)
      | succ i =>
        have hpos : v.length + 1 + (i + 1) - 1 = (v ++ ['\n'.toNat]).length + i := by
          rw [List.length_append, List.length_singleton]
          omega
        rw [hpos, List.getElem?_append_right (Nat.le_add_right _ _), Nat.add_sub_cancel_left]
        simp
  rw [headingAt_iff_drop, headingAt_iff_drop, hline, hdrop]

/-! ### Markers and whitespace -/

/-- Collapsing newlines keeps the marker in front of them. -/
theorem markerHere_collapse (s : List α) : ∀ u : List Nat,
    MarkerHere (u ++ codes (collapseFrom 0 s)) ↔ MarkerHere (u ++ codes s) := by
  induction s with
  | nil => intro u; rfl
  | cons c s ih =>
    intro u
    by_cases hc : isNewline c = true
    · have hc' : isChr '\n' c = true := hc
      rw [collapseFrom, if_pos hc', if_pos (by omega), codes_cons_newline hc,
        codes_cons_newline hc, markerHere_append, markerHere_append u (codes s)]
    · rw [collapseFrom_cons (by simpa using hc)]
      have hsplit : ∀ t : List α, u ++ codes (c :: t) = (u ++ [code c]) ++ codes t := by
        intro t
        simp [codes]
      rw [hsplit, hsplit, ih]

/-- Collapsing newlines keeps the heading markers. -/
theorem hasMarker_collapse (s : List α) : ∀ (start : Bool) (kept : Nat),
    (2 ≤ kept → start = true) →
    (HasMarker start (codes (collapseFrom kept s)) ↔ HasMarker start (codes s)) := by
  induction s with
  | nil => intro start kept _; rfl
  | cons c s ih =>
    intro start kept hkept
    have hcons : ∀ t : List α, codes (c :: t) = code c :: codes t := fun t => rfl
    by_cases hc : isNewline c = true
    · have hcode := code_of_isNewline hc
      have hc' : isChr '\n' c = true := hc
      rw [hcons, hcode, hasMarker_newline, collapseFrom, if_pos hc']
      by_cases hlt : kept < 2
      · rw [if_pos hlt, hcons, hcode, hasMarker_newline]
        exact ih true (kept + 1) fun _ => rfl
      · rw [if_neg hlt, hkept (by omega)]
        exact ih true kept fun _ => rfl
    · have hc : isNewline c = false := by simpa using hc
      have hmarker := markerHere_collapse s [code c]
      rw [collapseFrom_cons hc, hcons, hcons, HasMarker, HasMarker]
      refine or_congr (and_congr_right fun _ => hmarker) (ih _ 0 (by omega))

/-! ### Fences on lines of their own -/

/-- The fence of a document: the code and the closing backticks end their lines, no line of
the code is a heading marker, and there are no formatting markers. -/
structure Fenced.Standing (f : Fenced α) : Prop extends f.Ok where
  body_ne : f.body ≠ []
  body_line : EndsLine f.body
  body_marker : ¬ HasMarker true (codes f.body)
  body_unmarked : ∀ x ∈ f.body, isMarker x = false
  rest_line : ∃ nl w, f.rest = nl :: w ∧ isNewline nl = true ∧ EndsLine w
  rest_unmarked : ∀ x ∈ f.rest, isMarker x = false

/-- The code of a fence: its body without the last newline. -/
def Fenced.content (f : Fenced α) : List α := f.body.dropLast

/-- The body is the content and the newline behind it. -/
theorem Fenced.Standing.body_eq {f : Fenced α} (h : f.Standing) :
    ∃ nl, f.body = f.content ++ [nl] ∧ isNewline nl = true :=
  ⟨f.body.getLast h.body_ne, (List.dropLast_append_getLast h.body_ne).symm,
    h.body_line _ (List.getLast?_eq_some_getLast h.body_ne)⟩

/-- What the fence phase keeps of the content. -/
theorem Fenced.Standing.inner_eq {f : Fenced α} (h : f.Standing) :
    f.normal.inner = rstripChr '\n' (collapseFrom 1 f.content) := by
  obtain ⟨nl, hbody, hnl⟩ := h.body_eq
  exact inner_normal hbody hnl

/-- The rest of the closing line ends a line. -/
theorem Fenced.Standing.endsLine_rest {f : Fenced α} (h : f.Standing) : EndsLine f.rest := by
  obtain ⟨nl, w, hrest, hnl, hw⟩ := h.rest_line
  rw [hrest]
  by_cases hnil : w = []
  · rw [hnil]
    intro c hc
    cases hc
    exact hnl
  · exact (endsLine_cons hnil).mpr hw

/-- No heading marker stands in the code that the fence phase leaves. -/
theorem Fenced.Standing.inner_marker {f : Fenced α} (h : f.Standing) :
    ¬ HasMarker true (codes f.normal.inner ++ ['\n'.toNat]) := by
  intro hmarker
  have hcollapse := hasMarker_collapse f.body true 1 fun _ => rfl
  refine h.body_marker (hcollapse.mp ?_)
  -- What is stripped from the collapsed body are newlines, at least one.
  have hsplit : collapseFrom 1 f.body
      = f.normal.inner ++ (collapseFrom 1 f.body).rtakeWhile (isChr '\n') :=
    List.rdropWhile_append_rtakeWhile.symm
  have hne : (collapseFrom 1 f.body).rtakeWhile (isChr '\n') ≠ [] := by
    rw [Ne, List.rtakeWhile_eq_nil_iff]
    intro hlast
    have hbody := collapseFrom_ne_nil h.body_ne (show 1 < 2 by omega)
    exact hlast hbody (h.body_line.collapseFrom 1 _ (List.getLast?_eq_some_getLast hbody))
  obtain ⟨c, cs, hcs⟩ := List.exists_cons_of_ne_nil hne
  have hc : code c = '\n'.toNat := by
    have := List.mem_rtakeWhile_imp (hcs ▸ List.mem_cons_self)
    rw [isChr, beq_iff_eq] at this
    exact this
  rw [hsplit, codes_append, hcs, codes, codes, List.map_cons, hc, hasMarker_append]
  exact Or.inl hmarker

/-! ### The text in front of the heading phase -/

/-- The fences with the whitespace behind the last one stripped. -/
def stripLast : List (Fenced α) → List (Fenced α)
  | [] => []
  | [f] => [f.stripRest]
  | f :: g :: fs => f :: stripLast (g :: fs)

/-- The last fence is stripped. -/
theorem stripLast_concat (fs : List (Fenced α)) (g : Fenced α) :
    stripLast (fs ++ [g]) = fs ++ [g.stripRest] := by
  induction fs with
  | nil => rfl
  | cons f fs ih =>
    cases fs with
    | nil => rfl
    | cons h fs =>
      show f :: stripLast (h :: fs ++ [g]) = _
      rw [ih]
      rfl

/-- The fences in front of the last one are not. -/
theorem stripLast_append (fs : List (Fenced α)) (f : Fenced α) (gs : List (Fenced α)) :
    stripLast (fs ++ f :: gs) = fs ++ stripLast (f :: gs) := by
  induction fs with
  | nil => rfl
  | cons h fs ih =>
    cases fs with
    | nil => rfl
    | cons k fs =>
      show h :: stripLast (k :: fs ++ f :: gs) = _
      rw [ih]
      rfl

/-- What the fence phase makes of the text in front of a fence. -/
def plainFront (front : List α) (fs : List (Fenced α)) : List α :=
  collapseFrom 0 (lstrip front) ++ ((fs.map Fenced.normal).map Fenced.plain).flatten

/-- The fence phase on a document finds its fences. -/
theorem fences_document {front : List α} {fs : List (Fenced α)} (hfront : NoBacktick front)
    (hfs : ∀ f ∈ fs, f.Standing) (hne : fs ≠ []) :
    fences (normalizeWhitespace (front ++ (fs.map Fenced.text).flatten))
      = (collapseFrom 0 (lstrip front)
          ++ (((stripLast fs).map Fenced.normal).map Fenced.plain).flatten,
        fenceSpans (collapseFrom 0 (lstrip front)).length
          ((stripLast fs).map Fenced.normal)) := by
  rcases List.eq_nil_or_concat fs with hnil | ⟨init, last, hsplit⟩
  · exact absurd hnil hne
  · rw [hsplit, List.concat_eq_append] at hfs ⊢
    rw [stripLast_concat]
    exact fences_normalize_eq hfront
      (fun f hf => (hfs f (List.mem_append_left _ hf)).toOk) (hfs last (by simp)).toOk

/-- The plain text of a fence is a part of its text. -/
theorem normal_plain_sublist (f : Fenced α) : f.normal.plain.Sublist f.text := by
  have hinner := (inner_sublist_body f.normal).trans (collapseFrom_sublist f.body 1)
  have hrest := collapseFrom_sublist f.rest 0
  refine (hinner.append hrest).trans ?_
  rw [Fenced.text, List.append_assoc, List.append_assoc]
  refine List.Sublist.trans ?_ (List.sublist_append_right _ _)
  exact (List.Sublist.refl f.body).append (List.sublist_append_right _ _)

/-- So it is for all fences. -/
theorem plains_sublist (fs : List (Fenced α)) :
    ((fs.map Fenced.normal).map Fenced.plain).flatten.Sublist
      (fs.map Fenced.text).flatten := by
  induction fs with
  | nil => exact List.Sublist.slnil
  | cons f fs ih => exact (normal_plain_sublist f).append ih

/-- Stripping only deletes. -/
theorem stripRest_text_sublist (f : Fenced α) : f.stripRest.text.Sublist f.text :=
  List.Sublist.append_left (List.rdropWhile_prefix _ _).sublist _

/-- So it does for all fences. -/
theorem stripLast_texts_sublist (fs : List (Fenced α)) :
    ((stripLast fs).map Fenced.text).flatten.Sublist (fs.map Fenced.text).flatten := by
  rcases List.eq_nil_or_concat fs with rfl | ⟨init, last, hsplit⟩
  · exact List.Sublist.slnil
  · rw [hsplit, List.concat_eq_append, stripLast_concat]
    simp only [List.map_append, List.flatten_append, List.map_cons, List.map_nil,
      List.flatten_cons, List.flatten_nil, List.append_nil]
    exact List.Sublist.append_left (stripRest_text_sublist last) _

/-- What stands in front of the code is a part of the document. -/
theorem plainFront_sublist (front : List α) (fs : List (Fenced α)) :
    (plainFront front fs).Sublist (front ++ (fs.map Fenced.text).flatten) :=
  ((collapseFrom_sublist _ 0).trans (List.dropWhile_suffix _).sublist).append
    (plains_sublist fs)

/-- The text in front of the heading phase around one fence: what is in front of the fence,
its code, and the rest, which starts with a newline if there is any. -/
theorem exists_unfenced {fs gs : List (Fenced α)} {f : Fenced α} (hf : f.Standing)
    (front : List α) :
    ∃ back, collapseFrom 0 (lstrip front)
        ++ (((stripLast (fs ++ f :: gs)).map Fenced.normal).map Fenced.plain).flatten
          = plainFront front fs ++ f.normal.inner ++ back ∧
      back.Sublist (f.rest ++ (gs.map Fenced.text).flatten) ∧
      (back = [] ∨ ∃ nl w, back = nl :: w ∧ isNewline nl = true) := by
  obtain ⟨nl, w, hrest, hnl, hw⟩ := hf.rest_line
  have hnl' : isChr '\n' nl = true := hnl
  rw [stripLast_append]
  -- only the last fence loses the whitespace at the end of its rest
  cases gs with
  | nil =>
    refine ⟨collapseFrom 0 (rstrip f.rest), ?_, ?_, ?_⟩
    · simp [stripLast, plainFront, Fenced.plain, Fenced.inner, Fenced.normal, Fenced.stripRest]
    · exact ((collapseFrom_sublist _ _).trans (List.rdropWhile_prefix _ _).sublist).trans
        (List.sublist_append_left _ _)
    · rw [hrest]
      by_cases hnil : rstrip w = []
      · have hspaces : ∀ x ∈ nl :: w, isSpace x = true := by
          rw [rstrip, List.rdropWhile_eq_nil_iff] at hnil
          intro x hx
          rcases List.mem_cons.mp hx with rfl | hx
          · exact isSpace_of_isNewline hnl
          · exact hnil x hx
        have hall : rstrip (nl :: w) = [] := by
          rw [rstrip, List.rdropWhile_eq_nil_iff]
          exact hspaces
        rw [hall]
        exact Or.inl rfl
      · have hsplit : rstrip (nl :: w) = nl :: rstrip w :=
          rstrip_append_of_ne_nil (u := [nl]) hnil
        rw [hsplit, collapseFrom, if_pos hnl', if_pos (by omega)]
        exact Or.inr ⟨nl, _, rfl, hnl⟩
  | cons g gs =>
    refine ⟨collapseFrom 0 f.rest
      ++ (((stripLast (g :: gs)).map Fenced.normal).map Fenced.plain).flatten, ?_, ?_, ?_⟩
    · simp [stripLast, plainFront, Fenced.plain, Fenced.inner, Fenced.normal]
    · exact (collapseFrom_sublist _ _).append
        ((plains_sublist _).trans (stripLast_texts_sublist _))
    · rw [hrest, collapseFrom, if_pos hnl', if_pos (by omega)]
      exact Or.inr ⟨nl, _, rfl, hnl⟩

/-- A list with a head is split at its head, or behind it. -/
theorem exists_split_cons {β : Type} {P : List β → β → List β → Prop} {b : β} {l : List β} :
    (∃ front x back, b :: l = front ++ x :: back ∧ P front x back) ↔
      P [] b l ∨ ∃ front x back, l = front ++ x :: back ∧ P (b :: front) x back := by
  constructor
  · rintro ⟨front, x, back, heq, h⟩
    cases front with
    | nil =>
      cases heq
      exact Or.inl h
    | cons a front =>
      cases heq
      exact Or.inr ⟨front, x, back, rfl, h⟩
  · rintro (h | ⟨front, x, back, rfl, h⟩)
    · exact ⟨[], b, l, rfl, h⟩
    · exact ⟨b :: front, x, back, rfl, h⟩

/-- The spans of the fences, one for each of them. -/
theorem mem_fenceSpans {fs : List (Fenced α)} {s : Span} : ∀ {i : Nat},
    s ∈ fenceSpans i ((stripLast fs).map Fenced.normal) ↔
      ∃ gs f hs, fs = gs ++ f :: hs ∧ s = ⟨i
        + ((gs.map Fenced.normal).map Fenced.plain).flatten.length,
          f.normal.inner.length, .monospace⟩ := by
  induction fs with
  | nil => intro i; simp [stripLast, fenceSpans]
  | cons f fs ih =>
    intro i
    rw [exists_split_cons]
    cases fs with
    | nil => simp [stripLast, fenceSpans, Fenced.normal, Fenced.stripRest, Fenced.inner]
    | cons g fs =>
      rw [stripLast, List.map_cons, fenceSpans, List.mem_cons, ih]
      simp [Nat.add_assoc]

/-! ### Markers in front of a fence -/

/-- Two texts that end lines. -/
theorem EndsLine.append {u v : List α} (hu : EndsLine u) (hv : EndsLine v) :
    EndsLine (u ++ v) := by
  cases v with
  | nil => rwa [List.append_nil]
  | cons c v =>
    intro d hd
    rw [List.getLast?_append_of_ne_nil _ (List.cons_ne_nil c v)] at hd
    exact hv d hd

/-- The plain text of a fence ends a line. -/
theorem Fenced.Standing.endsLine_plain {f : Fenced α} (h : f.Standing) :
    EndsLine f.normal.plain := by
  obtain ⟨nl, w, hrest, -, -⟩ := h.rest_line
  have hne : f.normal.rest ≠ [] :=
    collapseFrom_ne_nil (by rw [hrest]; exact List.cons_ne_nil _ _) (by omega)
  intro c hc
  rw [Fenced.plain, List.getLast?_append_of_ne_nil _ hne] at hc
  exact h.endsLine_rest.collapseFrom 0 c hc

/-- What stands in front of the code ends a line. -/
theorem endsLine_plainFront {front : List α} {fs : List (Fenced α)} (hfront : EndsLine front)
    (hfs : ∀ f ∈ fs, f.Standing) : EndsLine (plainFront front fs) := by
  have hleft : EndsLine (collapseFrom 0 (lstrip front)) :=
    (hfront.suffix (List.dropWhile_suffix _)).collapseFrom 0
  refine hleft.append ?_
  induction fs with
  | nil => intro c hc; simp at hc
  | cons f fs ih =>
    exact (hfs f List.mem_cons_self).endsLine_plain.append
      (ih fun g hg => hfs g (List.mem_cons_of_mem f hg))

/-- A text without hashes has no marker. -/
theorem not_hasMarker_of_codes {s : List α} (h : ∀ x ∈ s, isHash x = false) (start : Bool) :
    ¬ HasMarker start (codes s) := by
  refine not_hasMarker ?_ start
  intro n hn
  obtain ⟨x, hx, rfl⟩ := List.mem_map.mp hn
  exact h x hx

/-- No hash stands in an opening line. -/
theorem Fenced.Ok.isHash_opening {f : Fenced α} (h : f.Ok) :
    ∀ x ∈ f.opening, isHash x = false := by
  obtain ⟨tag, hopening, htag⟩ := h.opening
  intro x hx
  have hmem : code x ∈ ticks ++ (tag ++ ['\n'.toNat]) := by
    rw [← hopening]
    exact List.mem_map_of_mem hx
  rw [isHash, isChr, beq_eq_false_iff_ne]
  intro hcode
  rw [hcode] at hmem
  simp only [List.mem_append] at hmem
  rcases hmem with hmem | hmem | hmem
  · exact absurd hmem (by decide)
  · exact absurd (htag _ hmem) (by decide)
  · exact absurd hmem (by decide)

/-- An opening line ends with a newline. -/
theorem Fenced.Ok.endsLine_opening {f : Fenced α} (h : f.Ok) : EndsLine f.opening := by
  obtain ⟨line, c, hsplit, -, hc, -⟩ := h.opening_eq
  intro d hd
  rw [hsplit, List.getLast?_concat] at hd
  cases hd
  exact hc

/-- No hash stands in the closing ticks. -/
theorem isHash_closing {f : Fenced α} (h : f.Ok) : ∀ x ∈ f.closing, isHash x = false := by
  intro x hx
  rw [isHash, isChr, code_of_mem_closing h hx]
  decide

/-- Text that starts and ends a line is read on its own. -/
theorem hasMarker_append_lines {u r : List α} {nl : α} {v : List α} (hr : r = nl :: v)
    (hnl : isNewline nl = true) (hends : EndsLine r)
    (hu : ¬ HasMarker true (codes u ++ ['\n'.toNat])) (w : List Nat) :
    HasMarker true (codes u ++ (codes r ++ w))
      ↔ HasMarker true (codes r) ∨ HasMarker true w := by
  have hcode : codes r = '\n'.toNat :: codes v := by
    rw [hr, codes_cons_newline hnl]
  have hwhole := hasMarker_append_of_endsLine hends w
  rw [hcode, List.cons_append, hasMarker_newline] at hwhole
  rw [hcode, List.cons_append, hasMarker_append, or_iff_right hu]
  exact hwhole

/-- The markers of unfenced text are those between the fences. -/
theorem hasMarker_plains {fs : List (Fenced α)} (hfs : ∀ f ∈ fs, f.Standing) :
    HasMarker true (codes ((fs.map Fenced.normal).map Fenced.plain).flatten)
      ↔ ∃ f ∈ fs, HasMarker true (codes f.rest) := by
  induction fs with
  | nil => simp [codes, HasMarker]
  | cons f fs ih =>
    have hf := hfs f List.mem_cons_self
    obtain ⟨nl, v, hrest, hnl, -⟩ := hf.rest_line
    have hnl' : isChr '\n' nl = true := hnl
    have hcons : f.normal.rest = nl :: collapseFrom 1 v := by
      show collapseFrom 0 f.rest = _
      rw [hrest, collapseFrom, if_pos hnl', if_pos (by omega)]
    have hcollapsed : HasMarker true (codes f.normal.rest) ↔ HasMarker true (codes f.rest) :=
      hasMarker_collapse f.rest true 0 fun _ => rfl
    rw [List.map_cons, List.map_cons, List.flatten_cons, codes_append, Fenced.plain,
      codes_append, List.append_assoc,
      hasMarker_append_lines hcons hnl (hf.endsLine_rest.collapseFrom 0) hf.inner_marker,
      hcollapsed, ih fun g hg => hfs g (List.mem_cons_of_mem f hg), List.exists_mem_cons_iff]

/-- The markers in front of a fence are those between the fences in front of it. -/
theorem hasMarker_texts {fs : List (Fenced α)} (hfs : ∀ f ∈ fs, f.Standing) {u : List α}
    (hu : ∀ x ∈ u, isHash x = false) :
    HasMarker true (codes ((fs.map Fenced.text).flatten ++ u))
      ↔ ∃ f ∈ fs, HasMarker true (codes f.rest) := by
  induction fs with
  | nil => simpa using not_hasMarker_of_codes hu true
  | cons f fs ih =>
    have hf := hfs f List.mem_cons_self
    obtain ⟨nl, v, hrest, hnl, -⟩ := hf.rest_line
    -- the closing ticks and the newline after them have no hash
    have hclosing : ¬ HasMarker true (codes f.closing ++ ['\n'.toNat]) := by
      have hnlhash : isHash (nl : α) = false := by
        rw [isHash, isChr, code_of_isNewline hnl]
        decide
      rw [← codes_concat_newline hnl]
      refine not_hasMarker_of_codes (fun x hx => ?_) true
      rcases List.mem_append.mp hx with hx | hx
      · exact isHash_closing hf.toOk x hx
      · rw [List.mem_singleton.mp hx]
        exact hnlhash
    have hsplit : codes (((f :: fs).map Fenced.text).flatten ++ u)
        = codes f.opening ++ (codes f.body ++ (codes f.closing
            ++ (codes f.rest ++ codes ((fs.map Fenced.text).flatten ++ u)))) := by
      simp [Fenced.text]
    rw [hsplit, hasMarker_append_of_endsLine hf.endsLine_opening,
      or_iff_right (not_hasMarker_of_codes hf.isHash_opening true),
      hasMarker_append_of_endsLine hf.body_line, or_iff_right hf.body_marker,
      hasMarker_append_lines hrest hnl hf.endsLine_rest hclosing,
      ih fun g hg => hfs g (List.mem_cons_of_mem f hg), List.exists_mem_cons_iff]

/-- A heading marker stands in front of unfenced code exactly when one stands in front of
the code in the document, its leading whitespace aside. -/
theorem hasMarker_plainFront_iff {front : List α} {fs : List (Fenced α)} {f : Fenced α}
    (hfront : EndsLine front) (hfs : ∀ g ∈ fs, g.Standing) (hf : f.Standing) :
    HasMarker true (codes (plainFront front fs))
      ↔ HasMarker true (codes (lstrip
          (front ++ (fs.map Fenced.text).flatten ++ f.opening))) := by
  have hends : EndsLine (lstrip front) := hfront.suffix (List.dropWhile_suffix _)
  have hplain : HasMarker true (codes (plainFront front fs))
      ↔ HasMarker true (codes (lstrip front)) ∨ ∃ g ∈ fs, HasMarker true (codes g.rest) := by
    rw [plainFront, codes_append, hasMarker_append_of_endsLine (hends.collapseFrom 0),
      hasMarker_plains hfs, hasMarker_collapse _ true 0 fun _ => rfl]
  have hopening : f.opening ≠ [] := by
    obtain ⟨line, c, hsplit, -, -, -⟩ := hf.opening_eq
    simp [hsplit]
  -- what follows the front starts with a tick, so `lstrip` stops before it
  have hhead : ∀ c ∈ ((fs.map Fenced.text).flatten ++ f.opening).head?, isSpace c = false := by
    intro c hc
    refine isSpace_of_code_tick ?_
    cases hflat : (fs.map Fenced.text).flatten with
    | nil =>
      obtain ⟨-, -, -, -, -, hfirst⟩ := hf.opening_eq
      rw [hflat, List.nil_append] at hc
      exact hfirst c hc
    | cons d rest =>
      refine head?_texts (fun g hg => (hfs g hg).toOk) c ?_
      rw [hflat] at hc ⊢
      exact hc
  have hstrip : lstrip (front ++ (fs.map Fenced.text).flatten ++ f.opening)
      = lstrip front ++ ((fs.map Fenced.text).flatten ++ f.opening) := by
    rw [List.append_assoc, lstrip_append_of_head (by simp [hopening]) hhead]
  rw [hplain, hstrip, codes_append, hasMarker_append_of_endsLine hends,
    hasMarker_texts hfs hf.isHash_opening]

end SignalGateway.Proofs.Markdown
