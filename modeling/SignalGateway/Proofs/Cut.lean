import SignalGateway.Proofs.Blocks

/-!
# `SignalGateway.Proofs.Cut`: the spans of fenced code

The fence phase records where it leaves the code of each fence, and the heading phase does
not move these spans. A span stays right as long as no heading marker is deleted in front of
it. `Cut` is a text cut into its fences. `Cut.covered`: code with no marker in front of it
is covered by its span. `Cut.undisturbed`: if all code is covered, there is no such marker,
unless titles are written twice.

The theorems:

* `Cut.fences_eq`, `Cut.unfenced_eq`, `Cut.spansOf_eq`: the phases on a text that is cut into its
  fences. The text has no inline markers, so the inline phase does nothing.
* `Cut.around`: behind the fence phase the code of a fence stands between the text in front of it
  and a rest that begins with a newline.
* `Cut.exists_headingAt_iff`: the heading markers in front of unfenced code are those in front of
  the code in the document.

Positions are distinct, and stay so as long as nothing is written twice (`Cut.unfenced_nodup`).
That is why a span that covers the code covers it in place.
-/

set_option autoImplicit false

namespace SignalGateway.Proofs.Markdown

open SignalGateway.Markdown
open Regex PyChar

variable {α : Type} [PyChar α]

/-! ### A text cut into its fences -/

/-- With a newline at its end, the text is `front` and the fences `fs` with the text behind
them. -/
structure Cut (text front : List α) (fs : List (Fenced α)) : Prop where
  eq : ∃ nl, isNewline nl = true ∧ text ++ [nl] = front ++ (fs.map Fenced.text).flatten
  ends : EndsLine front
  unmarked : ∀ x ∈ front, isMarker x = false
  standing : ∀ f ∈ fs, f.Standing
  ne : fs ≠ []

/-- A newline at the end of a text is stripped. -/
theorem normalize_concat (text : List α) {nl : α} (hnl : isNewline nl = true) :
    normalizeWhitespace (text ++ [nl]) = normalizeWhitespace text := by
  have hspace := isSpace_of_isNewline hnl
  have hstrip : strip (text ++ [nl]) = strip text := by
    rw [strip, strip, lstrip, List.dropWhile_append]
    split
    · rename_i hnil
      have hnil : List.dropWhile isSpace text = [] := by simpa using hnil
      rw [lstrip, hnil, List.dropWhile_cons, if_pos hspace]
      rfl
    · exact rstrip_append_of_spaces fun c hc => by rwa [List.mem_singleton.mp hc]
  rw [normalize_eq, normalize_eq, hstrip]

section
variable {text front : List α} {fs : List (Fenced α)}

/-- The fence phase on a text that is cut into fences. -/
theorem Cut.fences_eq (h : Cut text front fs) :
    fences (normalizeWhitespace text)
      = (collapseFrom 0 (lstrip front)
          ++ (((stripLast fs).map Fenced.normal).map Fenced.plain).flatten,
        fenceSpans (collapseFrom 0 (lstrip front)).length
          ((stripLast fs).map Fenced.normal)) := by
  obtain ⟨nl, hnl, heq⟩ := h.eq
  rw [← normalize_concat text hnl, heq]
  exact fences_document (noBacktick_of_unmarked h.unmarked) h.standing h.ne

/-- The text behind the fence phase. -/
theorem Cut.unfenced_eq (h : Cut text front fs) :
    unfenced text = collapseFrom 0 (lstrip front)
      ++ (((stripLast fs).map Fenced.normal).map Fenced.plain).flatten := by
  rw [unfenced, h.fences_eq]

/-- Only the rest of the last fence is stripped. -/
theorem mem_stripLast {f : Fenced α} (hf : f ∈ stripLast fs) :
    ∃ g ∈ fs, f.body = g.body ∧ f.rest.Sublist g.rest := by
  rcases List.eq_nil_or_concat fs with hnil | ⟨init, last, hsplit⟩
  · rw [hnil] at hf
    cases hf
  · rw [hsplit, List.concat_eq_append] at hf ⊢
    rw [stripLast_concat] at hf
    rcases List.mem_append.mp hf with hf | hf
    · exact ⟨f, List.mem_append_left _ hf, rfl, List.Sublist.refl _⟩
    · rw [List.mem_singleton.mp hf]
      exact ⟨last, by simp, rfl, (List.rdropWhile_prefix _ _).sublist⟩

/-- No formatting marker is left when the fences are taken away. -/
theorem Cut.isMarker_unfenced (h : Cut text front fs) :
    ∀ x ∈ unfenced text, isMarker x = false := by
  intro x hx
  rw [h.unfenced_eq] at hx
  rcases List.mem_append.mp hx with hx | hx
  · exact h.unmarked x
      (((collapseFrom_sublist _ 0).trans (List.dropWhile_suffix _).sublist).subset hx)
  · simp only [List.mem_flatten, List.mem_map] at hx
    obtain ⟨_, ⟨_, ⟨f, hf, rfl⟩, rfl⟩, hx⟩ := hx
    obtain ⟨g, hg, hbody, hrest⟩ := mem_stripLast hf
    rcases List.mem_append.mp hx with hx | hx
    · refine (h.standing g hg).body_unmarked x ?_
      rw [← hbody]
      exact ((inner_sublist_body f.normal).trans (collapseFrom_sublist f.body 1)).subset hx
    · exact (h.standing g hg).rest_unmarked x
        (((collapseFrom_sublist f.rest 0).trans hrest).subset hx)

/-- Headings are bold. -/
theorem style_headingsFrom (text : List α) (ms : List Match) :
    ∀ {newText : List α} {lastEnd : Nat} {spans : List Span},
      (∀ s ∈ spans, s.style = .bold) →
      ∀ s ∈ (headingsFrom text ms newText lastEnd spans).2, s.style = .bold := by
  induction ms with
  | nil => intro newText lastEnd spans h; exact h
  | cons m ms ih =>
    intro newText lastEnd spans h
    refine ih ?_
    intro s hs
    rcases List.mem_append.mp hs with hs | hs
    · exact h s hs
    · rw [List.mem_singleton.mp hs]

/-- The inline phase has nothing to do. -/
theorem Cut.spansOf_eq (h : Cut text front fs) (isWord : Nat → Bool) :
    spansOf isWord text = ((headings (unfenced text)).1,
      ((fences (normalizeWhitespace text)).2 ++ (headings (unfenced text)).2).filter
        fun s => 0 < s.length) := by
  rw [Markdown.spansOf_eq]
  refine inlines_eq_self fun i hi => ?_
  rw [getElem?_codes, Option.any_map] at hi
  obtain ⟨x, hx, hmark⟩ := (Option.any_eq_true _ _).mp hi
  have hmark : isMarker x = true := hmark
  rw [h.isMarker_unfenced x (mem_headings (List.mem_of_getElem? hx))] at hmark
  cases hmark

/-- The inline phase finds nothing, so the plain text is that behind the headings. -/
theorem Cut.plain_eq (h : Cut text front fs) (isWord : Nat → Bool) :
    (spansOf isWord text).1 = (headings (unfenced text)).1 := by
  rw [h.spansOf_eq]

/-- The MONOSPACE spans are those of the fences whose code is not empty. -/
theorem Cut.mem_spans_iff (h : Cut text front fs) (isWord : Nat → Bool) (s : Span) :
    s ∈ (spansOf isWord text).2 ∧ s.style = .monospace ↔
      ∃ gs f hs, fs = gs ++ f :: hs ∧ 0 < f.normal.inner.length ∧
        s = ⟨(plainFront front gs).length, f.normal.inner.length, .monospace⟩ := by
  have hfences : s ∈ (fences (normalizeWhitespace text)).2 ↔
      ∃ gs f hs, fs = gs ++ f :: hs ∧
        s = ⟨(plainFront front gs).length, f.normal.inner.length, .monospace⟩ := by
    rw [h.fences_eq, mem_fenceSpans]
    simp only [plainFront, List.length_append]
  rw [h.spansOf_eq isWord, List.mem_filter, List.mem_append, decide_eq_true_eq]
  constructor
  · rintro ⟨⟨hs | hs, hpos⟩, hstyle⟩
    · obtain ⟨gs, f, hs', hsplit, rfl⟩ := hfences.mp hs
      exact ⟨gs, f, hs', hsplit, hpos, rfl⟩
    · have := style_headingsFrom (unfenced text) _ (by simp) s hs
      rw [this] at hstyle
      cases hstyle
  · rintro ⟨gs, f, hs, hsplit, hpos, rfl⟩
    exact ⟨⟨Or.inl (hfences.mpr ⟨gs, f, hs, hsplit, rfl⟩), hpos⟩, rfl⟩

variable {gs hs : List (Fenced α)} {f : Fenced α}

/-- What stands around the code of a fence behind the fence phase. -/
theorem Cut.around (h : Cut text front (gs ++ f :: hs)) :
    ∃ back, unfenced text = plainFront front gs ++ f.normal.inner ++ back ∧
      back.Sublist (f.rest ++ (hs.map Fenced.text).flatten) ∧
      (back = [] ∨ ∃ nl w, back = nl :: w ∧ isNewline nl = true) := by
  rw [h.unfenced_eq]
  exact exists_unfenced (h.standing f (by simp)) front

/-- The code begins on a line of its own. -/
theorem Cut.endsLine_plainFront (h : Cut text front (gs ++ f :: hs)) :
    EndsLine (plainFront front gs) :=
  Markdown.endsLine_plainFront h.ends fun g hg => h.standing g (List.mem_append_left _ hg)

/-- No heading marker stands in unfenced code. -/
theorem Cut.not_headingAt_inner (h : Cut text front (gs ++ f :: hs)) {i : Nat}
    (h1 : (plainFront front gs).length ≤ i)
    (h2 : i < (plainFront front gs).length + f.normal.inner.length) :
    ¬ HeadingAt (codes (unfenced text)) i := by
  intro hi
  obtain ⟨back, heq, -, hback⟩ := h.around
  obtain ⟨j, rfl⟩ := Nat.exists_eq_add_of_le h1
  rw [heq, List.append_assoc, codes_append, headingAt_add_iff h.endsLine_plainFront,
    codes_append] at hi
  have hf := h.standing f (by simp)
  refine hf.inner_marker ((hasMarker_iff _).mpr ⟨j, ?_⟩)
  rcases hback with rfl | ⟨nl, w, rfl, hnl⟩
  · have hi : HeadingAt (codes f.normal.inner ++ []) j := hi
    rw [List.append_nil] at hi
    exact hi.append _
  · rw [codes_cons_newline hnl, headingAt_append_newline (by rw [length_codes]; omega)] at hi
    exact hi

/-- The heading markers in front of unfenced code. -/
theorem Cut.exists_headingAt_iff (h : Cut text front (gs ++ f :: hs)) :
    (∃ i < (plainFront front gs).length, HeadingAt (codes (unfenced text)) i)
      ↔ HasMarker true (codes (plainFront front gs)) := by
  obtain ⟨back, heq, -, -⟩ := h.around
  rw [hasMarker_iff]
  have hiff : ∀ i < (plainFront front gs).length,
      (HeadingAt (codes (unfenced text)) i ↔ HeadingAt (codes (plainFront front gs)) i) := by
    intro i hi
    rw [heq, List.append_assoc, codes_append,
      headingAt_iff_of_endsLine h.endsLine_plainFront hi]
  constructor
  · rintro ⟨i, hi, hhead⟩
    exact ⟨i, (hiff i hi).mp hhead⟩
  · rintro ⟨i, hhead⟩
    have hi := hhead.lt_length
    rw [length_codes] at hi
    exact ⟨i, hi, (hiff i hi).mpr hhead⟩

/-- Code that the fence phase keeps, with no heading marker in front of it, is covered by
its span. -/
theorem Cut.covered (h : Cut text front (gs ++ f :: hs)) (isWord : Nat → Bool)
    (hne : f.content ≠ []) (hintact : Intact f.content)
    (hno : ¬ HasMarker true (codes (plainFront front gs))) :
    ∃ s ∈ (spansOf isWord text).2, s.style = .monospace ∧
      s.start + s.length ≤ (spansOf isWord text).1.length ∧
      slice (spansOf isWord text).1 s.start (s.start + s.length) = f.content := by
  have hinner : f.normal.inner = f.content := by
    rw [(h.standing f (by simp)).inner_eq, rstrip_collapse_eq_iff]
    exact hintact
  obtain ⟨back, heq, -, -⟩ := h.around
  -- The heading phase keeps everything up to the end of the code.
  have hkept : plainFront front gs ++ f.content <+: (headings (unfenced text)).1 := by
    have hfree : ∀ i < (plainFront front gs ++ f.normal.inner).length,
        ¬ HeadingAt (codes (unfenced text)) i := by
      intro i hi hhead
      rw [List.length_append] at hi
      by_cases hlt : i < (plainFront front gs).length
      · exact hno (h.exists_headingAt_iff.mp ⟨i, hlt, hhead⟩)
      · exact h.not_headingAt_inner (by omega) hi hhead
    have htake : (unfenced text).take (plainFront front gs ++ f.normal.inner).length
        = plainFront front gs ++ f.content := by
      rw [heq, List.take_left, hinner]
    rw [← htake]
    exact take_prefix_headings hfree
  obtain ⟨rest, hrest⟩ := hkept
  have hplain : (spansOf isWord text).1 = plainFront front gs ++ f.content ++ rest := by
    rw [h.plain_eq isWord, hrest]
  have hmem := (h.mem_spans_iff isWord
    ⟨(plainFront front gs).length, f.normal.inner.length, .monospace⟩).mpr
    ⟨gs, f, hs, rfl, by rw [hinner]; exact List.length_pos_iff.mpr hne, rfl⟩
  refine ⟨_, hmem.1, rfl, ?_, ?_⟩
  · rw [hplain, hinner, List.length_append, List.length_append]
    exact Nat.le_add_right _ _
  · rw [hplain, hinner, slice, ← List.length_append, List.take_left, List.drop_left]

/-! ### The other direction -/

omit [PyChar α] in
/-- In a part of a list that lacks an element in front, everything behind it moves. -/
theorem index_lt_of_sublist {l l' : List α} (h : l'.Sublist l) (hnodup : l.Nodup)
    {m n i : Nat} {x y : α} (hn : l[n]? = some x) (hm : l'[m]? = some x) (hin : i < n)
    (hi : l[i]? = some y) (hy : y ∉ l') : m < n := by
  obtain ⟨e, he⟩ := List.sublist_iff_exists_orderEmbedding_getElem?_eq.mp h
  have hunique : ∀ {j k : Nat} {z : α}, l[j]? = some z → l[k]? = some z → j = k := by
    intro j k z hj hk
    have hlt := (List.getElem?_eq_some_iff.mp hj).1
    exact (List.getElem?_inj hlt hnodup).mp (hj.trans hk.symm)
  have hem : e m = n := by
    have := he m
    rw [hm] at this
    exact hunique this.symm hn
  have hgap : ∀ k ≤ m, m - k + e k ≤ e m := by
    intro k hk
    have := e.strictMono.add_le_nat (m - k) k
    rwa [Nat.sub_add_cancel hk] at this
  have hle := hgap 0 (Nat.zero_le m)
  by_contra hge
  -- Otherwise every element up to `n` keeps its place, the one at `i` too.
  have hmn : m = n := by omega
  have hei : e i = i := by
    have h₁ := hgap i (by omega)
    have h₂ := e.strictMono.le_apply (x := i)
    omega
  have hgot := he i
  rw [hei, hi] at hgot
  exact hy (List.mem_of_getElem? hgot)

/-- The hash of the first heading marker is deleted. -/
theorem not_mem_headings {t : List α} (hnodup : t.Nodup) {i : Nat}
    (hi : HeadingAt (codes t) i) (hfirst : ∀ j < i, ¬ HeadingAt (codes t) j) {y : α}
    (hy : t[i]? = some y) : y ∉ (headings t).1 := by
  intro hmem
  obtain ⟨k, htrace⟩ := trace_headings t
  have hfst : (headings t.zipIdx).1.map Prod.fst = (headings t).1 := by
    have := headings_map (keepsCode_fst (α := α)) t.zipIdx
    rw [List.zipIdx_map_fst] at this
    rw [this]
  rw [← hfst] at hmem
  obtain ⟨x, hx, rfl⟩ := List.mem_map.mp hmem
  have hget := htrace.mem x hx
  have hpos : x.2 = i :=
    (List.getElem?_inj (List.getElem?_eq_some_iff.mp hget).1 hnodup).mp (hget.trans hy.symm)
  refine htrace.outside x hx i hi ?_ ⟨hpos.ge, hpos.trans_lt (lt_markerStop hi)⟩
  intro j hj hchain
  exact hfirst j (hchain ▸ lt_markerStop hj) hj

/-- More fences make more text. -/
theorem length_plainFront_le {gs gs' : List (Fenced α)} (h : gs <+: gs') :
    (plainFront front gs).length ≤ (plainFront front gs').length := by
  obtain ⟨rest, rfl⟩ := h
  simp [plainFront]

/-- Positions that are distinct stay distinct. -/
theorem Cut.unfenced_nodup (h : Cut text front fs)
    (hnodup : (front ++ (fs.map Fenced.text).flatten).Nodup) : (unfenced text).Nodup := by
  obtain ⟨nl, -, heq⟩ := h.eq
  rw [← heq] at hnodup
  exact (hnodup.sublist (List.sublist_append_left _ _)).sublist (unfenced_sublist text)

/-- Code whose characters all come out was kept by the fence phase. -/
theorem Cut.inner_eq_content (h : Cut text front (gs ++ f :: hs))
    (hnodup : (front ++ ((gs ++ f :: hs).map Fenced.text).flatten).Nodup)
    (hsub : ∀ x ∈ f.content, x ∈ unfenced text) : f.normal.inner = f.content := by
  obtain ⟨back, heq, hback, -⟩ := h.around
  have hf := h.standing f (by simp)
  obtain ⟨nl, hbody, -⟩ := hf.body_eq
  have hinner : f.normal.inner.Sublist f.content := by
    rw [hf.inner_eq]
    exact (List.rdropWhile_prefix _ _).sublist.trans (collapseFrom_sublist _ _)
  have hsplit : front ++ ((gs ++ f :: hs).map Fenced.text).flatten
      = (front ++ (gs.map Fenced.text).flatten ++ f.opening) ++ f.content
        ++ ([nl] ++ f.closing ++ (f.rest ++ (hs.map Fenced.text).flatten)) := by
    have htext : f.text = f.opening ++ (f.content ++ [nl]) ++ f.closing ++ f.rest := by
      rw [Fenced.text, hbody]
    simp [htext]
  rw [hsplit] at hnodup
  have hleft := (List.nodup_append.mp hnodup).1
  have hcontent : f.content.Nodup := (List.nodup_append.mp hleft).2.1
  -- A character of the code comes from nowhere else.
  have hin : f.content ⊆ f.normal.inner := by
    intro x hx
    have hmem := hsub x hx
    rw [heq] at hmem
    rcases List.mem_append.mp hmem with hmem | hmem
    · rcases List.mem_append.mp hmem with hmem | hmem
      · have := (plainFront_sublist front gs).subset hmem
        exact absurd rfl ((List.nodup_append.mp hleft).2.2 x
          (List.mem_append_left _ this) x hx)
      · exact hmem
    · have := hback.subset hmem
      exact absurd rfl ((List.nodup_append.mp hnodup).2.2 x
        (List.mem_append_right _ hx) x (List.mem_append_right _ this))
  exact hinner.eq_of_length_le (hcontent.subperm hin).length_le

/-- The heading phase changes nothing in front of the first marker. -/
theorem getElem?_headings_of_lt {u : List α} {i k : Nat}
    (hmin : ∀ j < i, ¬ HeadingAt (codes u) j) (hi : HeadingAt (codes u) i) (hk : k < i) :
    (headings u).1[k]? = u[k]? := by
  have hlen := hi.lt_length
  rw [length_codes] at hlen
  obtain ⟨rest, hrest⟩ := take_prefix_headings hmin
  rw [← hrest, List.getElem?_append_left (by rw [List.length_take]; omega), List.getElem?_take,
    if_pos hk]

/-- Where the code of a fence starts. -/
theorem Cut.getElem?_unfenced {gs hs : List (Fenced α)} {f : Fenced α}
    (h : Cut text front (gs ++ f :: hs)) {c : α} {cs : List α} (hinner : f.normal.inner = c :: cs) :
    (unfenced text)[(plainFront front gs).length]? = some c := by
  obtain ⟨back, heq, -, -⟩ := h.around
  rw [heq, hinner, List.append_assoc, List.getElem?_append_right le_rfl, Nat.sub_self]
  rfl

/-- If every code is covered by a MONOSPACE span, no code was changed and no heading marker
stands in front of one. -/
theorem Cut.undisturbed (h : Cut text front fs) (isWord : Nat → Bool)
    (hnodup : (front ++ (fs.map Fenced.text).flatten).Nodup)
    (hno : NoStackedTitle (unfenced text))
    (hcovered : ∀ gs f hs, fs = gs ++ f :: hs → f.content ≠ [] →
      ∃ s ∈ (spansOf isWord text).2, s.style = .monospace ∧
        slice (spansOf isWord text).1 s.start (s.start + s.length) = f.content)
    {gs hs : List (Fenced α)} {f : Fenced α} (hsplit : fs = gs ++ f :: hs)
    (hne : f.content ≠ []) :
    Intact f.content ∧ ¬ HasMarker true (codes (plainFront front gs)) := by
  classical
  have hplain := h.plain_eq isWord
  have hsub := headings_sublist hno
  have hunique := h.unfenced_nodup hnodup
  have hkept : ∀ gs f hs, fs = gs ++ f :: hs → f.content ≠ [] →
      f.normal.inner = f.content := by
    intro gs f hs hsplit hne
    obtain ⟨s, -, -, hslice⟩ := hcovered gs f hs hsplit hne
    subst hsplit
    refine h.inner_eq_content hnodup fun x hx => ?_
    rw [← hslice, hplain] at hx
    exact hsub.subset ((slice_sublist _ _ _).subset hx)
  refine ⟨?_, ?_⟩
  · have hinner := hkept gs f hs hsplit hne
    rw [(h.standing f (by simp [hsplit])).inner_eq] at hinner
    exact (rstrip_collapse_eq_iff _).mp hinner
  intro hmarker
  -- The first heading marker, and its hash.
  have hexists : ∃ i, HeadingAt (codes (unfenced text)) i := by
    subst hsplit
    obtain ⟨i, -, hi⟩ := h.exists_headingAt_iff.mpr hmarker
    exact ⟨i, hi⟩
  have hfirst := Nat.find_spec hexists
  have hmin : ∀ j < Nat.find hexists, ¬ HeadingAt (codes (unfenced text)) j :=
    fun j hj => Nat.find_min hexists hj
  generalize Nat.find hexists = i at hfirst hmin
  obtain ⟨y, hy, -⟩ := exists_hash hfirst
  have hlost := not_mem_headings hunique hfirst hmin hy
  -- Induction on the number of fences in front: a span that covers the code belongs to an
  -- earlier fence, and that one stands behind the marker, too.
  have hbehind : ∀ n gs f hs, gs.length = n → fs = gs ++ f :: hs → f.content ≠ [] →
      i < (plainFront front gs).length → False := by
    intro n
    induction n using Nat.strong_induction_on with
    | _ n ih =>
      intro gs f hs hlen hsplit hne hi
      obtain ⟨s, hs', hstyle, hslice⟩ := hcovered gs f hs hsplit hne
      obtain ⟨gs', f', hs'', hsplit', hpos, rfl⟩ := (h.mem_spans_iff isWord s).mp ⟨hs', hstyle⟩
      simp only at hslice
      obtain ⟨c, cs, hcs⟩ := List.exists_cons_of_ne_nil hne
      have hout : (headings (unfenced text)).1[(plainFront front gs').length]? = some c := by
        have hget := getElem?_slice (spansOf isWord text).1 (plainFront front gs').length
          ((plainFront front gs').length + f'.normal.inner.length) 0
        rw [hslice, hcs, Nat.add_zero, if_pos (by omega), hplain] at hget
        exact hget.symm
      have hin : (unfenced text)[(plainFront front gs).length]? = some c := by
        have hcut : Cut text front (gs ++ f :: hs) := hsplit ▸ h
        exact hcut.getElem?_unfenced ((hkept gs f hs hsplit hne).trans hcs)
      have hlt := index_lt_of_sublist hsub hunique hin hout hi hy hlost
      by_cases hi' : i < (plainFront front gs').length
      · have hne' : f'.content ≠ [] := by
          intro hnil
          rw [(h.standing f' (by simp [hsplit'])).inner_eq, hnil] at hpos
          simp [collapseFrom, rstripChr] at hpos
        have hshorter : gs'.length < gs.length := by
          by_contra hge
          have hleft : gs <+: fs := ⟨_, hsplit.symm⟩
          have hright : gs' <+: fs := ⟨_, hsplit'.symm⟩
          have hle : (plainFront front gs).length ≤ (plainFront front gs').length :=
            length_plainFront_le (List.prefix_of_prefix_length_le hleft hright (by omega))
          omega
        exact ih gs'.length (by omega) gs' f' hs'' rfl hsplit' hne' hi'
      · -- An earlier fence in front of the marker still covers its own code.
        have hcut : Cut text front (gs' ++ f' :: hs'') := hsplit' ▸ h
        have hend : (plainFront front gs').length + f'.normal.inner.length ≤ i := by
          by_contra hgt
          exact hcut.not_headingAt_inner (by omega) (by omega) hfirst
        have hsame : (unfenced text)[(plainFront front gs').length]? = some c := by
          rw [← getElem?_headings_of_lt hmin hfirst (by omega)]
          exact hout
        have := (List.getElem?_inj (List.getElem?_eq_some_iff.mp hsame).1 hunique).mp
          (hsame.trans hin.symm)
        omega
  subst hsplit
  obtain ⟨j, hj, hhead⟩ := h.exists_headingAt_iff.mpr hmarker
  refine hbehind gs.length gs f hs rfl rfl hne (lt_of_le_of_lt ?_ hj)
  by_contra hlt
  exact hmin j (by omega) hhead

end

end SignalGateway.Proofs.Markdown
