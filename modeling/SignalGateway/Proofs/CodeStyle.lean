import SignalGateway.Proofs.Cut

/-!
# `SignalGateway.Proofs.CodeStyle`: when the ranges of fenced code are right

`codeStyled_markdownToSignal` is the law for documents of lines and fenced code blocks. The
code of every fence has its MONOSPACE range when no heading marker stands in front of it
and the whitespace normalisation leaves it alone (`CodeUndisturbed`). Positions decide
whether a range covers the code of its own fence, so the law is about the document with
positions (`CodeStyled`).

`CodeStyledText` is the weaker form that speaks of the text of the code and not of its place. It
follows from the law with positions, since a slice in UTF-16 units does not look at the marks.

The two directions are theorems of their own. `codeStyled_of_undisturbed` needs no further
condition. `undisturbed_of_codeStyled` needs that no title is written twice, because a stacked
title in front of the code moves it in the other direction than a heading marker does, and the
two can cancel each other out.

`markdownToSignal_titled` is a block of code under a heading, which loses its range.
-/

set_option autoImplicit false

namespace SignalGateway.Proofs.Markdown

open SignalGateway.Markdown
open Regex PyChar

/-! ### The statement -/

section
variable {α : Type} [PyChar α]

/-- For every fence with code, a MONOSPACE range covers exactly that code. `marked` is the
plain text with the positions its characters come from. -/
def CodeStyled (blocks : List (Block α)) (marked : List (α × Nat))
    (ranges : List StyleRange) : Prop :=
  ∀ p ∈ fencedCode 0 blocks, p.2 ≠ [] → ∃ r ∈ ranges, r.style = .monospace ∧
    utf16Slice marked r.start r.length
      = slice (document blocks).zipIdx p.1 (p.1 + p.2.length)

/-- The same with code read as a text. -/
def CodeStyledText (blocks : List (Block α)) (plain : List α) (ranges : List StyleRange) :
    Prop :=
  ∀ p ∈ fencedCode 0 blocks, p.2 ≠ [] → ∃ r ∈ ranges, r.style = .monospace ∧
    utf16Slice plain r.start r.length = p.2

/-- The code of every fence is intact, and no heading marker stands in front of it. The
leading whitespace of the document is stripped before markers are looked for. -/
def CodeUndisturbed (blocks : List (Block α)) : Prop :=
  ∀ p ∈ fencedCode 0 blocks, p.2 ≠ [] →
    Intact p.2 ∧ ∀ i, ¬ HeadingAt (codes (lstrip ((document blocks).take p.1))) i

/-! ### The document with positions -/

omit [PyChar α] in
/-- A relabelling keeps where the contents stand. -/
theorem contentsFrom_map {β : Type} {g : α → β} (fs : List (Fenced α)) : ∀ i,
    contentsFrom i (fs.map (Fenced.map g))
      = (contentsFrom i fs).map fun p => (p.1, p.2.map g) := by
  induction fs with
  | nil => intro i; rfl
  | cons f fs ih =>
    intro i
    simp [contentsFrom, ih, Fenced.map, Fenced.content, Fenced.text, List.map_dropLast]

/-- A relabelling keeps which code is intact. -/
theorem intact_map {β : Type} [PyChar β] {g : α → β} (hg : KeepsCode g) (s : List α) :
    Intact (s.map g) ↔ Intact s := by
  have hlast : (∀ c ∈ (s.map g).getLast?, isNewline c = false)
      ↔ ∀ c ∈ s.getLast?, isNewline c = false := by
    rw [List.getLast?_map]
    cases s.getLast? with
    | none => simp
    | some c => simp [isNewline_map hg]
  constructor
  · intro h
    exact ⟨hlast.mp h.last, by rw [← codes_map hg]; exact h.runs⟩
  · intro h
    exact ⟨hlast.mpr h.last, by rw [codes_map hg]; exact h.runs⟩

/-- The document with positions, cut into its fences. -/
theorem exists_cut {blocks : List (Block α)} (hok : ∀ b ∈ blocks, b.Ok)
    (hne : (toFenced blocks).2 ≠ []) :
    ∃ front fs, Cut (document blocks).zipIdx front fs ∧
      (front ++ (fs.map Fenced.text).flatten).Nodup ∧
      fencedCode 0 blocks
        = (contentsFrom front.length fs).map fun p => (p.1, p.2.map Prod.fst) := by
  have hblocks : blocks ≠ [] := by
    intro hnil
    rw [hnil] at hne
    exact hne rfl
  have hdoc := document_concat hblocks
  have hmap : ((document blocks ++ [ofChar '\n']).zipIdx).map Prod.fst
      = (toFenced blocks).1 ++ ((toFenced blocks).2.map Fenced.text).flatten := by
    rw [List.zipIdx_map_fst, hdoc]
  -- the split of the text, pulled back to its characters with their positions
  obtain ⟨front, fs, hsplit, hfront, hfs⟩ := exists_fenced_of_map hmap
  obtain ⟨hends, hunmarked⟩ := toFenced_front hok
  have hfst : KeepsCode (Prod.fst : α × Nat → α) := keepsCode_fst
  refine ⟨front, fs, ⟨?_, ?_, ?_, ?_, ?_⟩, ?_, ?_⟩
  · refine ⟨(ofChar '\n', (document blocks).length), isNewline_ofChar, ?_⟩
    rw [← hsplit, List.zipIdx_append]
    simp
  · rw [← hfront] at hends
    exact hends.of_map hfst
  · intro x hx
    rw [← isMarker_map hfst]
    refine hunmarked x.1 ?_
    rw [← hfront]
    exact List.mem_map_of_mem hx
  · intro f hf
    refine Fenced.Standing.of_map hfst (toFenced_standing hok _ ?_)
    rw [← hfs]
    exact List.mem_map_of_mem hf
  · intro hnil
    rw [hnil] at hfs
    exact hne hfs.symm
  · rw [← hsplit]
    exact nodup_zipIdx _
  · rw [fencedCode_eq, ← hfs, contentsFrom_map, ← hfront, List.length_map, Nat.zero_add]

variable {text front : List α} {gs hs : List (Fenced α)} {f : Fenced α}

/-- The text around the code of one fence. -/
theorem Cut.append_eq (h : Cut text front (gs ++ f :: hs)) :
    ∃ back, text = (front ++ (gs.map Fenced.text).flatten ++ f.opening) ++ f.content ++ back := by
  obtain ⟨nl, -, heq⟩ := h.eq
  have hf := h.standing f (by simp)
  obtain ⟨nl', hbody, -⟩ := hf.body_eq
  have hsplit : front ++ ((gs ++ f :: hs).map Fenced.text).flatten
      = (front ++ (gs.map Fenced.text).flatten ++ f.opening ++ f.content)
        ++ (nl' :: (f.closing ++ (f.rest ++ (hs.map Fenced.text).flatten))) := by
    have htext : f.text = f.opening ++ (f.content ++ [nl']) ++ f.closing ++ f.rest := by
      rw [Fenced.text, hbody]
    simp [htext]
  rw [hsplit, List.append_eq_append_iff] at heq
  -- The newline at the end is not part of the code.
  rcases heq with ⟨as, h1, h2⟩ | ⟨bs, h1, -⟩
  · cases as with
    | nil =>
      refine ⟨[], ?_⟩
      rw [List.append_nil] at h1 ⊢
      exact h1.symm
    | cons a as =>
      have hlen := congrArg List.length h2
      have := List.length_pos_iff.mpr (closing_ne_nil hf.toOk)
      simp only [List.length_append, List.length_cons, List.length_nil] at hlen
      omega
  · exact ⟨bs, h1⟩

/-- The content of a fence in the text. -/
theorem Cut.slice_eq (h : Cut text front (gs ++ f :: hs)) :
    slice text (front.length + ((gs.map Fenced.text).flatten ++ f.opening).length)
      (front.length + ((gs.map Fenced.text).flatten ++ f.opening).length + f.content.length)
        = f.content := by
  obtain ⟨back, heq⟩ := h.append_eq
  have hstart : front.length + ((gs.map Fenced.text).flatten ++ f.opening).length
      = (front ++ (gs.map Fenced.text).flatten ++ f.opening).length := by
    simp
  rw [heq, hstart, slice, ← List.length_append, List.take_left, List.drop_left]

/-- What stands in front of that content. -/
theorem Cut.take_eq (h : Cut text front (gs ++ f :: hs)) :
    text.take (front.length + ((gs.map Fenced.text).flatten ++ f.opening).length)
      = front ++ (gs.map Fenced.text).flatten ++ f.opening := by
  obtain ⟨back, heq⟩ := h.append_eq
  have hstart : front.length + ((gs.map Fenced.text).flatten ++ f.opening).length
      = (front ++ (gs.map Fenced.text).flatten ++ f.opening).length := by
    simp
  rw [heq, hstart, List.append_assoc (front ++ (gs.map Fenced.text).flatten ++ f.opening),
    List.take_left]

end

/-! ### The law -/

/-- What the law says about the code of one fence, in terms of the cut. -/
theorem Cut.noHeading_iff {doc : PyStr} {front : List (CodePoint × Nat)}
    {gs hs : List (Fenced (CodePoint × Nat))} {f : Fenced (CodePoint × Nat)}
    (h : Cut doc.zipIdx front (gs ++ f :: hs)) :
    (∀ i, ¬ HeadingAt (codes (lstrip (doc.take
        (front.length + ((gs.map Fenced.text).flatten ++ f.opening).length)))) i)
      ↔ ¬ HasMarker true (codes (plainFront front gs)) := by
  have hgs : ∀ g ∈ gs, g.Standing := fun g hg => h.standing g (List.mem_append_left _ hg)
  have htake : doc.take (front.length + ((gs.map Fenced.text).flatten ++ f.opening).length)
      = (front ++ (gs.map Fenced.text).flatten ++ f.opening).map Prod.fst := by
    rw [← h.take_eq, List.map_take, List.zipIdx_map_fst]
  rw [hasMarker_plainFront_iff h.ends hgs (h.standing f (by simp)), hasMarker_iff, htake,
    lstrip_map keepsCode_fst, codes_map keepsCode_fst, not_exists]

/-- Code that nothing disturbs is covered, in place. -/
theorem codeStyled_of_undisturbed (isWord : Nat → Bool) {blocks : List (Block CodePoint)}
    (hok : ∀ b ∈ blocks, b.Ok) {marked : List (CodePoint × Nat)} {ranges : List StyleRange}
    (h : markdownToSignal isWord (document blocks).zipIdx = .ok (marked, ranges))
    (hcode : CodeUndisturbed blocks) : CodeStyled blocks marked ranges := by
  intro p hp hne
  obtain ⟨front, fs, hcut, -, hlist⟩ := exists_cut hok (toFenced_ne_nil hp)
  have hp' := hp
  rw [hlist] at hp'
  obtain ⟨q, hq, rfl⟩ := List.mem_map.mp hp'
  obtain ⟨gs, f, hs, rfl, rfl⟩ := mem_contentsFrom.mp hq
  obtain ⟨hintact, hno⟩ := hcode _ hp hne
  have hne' : f.content ≠ [] := fun hnil => hne (by rw [hnil]; rfl)
  obtain ⟨s, hs', hstyle, hle, hslice⟩ := hcut.covered isWord hne'
    ((intact_map keepsCode_fst _).mp hintact) (hcut.noHeading_iff.mp hno)
  rw [← plain_eq h] at hle hslice
  obtain ⟨r, hr, hrange⟩ := exists_range h hs' hle
  obtain ⟨hrstyle, hrslice⟩ := utf16Slice_of_toRange hrange
  refine ⟨r, hr, hrstyle.trans hstyle, ?_⟩
  rw [hrslice, hslice, List.length_map, hcut.slice_eq]

/-- Code that is covered in place was not disturbed, unless titles are written twice. -/
theorem undisturbed_of_codeStyled (isWord : Nat → Bool) {blocks : List (Block CodePoint)}
    (hok : ∀ b ∈ blocks, b.Ok) {marked : List (CodePoint × Nat)} {ranges : List StyleRange}
    (h : markdownToSignal isWord (document blocks).zipIdx = .ok (marked, ranges))
    (hno : NoStackedTitle (unfenced (document blocks)))
    (hstyled : CodeStyled blocks marked ranges) : CodeUndisturbed blocks := by
  intro p hp hne
  obtain ⟨front, fs, hcut, hnodup, hlist⟩ := exists_cut hok (toFenced_ne_nil hp)
  -- Every fence with code is covered by a span.
  have hcovered : ∀ gs f hs, fs = gs ++ f :: hs → f.content ≠ [] →
      ∃ s ∈ (spansOf isWord (document blocks).zipIdx).2, s.style = .monospace ∧
        slice (spansOf isWord (document blocks).zipIdx).1 s.start (s.start + s.length)
          = f.content := by
    intro gs f hs hsplit hne
    subst hsplit
    have hmem := List.mem_map_of_mem (f := fun p => (p.1, p.2.map Prod.fst))
      (mem_contentsFrom.mpr ⟨gs, f, hs, rfl, rfl⟩ : _ ∈ contentsFrom front.length _)
    rw [← hlist] at hmem
    obtain ⟨r, hr, hstyle, hslice⟩ := hstyled _ hmem (by simpa using hne)
    obtain ⟨s, hs', -, hrange⟩ := (mem_ranges h r).mp hr
    obtain ⟨hrstyle, hrslice⟩ := utf16Slice_of_toRange hrange
    refine ⟨s, hs', hrstyle.symm.trans hstyle, ?_⟩
    rw [← plain_eq h, ← hrslice, hslice, List.length_map, hcut.slice_eq]
  rw [hlist] at hp
  obtain ⟨q, hq, rfl⟩ := List.mem_map.mp hp
  obtain ⟨gs, f, hs, hsplit, rfl⟩ := mem_contentsFrom.mp hq
  have hne' : f.content ≠ [] := fun hnil => hne (by rw [hnil]; rfl)
  obtain ⟨hintact, hmarker⟩ :=
    hcut.undisturbed isWord hnodup hno.zipIdx hcovered hsplit hne'
  subst hsplit
  exact ⟨(intact_map keepsCode_fst _).mpr hintact, hcut.noHeading_iff.mpr hmarker⟩

/-- A document of lines and fenced code blocks is converted if it has no lone surrogates.
The MONOSPACE ranges of the result cover the code of every fence, in place and as a text,
if nothing disturbs the code. If the code is covered in place, nothing disturbs it, unless
titles are written twice. -/
theorem codeStyled_markdownToSignal (isWord : Nat → Bool) {blocks : List (Block CodePoint)}
    (hok : ∀ b ∈ blocks, b.Ok) :
    ((∀ x ∈ document blocks, isSurrogate (code x) = false) →
      ∃ plain ranges, markdownToSignal isWord (document blocks) = .ok (plain, ranges)) ∧
    ∀ plain ranges, markdownToSignal isWord (document blocks) = .ok (plain, ranges) →
      ∃ marked, markdownToSignal isWord (document blocks).zipIdx = .ok (marked, ranges) ∧
        marked.map Prod.fst = plain ∧
        (CodeUndisturbed blocks →
          CodeStyled blocks marked ranges ∧ CodeStyledText blocks plain ranges) ∧
        (NoStackedTitle (unfenced (document blocks)) →
          CodeStyled blocks marked ranges → CodeUndisturbed blocks) := by
  refine ⟨exists_ok isWord, ?_⟩
  intro plain ranges h
  obtain ⟨marked, hmarked, rfl⟩ := exists_marked h
  refine ⟨marked, hmarked, rfl, ?_, ?_⟩
  · intro hcode
    have hstyled := codeStyled_of_undisturbed isWord hok hmarked hcode
    refine ⟨hstyled, ?_⟩
    intro p hp hne
    obtain ⟨r, hr, hstyle, hslice⟩ := hstyled p hp hne
    refine ⟨r, hr, hstyle, ?_⟩
    -- the span in UTF-16 units cuts out the same characters
    obtain ⟨front, fs, hcut, -, hlist⟩ := exists_cut hok (toFenced_ne_nil hp)
    rw [hlist] at hp
    obtain ⟨q, hq, rfl⟩ := List.mem_map.mp hp
    obtain ⟨gs, f, hs, rfl, rfl⟩ := mem_contentsFrom.mp hq
    rw [utf16Slice_map keepsCode_fst, hslice, List.length_map, hcut.slice_eq]
  · exact undisturbed_of_codeStyled isWord hok hmarked

/-- A text on one line has one line start. -/
theorem LineStart.eq_zero {t : List Nat} {i : Nat} (h : LineStart t i)
    (hline : ∀ n ∈ t, chr '\n' n = false) : i = 0 := by
  rcases h with hzero | hnl
  · exact hzero
  · cases hget : t[i - 1]? with
    | none => rw [hget] at hnl; cases hnl
    | some n =>
      have hn := hline n (List.mem_of_getElem? hget)
      rw [hget, Option.any_some, hn] at hnl
      cases hnl

/-- A line, and a block in Python. -/
def listing : List (Block CodePoint) :=
  [.line (lit "Run this:"), .fence (lit "py") (lit "x = 1")]

/-- The listing is a document. -/
theorem listing_ok : ∀ b ∈ listing, b.Ok := by
  show ∀ b ∈ [Block.line (lit "Run this:"), .fence (lit "py") (lit "x = 1")], b.Ok
  simp only [List.forall_mem_cons, List.not_mem_nil, false_imp_iff, implies_true, and_true]
  constructor
  · show ∀ x ∈ (lit "Run this:" : PyStr), isMarker x = false ∧ isNewline x = false
    intro x hx
    fin_cases hx <;> decide
  · refine ⟨fun x hx => by fin_cases hx <;> decide, fun x hx => by fin_cases hx <;> decide, ?_⟩
    intro i hi
    have hzero := hi.eq_zero fun n hn => by fin_cases hn <;> decide
    rw [hzero]
    decide

/-- Nothing disturbs the code of the listing. -/
theorem undisturbed_listing : CodeUndisturbed listing := by
  have hcode : ∀ p ∈ fencedCode 0 listing, p = (16, lit "x = 1") := by
    intro p hp
    exact List.mem_singleton.mp hp
  intro p hp _
  obtain rfl := hcode p hp
  refine ⟨⟨?_, by decide +kernel⟩, fun i hi => ?_⟩
  · intro c hc
    cases hc
    decide
  · -- There is no hash in front of the code.
    have hnone : ∀ i < (codes (lstrip ((document listing).take 16))).length,
        ¬ HeadingAt (codes (lstrip ((document listing).take 16))) i := by decide +kernel
    exact hnone i hi.lt_length hi

/-- The code of the listing is styled. -/
theorem codeStyled_markdownToSignal_listing :
    ∃ plain ranges marked, markdownToSignal asciiWord (document listing) = .ok (plain, ranges) ∧
      markdownToSignal asciiWord (document listing).zipIdx = .ok (marked, ranges) ∧
      CodeStyled listing marked ranges ∧ CodeStyledText listing plain ranges := by
  obtain ⟨hconverts, hstyled⟩ := codeStyled_markdownToSignal asciiWord listing_ok
  have hno : ((document listing).all fun x => !isSurrogate (code x)) = true := by decide +kernel
  obtain ⟨plain, ranges, hresult⟩ :=
    hconverts fun x hx => by simpa using List.all_eq_true.mp hno x hx
  obtain ⟨marked, hmarked, -, hcode, -⟩ := hstyled plain ranges hresult
  exact ⟨plain, ranges, marked, hresult, hmarked, hcode undisturbed_listing⟩

/-- A heading, and a block of code. -/
def titled : List (Block CodePoint) := [.line (lit "# Title"), .fence [] (lit "code")]

/-- The block under a heading is a document. -/
theorem titled_ok : ∀ b ∈ titled, b.Ok := by
  show ∀ b ∈ [Block.line (lit "# Title"), .fence [] (lit "code")], b.Ok
  simp only [List.forall_mem_cons, List.not_mem_nil, false_imp_iff, implies_true, and_true]
  constructor
  · show ∀ x ∈ (lit "# Title" : PyStr), isMarker x = false ∧ isNewline x = false
    intro x hx
    fin_cases hx <;> decide
  · refine ⟨fun x hx => (List.not_mem_nil hx).elim, fun x hx => by fin_cases hx <;> decide, ?_⟩
    intro i hi
    have hzero := hi.eq_zero fun n hn => by fin_cases hn <;> decide
    rw [hzero]
    decide

/-- The code under a heading loses its range. -/
theorem markdownToSignal_titled :
    (∀ b ∈ titled, b.Ok) ∧ ∃ plain ranges,
      markdownToSignal asciiWord (document titled) = .ok (plain, ranges) ∧
        ¬ CodeStyledText titled plain ranges := by
  refine ⟨titled_ok, lit "Title\ncode", [⟨0, 5, .bold⟩], by decide +kernel, ?_⟩
  intro hstyled
  obtain ⟨r, hr, hstyle, -⟩ := hstyled (12, lit "code") List.mem_cons_self (by decide)
  rw [List.mem_singleton.mp hr] at hstyle
  cases hstyle

end SignalGateway.Proofs.Markdown
