import SignalGateway.Proofs.Markdown

/-!
# `SignalGateway.Proofs.Fences`: the fence phase on a text with fences

A text whose fences have no backticks inside or between them is a start and a list of
`Fenced` stretches. The fence phase takes them from left to right: `fences_eq` is the text
it leaves and the spans it records. The induction goes along the list. What was already
unfenced has no backticks, so it joins the text in front.

`search_fence` is the step: in front of the first fence stands no backtick, so the search finds it
there, with the content as its group. It is proved on the outcomes of the pattern, part by part:
the opening backticks, the tag and its newline (`outcomes_closing_nil` says why the lazy body does
not end earlier), the body, and the closing backticks (`outcomes_closing`).

`fencesFrom_eq` is the loop. Its fuel is the number of fences.
-/

set_option autoImplicit false

namespace SignalGateway.Proofs.Markdown

open SignalGateway.Markdown
open Regex PyChar

/-! ### The fence pattern -/

/-- Three backticks. -/
def ticks : List Nat := [0x60, 0x60, 0x60]

/-- Two drops in a row. -/
theorem drop_add_length {σ : Type} {t u v : List σ} {i : Nat} (h : t.drop i = u ++ v) :
    t.drop (i + u.length) = v := by
  rw [← List.drop_drop, h, List.drop_left]

/-- The first character behind a drop. -/
theorem getElem?_of_drop {σ : Type} {t v : List σ} {c : σ} {i : Nat} (h : t.drop i = c :: v) :
    t[i]? = some c := by
  have hget : (t.drop i)[0]? = t[i]? := by rw [List.getElem?_drop, Nat.add_zero]
  rw [← hget, h]
  rfl

/-- The three ticks, one by one. -/
theorem getElem?_ticks {t rest : List Nat} {i : Nat} (h : t.drop i = ticks ++ rest) :
    t[i]? = some 0x60 ∧ t[i + 1]? = some 0x60 ∧ t[i + 1 + 1]? = some 0x60 :=
  ⟨getElem?_of_drop h, getElem?_of_drop (drop_add_length (u := [0x60]) h),
    getElem?_of_drop (drop_add_length (u := [0x60, 0x60]) h)⟩

/-- The three closing backticks of the pattern. -/
def closingPattern : Re Nat := .seqs [.one backtick, .one backtick, .one backtick]

/-- The closing pattern matches the ticks. -/
theorem outcomes_closing {t rest : List Nat} {i : Nat} (h : t.drop i = ticks ++ rest) :
    outcomes t closingPattern i = [(i + 3, [])] := by
  obtain ⟨h₀, h₁, h₂⟩ := getElem?_ticks h
  simp [closingPattern, Re.seqs, outcomes, h₀, h₁, h₂, backtick]

/-- It matches nothing else. -/
theorem outcomes_closing_nil {t : List Nat} {i : Nat} (h : (t[i]?).any backtick = false) :
    outcomes t closingPattern i = [] := by
  show outcomes t (.seq (.one backtick) _) i = []
  rw [outcomes_one_seq, h]
  rfl

/-- A newline is in no tag. -/
theorem isTagCode_newline : isTagCode '\n'.toNat = false := by decide

/-- No fence starts where no backtick stands. -/
theorem matchAt_fence_none {t : List Nat} {i : Nat} (h : (t[i]?).any backtick = false) :
    matchAt t fencePattern i = none := by
  rw [matchAt_eq_none]
  show outcomes t (.seq (.one backtick) _) i = []
  rw [outcomes_one_seq, h]
  rfl

/-- A fence without backticks inside is matched as a whole: the tag is not part of the
group, the rest of the inside is. -/
theorem matchAt_fence {t tag body rest : List Nat} {i : Nat}
    (h : t.drop i = ticks ++ (tag ++ '\n'.toNat :: (body ++ (ticks ++ rest))))
    (htag : ∀ n ∈ tag, isTagCode n = true) (hbody : ∀ n ∈ body, backtick n = false) :
    matchAt t fencePattern i
      = some ⟨i, i + 3 + tag.length + 1 + body.length + 3,
          [(i + 3 + tag.length + 1, i + 3 + tag.length + 1 + body.length)]⟩ := by
  have hdrop₃ : t.drop (i + 3) = tag ++ '\n'.toNat :: (body ++ (ticks ++ rest)) :=
    drop_add_length h
  have hdroptag := drop_add_length hdrop₃
  have hdropbody : t.drop (i + 3 + tag.length + 1) = body ++ (ticks ++ rest) :=
    drop_add_length (u := ['\n'.toNat]) hdroptag
  -- The group runs to the first backtick.
  obtain ⟨others, hgroup⟩ : ∃ others, outcomes t
      (.seq (.group (.rep false 0 none fun _ => true)) closingPattern) (i + 3 + tag.length + 1)
        = (i + 3 + tag.length + 1 + body.length + 3,
            [(i + 3 + tag.length + 1, i + 3 + tag.length + 1 + body.length)]) :: others := by
    refine outcomes_lazy_group_seq ?_ ?_ (outcomes_closing (drop_add_length hdropbody))
    · rw [runLength, hdropbody]
      simp
    · intro k hk
      refine outcomes_closing_nil ?_
      have hget : t[i + 3 + tag.length + 1 + k]? = some body[k] := by
        rw [← List.getElem?_drop, hdropbody, List.getElem?_append_left hk,
          List.getElem?_eq_getElem hk]
      rw [hget]
      exact hbody _ (List.getElem_mem hk)
  -- The tag is taken as a whole, with its newline.
  have hrunlen : runLength isTagCode t (i + 3) = tag.length :=
    runLength_eq hdrop₃ htag fun c hc => by
      have : c = '\n'.toNat := (Option.some.inj hc).symm
      rw [this]
      exact isTagCode_newline
  have htagline : outcomes t (.seq (.seq (.rep true 0 none isTagCode) (.one (chr '\n')))
      (.seq (.group (.rep false 0 none fun _ => true)) closingPattern)) (i + 3)
        = outcomes t (.seq (.group (.rep false 0 none fun _ => true)) closingPattern)
            (i + 3 + tag.length + 1) := by
    rw [outcomes_seq_assoc, outcomes_run_seq, hrunlen, if_pos ⟨Nat.zero_le _, by simp⟩,
      outcomes_one_seq, getElem?_of_drop hdroptag, if_pos (by decide)]
    intro j hj
    rw [outcomes_one_seq, if_neg]
    intro hnl
    cases hc : t[j]? with
    | none => rw [hc] at hj; cases hj
    | some c =>
      rw [hc, Option.any_some] at hj hnl
      rw [chr, beq_iff_eq] at hnl
      rw [hnl, isTagCode_newline] at hj
      cases hj
  obtain ⟨h₀, h₁, h₂⟩ := getElem?_ticks h
  have hall : outcomes t fencePattern i
      = outcomes t (.seq (.group (.rep false 0 none fun _ => true)) closingPattern)
          (i + 3 + tag.length + 1)
        ++ outcomes t (.seq .eps
          (.seq (.group (.rep false 0 none fun _ => true)) closingPattern)) (i + 3) := by
    rw [← htagline]
    show outcomes t (.seq (.one backtick) (.seq (.one backtick) (.seq (.one backtick)
      (.seq (.alt _ .eps) (.seq (.group _) closingPattern))))) i = _
    rw [outcomes_one_seq, h₀, if_pos (by decide), outcomes_one_seq, h₁, if_pos (by decide),
      outcomes_one_seq, h₂, if_pos (by decide), outcomes_alt_seq]
  rw [matchAt, hall, hgroup]
  rfl

/-! ### Texts with fences -/

variable {α : Type}

/-- A fence and the text behind it. -/
structure Fenced (α : Type) where
  opening : List α
  body : List α
  closing : List α
  rest : List α

/-- The text of the fence and what is behind it. -/
def Fenced.text (f : Fenced α) : List α := f.opening ++ f.body ++ f.closing ++ f.rest

variable [PyChar α]

/-- No backtick in the text. -/
def NoBacktick (s : List α) : Prop := ∀ c ∈ s, backtick (code c) = false

/-- Three backticks open and close the fence, the tag has its own line, and there is no
other backtick. -/
structure Fenced.Ok (f : Fenced α) : Prop where
  opening : ∃ tag, codes f.opening = ticks ++ (tag ++ ['\n'.toNat]) ∧
    ∀ n ∈ tag, isTagCode n = true
  closing : codes f.closing = ticks
  body : NoBacktick f.body
  rest : NoBacktick f.rest

/-- The inside of the fence without the newlines at the end. -/
def Fenced.inner (f : Fenced α) : List α := rstripChr '\n' f.body

/-- What is left of the fence and the text behind it. -/
def Fenced.plain (f : Fenced α) : List α := f.inner ++ f.rest

/-- The spans of fences that start at position `i` of the unfenced text. -/
def fenceSpans : Nat → List (Fenced α) → List Span
  | _, [] => []
  | i, f :: fs => ⟨i, f.inner.length, .monospace⟩ :: fenceSpans (i + f.plain.length) fs

/-- Two texts without backticks. -/
theorem NoBacktick.append {u v : List α} (hu : NoBacktick u) (hv : NoBacktick v) :
    NoBacktick (u ++ v) := by
  intro c hc
  rcases List.mem_append.mp hc with hc | hc
  · exact hu c hc
  · exact hv c hc

/-- A part of a text without backticks. -/
theorem NoBacktick.sublist {u v : List α} (hv : NoBacktick v) (h : u.Sublist v) :
    NoBacktick u := fun c hc => hv c (h.subset hc)

/-- What is kept is a part of the body. -/
theorem inner_sublist_body (f : Fenced α) : f.inner.Sublist f.body :=
  (List.rdropWhile_prefix _ _).sublist

/-- The plain text of a fence has no backtick. -/
theorem Fenced.Ok.noBacktick_plain {f : Fenced α} (h : f.Ok) : NoBacktick f.plain :=
  (h.body.sublist (inner_sublist_body f)).append h.rest

/-- There is no tick in front of the fence. -/
theorem getElem?_any_of_noBacktick {u v : List α} (hu : NoBacktick u) {j : Nat}
    (hj : j < u.length) : ((codes (u ++ v))[j]?).any backtick = false := by
  rw [getElem?_codes, List.getElem?_append_left hj, List.getElem?_eq_getElem hj]
  exact hu _ (List.getElem_mem hj)

/-- A text without backticks is left alone. -/
theorem fencesFrom_noBacktick {text : List α} (h : NoBacktick text) (fuel : Nat)
    (spans : List Span) : fencesFrom fuel text spans = (text, spans) := by
  cases fuel with
  | zero => rfl
  | succ fuel =>
    have hnone : search (codes text) fencePattern 0 = none := by
      refine search_eq_none fun j => matchAt_fence_none ?_
      by_cases hj : j < text.length
      · have := getElem?_any_of_noBacktick (v := []) h hj
        rwa [List.append_nil] at this
      · rw [getElem?_codes, List.getElem?_eq_none (by omega)]
        rfl
    rw [fencesFrom, hnone]

/-- The first fence of a text is found. -/
theorem search_fence {front back : List α} {f : Fenced α} (hfront : NoBacktick front)
    (hf : f.Ok) :
    search (codes (front ++ (f.text ++ back))) fencePattern 0
      = some ⟨front.length, (front ++ f.opening ++ f.body ++ f.closing).length,
          [((front ++ f.opening).length, (front ++ f.opening ++ f.body).length)]⟩ := by
  obtain ⟨tag, hopening, htag⟩ := hf.opening
  have hopen : f.opening.length = 3 + tag.length + 1 := by
    rw [← length_codes, hopening]
    simp [ticks]
    omega
  have hclose : f.closing.length = 3 := by
    rw [← length_codes, hf.closing]
    rfl
  have hbody : ∀ n ∈ codes f.body, backtick n = false := by
    intro n hn
    obtain ⟨c, hc, rfl⟩ := List.mem_map.mp hn
    exact hf.body c hc
  have hdrop : (codes (front ++ (f.text ++ back))).drop front.length
      = ticks ++ (tag ++ '\n'.toNat :: (codes f.body
          ++ (ticks ++ (codes f.rest ++ codes back)))) := by
    rw [codes_append, ← length_codes front, List.drop_left, Fenced.text]
    simp only [codes_append, hopening, hf.closing, List.append_assoc, List.cons_append,
      List.nil_append]
  have hfound := matchAt_fence hdrop htag hbody
  -- the match starts at the opening, and no earlier place has a tick
  refine search_eq_some ?_ ?_ ?_ (i := front.length)
  · rw [length_codes, List.length_append]
    omega
  · rw [hfound]
    simp only [length_codes, List.length_append, hopen, hclose]
    simp only [Option.some.injEq, Match.mk.injEq, List.cons.injEq, Prod.mk.injEq, and_true,
      true_and]
    omega
  · intro j hj
    exact matchAt_fence_none (getElem?_any_of_noBacktick hfront hj)

/-- One round of the fence phase. -/
theorem fencesFrom_step {front back : List α} {f : Fenced α} (hfront : NoBacktick front)
    (hf : f.Ok) (fuel : Nat) (spans : List Span) :
    fencesFrom (fuel + 1) (front ++ (f.text ++ back)) spans
      = fencesFrom fuel (front ++ f.plain ++ back)
          (spans ++ [⟨front.length, f.inner.length, .monospace⟩]) := by
  have hbody : slice (front ++ (f.text ++ back)) (front ++ f.opening).length
      (front ++ f.opening ++ f.body).length = f.body := by
    have hsplit : front ++ (f.text ++ back)
        = front ++ f.opening ++ f.body ++ (f.closing ++ f.rest ++ back) := by
      simp [Fenced.text]
    rw [slice, hsplit, List.take_left, List.drop_left]
  have htake : (front ++ (f.text ++ back)).take front.length = front := List.take_left
  have hdrop : (front ++ (f.text ++ back)).drop
      (front ++ f.opening ++ f.body ++ f.closing).length = f.rest ++ back := by
    have hsplit : front ++ (f.text ++ back)
        = front ++ f.opening ++ f.body ++ f.closing ++ (f.rest ++ back) := by
      simp [Fenced.text]
    rw [hsplit, List.drop_left]
  -- the loop cuts the fence out and goes on with its body in place
  rw [fencesFrom, search_fence hfront hf]
  simp only [groupSpan, List.headD_cons]
  rw [hbody, htake, hdrop]
  simp only [Fenced.plain, Fenced.inner, List.append_assoc]

/-- All fences are found, one after the other. -/
theorem fencesFrom_eq {fs : List (Fenced α)} (hfs : ∀ f ∈ fs, f.Ok) :
    ∀ {front : List α} {fuel : Nat} {spans : List Span}, NoBacktick front →
      fs.length ≤ fuel →
      fencesFrom fuel (front ++ (fs.map Fenced.text).flatten) spans
        = (front ++ (fs.map Fenced.plain).flatten, spans ++ fenceSpans front.length fs) := by
  induction fs with
  | nil =>
    intro front fuel spans hfront _
    simp only [List.map_nil, List.flatten_nil, List.append_nil, fenceSpans]
    exact fencesFrom_noBacktick hfront fuel spans
  | cons f fs ih =>
    intro front fuel spans hfront hfuel
    have hf := hfs f List.mem_cons_self
    obtain ⟨fuel, rfl⟩ : ∃ n, fuel = n + 1 := ⟨fuel - 1, by simp at hfuel; omega⟩
    rw [List.map_cons, List.flatten_cons, fencesFrom_step hfront hf,
      ih (fun g hg => hfs g (List.mem_cons_of_mem f hg)) (hfront.append hf.noBacktick_plain)
        (by simpa using hfuel)]
    simp [fenceSpans]

/-- The fence phase on a text with fences. -/
theorem fences_eq {front : List α} {fs : List (Fenced α)} (hfront : NoBacktick front)
    (hfs : ∀ f ∈ fs, f.Ok) :
    fences (front ++ (fs.map Fenced.text).flatten)
      = (front ++ (fs.map Fenced.plain).flatten, fenceSpans front.length fs) := by
  have hfuel : fs.length ≤ (front ++ (fs.map Fenced.text).flatten).length := by
    have hpos : ∀ f ∈ fs, 1 ≤ f.text.length := by
      intro f hf
      have hclose : f.closing.length = 3 := by
        rw [← length_codes, (hfs f hf).closing]
        rfl
      simp only [Fenced.text, List.length_append]
      omega
    have := List.length_le_sum_of_one_le (fs.map fun f => f.text.length) (by simpa using hpos)
    rw [List.length_append, List.length_flatten, List.map_map]
    simp only [List.length_map] at this
    exact this.trans (Nat.le_add_left _ _)
  rw [fences, fencesFrom_eq hfs hfront hfuel, List.nil_append]

end SignalGateway.Proofs.Markdown
