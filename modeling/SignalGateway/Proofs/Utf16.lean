import SignalGateway.Proofs.Headings

/-!
# `SignalGateway.Proofs.Utf16`: what the returned ranges cover

The returned ranges count UTF-16 units. `utf16Slice` cuts them out of the plain text, and
`utf16Slice_of_toRange` says that this is the span the range was made from.
`mem_ranges` lists the returned ranges, and `exists_ok` says when there are any.

`dropUnits` and `takeUnits` read a text unit by unit. At the boundary of a character they are
`drop` and `take` (`dropUnits_sum`, `takeUnits_sum`).

A text with a surrogate cannot be encoded, and `_utf16_len` raises then. A range of a text that
can be encoded was made without an error, so its offsets are sums of units (`toRange_eq_ok`).
-/

set_option autoImplicit false

namespace SignalGateway.Proofs.Markdown

open SignalGateway.Markdown
open Regex PyChar

variable {α : Type} [PyChar α]

/-- The text behind the first `n` UTF-16 units. -/
def dropUnits : Nat → List α → List α
  | _, [] => []
  | n, c :: s => if units c ≤ n then dropUnits (n - units c) s else c :: s

/-- The characters that fit into `n` UTF-16 units. -/
def takeUnits : Nat → List α → List α
  | _, [] => []
  | n, c :: s => if units c ≤ n then c :: takeUnits (n - units c) s else []

/-- The part of a text that a range covers. -/
def utf16Slice (s : List α) (start length : Nat) : List α :=
  takeUnits length (dropUnits start s)

/-- Every character has a unit. -/
theorem units_pos (c : α) : 0 < units c := by
  rw [units]
  split <;> omega

/-- No character takes up nothing. -/
theorem length_le_sum_units (s : List α) : s.length ≤ (s.map units).sum := by
  have hpos : ∀ n ∈ s.map units, 1 ≤ n := by
    intro n hn
    obtain ⟨c, -, rfl⟩ := List.mem_map.mp hn
    exact units_pos c
  have hsum := List.length_le_sum_of_one_le (s.map units) hpos
  rwa [List.length_map] at hsum

/-- The units in front of a position are those of its prefix. -/
theorem dropUnits_sum (s : List α) : ∀ k, dropUnits ((s.take k).map units).sum s = s.drop k := by
  induction s with
  | nil => intro k; simp [dropUnits]
  | cons c s ih =>
    intro k
    cases k with
    | zero =>
      have := units_pos c
      simp only [List.take_zero, List.map_nil, List.sum_nil, dropUnits, List.drop_zero]
      rw [if_neg (by omega)]
    | succ k =>
      simp only [List.take_succ_cons, List.map_cons, List.sum_cons, dropUnits,
        List.drop_succ_cons]
      rw [if_pos (Nat.le_add_right _ _), Nat.add_sub_cancel_left, ih]

/-- The same for what is taken. -/
theorem takeUnits_sum (s : List α) : ∀ k, takeUnits ((s.take k).map units).sum s = s.take k := by
  induction s with
  | nil => intro k; simp [takeUnits]
  | cons c s ih =>
    intro k
    cases k with
    | zero =>
      have := units_pos c
      simp only [List.take_zero, List.map_nil, List.sum_nil, takeUnits]
      rw [if_neg (by omega)]
    | succ k =>
      simp only [List.take_succ_cons, List.map_cons, List.sum_cons, takeUnits]
      rw [if_pos (Nat.le_add_right _ _), Nat.add_sub_cancel_left, ih]

/-- A relabelling commutes with slices in UTF-16 units. -/
theorem utf16Slice_map {β : Type} [PyChar β] {f : α → β} (hf : KeepsCode f) (s : List α)
    (start length : Nat) :
    utf16Slice (s.map f) start length = (utf16Slice s start length).map f := by
  -- the units of a character are those of its code
  have hunits : ∀ c, units (f c) = units c := fun c => by rw [units, units, hf.code_eq]
  have hdrop : ∀ (s : List α) (n : Nat), dropUnits n (s.map f) = (dropUnits n s).map f := by
    intro s
    induction s with
    | nil => intro n; rfl
    | cons c s ih =>
      intro n
      simp only [List.map_cons, dropUnits, hunits, ih]
      split <;> rfl
  have htake : ∀ (s : List α) (n : Nat), takeUnits n (s.map f) = (takeUnits n s).map f := by
    intro s
    induction s with
    | nil => intro n; rfl
    | cons c s ih =>
      intro n
      simp only [List.map_cons, takeUnits, hunits, ih]
      split <;> rfl
  rw [utf16Slice, hdrop, htake]
  rfl

/-- The length of a text without surrogates. -/
theorem utf16Len_of_no_surrogate {s : List α} (h : ∀ x ∈ s, isSurrogate (code x) = false) :
    utf16Len s = .ok (s.map units).sum := by
  rw [utf16Len, if_neg]
  rw [List.any_eq_true]
  rintro ⟨x, hx, hsurr⟩
  rw [h x hx] at hsurr
  cases hsurr

/-- A surrogate cannot be encoded. -/
theorem utf16Len_of_surrogate {s : List α} (h : ∃ x ∈ s, isSurrogate (code x) = true) :
    utf16Len s = .error .unicodeEncodeError := by
  rw [utf16Len, if_pos]
  rw [List.any_eq_true]
  exact h

/-- A text that can be encoded has as many units as its characters. -/
theorem sum_units_of_ok {s : List α} {n : Nat} (h : utf16Len s = .ok n) :
    n = (s.map units).sum := by
  rw [utf16Len] at h
  split at h
  · cases h
  · exact (Except.ok.inj h).symm

/-- The range of a span, in units. -/
theorem toRange_eq_ok {text : List α} {s : Span} {r : StyleRange} (h : toRange text s = .ok r) :
    r = ⟨((text.take s.start).map units).sum,
      ((slice text s.start (s.start + s.length)).map units).sum, s.style⟩ := by
  rw [toRange] at h
  cases hstart : utf16Len (text.take s.start) with
  | error e => rw [hstart] at h; cases h
  | ok a =>
    cases hlength : utf16Len (slice text s.start (s.start + s.length)) with
    | error e => rw [hstart, hlength] at h; cases h
    | ok l =>
      rw [hstart, hlength] at h
      rw [← sum_units_of_ok hstart, ← sum_units_of_ok hlength]
      exact (Except.ok.inj h).symm

/-- A range covers the span it was made from. -/
theorem utf16Slice_of_toRange {text : List α} {s : Span} {r : StyleRange}
    (h : toRange text s = .ok r) :
    r.style = s.style ∧
      utf16Slice text r.start r.length = slice text s.start (s.start + s.length) := by
  rw [toRange_eq_ok h]
  have hslice : slice text s.start (s.start + s.length)
      = (text.drop s.start).take s.length := by
    rw [slice_eq_take_drop, Nat.add_sub_cancel_left]
  refine ⟨rfl, ?_⟩
  show takeUnits ((slice text s.start (s.start + s.length)).map units).sum
    (dropUnits ((text.take s.start).map units).sum text) = _
  rw [dropUnits_sum, hslice, takeUnits_sum]

/-! ### The returned ranges -/

/-- The results of a loop that does not raise. -/
theorem mem_of_mapM_ok {γ δ ε : Type} {f : γ → Except ε δ} {xs : List γ} : ∀ {ys : List δ},
    xs.mapM f = .ok ys → ∀ y, y ∈ ys ↔ ∃ x ∈ xs, f x = .ok y := by
  induction xs with
  | nil =>
    intro ys h y
    rw [List.mapM_nil] at h
    obtain rfl : [] = ys := Except.ok.inj h
    simp
  | cons x xs ih =>
    intro ys h y
    rw [List.mapM_cons] at h
    cases hx : f x with
    | error e => rw [hx] at h; cases h
    | ok z =>
      cases hxs : xs.mapM f with
      | error e => rw [hx, hxs] at h; cases h
      | ok zs =>
        rw [hx, hxs] at h
        obtain rfl : z :: zs = ys := Except.ok.inj h
        rw [List.mem_cons, List.exists_mem_cons_iff, ih hxs, hx]
        -- the head, whose result is `z`
        refine or_congr_left ?_
        rw [Except.ok.injEq]
        exact eq_comm

/-- In such a loop no turn raises. -/
theorem exists_of_mapM_ok {γ δ ε : Type} {f : γ → Except ε δ} {xs : List γ} :
    ∀ {ys : List δ}, xs.mapM f = .ok ys → ∀ x ∈ xs, ∃ y, f x = .ok y := by
  induction xs with
  | nil => intro ys _ x hx; cases hx
  | cons z xs ih =>
    intro ys h x hx
    rw [List.mapM_cons] at h
    cases hz : f z with
    | error e => rw [hz] at h; cases h
    | ok y =>
      cases hxs : xs.mapM f with
      | error e => rw [hz, hxs] at h; cases h
      | ok zs =>
        rcases List.mem_cons.mp hx with rfl | hx
        · exact ⟨y, hz⟩
        · exact ih hxs x hx

/-- The ranges of a conversion that succeeds. -/
theorem mapM_toRange {isWord : Nat → Bool} {text plain : List α} {ranges : List StyleRange}
    (h : markdownToSignal isWord text = .ok (plain, ranges)) :
    List.mapM (toRange plain) ((sortSpans (spansOf isWord text).2).filter
      fun s : Span => s.start + s.length ≤ plain.length) = .ok ranges := by
  have hplain := plain_eq h
  rw [markdownToSignal_eq, ← hplain] at h
  cases hrun : List.mapM (toRange plain) ((sortSpans (spansOf isWord text).2).filter
      fun s : Span => s.start + s.length ≤ plain.length) with
  | error e => rw [hrun] at h; cases h
  | ok rs =>
    rw [hrun] at h
    exact congrArg (fun p => Except.ok p.2) (Except.ok.inj h)

/-- The returned ranges are those of the spans inside the plain text. -/
theorem mem_ranges {isWord : Nat → Bool} {text plain : List α} {ranges : List StyleRange}
    (h : markdownToSignal isWord text = .ok (plain, ranges)) (r : StyleRange) :
    r ∈ ranges ↔ ∃ s ∈ (spansOf isWord text).2,
      s.start + s.length ≤ plain.length ∧ toRange plain s = .ok r := by
  rw [mem_of_mapM_ok (mapM_toRange h)]
  refine exists_congr fun s => ?_
  have hperm : (sortSpans (spansOf isWord text).2).Perm (spansOf isWord text).2 :=
    perm_sortOn _ _
  rw [List.mem_filter, decide_eq_true_eq, hperm.mem_iff, and_assoc]

/-- Every span inside the plain text has a range. -/
theorem exists_range {isWord : Nat → Bool} {text plain : List α} {ranges : List StyleRange}
    (h : markdownToSignal isWord text = .ok (plain, ranges)) {s : Span}
    (hs : s ∈ (spansOf isWord text).2) (hle : s.start + s.length ≤ plain.length) :
    ∃ r ∈ ranges, toRange plain s = .ok r := by
  have hperm : (sortSpans (spansOf isWord text).2).Perm (spansOf isWord text).2 :=
    perm_sortOn _ _
  obtain ⟨r, hr⟩ := exists_of_mapM_ok (mapM_toRange h) s
    (List.mem_filter.mpr ⟨hperm.mem_iff.mpr hs, by simpa using hle⟩)
  exact ⟨r, (mem_ranges h r).mpr ⟨s, hs, hle, hr⟩, hr⟩

/-- A loop without a turn that raises does not raise. -/
theorem exists_mapM_ok {γ δ ε : Type} {f : γ → Except ε δ} {xs : List γ}
    (h : ∀ x ∈ xs, ∃ y, f x = .ok y) : ∃ ys, xs.mapM f = .ok ys := by
  induction xs with
  | nil => exact ⟨[], rfl⟩
  | cons x xs ih =>
    obtain ⟨y, hy⟩ := h x List.mem_cons_self
    obtain ⟨ys, hys⟩ := ih fun z hz => h z (List.mem_cons_of_mem x hz)
    exact ⟨y :: ys, by rw [List.mapM_cons, hy, hys]; rfl⟩

/-- The heading phase makes up no character. -/
theorem mem_headingsFrom {text : List α} {c : α} (ms : List Match) :
    ∀ {newText : List α} {lastEnd : Nat} {spans : List Span}, (∀ x ∈ newText, x ∈ text) →
      c ∈ (headingsFrom text ms newText lastEnd spans).1 → c ∈ text := by
  induction ms with
  | nil =>
    intro newText lastEnd spans hnew hc
    rcases List.mem_append.mp hc with hc | hc
    · exact hnew c hc
    · exact List.mem_of_mem_drop hc
  | cons m ms ih =>
    intro newText lastEnd spans hnew hc
    refine ih ?_ hc
    intro x hx
    rcases List.mem_append.mp hx with hx | hx
    · rcases List.mem_append.mp hx with hx | hx
      · exact hnew x hx
      · exact (slice_sublist _ _ _).subset hx
    · exact (slice_sublist _ _ _).subset hx

/-- The heading phase writes only characters of the text. -/
theorem mem_headings {text : List α} {c : α} (hc : c ∈ (headings text).1) : c ∈ text :=
  mem_headingsFrom _ (by simp) hc

/-- Conversion brings in no surrogate. -/
theorem not_surrogate_spansOf (isWord : Nat → Bool) {text : List α}
    (h : ∀ x ∈ text, isSurrogate (code x) = false) :
    ∀ x ∈ (spansOf isWord text).1, isSurrogate (code x) = false := by
  intro x hx
  rw [spansOf_eq] at hx
  exact h x ((unfenced_sublist text).subset
    (mem_headings ((inlines_sublist isWord _ _).subset hx)))

/-- A text without lone surrogates is converted. -/
theorem exists_ok (isWord : Nat → Bool) {text : List α}
    (h : ∀ x ∈ text, isSurrogate (code x) = false) :
    ∃ plain ranges, markdownToSignal isWord text = .ok (plain, ranges) := by
  have hplain := not_surrogate_spansOf isWord h
  have hranges : ∀ s : Span, ∃ r, toRange (spansOf isWord text).1 s = .ok r := by
    intro s
    rw [toRange, utf16Len_of_no_surrogate fun x hx => hplain x ((List.take_sublist _ _).subset hx),
      utf16Len_of_no_surrogate fun x hx => hplain x ((slice_sublist _ _ _).subset hx)]
    exact ⟨_, rfl⟩
  have hmapM : ∀ xs : List Span, ∃ ys, xs.mapM (toRange (spansOf isWord text).1) = .ok ys :=
    fun xs => exists_mapM_ok fun s _ => hranges s
  obtain ⟨ranges, hrun⟩ := hmapM ((sortSpans (spansOf isWord text).2).filter
    fun s : Span => s.start + s.length ≤ (spansOf isWord text).1.length)
  refine ⟨(spansOf isWord text).1, ranges, ?_⟩
  rw [markdownToSignal_eq, hrun]
  rfl

end SignalGateway.Proofs.Markdown
