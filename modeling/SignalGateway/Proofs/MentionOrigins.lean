import SignalGateway.Proofs.Envelope
import SignalGateway.Proofs.Mentions

/-!
# `SignalGateway.Proofs.MentionOrigins`: where the characters of the rendered text come from

After `_render_mentions` the text holds characters the sender typed next to characters of tags.
This module keeps them apart. A `Splice` is what one turn of the loop does to the text,
`splices` reads all of them off the mentions, and `marked` applies them to a body whose
characters carry their positions.

## Main results

- `renderedText_str`: without the marks `marked` is the text that `parse_envelope` renders,
  for every body and every list of mentions, overlapping and ill-typed ones included.
- `getElem?_of_mem_marked`: a position names the character of the body that stands there.
- `marked_substitute`: for disjoint stretches inside the body `marked` is the simultaneous
  substitution of the tags.
-/

set_option autoImplicit false

namespace SignalGateway.Proofs.Envelope

open SignalGateway.Envelope Edits

/-- What a turn of the loop does: `tag` takes the place of `length` characters. -/
structure Splice where
  start : ℤ
  length : ℤ
  tag : PyStr

/-- The list after the splice. `ofTag` turns a character of the tag into an element. -/
def Splice.apply {α : Type} (e : Splice) (ofTag : CodePoint → α) (xs : List α) : List α :=
  sliceTo xs e.start ++ e.tag.map ofTag ++ sliceFrom xs (e.start + e.length)

/-- A character with its position in the body. A character of a tag has none. -/
abbrev Marked := CodePoint × Option Nat

/-- The body, every character with its position. -/
def positions (s : PyStr) : List Marked := s.zipIdx.map fun x => (x.1, some x.2)

/-- The body after the splices, one after the other. -/
def marked (es : List Splice) (s : PyStr) : List Marked :=
  es.foldl (fun xs e => e.apply (·, none) xs) (positions s)

section
variable (repr : Json → Except PyError PyStr)

/-- The splice of a mention. -/
def spliceOf (mention : Json × ℤ) : Except PyError Splice := do
  let length ← mention.1.getOr? "length" (.int 1)
  let identifier ← mentionIdentifier mention.1
  let tag ← identifier.toStr repr
  let length ← length.toIndex
  return ⟨mention.2, length, lit "@" ++ tag⟩

/-- The splices of a body, in the order of the loop. A body without a placeholder has none. -/
def splices (s : PyStr) (mentions : Json) : Except PyError (List Splice) :=
  if mentions.truthy = true ∧ mentionPlaceholder <:+: s then do
    (← mentionOrder mentions).mapM (spliceOf repr)
  else .ok []

end

variable {repr : Json → Except PyError PyStr}

/-! ### Dropping the marks -/

/-- A slice does not look at the elements. -/
theorem map_sliceTo {α β : Type} (f : α → β) (xs : List α) (i : ℤ) :
    (sliceTo xs i).map f = sliceTo (xs.map f) i := by
  rw [sliceTo, sliceTo, List.map_take, List.length_map]

/-- A slice does not look at the elements. -/
theorem map_sliceFrom {α β : Type} (f : α → β) (xs : List α) (i : ℤ) :
    (sliceFrom xs i).map f = sliceFrom (xs.map f) i := by
  rw [sliceFrom, sliceFrom, List.map_drop, List.length_map]

/-- A splice treats the marked text as it treats the text. -/
theorem Splice.map_fst_apply (e : Splice) (xs : List Marked) :
    (e.apply (·, none) xs).map Prod.fst = e.apply id (xs.map Prod.fst) := by
  rw [Splice.apply, Splice.apply, List.map_append, List.map_append, map_sliceTo, map_sliceFrom,
    List.map_map]
  rfl

/-- Without its positions the body is the body. -/
theorem map_fst_positions (s : PyStr) : (positions s).map Prod.fst = s := by
  rw [positions, List.map_map]
  exact List.zipIdx_map_fst 0 s

/-- Without the marks the splices are applied to the plain body. -/
theorem map_fst_marked (es : List Splice) (s : PyStr) :
    (marked es s).map Prod.fst = es.foldl (fun xs e => e.apply id xs) s := by
  have hfold : ∀ xs : List Marked,
      (es.foldl (fun xs e => e.apply (·, none) xs) xs).map Prod.fst
        = es.foldl (fun xs e => e.apply id xs) (xs.map Prod.fst) := by
    induction es with
    | nil => exact fun _ => rfl
    | cons e es ih =>
      intro xs
      rw [List.foldl_cons, ih, e.map_fst_apply, List.foldl_cons]
  rw [marked, hfold, map_fst_positions]

/-- A turn of the loop reads a splice and applies it. -/
theorem renderMention_eq_apply (text : PyStr) (mention : Json × ℤ) :
    renderMention repr text mention = (·.apply id text) <$> spliceOf repr mention := by
  simp only [renderMention, spliceOf, map_bind, map_pure, Splice.apply, List.map_id]

/-- No splice depends on the text, so the loop can read all of them first. -/
theorem foldlM_renderMention (order : List (Json × ℤ)) (text : PyStr) :
    order.foldlM (renderMention repr) text
      = (·.foldl (fun xs e => e.apply id xs) text) <$> order.mapM (spliceOf repr) := by
  induction order generalizing text with
  | nil => rfl
  | cons mention order ih =>
    rw [List.foldlM_cons, renderMention_eq_apply, List.mapM_cons]
    cases spliceOf repr mention with
    | error e => rfl
    | ok e =>
      show order.foldlM (renderMention repr) (e.apply id text) = _
      rw [ih]
      cases order.mapM (spliceOf repr) with
      | error e' => rfl
      | ok es => rfl

/-- The text that is rendered for a body is `marked` without the marks. -/
theorem renderedText_str (s : PyStr) (mentions : Json) :
    renderedText repr (.str s) mentions
      = (fun es => .str ((marked es s).map Prod.fst)) <$> splices repr s mentions := by
  have hplain : (fun es => Json.str ((marked es s).map Prod.fst))
      <$> (Except.ok [] : Except PyError (List Splice)) = .ok (.str s) :=
    congrArg (Except.ok ∘ Json.str) (map_fst_positions s)
  by_cases hmentions : mentions.truthy = true
  · by_cases hplaceholder : mentionPlaceholder <:+: s
    · -- The placeholder is a character, so the body is not empty.
      have hbody : (Json.str s).truthy = true := by
        cases s with
        | nil => exact absurd (List.eq_nil_of_infix_nil hplaceholder) (by decide)
        | cons c s => rfl
      have hcontains : Json.contains mentionPlaceholder (.str s) = .ok true :=
        congrArg Except.ok (decide_eq_true hplaceholder)
      rw [splices, if_pos ⟨hmentions, hplaceholder⟩, renderedText, hbody, hmentions]
      cases horder : mentionOrder mentions with
      | error e =>
        simp only [renderMentions, hmentions, hcontains, horder, bind, Except.bind]
        rfl
      | ok order =>
        simp only [renderMentions, hmentions, hcontains, horder, foldlM_renderMention, bind,
          Except.bind, Bool.not_true, Bool.and_self, Bool.false_eq_true, if_false, if_true]
        cases order.mapM (spliceOf repr) with
        | error e => rfl
        | ok es => exact congrArg (Except.ok ∘ Json.str) (map_fst_marked es s).symm
    · have hcontains : Json.contains mentionPlaceholder (.str s) = .ok false :=
        congrArg Except.ok (decide_eq_false hplaceholder)
      rw [splices, if_neg fun h => hplaceholder h.2, hplain, renderedText]
      split
      · simp only [renderMentions, hmentions, hcontains, bind, Except.bind, Bool.not_true,
          Bool.not_false, Bool.false_eq_true, if_false, if_true]
        rfl
      · rfl
  · rw [splices, if_neg fun h => hmentions h.1, hplain, renderedText, eq_false_of_ne_true hmentions,
      Bool.and_false]
    rfl

/-- Only a string is rendered to a string. -/
theorem body_of_renderedText {body mentions : Json} {text : PyStr}
    (h : renderedText repr body mentions = .ok (.str text)) : ∃ s, body = .str s := by
  rw [renderedText] at h
  split at h
  · -- A body of another type has no slices, and is returned if it holds no placeholder.
    rw [renderMentions] at h
    split at h
    · exact ⟨text, Except.ok.inj h⟩
    · obtain ⟨contained, -, h⟩ := bind_ok_iff.mp h
      split at h
      · exact ⟨text, Except.ok.inj h⟩
      · obtain ⟨order, -, h⟩ := bind_ok_iff.mp h
        split at h
        · exact ⟨_, rfl⟩
        · cases h
  · exact ⟨text, Except.ok.inj h⟩

/-! ### Positions -/

/-- A position of the body holds its character. -/
theorem getElem?_of_mem_positions {s : PyStr} {c : CodePoint} {i : Nat}
    (h : (c, some i) ∈ positions s) : s[i]? = some c := by
  obtain ⟨x, hx, heq⟩ := List.mem_map.mp h
  obtain ⟨rfl, hi⟩ := Prod.mk.inj heq
  obtain rfl := Option.some.inj hi
  exact List.mem_zipIdx_iff_getElem?.mp hx

/-- No splice moves a mark. -/
theorem Splice.mem_of_mem_apply {e : Splice} {xs : List Marked} {c : CodePoint} {i : Nat}
    (h : (c, some i) ∈ e.apply (·, none) xs) : (c, some i) ∈ xs := by
  rcases List.mem_append.mp h with h | hback
  · rcases List.mem_append.mp h with hfront | htag
    · exact List.mem_of_mem_take hfront
    · obtain ⟨_, -, heq⟩ := List.mem_map.mp htag
      cases heq
  · exact List.mem_of_mem_drop hback

/-- A character of the text with a position stands at that position of the body. -/
theorem getElem?_of_mem_marked {es : List Splice} {s : PyStr} {c : CodePoint} {i : Nat}
    (h : (c, some i) ∈ marked es s) : s[i]? = some c := by
  have hfold : ∀ xs : List Marked,
      (c, some i) ∈ es.foldl (fun xs e => e.apply (·, none) xs) xs → (c, some i) ∈ xs := by
    clear h
    induction es with
    | nil => exact fun _ h => h
    | cons e es ih => exact fun xs h => Splice.mem_of_mem_apply (ih _ h)
  exact getElem?_of_mem_positions (hfold _ h)

/-! ### Disjoint mentions -/

/-- The splice of a mention. -/
def Mention.splice (m : Mention) : Splice := ⟨m.start, m.length, m.tag⟩

/-- The replacement of the stretch by a tag without positions. -/
def Mention.markedEdit (m : Mention) : Edit Marked :=
  ⟨m.start, m.start + m.length, m.tag.map (·, none)⟩

/-- The splice of a mention that is read. -/
theorem spliceOf_eq {item : Json} {m : Mention} (h : Reads item m) :
    spliceOf repr (item, m.start) = .ok m.splice := by
  rw [spliceOf, h.length_eq, mentionIdentifier_eq h]
  rfl

/-- The splice of a mention is its edit. -/
theorem Mention.apply_splice (m : Mention) (xs : List Marked) :
    m.splice.apply (·, none) xs = m.markedEdit.splice xs := by
  show sliceTo xs m.start ++ _ ++ sliceFrom xs (m.start + m.length) = _
  rw [sliceTo_natCast, ← Nat.cast_add, sliceFrom_natCast]
  rfl

/-- The splices are read in the order of the loop. -/
theorem splices_eq {items : List Json} {mentions : List Mention}
    (h : List.Forall₂ Reads items mentions) {s : PyStr}
    (hplaceholder : mentionPlaceholder <:+: s) :
    splices repr s (.arr items)
      = .ok ((descending (items.zip mentions)).map fun z => z.2.splice) := by
  -- Each mention is read as its start, its length and its tag.
  have hread : ∀ {zs : List (Json × Mention)}, (∀ z ∈ zs, Reads z.1 z.2) →
      (zs.map fun z => (z.1, (z.2.start : ℤ))).mapM (spliceOf repr)
        = .ok (zs.map fun z => z.2.splice) := by
    intro zs hzs
    induction zs with
    | nil => rfl
    | cons z zs ih =>
      rw [List.map_cons, List.mapM_cons, spliceOf_eq (hzs z List.mem_cons_self),
        ih fun y hy => hzs y (List.mem_cons_of_mem _ hy)]
      rfl
  have hreads : ∀ z ∈ descending (items.zip mentions), Reads z.1 z.2 := by
    intro z hz
    have hz := (List.mergeSort_perm _ _).mem_iff.mp hz
    exact (List.forall₂_iff_zip.mp h).2 (by simpa using hz)
  cases items with
  | nil =>
    cases h
    simp [splices, Json.truthy, descending]
  | cons item items =>
    rw [splices, if_pos ⟨rfl, hplaceholder⟩, mentionOrder_eq h]
    exact hread hreads

/-- Splicing from the last start to the first is a fold from the right over the edits. -/
theorem marked_eq_foldr (items : List Json) (mentions : List Mention) (s : PyStr) :
    marked ((descending (items.zip mentions)).map fun z => z.2.splice) s
      = ((ascending items mentions).map Mention.markedEdit).foldr Edit.splice (positions s) := by
  rw [marked, ascending, List.map_map, List.map_reverse, List.foldr_reverse, List.foldl_map,
    List.foldl_map]
  simp only [Mention.apply_splice, Function.comp]

/-- The tags of disjoint mentions are substituted at once. -/
theorem marked_substitute {items : List Json} {mentions : List Mention}
    (h : List.Forall₂ Reads items mentions) {s : PyStr}
    (hplaceholder : mentionPlaceholder <:+: s) (hpos : ∀ m ∈ mentions, 1 ≤ m.length)
    (hbounds : ∀ m ∈ mentions, m.start + m.length ≤ s.length)
    (hapart : mentions.Pairwise Mention.Apart) :
    ∃ es, splices repr s (.arr items) = .ok es ∧
      marked es s = substitute (mentions.map Mention.markedEdit) (positions s) := by
  have hlength : (positions s).length = s.length := by
    rw [positions, List.length_map, List.length_zipIdx]
  have hedits : ∀ e ∈ (ascending items mentions).map Mention.markedEdit,
      e.start < e.stop ∧ e.stop ≤ (positions s).length := by
    intro e he
    obtain ⟨m, hm, rfl⟩ := List.mem_map.mp he
    have hm := (perm_ascending h).mem_iff.mp hm
    exact ⟨Nat.lt_add_of_pos_right (hpos m hm), hlength ▸ hbounds m hm⟩
  have hbefore : ((ascending items mentions).map Mention.markedEdit).Pairwise Before :=
    List.pairwise_map.mpr (before_ascending h hpos hapart)
  refine ⟨_, splices_eq h hplaceholder, ?_⟩
  rw [marked_eq_foldr, foldr_splice (fun e he => (hedits e he).1) (fun e he => (hedits e he).2)
    hbefore, substitute_perm ((perm_ascending h).map _) (hbefore.imp .inl)]

end SignalGateway.Proofs.Envelope
