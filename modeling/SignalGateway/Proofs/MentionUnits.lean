import SignalGateway.Proofs.Mentions
import SignalGateway.Proofs.Utf16

/-!
# `SignalGateway.Proofs.MentionUnits`: mentions in UTF-16 units

Signal counts the stretches of mentions in UTF-16 units, and `_render_mentions` uses the numbers
as positions of code points. `renderMentions_utf16_iff` says when the right placeholders are
replaced: exactly when only characters of one unit stand in front of every mention.

`utf16Offset` is the offset of a character in units, and `PlacedAt` says that a mention was made
for the placeholder at a position. `_render_mentions` reads the offset as a position, and this is
the right one or one behind it (`le_utf16Offset`). The two substitutions agree only if the offsets
do: `start_eq_of_foldr_eq` compares the texts at the leftmost mention that is off.
-/

set_option autoImplicit false

namespace SignalGateway.Proofs.Envelope

open SignalGateway.Envelope SignalGateway.Markdown SignalGateway.Proofs.Markdown
open Edits PyChar

/-- The position `k` of a text, in UTF-16 units. -/
def utf16Offset (text : PyStr) (k : Nat) : Nat := ((text.take k).map units).sum

/-- A text has as many units as characters when no character has two. -/
theorem sum_units_eq_length_iff {s : PyStr} :
    (s.map units).sum = s.length ↔ ∀ c ∈ s, code c < 0x10000 := by
  induction s with
  | nil => simp
  | cons c s ih =>
    have hrest := length_le_sum_units s
    simp only [List.map_cons, List.sum_cons, List.length_cons, List.forall_mem_cons]
    rw [← ih, units]
    split <;> omega

/-- The offset is the position if only characters of one unit stand in front. -/
theorem utf16Offset_eq_iff {text : PyStr} {k : Nat} (hk : k ≤ text.length) :
    utf16Offset text k = k ↔ ∀ c ∈ text.take k, code c < 0x10000 := by
  rw [← sum_units_eq_length_iff, List.length_take, min_eq_left hk]
  rfl

/-- An offset is at least the position. -/
theorem le_utf16Offset {text : PyStr} {k : Nat} (hk : k ≤ text.length) :
    k ≤ utf16Offset text k := by
  have hle := length_le_sum_units (text.take k)
  rwa [List.length_take, min_eq_left hk] at hle

/-- An earlier position has the smaller offset. -/
theorem utf16Offset_mono (text : PyStr) {i j : Nat} (h : i ≤ j) :
    utf16Offset text i ≤ utf16Offset text j := by
  have hprefix : text.take i <+: text.take j := by
    rw [← min_eq_left h, ← List.take_take]
    exact List.take_prefix _ _
  obtain ⟨rest, hrest⟩ := hprefix
  rw [utf16Offset, utf16Offset, ← hrest, List.map_append, List.sum_append]
  exact Nat.le_add_right _ _

/-- The mention covers the placeholder at position `k`, in UTF-16 units. The placeholder is one
unit long. -/
structure PlacedAt (text : PyStr) (m : Mention) (k : Nat) : Prop where
  placeholder : text[k]? = some (ofChar '\uFFFC')
  start_eq : m.start = utf16Offset text k
  length_eq : m.length = 1

/-- The replacement of the placeholder at position `k`. -/
def Mention.editAt (m : Mention) (k : Nat) : Edit CodePoint := ⟨k, k + 1, m.tag⟩

/-- A placeholder stands in the text. -/
theorem PlacedAt.lt_length {text : PyStr} {m : Mention} {k : Nat} (h : PlacedAt text m k) :
    k < text.length := by
  by_contra hge
  have hnone : text[k]? = none := List.getElem?_eq_none_iff.mpr (not_lt.mp hge)
  rw [h.placeholder] at hnone
  cases hnone

/-- Where the offset is right, the mention is read as it is meant. -/
theorem PlacedAt.edit_eq {text : PyStr} {m : Mention} {k : Nat} (h : PlacedAt text m k)
    (heq : m.start = k) : m.edit = m.editAt k := by
  rw [Mention.edit, Mention.editAt, h.length_eq, heq]

/-- Mentions are in the order of their placeholders. -/
theorem PlacedAt.lt {text : PyStr} {a b : Mention} {i j : Nat} (ha : PlacedAt text a i)
    (hb : PlacedAt text b j) (hab : a.start + a.length ≤ b.start) : i < j := by
  by_contra hnot
  have hmono := utf16Offset_mono text (not_lt.mp hnot)
  have hlength := ha.length_eq
  rw [← hb.start_eq, ← ha.start_eq] at hmono
  omega

/-- A splice behind position `k` leaves the character there. -/
theorem getElem?_splice_of_lt {e : Edit CodePoint} {xs : PyStr} {k : Nat} (hk : k < e.start)
    (hlt : k < xs.length) : (e.splice xs)[k]? = xs[k]? := by
  rw [Edit.splice, List.append_assoc, List.getElem?_append_left (by simp; omega),
    List.getElem?_take_of_lt hk]

/-- A tag starts with an at sign. -/
theorem getElem?_splice_editAt (m : Mention) {xs : PyStr} {k : Nat} (hlt : k < xs.length) :
    ((m.editAt k).splice xs)[k]? = some (ofChar '@') := by
  have hlen : (xs.take k).length = k := by simp; omega
  rw [Edit.splice, Mention.editAt, List.append_assoc, List.getElem?_append_right hlen.le, hlen,
    Nat.sub_self]
  rfl

/-- The splice at position `k` of a text that is cut behind it. -/
theorem splice_editAt (m : Mention) {text : PyStr} {k : Nat} (hlt : k < text.length) (rest : PyStr) :
    (m.editAt k).splice (text.take (k + 1) ++ rest) = text.take k ++ m.tag ++ rest := by
  have hlen : (text.take (k + 1)).length = k + 1 := by simp; omega
  show (text.take (k + 1) ++ rest).take k ++ m.tag ++ (text.take (k + 1) ++ rest).drop (k + 1) = _
  rw [List.take_append_of_le_length (by omega), List.take_take, min_eq_left (Nat.le_succ k),
    List.drop_left' hlen]

/-- If the loop replaces the right placeholders, its offsets are the positions. The induction
is over the mentions in the order of the text: an offset that is too large leaves its
placeholder standing, because the later splices are even further behind. -/
theorem start_eq_of_foldr_eq {text : PyStr} {position : Mention → Nat} :
    ∀ {ms : List Mention}, (∀ m ∈ ms, PlacedAt text m (position m)) →
      (ms.Pairwise fun a b => a.start + a.length ≤ b.start) →
      (ms.map Mention.edit).foldr Edit.splice text
        = (ms.map fun m => m.editAt (position m)).foldr Edit.splice text →
      ∀ m ∈ ms, m.start = position m := by
  intro ms
  induction ms with
  | nil => exact fun _ _ _ m hm => absurd hm List.not_mem_nil
  | cons m ms ih =>
    intro hplaced hsorted heq
    obtain ⟨hfirst, hrest⟩ := List.pairwise_cons.mp hsorted
    have hm := hplaced m List.mem_cons_self
    have hms := fun b hb => hplaced b (List.mem_cons_of_mem m hb)
    have hlt := hm.lt_length
    have hle := le_utf16Offset hlt.le
    rw [← hm.start_eq] at hle
    -- Both kinds of later splices leave everything up to the placeholder.
    have hgiven : ∀ e ∈ ms.map Mention.edit, position m + 1 ≤ e.start := by
      intro e he
      obtain ⟨b, hb, rfl⟩ := List.mem_map.mp he
      have hnext := hfirst b hb
      have hlength := hm.length_eq
      show position m + 1 ≤ b.start
      omega
    have hright : ∀ e ∈ ms.map fun m => m.editAt (position m), position m + 1 ≤ e.start := by
      intro e he
      obtain ⟨b, hb, rfl⟩ := List.mem_map.mp he
      exact hm.lt (hms b hb) (hfirst b hb)
    obtain ⟨x, hx⟩ := foldr_splice_eq_take_append (Nat.succ_le_of_lt hlt) hgiven
    obtain ⟨y, hy⟩ := foldr_splice_eq_take_append (Nat.succ_le_of_lt hlt) hright
    have hlen : (text.take (position m + 1)).length = position m + 1 := by simp; omega
    rw [List.map_cons, List.foldr_cons, List.map_cons, List.foldr_cons, hx, hy] at heq
    have hstart : m.start = position m := by
      by_contra hne
      have hback : position m < m.start := by omega
      have hleft : ((m.edit).splice (text.take (position m + 1) ++ x))[position m]?
          = text[position m]? := by
        rw [getElem?_splice_of_lt hback (by simp; omega), List.getElem?_append_left (by omega),
          List.getElem?_take_of_lt (Nat.lt_succ_self _)]
      rw [heq, getElem?_splice_editAt m (by simp; omega), hm.placeholder] at hleft
      exact absurd (Option.some.inj hleft) (by decide)
    refine List.forall_mem_cons.mpr ⟨hstart, ih hms hrest ?_⟩
    rw [hm.edit_eq hstart, splice_editAt m hlt, splice_editAt m hlt] at heq
    rw [hx, hy, List.append_cancel_left heq]

/-! ### When the right placeholders are replaced -/

variable {repr : Json → Except PyError PyStr}

/-- A text with a mention contains the placeholder. -/
theorem infix_of_placedAt {text : PyStr} {m : Mention} {k : Nat} (h : PlacedAt text m k) :
    mentionPlaceholder <:+: text := by
  have hlt := h.lt_length
  have hk : text[k] = ofChar '\uFFFC' := by
    have hget := h.placeholder
    rw [List.getElem?_eq_getElem hlt] at hget
    exact Option.some.inj hget
  refine ⟨text.take k, text.drop (k + 1), ?_⟩
  have hdrop : text.drop k = mentionPlaceholder ++ text.drop (k + 1) := by
    rw [List.drop_eq_getElem_cons hlt, hk]
    rfl
  rw [List.append_assoc, ← hdrop, List.take_append_drop]

/-- `_render_mentions` replaces the placeholders of its mentions, and nothing else, exactly when
all characters in front of each of them have one UTF-16 unit. -/
theorem renderMentions_utf16_iff {items : List Json} {mentions : List Mention}
    (h : List.Forall₂ Reads items mentions) {text : PyStr} {position : Mention → Nat}
    (hplaced : ∀ m ∈ mentions, PlacedAt text m (position m))
    (hapart : mentions.Pairwise Mention.Apart) :
    renderMentions repr (.str text) (.arr items)
        = .ok (.str (substitute (mentions.map fun m => m.editAt (position m)) text)) ↔
      ∀ m ∈ mentions, ∀ c ∈ text.take (position m), code c < 0x10000 := by
  have hone : ∀ m ∈ mentions,
      (m.start = position m ↔ ∀ c ∈ text.take (position m), code c < 0x10000) := by
    intro m hm
    rw [← utf16Offset_eq_iff (hplaced m hm).lt_length.le, ← (hplaced m hm).start_eq]
  have hpos : ∀ m ∈ mentions, 1 ≤ m.length := fun m hm => (hplaced m hm).length_eq.ge
  cases mentions with
  | nil =>
    cases h
    simp [renderMentions, Json.truthy, pure, Except.pure]
  | cons m₀ rest =>
    have hplaceholder := infix_of_placedAt (hplaced m₀ List.mem_cons_self)
    generalize m₀ :: rest = mentions at *
    constructor
    · intro hrender m hm
      refine (hone m hm).mp ?_
      have hsorted := before_ascending h hpos hapart
      have hperm := perm_ascending h
      have hplaced' : ∀ b ∈ ascending items mentions, PlacedAt text b (position b) :=
        fun b hb => hplaced b (hperm.mem_iff.mp hb)
      refine start_eq_of_foldr_eq hplaced' hsorted ?_ m (hperm.mem_iff.mpr hm)
      -- The meant edits are in the order of the text, too.
      have hbefore : ((ascending items mentions).map fun b => b.editAt (position b)).Pairwise
          Before := by
        rw [List.pairwise_map]
        exact hsorted.imp_of_mem fun {a b} ha hb hab => (hplaced' a ha).lt (hplaced' b hb) hab
      have hedits : ∀ e ∈ (ascending items mentions).map fun b => b.editAt (position b),
          e.start < e.stop ∧ e.stop ≤ text.length := by
        intro e he
        obtain ⟨b, hb, rfl⟩ := List.mem_map.mp he
        exact ⟨Nat.lt_succ_self _, (hplaced' b hb).lt_length⟩
      rw [renderMentions_eq_foldr h hplaceholder] at hrender
      rw [foldr_splice (fun e he => (hedits e he).1) (fun e he => (hedits e he).2) hbefore,
        substitute_perm (hperm.map _) (hbefore.imp .inl)]
      exact Json.str.inj (Except.ok.inj hrender)
    · intro hunits
      have hstart : ∀ m ∈ mentions, m.start = position m := fun m hm =>
        (hone m hm).mpr (hunits m hm)
      have hedits : mentions.map Mention.edit = mentions.map fun m => m.editAt (position m) :=
        List.map_congr_left fun m hm => (hplaced m hm).edit_eq (hstart m hm)
      rw [← hedits]
      refine (renderMentions_substitute h hplaceholder hpos (fun m hm => ?_) hapart).1
      rw [hstart m hm, (hplaced m hm).length_eq]
      exact (hplaced m hm).lt_length

/-- An emoji behind the mentions does no harm. -/
theorem renderMentions_utf16_iff_trailingEmoji :
    let text : PyStr := lit "hi \uFFFC and \uFFFC 😀"
    let mentions : List Mention :=
      [⟨9, 1, none, some (lit "+15550100"), none⟩, ⟨3, 1, some (lit "Ann"), none, none⟩]
    let repr := fun _ => .error .typeError
    renderMentions repr (.str text) (.arr (mentions.map Mention.toJson))
      = .ok (.str (substitute (mentions.map fun m => m.editAt m.start) text)) := by
  intro text mentions repr
  have hplaced : ∀ m ∈ mentions, PlacedAt text m (Mention.start m) := by
    intro m hm
    rcases List.mem_cons.mp hm with rfl | hm
    · exact ⟨by decide +kernel, by decide +kernel, rfl⟩
    · rw [List.mem_singleton.mp hm]
      exact ⟨by decide +kernel, by decide +kernel, rfl⟩
  refine (renderMentions_utf16_iff (forall₂_reads_toJson mentions) hplaced ?_).mpr ?_
  · simp [mentions, Mention.Apart]
  · have hunits : (mentions.all fun m => (text.take m.start).all fun c =>
        decide (code c < 0x10000)) = true := by decide +kernel
    exact fun m hm c hc =>
      of_decide_eq_true (List.all_eq_true.mp (List.all_eq_true.mp hunits m hm) c hc)

/-- An emoji in front of a mention moves the tag one character too far: the placeholder stays,
and the character behind it is lost. -/
theorem renderMentions_leadingEmoji :
    let text : PyStr := lit "😀 \uFFFC hi"
    let m : Mention := ⟨3, 1, some (lit "Ann"), none, none⟩
    let repr := fun _ => .error .typeError
    PlacedAt text m 2 ∧
      renderMentions repr (.str text) (.arr [m.toJson]) = .ok (.str (lit "😀 \uFFFC@Annhi")) ∧
      renderMentions repr (.str text) (.arr [m.toJson])
        ≠ .ok (.str (substitute [m.editAt 2] text)) := by
  intro text m repr
  have hplaced : PlacedAt text m 2 := ⟨by decide +kernel, by decide +kernel, rfl⟩
  have hrender : renderMentions repr (.str text) (.arr [m.toJson])
      = .ok (.str (lit "😀 \uFFFC@Annhi")) := by
    have hreads : List.Forall₂ Reads [m.toJson] [m] := forall₂_reads_toJson [m]
    have horder : ascending [m.toJson] [m] = [m] := by simp [ascending, descending]
    rw [renderMentions_eq_foldr hreads (infix_of_placedAt hplaced), horder]
    -- The start counts the emoji twice, so the space behind the placeholder is replaced.
    refine congrArg (fun s => Except.ok (Json.str s)) ?_
    decide +kernel
  refine ⟨hplaced, hrender, ?_⟩
  rw [hrender]
  intro heq
  have hstr := Json.str.inj (Except.ok.inj heq)
  exact absurd hstr (by decide +kernel)

end SignalGateway.Proofs.Envelope
