import SignalGateway.Envelope
import SignalGateway.Lib.Edits

/-!
# `SignalGateway.Proofs.Mentions`: mentions are substituted at once

`Reads` connects a JSON mention with the stretch of text and the user it describes. Each turn
of the loop of `_render_mentions` splices one tag into the text, the last stretch first
(`renderMentions_eq_foldr`). For disjoint stretches inside the text this is the substitution of
all of them at once (`renderMentions_substitute`).

A mention of the source has up to three names for its user. `Mention.identifier` is the one that
the tag shows: `mentionIdentifier_eq` follows the `or` of the source.

`ascending` sorts the mentions from left to right. The source sorts them from right to left, with
a stable sort. Disjoint mentions of positive length have different starts (`before_ascending`), so
the order of the list does not matter.
-/

set_option autoImplicit false

namespace SignalGateway.Proofs.Envelope

open SignalGateway.Envelope Edits

/-- A mention: a stretch of the text, in code points, and the mentioned user. -/
structure Mention where
  start : Nat
  length : Nat
  name : Option PyStr := none
  number : Option PyStr := none
  uuid : Option PyStr := none

/-- The name, else the number, else the uuid, else `user`. -/
def Mention.identifier (m : Mention) : PyStr :=
  ([m.name, m.number, m.uuid].reduceOption.find? fun s => !s.isEmpty).getD (lit "user")

/-- The tag that is shown for a mention. -/
def Mention.tag (m : Mention) : PyStr := lit "@" ++ m.identifier

/-- The replacement of the stretch by the tag. -/
def Mention.edit (m : Mention) : Edit CodePoint := ⟨m.start, m.start + m.length, m.tag⟩

/-- A string, or `None`. -/
def ofOption : Option PyStr → Json
  | none => .null
  | some s => .str s

/-- The fields of a mention in an envelope. -/
structure Reads (item : Json) (m : Mention) : Prop where
  start_eq : item.getOr? "start" (.int 0) = .ok (.int m.start)
  length_eq : item.getOr? "length" (.int 1) = .ok (.int m.length)
  name_eq : item.get? "name" = .ok (ofOption m.name)
  number_eq : item.get? "number" = .ok (ofOption m.number)
  uuid_eq : item.get? "uuid" = .ok (ofOption m.uuid)

variable {repr : Json → Except PyError PyStr}

/-! ### One turn of the loop -/

/-- The identifier of a mention that is read. -/
theorem mentionIdentifier_eq {item : Json} {m : Mention} (h : Reads item m) :
    mentionIdentifier item = .ok (.str m.identifier) := by
  -- A field that is missing, null or empty is passed over.
  have hor : ∀ (field : Option PyStr) (rest : List (Option PyStr)) (x : PyStr),
      (ofOption field).or (.str ((rest.reduceOption.find? fun s => !s.isEmpty).getD x))
        = .str (((field :: rest).reduceOption.find? fun s => !s.isEmpty).getD x) := by
    intro field rest x
    cases field with
    | none => rfl
    | some s => cases s <;> rfl
  have hassoc : ∀ a b c : Json, (a.or b).or c = a.or (b.or c) := by
    intro a b c
    unfold Json.or
    by_cases ha : a.truthy = true
    · simp [ha]
    · simp [ha]
  have huser : (((ofOption m.name).or (ofOption m.number)).or (ofOption m.uuid)).or
      (.str (lit "user")) = .str m.identifier := by
    rw [hassoc, hassoc, Mention.identifier, ← hor, ← hor, ← hor]
    rfl
  rw [mentionIdentifier, h.name_eq, h.number_eq, h.uuid_eq]
  exact congrArg Except.ok huser

/-- A bound that is not negative is cut off at the end. -/
theorem sliceBound_natCast (n i : Nat) : sliceBound n i = min n i := by
  rw [sliceBound, if_neg (by omega), Int.toNat_natCast]

/-- A slice up to a position. -/
theorem sliceTo_natCast {α : Type} (s : List α) (i : Nat) : sliceTo s i = s.take i := by
  rw [sliceTo, sliceBound_natCast]
  rcases le_total s.length i with h | h
  · rw [min_eq_left h, List.take_length, List.take_of_length_le h]
  · rw [min_eq_right h]

/-- A slice from a position on. -/
theorem sliceFrom_natCast {α : Type} (s : List α) (i : Nat) : sliceFrom s i = s.drop i := by
  rw [sliceFrom, sliceBound_natCast]
  rcases le_total s.length i with h | h
  · rw [min_eq_left h, List.drop_length, List.drop_of_length_le h]
  · rw [min_eq_right h]

/-- A turn of the loop splices the tag into the text. -/
theorem renderMention_eq {item : Json} {m : Mention} (h : Reads item m) (text : PyStr) :
    renderMention repr text (item, m.start) = .ok (m.edit.splice text) := by
  rw [renderMention, h.length_eq, mentionIdentifier_eq h]
  show Except.ok (sliceTo text m.start ++ (lit "@" ++ m.identifier)
    ++ sliceFrom text (m.start + m.length)) = _
  rw [sliceTo_natCast, ← Nat.cast_add, sliceFrom_natCast]
  rfl

/-! ### The loop -/

/-- The mentions in the order of the loop. -/
def descending (mentions : List (Json × Mention)) : List (Json × Mention) :=
  mentions.mergeSort fun a b => b.2.start ≤ a.2.start

/-- The order of mentions that are read. -/
theorem mentionOrder_eq {items : List Json} {mentions : List Mention}
    (h : List.Forall₂ Reads items mentions) :
    mentionOrder (.arr items)
      = .ok ((descending (items.zip mentions)).map fun z => (z.1, (z.2.start : ℤ))) := by
  have hkeys : items.mapM (fun mention => mention.getOr? "start" (.int 0))
      = .ok (mentions.map fun m => Json.int m.start) := by
    induction h with
    | nil => rfl
    | cons hfirst _ ih => rw [List.mapM_cons, hfirst.start_eq, ih]; rfl
  -- The starts are integers, so sorting by them does not raise.
  have hstarts : (mentions.map fun m => Json.int m.start).mapM Json.toIndex
      = .ok (mentions.map fun m => (m.start : ℤ)) := by
    clear hkeys h
    induction mentions with
    | nil => rfl
    | cons m mentions ih => rw [List.map_cons, List.mapM_cons, ih]; rfl
  have hzip : items.zip (mentions.map fun m => (m.start : ℤ))
      = (items.zip mentions).map fun z => (z.1, (z.2.start : ℤ)) := by
    rw [List.zip_map_right]
    rfl
  simp only [mentionOrder, Json.iter, bind, Except.bind, hkeys, hstarts, hzip]
  refine congrArg Except.ok (List.map_mergeSort fun a _ b _ => ?_).symm
  simp

/-- The mentions in the order of the text. -/
def ascending (items : List Json) (mentions : List Mention) : List Mention :=
  (descending (items.zip mentions)).reverse.map Prod.snd

/-- The order of the text keeps the mentions. -/
theorem perm_ascending {items : List Json} {mentions : List Mention}
    (h : List.Forall₂ Reads items mentions) : (ascending items mentions).Perm mentions := by
  have hsnd : (items.zip mentions).map Prod.snd = mentions :=
    List.map_snd_zip h.length_eq.ge
  have hperm : (descending (items.zip mentions)).reverse.Perm (items.zip mentions) :=
    (List.reverse_perm _).trans (List.mergeSort_perm _ _)
  conv_rhs => rw [← hsnd]
  exact hperm.map _

/-- In the order of the text the starts increase. -/
theorem pairwise_ascending (items : List Json) (mentions : List Mention) :
    (ascending items mentions).Pairwise fun a b => a.start ≤ b.start := by
  have hsorted : (descending (items.zip mentions)).Pairwise
      fun a b => decide (b.2.start ≤ a.2.start) = true :=
    List.pairwise_mergeSort (fun a b c hab hbc => by simp at hab hbc ⊢; omega)
      (fun a b => by simp; omega) _
  rw [ascending, List.pairwise_map, List.pairwise_reverse]
  exact hsorted.imp fun hab => of_decide_eq_true hab

/-- The loop splices the tags from the last stretch to the first. -/
theorem renderMentions_eq_foldr {items : List Json} {mentions : List Mention}
    (h : List.Forall₂ Reads items mentions) {text : PyStr}
    (hplaceholder : mentionPlaceholder <:+: text) :
    renderMentions repr (.str text) (.arr items)
      = .ok (.str (((ascending items mentions).map Mention.edit).foldr Edit.splice text)) := by
  -- The loop splices from the last mention to the first, which is a fold from the right.
  have hloop : ∀ (zs : List (Json × Mention)), (∀ z ∈ zs, Reads z.1 z.2) → ∀ s : PyStr,
      (zs.map fun z => (z.1, (z.2.start : ℤ))).foldlM (renderMention repr) s
        = .ok (((zs.reverse.map Prod.snd).map Mention.edit).foldr Edit.splice s) := by
    intro zs
    induction zs with
    | nil => intro _ s; rfl
    | cons z zs ih =>
      intro hzs s
      rw [List.map_cons, List.foldlM_cons, renderMention_eq (hzs z List.mem_cons_self)]
      show (zs.map _).foldlM _ (z.2.edit.splice s) = _
      rw [ih (fun y hy => hzs y (List.mem_cons_of_mem _ hy)), List.reverse_cons,
        List.map_append, List.map_append, List.foldr_append]
      rfl
  have hreads : ∀ z ∈ descending (items.zip mentions), Reads z.1 z.2 := by
    intro z hz
    have hz := (List.mergeSort_perm _ _).mem_iff.mp hz
    exact (List.forall₂_iff_zip.mp h).2 (by simpa using hz)
  cases items with
  | nil =>
    cases h
    simp [renderMentions, Json.truthy, ascending, descending, pure, Except.pure]
  | cons item items =>
    have hcontains : Json.contains mentionPlaceholder (.str text) = .ok true :=
      congrArg Except.ok (decide_eq_true hplaceholder)
    simp only [renderMentions, Json.truthy, hcontains, mentionOrder_eq h, hloop _ hreads, bind,
      Except.bind, List.isEmpty_cons, Bool.not_false, Bool.not_true, Bool.false_eq_true,
      if_false]
    rfl

/-! ### Substitution -/

/-- The stretches of two mentions share no position. -/
def Mention.Apart (a b : Mention) : Prop :=
  a.start + a.length ≤ b.start ∨ b.start + b.length ≤ a.start

/-- Disjoint stretches of positive length, sorted by their start, follow one another. -/
theorem before_ascending {items : List Json} {mentions : List Mention}
    (h : List.Forall₂ Reads items mentions) (hpos : ∀ m ∈ mentions, 1 ≤ m.length)
    (hapart : mentions.Pairwise Mention.Apart) :
    (ascending items mentions).Pairwise fun a b => a.start + a.length ≤ b.start := by
  have hapart' : (ascending items mentions).Pairwise Mention.Apart :=
    (perm_ascending h).symm.pairwise hapart fun h => h.symm
  refine ((pairwise_ascending items mentions).and hapart').imp_of_mem ?_
  intro a b _ hb hab
  have hlength := hpos b ((perm_ascending h).mem_iff.mp hb)
  rcases hab.2 with hbefore | hbehind
  · exact hbefore
  · -- Then `b` would start in front of `a`.
    have hstart := hab.1
    omega

/-- Backward splicing is simultaneous substitution, and the order of the mentions does not
matter. -/
theorem renderMentions_substitute {items : List Json} {mentions : List Mention}
    (h : List.Forall₂ Reads items mentions) {text : PyStr}
    (hplaceholder : mentionPlaceholder <:+: text) (hpos : ∀ m ∈ mentions, 1 ≤ m.length)
    (hbounds : ∀ m ∈ mentions, m.start + m.length ≤ text.length)
    (hapart : mentions.Pairwise Mention.Apart) :
    renderMentions repr (.str text) (.arr items)
        = .ok (.str (substitute (mentions.map Mention.edit) text)) ∧
      ∀ items', items'.Perm items → renderMentions repr (.str text) (.arr items')
        = .ok (.str (substitute (mentions.map Mention.edit) text)) := by
  -- Shown for every order of the mentions, so that it serves both parts.
  have hone : ∀ {items : List Json} {mentions' : List Mention},
      List.Forall₂ Reads items mentions' → mentions'.Perm mentions →
        renderMentions repr (.str text) (.arr items)
          = .ok (.str (substitute (mentions.map Mention.edit) text)) := by
    intro items mentions' h' hperm
    have hpos' : ∀ m ∈ mentions', 1 ≤ m.length := fun m hm => hpos m (hperm.mem_iff.mp hm)
    have hapart' : mentions'.Pairwise Mention.Apart :=
      hperm.symm.pairwise hapart fun h => h.symm
    have hedits : ∀ e ∈ (ascending items mentions').map Mention.edit,
        e.start < e.stop ∧ e.stop ≤ text.length := by
      intro e he
      obtain ⟨m, hm, rfl⟩ := List.mem_map.mp he
      have hm := (perm_ascending h').mem_iff.mp hm
      exact ⟨Nat.lt_add_of_pos_right (hpos' m hm), hbounds m (hperm.mem_iff.mp hm)⟩
    have hbefore : ((ascending items mentions').map Mention.edit).Pairwise Before :=
      List.pairwise_map.mpr (before_ascending h' hpos' hapart')
    -- Splicing from behind replaces all spans at once, and that does not see the order.
    rw [renderMentions_eq_foldr h' hplaceholder,
      foldr_splice (fun e he => (hedits e he).1) (fun e he => (hedits e he).2) hbefore,
      substitute_perm (((perm_ascending h').trans hperm).map _) (hbefore.imp .inl)]
  refine ⟨hone h (.refl _), fun items' hitems => ?_⟩
  obtain ⟨mentions', h', hperm⟩ := List.perm_comp_forall₂ hitems h
  exact hone h' hperm

/-- A mention as a JSON object. -/
def Mention.toJson (m : Mention) : Json :=
  .obj [(lit "start", .int m.start), (lit "length", .int m.length),
    (lit "name", ofOption m.name), (lit "number", ofOption m.number),
    (lit "uuid", ofOption m.uuid)]

/-- A mention is read from its object. -/
theorem reads_toJson (m : Mention) : Reads m.toJson m where
  start_eq := rfl
  length_eq := rfl
  name_eq := rfl
  number_eq := rfl
  uuid_eq := rfl

/-- So are all mentions of a list. -/
theorem forall₂_reads_toJson (mentions : List Mention) :
    List.Forall₂ Reads (mentions.map Mention.toJson) mentions := by
  rw [List.forall₂_map_left_iff]
  exact List.forall₂_same.mpr fun m _ => reads_toJson m

/-- Two mentions, the later one first, with tags that are longer than their stretches. -/
theorem renderMentions_substitute_two :
    let text : PyStr := lit "hi \uFFFC and \uFFFC!"
    let mentions : List Mention :=
      [⟨9, 1, none, some (lit "+15550100"), none⟩, ⟨3, 1, some (lit "Ann"), none, none⟩]
    let repr := fun _ => .error .typeError
    renderMentions repr (.str text) (.arr (mentions.map Mention.toJson))
        = .ok (.str (substitute (mentions.map Mention.edit) text)) ∧
      ∀ items', items'.Perm (mentions.map Mention.toJson) →
        renderMentions repr (.str text) (.arr items')
          = .ok (.str (substitute (mentions.map Mention.edit) text)) := by
  intro text mentions repr
  refine renderMentions_substitute (forall₂_reads_toJson mentions) ?_ ?_ ?_ ?_
  · decide +kernel
  · simp [mentions]
  · decide +kernel
  · simp [mentions, Mention.Apart]

example : substitute [Mention.edit ⟨4, 1, some (lit "Bob"), none, none⟩] (lit "hey \uFFFC look")
    = lit "hey @Bob look" := by
  decide +kernel

end SignalGateway.Proofs.Envelope
