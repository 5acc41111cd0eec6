import SignalGateway.Markdown
import SignalGateway.Lib.RegexGroups
import SignalGateway.Proofs.Str

/-!
# `SignalGateway.Proofs.Markdown`: what the phases delete

The whitespace normalisation, the fence phase and the inline phase only delete characters:
`normalize_sublist`, `fences_sublist` and `inlines_sublist`. (The heading phase does not, see
`SignalGateway.Proofs.Headings`.)

The accepted inline matches are pairwise disjoint (`Accepted`), so sorted by their start they
follow one another, and the strip pass deletes what lies around their groups. Those are
marker characters (`filter_inlines`).

The proof of `filter_inlines` has three steps:

* `accepted_collect`: each pattern collects matches that are apart from those before it, and from
  the spans of the fences. `InlineOk` is what a single match has by its pattern.
* `pairwise_sortInlines` and `follows_of_pairwise`: sorting turns "pairwise apart" into `Follows`,
  the order in which the strip pass reads them.
* `strip_spec`: one induction over the matches, for the new text and the new spans at once.
-/

set_option autoImplicit false

namespace SignalGateway.Proofs.Markdown

open SignalGateway.Markdown
open Regex PyChar

variable {α : Type}

/-- Cutting a stretch down to a part of it. -/
theorem take_slice_drop_sublist (xs : List α) {i a b j : Nat} (hia : i ≤ a) (hbj : b ≤ j)
    (hab : a ≤ b) : (xs.take i ++ slice xs a b ++ xs.drop j).Sublist xs := by
  have hsplit : xs.take i ++ (slice xs i a ++ slice xs a b ++ slice xs b j) ++ xs.drop j
      = xs := by
    rw [slice_append_slice xs hia hab, slice_append_slice xs (hia.trans hab) hbj,
      List.append_assoc, slice_append_drop xs (hia.trans (hab.trans hbj)),
      List.take_append_drop]
  conv_rhs => rw [← hsplit]
  refine List.Sublist.append_right (List.Sublist.append_left ?_ _) _
  exact (List.sublist_append_right _ _).trans (List.sublist_append_left _ _)

variable [PyChar α]

/-! ### Normalisation and fences -/

/-- Collapsing newlines only deletes. -/
theorem collapseFrom_sublist (s : List α) : ∀ kept, (collapseFrom kept s).Sublist s := by
  induction s with
  | nil => intro kept; exact List.Sublist.slnil
  | cons c s ih =>
    intro kept
    rw [collapseFrom]
    split
    · split
      · exact (ih _).cons_cons c
      · exact (ih _).cons c
    · exact (ih _).cons_cons c

/-- Stripping only deletes. -/
theorem strip_sublist_self (s : List α) : (strip s).Sublist s :=
  ((List.rdropWhile_prefix _ _).sublist).trans (List.dropWhile_suffix _).sublist

/-- Normalisation only deletes. -/
theorem normalize_sublist (text : List α) : (normalizeWhitespace text).Sublist text :=
  (strip_sublist_self _).trans (collapseFrom_sublist text 0)

/-- The group of a match lies inside it. -/
theorem groupSpan_spec {t : List Nat} {r : Re Nat} {i : Nat} {m : Match} (hi : i ≤ t.length)
    (h : matchAt t r i = some m) :
    m.start ≤ (groupSpan m).1 ∧ (groupSpan m).1 ≤ (groupSpan m).2 ∧
      (groupSpan m).2 ≤ m.stop := by
  obtain ⟨hstart, hstop, -, hspans⟩ := matchAt_spec hi h
  unfold groupSpan
  cases hgroups : m.groups with
  | nil =>
    simp only [List.headD_nil]
    omega
  | cons g gs =>
    obtain ⟨h1, h2, h3⟩ := hspans g (by simp [hgroups])
    simp only [List.headD_cons]
    omega

/-- The fence phase only deletes. -/
theorem fencesFrom_sublist (fuel : Nat) :
    ∀ (text : List α) (spans : List Span), (fencesFrom fuel text spans).1.Sublist text := by
  induction fuel with
  | zero => intro text spans; exact List.Sublist.refl _
  | succ fuel ih =>
    intro text spans
    rw [fencesFrom]
    split
    · exact List.Sublist.refl _
    · rename_i m hm
      obtain ⟨-, hstart, hmatch, -⟩ := search_some (Nat.zero_le _) hm
      obtain ⟨h1, h2, h3⟩ := groupSpan_spec hstart hmatch
      refine (ih _ _).trans (List.Sublist.trans ?_ (take_slice_drop_sublist text h1 h3 h2))
      exact ((List.rdropWhile_prefix _ _).sublist.append_left _).append_right _

/-- The fence phase only deletes. -/
theorem fences_sublist (text : List α) : (fences text).1.Sublist text :=
  fencesFrom_sublist _ _ _

/-! ### The accepted inline matches -/

/-- The characters the inline phase deletes. -/
def isMarkerCode (n : Nat) : Bool := backtick n || chr '*' n || chr '_' n || chr '~' n

/-- A marker character. -/
def isMarker (c : α) : Bool := isMarkerCode (code c)

/-- A match of an inline pattern, with marker characters around its group. -/
structure InlineOk (text : List α) (m : Inline) : Prop where
  start_le : m.start ≤ m.innerStart
  inner_le : m.innerStart ≤ m.innerStop
  stop_le : m.innerStop ≤ m.stop
  nonempty : m.start < m.stop
  stop_le_length : m.stop ≤ text.length
  outside : ∀ k c, m.start ≤ k → k < m.stop → ¬ (m.innerStart ≤ k ∧ k < m.innerStop) →
    text[k]? = some c → isMarker c = true

/-- The matches of two ranges do not meet. -/
def Apart (a b : Inline) : Prop := a.stop ≤ b.start ∨ b.stop ≤ a.start

/-- The six patterns have one group and consume markers around it. -/
theorem inlinePatterns_spec (isWord : Nat → Bool) :
    ∀ p ∈ inlinePatterns isWord, 0 < p.1.minLen ∧ p.1.EvenGroups ∧ p.1.groupCount = 1 ∧
      p.1.OutsideIn isMarkerCode := by
  intro p hp
  simp only [inlinePatterns, List.mem_cons, List.not_mem_nil, or_false] at hp
  rcases hp with rfl | rfl | rfl | rfl | rfl | rfl <;>
    refine ⟨by simp [Re.seqs, Re.minLen, lazyGroup],
      by simp [Re.seqs, Re.EvenGroups, lazyGroup], rfl, ?_⟩ <;>
    simp +contextual [Re.seqs, Re.OutsideIn, lazyGroup, isMarkerCode]

/-- What the collecting loops keep: matches with markers around their groups, apart from
one another and from the ranges that were occupied at the start. -/
structure Accepted (text : List α) (occupied : List (Nat × Nat))
    (st : List Inline × List (Nat × Nat)) : Prop where
  ok : ∀ m ∈ st.1, InlineOk text m
  apart : st.1.Pairwise Apart
  free : ∀ m ∈ st.1, ∀ o ∈ occupied, o.2 ≤ m.start ∨ m.stop ≤ o.1
  occupied_eq : st.2 = occupied ++ st.1.map fun m => (m.start, m.stop)

/-- A match that is taken keeps the inlines apart. -/
theorem accepted_collectMatch {text : List α} {occupied : List (Nat × Nat)}
    {st : List Inline × List (Nat × Nat)} (h : Accepted text occupied st) {p : Re Nat × Style}
    (hlen : 0 < p.1.minLen) (heven : p.1.EvenGroups) (hcount : p.1.groupCount = 1)
    (hout : p.1.OutsideIn isMarkerCode) {m : Match} (hstart : m.start ≤ text.length)
    (hm : matchAt (codes text) p.1 m.start = some m) :
    Accepted text occupied (collectMatch p.2 st m) := by
  unfold collectMatch
  split
  · exact h
  · rename_i hfree
    have hstart' : m.start ≤ (codes text).length := by simpa using hstart
    obtain ⟨g, hg, hg1, hg2, hg3, hmark⟩ :=
      matchAt_one_group hstart' heven hcount hout hm
    obtain ⟨-, hstop, hle, -⟩ := matchAt_spec hstart' hm
    have hspan : groupSpan m = g := by
      rw [groupSpan, hg]
      rfl
    -- No occupied range meets the match.
    have hapart : ∀ o ∈ st.2, o.2 ≤ m.start ∨ m.stop ≤ o.1 := by
      intro o ho
      by_contra hmeet
      apply hfree
      rw [overlaps, List.any_eq_true]
      exact ⟨o, ho, by simp only [Bool.and_eq_true, decide_eq_true_eq]; omega⟩
    refine ⟨?_, ?_, ?_, ?_⟩
    · intro a ha
      rcases List.mem_append.mp ha with ha | ha
      · exact h.ok a ha
      · rw [List.mem_singleton.mp ha, hspan]
        refine ⟨hg1, hg2, hg3, ?_, by simpa using hle, ?_⟩
        · show m.start < m.stop
          omega
        · intro k c hk1 hk2 hk hc
          have := hmark k hk1 hk2 hk
          rw [getElem?_codes, hc] at this
          simpa [isMarker] using this
    · rw [List.pairwise_append]
      refine ⟨h.apart, by simp, ?_⟩
      intro a ha b hb
      rw [List.mem_singleton.mp hb]
      refine hapart (a.start, a.stop) ?_
      rw [h.occupied_eq]
      exact List.mem_append_right _ (List.mem_map.mpr ⟨a, ha, rfl⟩)
    · intro a ha o ho
      rcases List.mem_append.mp ha with ha | ha
      · exact h.free a ha o ho
      · rw [List.mem_singleton.mp ha]
        refine hapart o ?_
        rw [h.occupied_eq]
        exact List.mem_append_left _ ho
    · rw [h.occupied_eq]
      simp

/-- The successive matches of a scan are matches at their starts. -/
theorem mem_scan {t : List Nat} {r : Re Nat} {i : Nat} {ms : List Match} (h : Scan t r i ms) :
    ∀ m ∈ ms, i ≤ m.start ∧ m.start ≤ t.length ∧ matchAt t r m.start = some m := by
  induction h with
  | done gap => simp
  | next le found start_le gap rest ih =>
    intro m hm
    rcases List.mem_cons.mp hm with rfl | hm
    · exact ⟨le, start_le, found⟩
    · obtain ⟨h1, h2, h3⟩ := ih m hm
      have := (matchAt_spec start_le found).2.1
      exact ⟨by omega, h2, h3⟩

/-- The inlines that are collected are apart. -/
theorem accepted_collect (isWord : Nat → Bool) (text : List α) (occupied : List (Nat × Nat)) :
    ∃ occ, Accepted text occupied (collect isWord text occupied, occ) := by
  have hpatterns : ∀ (ps : List (Re Nat × Style)), (∀ p ∈ ps, p ∈ inlinePatterns isWord) →
      ∀ st, Accepted text occupied st →
        Accepted text occupied (ps.foldl (fun st (p : Re Nat × Style) =>
          (finditer (codes text) p.1).foldl (collectMatch p.2) st) st) := by
    intro ps
    induction ps with
    | nil => intro _ st h; exact h
    | cons p ps ih =>
      intro hps st h
      obtain ⟨hlen, heven, hcount, hout⟩ :=
        inlinePatterns_spec isWord p (hps p List.mem_cons_self)
      -- over the matches of one pattern, and then over the patterns
      have hmatches : ∀ (ms : List Match),
          (∀ m ∈ ms, m.start ≤ text.length ∧ matchAt (codes text) p.1 m.start = some m) →
          ∀ st, Accepted text occupied st →
            Accepted text occupied (ms.foldl (collectMatch p.2) st) := by
        intro ms
        induction ms with
        | nil => intro _ st h; exact h
        | cons m ms ihm =>
          intro hms st h
          obtain ⟨hstart, hm⟩ := hms m List.mem_cons_self
          exact ihm (fun m' hm' => hms m' (List.mem_cons_of_mem _ hm')) _
            (accepted_collectMatch h hlen heven hcount hout hstart hm)
      refine ih (fun q hq => hps q (List.mem_cons_of_mem _ hq)) _ (hmatches _ ?_ st h)
      intro m hm
      obtain ⟨-, h2, h3⟩ := mem_scan (scan_finditer hlen) m hm
      exact ⟨by simpa using h2, h3⟩
  exact ⟨_, hpatterns _ (fun _ hp => hp) ([], occupied)
    ⟨by simp, List.Pairwise.nil, by simp, by simp⟩⟩

/-! ### Sorting -/

/-- Any two lists of numbers can be compared. -/
theorem numbersLe_total (xs ys : List Nat) : (numbersLe xs ys || numbersLe ys xs) = true := by
  induction xs generalizing ys with
  | nil => rfl
  | cons x xs ih =>
    cases ys with
    | nil => rfl
    | cons y ys =>
      have htail := ih ys
      simp only [numbersLe, Bool.or_eq_true, decide_eq_true_eq, Bool.and_eq_true,
        beq_iff_eq] at htail ⊢
      rcases lt_trichotomy x y with hlt | rfl | hgt
      · exact Or.inl (Or.inl hlt)
      · exact htail.imp (fun h => Or.inr ⟨rfl, h⟩) fun h => Or.inr ⟨rfl, h⟩
      · exact Or.inr (Or.inl hgt)

/-- The order is transitive. -/
theorem numbersLe_trans (xs ys zs : List Nat) (hxy : numbersLe xs ys = true)
    (hyz : numbersLe ys zs = true) : numbersLe xs zs = true := by
  induction xs generalizing ys zs with
  | nil => rfl
  | cons x xs ih =>
    cases ys with
    | nil => cases hxy
    | cons y ys =>
      cases zs with
      | nil => cases hyz
      | cons z zs =>
        simp only [numbersLe, Bool.or_eq_true, decide_eq_true_eq, Bool.and_eq_true,
          beq_iff_eq] at hxy hyz ⊢
        rcases hxy with hxy | ⟨rfl, hxy⟩
        · left
          omega
        · rcases hyz with hyz | ⟨rfl, hyz⟩
          · exact Or.inl hyz
          · exact Or.inr ⟨rfl, ih ys zs hxy hyz⟩

/-- The first numbers decide first. -/
theorem le_of_numbersLe {x y : Nat} {xs ys : List Nat}
    (h : numbersLe (x :: xs) (y :: ys) = true) : x ≤ y := by
  simp only [numbersLe, Bool.or_eq_true, decide_eq_true_eq, Bool.and_eq_true, beq_iff_eq] at h
  omega

section
variable {γ : Type} (key : γ → List Nat)

instance : Std.Total fun a b : γ => numbersLe (key a) (key b) = true :=
  ⟨fun a b => by simpa using numbersLe_total (key a) (key b)⟩

instance : IsTrans γ fun a b => numbersLe (key a) (key b) = true :=
  ⟨fun a b c => numbersLe_trans (key a) (key b) (key c)⟩

/-- Sorting keeps the elements. -/
theorem perm_sortOn (xs : List γ) : (sortOn key xs).Perm xs := List.perm_insertionSort _ xs

/-- What is sorted is in order. -/
theorem pairwise_sortOn (xs : List γ) :
    (sortOn key xs).Pairwise fun a b => numbersLe (key a) (key b) = true :=
  List.pairwise_insertionSort _ xs

end

/-- Sorted, disjoint matches follow one another. -/
theorem pairwise_sortInlines {ms : List Inline} (hpos : ∀ m ∈ ms, m.start < m.stop)
    (hapart : ms.Pairwise Apart) :
    (sortInlines ms).Pairwise fun a b => a.stop ≤ b.start := by
  have hsorted : (sortInlines ms).Pairwise fun a b => a.start ≤ b.start := by
    have hnumbers := pairwise_sortOn
      (fun m : Inline => [m.start, m.stop, m.innerStart, m.innerStop, m.style.rank]) ms
    exact hnumbers.imp fun h => le_of_numbersLe h
  have hperm : (sortInlines ms).Perm ms := perm_sortOn _ ms
  have hapart' : (sortInlines ms).Pairwise Apart :=
    hperm.symm.pairwise hapart fun h => h.symm
  refine (hsorted.and hapart').imp_of_mem ?_
  intro a b _ hb h
  have hb := hpos b (hperm.mem_iff.mp hb)
  rcases h.2 with hab | hba
  · exact hab
  · have := h.1
    omega

/-! ### The strip pass -/

/-- Matches that follow one another from position `i` on. -/
def Follows (text : List α) : Nat → List Inline → Prop
  | i, [] => i ≤ text.length
  | i, m :: ms => i ≤ m.start ∧ InlineOk text m ∧ Follows text m.stop ms

/-- Inlines that are apart and in order follow one another. -/
theorem follows_of_pairwise {text : List α} :
    ∀ {ms : List Inline} {i : Nat}, (∀ m ∈ ms, InlineOk text m) → (∀ m ∈ ms, i ≤ m.start) →
      i ≤ text.length → (ms.Pairwise fun a b => a.stop ≤ b.start) → Follows text i ms := by
  intro ms
  induction ms with
  | nil => intro i _ _ hi _; exact hi
  | cons m ms ih =>
    intro i hok hstart hi hpair
    obtain ⟨hfirst, hrest⟩ := List.pairwise_cons.mp hpair
    have hm := hok m List.mem_cons_self
    exact ⟨hstart m List.mem_cons_self, hm,
      ih (fun a ha => hok a (List.mem_cons_of_mem _ ha)) hfirst hm.stop_le_length hrest⟩

/-- The strip pass over matches that follow one another deletes marker characters. -/
theorem strip_spec {text : List α} :
    ∀ {ms : List Inline} {i : Nat} (result : List α) (spans : List Span), Follows text i ms →
      ∃ rest, (stripFrom text ms result i spans).1 = result ++ rest ∧
        rest.Sublist (text.drop i) ∧
        rest.filter (fun c => !isMarker c) = (text.drop i).filter fun c => !isMarker c := by
  intro ms
  induction ms with
  | nil =>
    intro i result spans _
    exact ⟨text.drop i, rfl, List.Sublist.refl _, rfl⟩
  | cons m ms ih =>
    intro i result spans h
    obtain ⟨hi, hm, hrest⟩ := h
    obtain ⟨rest, hout, hsub, hfilter⟩ :=
      ih (result ++ slice text i m.start ++ slice text m.innerStart m.innerStop)
        (spans ++ [⟨(result ++ slice text i m.start).length,
          (slice text m.innerStart m.innerStop).length, m.style⟩]) hrest
    have hmarkers : ∀ {a b : Nat}, m.start ≤ a → b ≤ m.stop →
        (b ≤ m.innerStart ∨ m.innerStop ≤ a) →
        (slice text a b).filter (fun c => !isMarker c) = [] := by
      intro a b ha hb hside
      rw [List.filter_eq_nil_iff]
      intro c hc
      have : ∀ c ∈ slice text a b, isMarker c = true := by
        refine forall_mem_slice ?_
        intro k c h1 h2 hk
        exact hm.outside k c (by omega) (by omega) (by omega) hk
      simp [this c hc]
    -- The text from `i` on, cut at the positions of the match.
    have hsplit : text.drop i = slice text i m.start ++ (slice text m.start m.innerStart ++
        (slice text m.innerStart m.innerStop ++
          (slice text m.innerStop m.stop ++ text.drop m.stop))) := by
      rw [slice_append_drop text hm.stop_le, slice_append_drop text hm.inner_le,
        slice_append_drop text hm.start_le, slice_append_drop text hi]
    refine ⟨slice text i m.start ++ slice text m.innerStart m.innerStop ++ rest, ?_, ?_, ?_⟩
    · show (stripFrom text ms _ m.stop _).1 = _
      rw [hout]
      simp only [List.append_assoc]
    · rw [hsplit, List.append_assoc]
      refine List.Sublist.append_left ?_ _
      refine List.Sublist.trans ?_ (List.sublist_append_right _ _)
      refine List.Sublist.append_left ?_ _
      exact hsub.trans (List.sublist_append_right _ _)
    · rw [hsplit]
      simp only [List.filter_append]
      rw [hmarkers le_rfl (hm.inner_le.trans hm.stop_le) (Or.inl le_rfl),
        hmarkers (hm.start_le.trans hm.inner_le) le_rfl (Or.inr le_rfl), hfilter]
      simp

/-- The inline matches that phase 3 strips follow one another. -/
theorem follows_inlines (isWord : Nat → Bool) (text : List α) (occupied : List (Nat × Nat)) :
    Follows text 0 (sortInlines (collect isWord text occupied)) := by
  obtain ⟨occ, hacc⟩ := accepted_collect isWord text occupied
  have hperm : (sortInlines (collect isWord text occupied)).Perm
      (collect isWord text occupied) := perm_sortOn _ _
  refine follows_of_pairwise ?_ (fun _ _ => Nat.zero_le _) (Nat.zero_le _) ?_
  · exact fun m hm => hacc.ok m (hperm.mem_iff.mp hm)
  · exact pairwise_sortInlines (fun m hm => (hacc.ok m hm).nonempty) hacc.apart

/-- The inline phase only deletes. -/
theorem inlines_sublist (isWord : Nat → Bool) (text : List α) (spans : List Span) :
    (inlines isWord text spans).1.Sublist text := by
  obtain ⟨rest, hout, hsub, -⟩ := strip_spec [] []
    (follows_inlines isWord text _)
  have : (inlines isWord text spans).1 = rest := hout
  rw [this]
  simpa using hsub

/-- The inline phase keeps everything but marker characters. -/
theorem filter_inlines (isWord : Nat → Bool) (text : List α) (spans : List Span) :
    (inlines isWord text spans).1.filter (fun c => !isMarker c)
      = text.filter fun c => !isMarker c := by
  obtain ⟨rest, hout, -, hfilter⟩ := strip_spec [] []
    (follows_inlines isWord text _)
  have : (inlines isWord text spans).1 = rest := hout
  rw [this]
  simpa using hfilter

end SignalGateway.Proofs.Markdown
