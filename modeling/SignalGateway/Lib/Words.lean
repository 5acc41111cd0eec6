import Mathlib

/-!
# `Lib.Words`: the separator-free runs of a list

`words sep l` lists the maximal runs of `l` that hold no separator, in order. `mem_words`
reads membership off the list: a word is a non-empty separator-free stretch with a
separator or the end of the list on either side.

The lemmas say how `words` acts on an append. A separator between two parts splits the
words (`words_append_cons`, `words_append_seps`). Without one, a word of `a ++ b` is a word
of a part or runs across the seam (`mem_words_append`).

`flatten_words` and `of_mem_words` say that nothing else is in the words: put together they are
the list without its separators. `words_map` moves all of this along a map that keeps the
separators, so that a text can be followed character by character.
-/

set_option autoImplicit false

namespace Words

variable {α : Type} {sep : α → Bool}

/-- The maximal separator-free runs of `l`. -/
def words (sep : α → Bool) (l : List α) : List (List α) :=
  (l.splitOnP sep).filter fun w => !w.isEmpty

/-- The empty text has no words. -/
@[simp] theorem words_nil : words sep ([] : List α) = [] := rfl

/-- A separator splits the words. -/
theorem words_append_cons (a b : List α) {c : α} (hc : sep c = true) :
    words sep (a ++ c :: b) = words sep a ++ words sep b := by
  rw [words, List.splitOnP_append_cons a b hc, List.filter_append]
  rfl

/-- A leading separator is dropped. -/
theorem words_cons_of_sep {c : α} (hc : sep c = true) (l : List α) :
    words sep (c :: l) = words sep l := by
  simpa using words_append_cons [] l hc

/-- A non-empty list without separators is one word. -/
theorem words_eq_singleton {l : List α} (hne : l ≠ []) (h : ∀ c ∈ l, sep c = false) :
    words sep l = [l] := by
  rw [words, List.splitOnP_eq_singleton h]
  simp [hne]

/-- Leading separators are dropped. -/
theorem words_seps_append {s : List α} (hs : ∀ c ∈ s, sep c = true) (b : List α) :
    words sep (s ++ b) = words sep b := by
  induction s with
  | nil => rfl
  | cons c s ih =>
    rw [List.cons_append, words_cons_of_sep (hs c (by simp))]
    exact ih fun d hd => hs d (by simp [hd])

/-- A non-empty run of separators splits the words. -/
theorem words_append_seps (a b : List α) {s : List α} (hne : s ≠ [])
    (hs : ∀ c ∈ s, sep c = true) :
    words sep (a ++ (s ++ b)) = words sep a ++ words sep b := by
  cases s with
  | nil => exact absurd rfl hne
  | cons c s =>
    rw [List.cons_append, words_append_cons a _ (hs c (by simp)),
      words_seps_append fun d hd => hs d (by simp [hd])]

/-- Trailing separators are dropped. -/
theorem words_append_of_seps (a : List α) {s : List α} (hs : ∀ c ∈ s, sep c = true) :
    words sep (a ++ s) = words sep a := by
  by_cases hne : s = []
  · rw [hne, List.append_nil]
  · simpa using words_append_seps a [] hne hs

/-- Either there is no separator, or the first one cuts the list. -/
theorem free_or_split (sep : α → Bool) (l : List α) :
    (∀ c ∈ l, sep c = false) ∨
      ∃ a c b, l = a ++ c :: b ∧ (∀ d ∈ a, sep d = false) ∧ sep c = true := by
  induction l with
  | nil => exact Or.inl (by simp)
  | cons x l ih =>
    cases hx : sep x with
    | true => exact Or.inr ⟨[], x, l, rfl, by simp, hx⟩
    | false =>
      rcases ih with hfree | ⟨a, c, b, rfl, ha, hc⟩
      · left
        intro c hc
        rcases List.mem_cons.mp hc with rfl | hc
        · exact hx
        · exact hfree c hc
      · refine Or.inr ⟨x :: a, c, b, rfl, ?_, hc⟩
        intro d hd
        rcases List.mem_cons.mp hd with rfl | hd
        · exact hx
        · exact ha d hd

/-- The words of a list without separators: the list itself, if it is not empty. -/
theorem mem_words_of_free {l w : List α} (h : ∀ c ∈ l, sep c = false) :
    w ∈ words sep l ↔ w = l ∧ l ≠ [] := by
  by_cases hne : l = []
  · subst hne
    simp
  · rw [words_eq_singleton hne h]
    simp [hne]

/-- The words, put together, are the list without its separators. -/
theorem flatten_words (l : List α) : (words sep l).flatten = l.filter fun c => !sep c := by
  induction hn : l.length using Nat.strong_induction_on generalizing l with
  | _ n ih =>
    rcases free_or_split sep l with hfree | ⟨a, c, b, rfl, ha, hc⟩
    · have hfilter : (l.filter fun c => !sep c) = l := by
        rw [List.filter_eq_self]
        intro c hc
        simp [hfree c hc]
      by_cases hne : l = []
      · subst hne
        rfl
      · rw [words_eq_singleton hne hfree, hfilter]
        simp
    · have hlen : a.length < n ∧ b.length < n := by
        simp only [List.length_append, List.length_cons] at hn
        omega
      rw [words_append_cons a b hc, List.flatten_append, ih _ hlen.1 a rfl, ih _ hlen.2 b rfl,
        List.filter_append, List.filter_cons]
      simp [hc]

/-- A word is not empty and holds no separator. -/
theorem of_mem_words {l w : List α} (hw : w ∈ words sep l) :
    w ≠ [] ∧ ∀ c ∈ w, sep c = false := by
  constructor
  · intro hnil
    subst hnil
    simp [words] at hw
  · intro c hc
    have hflat : c ∈ (words sep l).flatten := List.mem_flatten.mpr ⟨w, hw, hc⟩
    rw [flatten_words] at hflat
    simpa using (List.mem_filter.mp hflat).2

/-- The words of a list are its maximal separator-free stretches. -/
theorem mem_words {l w : List α} :
    w ∈ words sep l ↔
      ∃ a b, l = a ++ (w ++ b) ∧ w ≠ [] ∧ (∀ c ∈ w, sep c = false) ∧
        (∀ c ∈ a.getLast?, sep c = true) ∧ ∀ c ∈ b.head?, sep c = true := by
  constructor
  · induction hn : l.length using Nat.strong_induction_on generalizing l with
    | _ n ih =>
      intro hw
      obtain ⟨hne, hfreew⟩ := of_mem_words hw
      -- The induction cuts the list at its first separator.
      rcases free_or_split sep l with hfree | ⟨a, c, b, rfl, ha, hc⟩
      · obtain ⟨rfl, -⟩ := (mem_words_of_free hfree).mp hw
        exact ⟨[], [], by simp, hne, hfreew, by simp, by simp⟩
      · rw [words_append_cons a b hc, List.mem_append, mem_words_of_free ha] at hw
        rcases hw with ⟨rfl, -⟩ | hw
        · exact ⟨[], c :: b, by simp, hne, hfreew, by simp, by simpa using hc⟩
        · have hlen : b.length < n := by
            simp only [List.length_append, List.length_cons] at hn
            omega
          obtain ⟨a', b', rfl, -, -, hlast, hhead⟩ := ih _ hlen rfl hw
          refine ⟨a ++ c :: a', b', by simp, hne, hfreew, ?_, hhead⟩
          intro d hd
          -- The word is the first one behind the separator, or a later one.
          cases a' with
          | nil =>
            simp only [List.getLast?_append, List.getLast?_singleton, Option.some_or,
              Option.mem_some_iff] at hd
            rw [← hd]
            exact hc
          | cons e a' =>
            refine hlast d ?_
            simpa [List.getLast?_append, List.getLast?_cons_cons] using hd
  · rintro ⟨a, b, rfl, hne, hfree, hlast, hhead⟩
    -- Conversely, the separators on both sides make the stretch a word of its own.
    have hright : words sep (w ++ b) = w :: words sep b := by
      cases b with
      | nil => rw [List.append_nil, words_eq_singleton hne hfree, words_nil]
      | cons d b =>
        have hd : sep d = true := hhead d (by simp)
        rw [words_append_cons w b hd, words_eq_singleton hne hfree, words_cons_of_sep hd]
        rfl
    rcases List.eq_nil_or_concat a with rfl | ⟨a, c, rfl⟩
    · simp [hright]
    · have hc : sep c = true := hlast c (by simp)
      rw [List.concat_eq_append, List.append_assoc, List.singleton_append,
        words_append_cons a _ hc, hright]
      simp

/-- A word of `a ++ b` is a word of a part, or it runs across the seam. -/
theorem mem_words_append {a b w : List α} (hw : w ∈ words sep (a ++ b)) :
    w ∈ words sep a ∨ w ∈ words sep b ∨
      ∃ u v, w = u ++ v ∧ u ≠ [] ∧ v ≠ [] ∧ u <:+ a ∧ v <+: b := by
  obtain ⟨x, y, hxy, hne, hfree, hlast, hhead⟩ := mem_words.mp hw
  rw [← List.append_assoc] at hxy
  -- Where the seam lies: in front of the word, inside it, or behind it.
  rcases List.append_eq_append_iff.mp hxy with ⟨s, hs, rfl⟩ | ⟨s, rfl, rfl⟩
  · rcases List.append_eq_append_iff.mp hs with ⟨u, rfl, rfl⟩ | ⟨u, rfl, rfl⟩
    · by_cases hu : u = []
      · subst hu
        right; left
        exact mem_words.mpr ⟨[], y, by simp, by simpa using hne, by simpa using hfree, by simp,
          hhead⟩
      · by_cases hsn : s = []
        · subst hsn
          left
          exact mem_words.mpr ⟨x, [], by simp, by simpa using hne, by simpa using hfree,
            hlast, by simp⟩
        · right; right
          exact ⟨u, s, rfl, hu, hsn, ⟨x, rfl⟩, ⟨y, rfl⟩⟩
    · right; left
      refine mem_words.mpr ⟨u, y, by simp, hne, hfree, ?_, hhead⟩
      intro c hc
      refine hlast c ?_
      rw [List.getLast?_append]
      simp [Option.mem_def.mp hc]
  · left
    refine mem_words.mpr ⟨x, s, by simp, hne, hfree, hlast, ?_⟩
    intro c hc
    refine hhead c ?_
    cases s with
    | nil => simp at hc
    | cons d s => simpa using hc

/-- Words are taken pointwise through a map that keeps the separators. -/
theorem words_map {β : Type} {sep' : β → Bool} (f : α → β) (hf : ∀ c, sep' (f c) = sep c)
    (l : List α) : words sep' (l.map f) = (words sep l).map (List.map f) := by
  induction hn : l.length using Nat.strong_induction_on generalizing l with
  | _ n ih =>
    rcases free_or_split sep l with hfree | ⟨a, c, b, rfl, ha, hc⟩
    · by_cases hne : l = []
      · subst hne
        rfl
      · rw [words_eq_singleton hne hfree, words_eq_singleton (by simpa using hne)]
        · simp
        · intro d hd
          obtain ⟨c, hc, rfl⟩ := List.mem_map.mp hd
          rw [hf, hfree c hc]
    · have hlen : a.length < n ∧ b.length < n := by
        simp only [List.length_append, List.length_cons] at hn
        omega
      rw [List.map_append, List.map_cons, words_append_cons _ _ (by rw [hf, hc]),
        words_append_cons a b hc, ih _ hlen.1 a rfl, ih _ hlen.2 b rfl, List.map_append]

end Words
