import SignalGateway.Py.Str
import SignalGateway.Lib.Words

/-!
# `SignalGateway.Proofs.Str`: the words of a Python string

`words isSpace` is the list of the maximal non-whitespace runs of a string. The operations
that only touch whitespace keep it: `words_strip`, `words_replace` (for a replacement of
whitespace by whitespace) and `flatMap_words_reSplit` (for a pattern that matches
whitespace). `free_of_mem_reSplit` adds that a split at every whitespace run leaves pieces
without whitespace.

The lemmas about `re.split` are stated for any scan (`flatMap_words_pieces`,
`free_of_mem_pieces`, `ne_nil_of_mem_pieces`), and then for the patterns `\s+` and `\s{n,}` of the
source.
-/

set_option autoImplicit false

namespace SignalGateway.Proofs

open Regex Words PyChar

variable {α : Type} [PyChar α]

/-- A character of a literal is a space if its code point is. -/
@[simp] theorem isSpace_ofChar (ch : Char) :
    isSpace (ofChar ch : α) = isSpaceCode ch.toNat := by
  rw [isSpace, code_ofChar]

/-- The code points of a literal. -/
@[simp] theorem codes_lit (s : String) : codes (lit s : List α) = s.toList.map Char.toNat := by
  simp [codes, lit, Function.comp_def, code_ofChar]

/-- A text has as many code points as characters. -/
@[simp] theorem length_codes (s : List α) : (codes s).length = s.length := by
  simp [codes]

/-- The code points of two texts. -/
@[simp] theorem codes_append (a b : List α) : codes (a ++ b) = codes a ++ codes b := by
  simp [codes]

/-- The code point at a position. -/
theorem getElem?_codes (s : List α) (i : Nat) : (codes s)[i]? = s[i]?.map code := by
  simp [codes]

/-- The characters of a literal of whitespace. -/
theorem isSpace_of_mem_lit {s : String}
    (h : (s.toList.all fun ch => isSpaceCode ch.toNat) = true) :
    ∀ c ∈ (lit s : List α), isSpace c = true := by
  intro c hc
  obtain ⟨ch, hch, rfl⟩ := List.mem_map.mp hc
  rw [isSpace_ofChar]
  exact List.all_eq_true.mp h ch hch

/-! ### Stripping -/

/-- Stripping in front keeps the words. -/
theorem words_lstrip (s : List α) : words isSpace (lstrip s) = words isSpace s := by
  have htake : ∀ c ∈ s.takeWhile isSpace, isSpace c = true := fun c hc =>
    List.mem_takeWhile_imp hc
  rw [lstrip, ← words_seps_append htake, List.takeWhile_append_dropWhile]

/-- So does stripping at the end. -/
theorem words_rstrip (s : List α) : words isSpace (rstrip s) = words isSpace s := by
  have htake : ∀ c ∈ s.rtakeWhile isSpace, isSpace c = true := fun c hc =>
    List.mem_rtakeWhile_imp hc
  rw [rstrip, ← words_append_of_seps _ htake, List.rdropWhile_append_rtakeWhile]

/-- Stripping keeps the words. -/
theorem words_strip (s : List α) : words isSpace (strip s) = words isSpace s := by
  rw [strip, words_rstrip, words_lstrip]

/-- Stripping does not lengthen a string. -/
theorem length_strip_le (s : List α) : (strip s).length ≤ s.length := by
  have hright : (strip s).length ≤ (lstrip s).length :=
    (List.rdropWhile_prefix isSpace (lstrip s)).length_le
  exact hright.trans (List.dropWhile_sublist isSpace).length_le

/-- A stripped string does not end with whitespace. -/
theorem getLast?_strip (s : List α) : ∀ c ∈ (strip s).getLast?, isSpace c = false := by
  intro c hc
  have hne : strip s ≠ [] := by
    intro hnil
    rw [hnil] at hc
    simp at hc
  have hlast : ¬ isSpace ((strip s).getLast hne) = true :=
    List.rdropWhile_last_not isSpace (lstrip s) hne
  rw [Option.mem_def, List.getLast?_eq_some_getLast hne] at hc
  cases hc
  simpa using hlast

/-- A stripped string does not start with whitespace. -/
theorem head?_strip (s : List α) : ∀ c ∈ (strip s).head?, isSpace c = false := by
  intro c hc
  obtain ⟨rest, hrest⟩ := List.rdropWhile_prefix isSpace (lstrip s)
  have hhead : c ∈ (lstrip s).head? := by
    rw [← hrest, List.head?_append]
    have hc' : (List.rdropWhile isSpace (lstrip s)).head? = some c := hc
    simp [hc']
  have hfind := List.head?_dropWhile_not isSpace s
  rw [lstrip, Option.mem_def] at hhead
  rw [hhead] at hfind
  simpa using hfind

/-- A string without whitespace at its ends is stripped. -/
theorem strip_eq_self {s : List α} (hhead : ∀ c ∈ s.head?, isSpace c = false)
    (hlast : ∀ c ∈ s.getLast?, isSpace c = false) : strip s = s := by
  have hl : lstrip s = s := by
    cases s with
    | nil => rfl
    | cons c s => simp [lstrip, hhead c (by simp)]
  rw [strip, hl, rstrip, List.rdropWhile_eq_self_iff]
  intro hne
  rw [hlast _ (List.getLast?_eq_some_getLast hne)]
  simp

/-! ### Replacing whitespace by whitespace -/

/-- The skip counter of `replaceFrom` drops characters. -/
theorem replaceFrom_eq_drop (old : List Nat) (new : List α) :
    ∀ (k : Nat) (s : List α),
      replaceFrom old new k s = replaceFrom old new 0 (s.drop k) := by
  intro k
  induction k with
  | zero => intro s; rw [List.drop_zero]
  | succ k ih =>
    intro s
    cases s with
    | nil => rfl
    | cons c s => exact ih s

/-- Replacing whitespace by whitespace keeps the words. The induction carries what stands
in front, because a word can begin there. -/
theorem words_append_replaceFrom {old : List Nat} {new : List α} (hold : old ≠ [])
    (holds : ∀ n ∈ old, isSpaceCode n = true) (hnew : new ≠ [])
    (hnews : ∀ c ∈ new, isSpace c = true) :
    ∀ (s pre : List α),
      words isSpace (pre ++ replaceFrom old new 0 s) = words isSpace (pre ++ s) := by
  intro s
  induction hn : s.length using Nat.strong_induction_on generalizing s with
  | _ n ih =>
    intro pre
    cases s with
    | nil => rfl
    | cons c s =>
      rw [replaceFrom]
      split
      · rename_i hstart
        -- The occurrence of `old` is a run of whitespace, like `new`.
        obtain ⟨rest, hrest⟩ := List.isPrefixOf_iff_prefix.mp hstart
        have hsplit : c :: s = (c :: s).take old.length ++ (c :: s).drop old.length :=
          (List.take_append_drop _ _).symm
        have htake : codes ((c :: s).take old.length) = old := by
          have := congrArg (List.take old.length) hrest
          rw [List.take_left] at this
          rw [codes, List.map_take]
          exact this.symm
        have hspaces : ∀ d ∈ (c :: s).take old.length, isSpace d = true := by
          intro d hd
          refine holds (code d) ?_
          rw [← htake]
          exact List.mem_map_of_mem hd
        have hne : (c :: s).take old.length ≠ [] := by
          intro hnil
          rw [hnil] at htake
          exact hold htake.symm
        have hlen : 0 < old.length := List.length_pos_iff.mpr hold
        have hdrop : (c :: s).drop old.length = s.drop (old.length - 1) := by
          cases hk : old.length with
          | zero => omega
          | succ k => rfl
        have hlt : (s.drop (old.length - 1)).length < n := by
          simp only [List.length_cons] at hn
          simp only [List.length_drop]
          omega
        rw [replaceFrom_eq_drop, words_append_seps _ _ hnew hnews]
        conv_rhs => rw [hsplit, words_append_seps _ _ hne hspaces, hdrop]
        have := ih _ hlt (s.drop (old.length - 1)) rfl []
        rw [List.nil_append, List.nil_append] at this
        rw [this]
      · have hlt : s.length < n := by
          simp only [List.length_cons] at hn
          omega
        have := ih _ hlt s rfl (pre ++ [c])
        simpa using this

/-- Replacing whitespace by whitespace keeps the words. -/
theorem words_replace {old : List Nat} {new : List α} (hold : old ≠ [])
    (holds : ∀ n ∈ old, isSpaceCode n = true) (hnew : new ≠ [])
    (hnews : ∀ c ∈ new, isSpace c = true) (s : List α) :
    words isSpace (replace old new s) = words isSpace s := by
  simpa [replace] using words_append_replaceFrom hold holds hnew hnews s []

/-! ### Splitting at whitespace -/

/-- The words of a scan's pieces are the words of the text, when every match is a non-empty
run of separators. -/
theorem flatMap_words_pieces {σ β : Type} {t : List σ} {r : Re σ} {xs : List β}
    {sep : β → Bool} (hlen : xs.length = t.length)
    (hsep : ∀ m : Match, m.start ≤ t.length → matchAt t r m.start = some m →
      m.start < m.stop ∧ ∀ c ∈ m.text xs, sep c = true)
    {i : Nat} {ms : List Match} (h : Scan t r i ms) :
    (pieces xs i ms).flatMap (words sep) = words sep (xs.drop i) := by
  induction h with
  | done gap => simp [pieces]
  | @next i m ms le found start_le gap rest ih =>
    obtain ⟨hlt, hspaces⟩ := hsep m start_le found
    obtain ⟨-, -, hstop, -⟩ := matchAt_spec start_le found
    have hne : m.text xs ≠ [] := by
      intro hnil
      have := congrArg List.length hnil
      rw [Match.text, length_slice, List.length_nil] at this
      omega
    rw [pieces, List.flatMap_cons, ih, ← words_append_seps _ _ hne hspaces, Match.text,
      slice_append_drop xs (by omega), slice_append_drop xs le]

/-- The pieces of a scan hold no separator, when a match starts at every separator. -/
theorem free_of_mem_pieces {σ β : Type} {t : List σ} {r : Re σ} {xs : List β}
    {sep : β → Bool} (hlen : xs.length = t.length)
    (hfree : ∀ j c, xs[j]? = some c → matchAt t r j = none → sep c = false)
    {i : Nat} {ms : List Match} (h : Scan t r i ms) :
    ∀ p ∈ pieces xs i ms, ∀ c ∈ p, sep c = false := by
  induction h with
  | @done i gap =>
    intro p hp c hc
    rw [pieces, List.mem_singleton] at hp
    subst hp
    obtain ⟨k, hk⟩ := List.mem_iff_getElem?.mp hc
    rw [List.getElem?_drop] at hk
    have hlt : i + k < xs.length := (List.getElem?_eq_some_iff.mp hk).1
    exact hfree _ c hk (gap _ (by omega) (by omega))
  | @next i m ms le found start_le gap rest ih =>
    intro p hp c hc
    rw [pieces, List.mem_cons] at hp
    -- the piece before the next match, or a later one
    rcases hp with rfl | hp
    · obtain ⟨k, hk⟩ := List.mem_iff_getElem?.mp hc
      rw [getElem?_slice] at hk
      split at hk
      · rename_i hlt
        exact hfree _ c hk (gap _ (by omega) hlt)
      · cases hk
    · exact ih p hp c hc

/-- No piece of a scan is empty, when no match ends at the end of the text or directly in
front of the next match. -/
theorem ne_nil_of_mem_pieces {σ β : Type} {t : List σ} {r : Re σ} {xs : List β}
    (hlen : xs.length = t.length)
    (hstop : ∀ m : Match, m.start ≤ t.length → matchAt t r m.start = some m →
      m.stop < t.length ∧ matchAt t r m.stop = none)
    {i : Nat} {ms : List Match} (h : Scan t r i ms) (hi : i < t.length)
    (hnone : matchAt t r i = none) : ∀ p ∈ pieces xs i ms, p ≠ [] := by
  induction h with
  | @done i gap =>
    intro p hp hnil
    rw [pieces, List.mem_singleton, hnil] at hp
    have := congrArg List.length hp
    rw [List.length_drop, List.length_nil] at this
    omega
  | @next i m ms le found start_le gap rest ih =>
    intro p hp
    rw [pieces, List.mem_cons] at hp
    obtain ⟨hlt, hafter⟩ := hstop m start_le found
    rcases hp with rfl | hp
    · intro hnil
      -- the next match starts later, as nothing matches at `i`
      have hne : i ≠ m.start := by
        rintro rfl
        rw [found] at hnone
        cases hnone
      have := congrArg List.length hnil
      rw [length_slice, List.length_nil] at this
      omega
    · exact ih hlt hafter p hp

/-- A split at runs of whitespace keeps the words. -/
theorem flatMap_words_reSplit {lo : Nat} {p : Nat → Bool} (hlo : 0 < lo)
    (hp : ∀ n, p n = true → isSpaceCode n = true) (s : List α) :
    (reSplit (.rep true lo none p) s).flatMap (words isSpace) = words isSpace s := by
  have hscan := scan_finditer (t := codes s) (r := .rep true lo none p) hlo
  rw [reSplit, flatMap_words_pieces (by simp) ?_ hscan, List.drop_zero]
  intro m hstart hm
  rw [matchAt_rep_greedy] at hm
  split at hm
  · rename_i hle
    have hstop : m.stop = m.start + runLength p (codes s) m.start :=
      (congrArg Match.stop (Option.some.inj hm)).symm
    refine ⟨by omega, ?_⟩
    intro c hc
    obtain ⟨k, hk⟩ := List.mem_iff_getElem?.mp hc
    rw [Match.text, getElem?_slice] at hk
    split at hk
    · have hrun := runLength_spec p (codes s) m.start k (by omega)
      rw [getElem?_codes, hk] at hrun
      exact hp _ (by simpa using hrun)
    · cases hk
  · cases hm

/-- A split at every run of whitespace leaves pieces without whitespace. -/
theorem free_of_mem_reSplit (s : List α) :
    ∀ p ∈ reSplit (.rep true 1 none isSpaceCode) s, ∀ c ∈ p, isSpace c = false := by
  have hscan := scan_finditer (t := codes s) (r := .rep true 1 none isSpaceCode) Nat.one_pos
  refine free_of_mem_pieces (by simp) ?_ hscan
  intro j c hc hnone
  rw [matchAt_rep_greedy] at hnone
  split at hnone
  · cases hnone
  · rename_i hrun
    by_contra hspace
    apply hrun
    obtain ⟨hj, hget⟩ := List.getElem?_eq_some_iff.mp hc
    have hdrop : (codes s).drop j = code c :: (codes s).drop (j + 1) := by
      rw [List.drop_eq_getElem_cons (by simpa using hj)]
      simp [codes, hget]
    have hcode : isSpaceCode (code c) = true := by
      simpa [isSpace] using hspace
    rw [runLength, hdrop, List.takeWhile_cons, if_pos hcode]
    simp

/-- A split at the whitespace inside a stripped string leaves no empty piece. -/
theorem ne_nil_of_mem_reSplit {s : List α} (hne : s ≠ [])
    (hhead : ∀ c ∈ s.head?, isSpace c = false) (hlast : ∀ c ∈ s.getLast?, isSpace c = false) :
    ∀ p ∈ reSplit (.rep true 1 none isSpaceCode) s, p ≠ [] := by
  have hscan := scan_finditer (t := codes s) (r := .rep true 1 none isSpaceCode) Nat.one_pos
  have hpos : 0 < (codes s).length := by
    rw [length_codes]
    exact List.length_pos_iff.mpr hne
  have hnone : ∀ {i : Nat}, ((codes s)[i]?).any isSpaceCode = false →
      matchAt (codes s) (.rep true 1 none isSpaceCode) i = none := by
    intro i hi
    rw [matchAt_rep_greedy, runLength_eq_zero hi, if_neg (by omega)]
  refine ne_nil_of_mem_pieces (length_codes s).symm ?_ hscan hpos (hnone ?_)
  · intro m hstart hm
    rw [matchAt_rep_greedy] at hm
    split at hm
    · have hstop : m.stop = m.start + runLength isSpaceCode (codes s) m.start :=
        (congrArg Match.stop (Option.some.inj hm)).symm
      refine ⟨?_, hnone (by rw [hstop]; exact runLength_maximal _ _ _)⟩
      -- A run up to the end would hold the last character.
      by_contra hend
      have hle := runLength_le isSpaceCode (codes s) m.start
      have hspec := runLength_spec isSpaceCode (codes s) m.start
        (runLength isSpaceCode (codes s) m.start - 1) (by omega)
      have hindex : m.start + (runLength isSpaceCode (codes s) m.start - 1) = s.length - 1 := by
        rw [length_codes] at hend hle
        omega
      rw [hindex, getElem?_codes, ← List.getLast?_eq_getElem?] at hspec
      cases hend : s.getLast? with
      | none =>
        rw [hend] at hspec
        cases hspec
      | some c =>
        have hspace : isSpace c = true := by simpa [hend, isSpace] using hspec
        rw [hlast c hend] at hspace
        cases hspace
    · cases hm
  · cases s with
    | nil => exact absurd rfl hne
    | cons c s =>
      have hc := hhead c rfl
      simpa [codes, isSpace] using hc

end SignalGateway.Proofs
