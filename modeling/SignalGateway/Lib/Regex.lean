import Mathlib

/-!
# `Lib.Regex`: backtracking regular expressions over a list

A small regular-expression engine with the priorities of a backtracking matcher. A pattern
is an `Re σ` over an arbitrary alphabet `σ`. `outcomes t r i` lists every way in which `r`
can match the text `t` from position `i`, in the order in which a backtracking matcher
tries them. The head of that list is the match the matcher reports. Ordered choice lists
the left branch first. A greedy repetition lists its longest run first, a lazy one its
shortest.

Repetitions range over one character class. This keeps `outcomes` structurally recursive,
so patterns evaluate without fuel. A match holds positions only: a caller slices whatever
list it likes with them.

* `outcomes_spec` bounds every outcome: it ends inside the text, consumes at least
  `Re.minLen` characters, and its groups lie inside it.
* `Scan t r i ms` says that `ms` are the successive leftmost matches from `i` on, with no
  match starting in a gap. `scan_finditer` proves it of `finditer`, for a pattern that
  consumes. Facts about `finditer`, `split` and `findall` go by induction on `Scan`.
-/

set_option autoImplicit false

namespace Regex

variable {σ : Type}

/-- A pattern over the alphabet `σ`. `rep greedy lo hi p` is a run of `lo` to `hi`
characters of the class `p`, and `hi = none` is no upper bound. `group` captures.
`lineStart` and `atEnd` take the newline class, `notBehind` and `notAhead` are the negative
lookarounds of one character. -/
inductive Re (σ : Type) where
  | eps
  | one (p : σ → Bool)
  | rep (greedy : Bool) (lo : Nat) (hi : Option Nat) (p : σ → Bool)
  | seq (a b : Re σ)
  | alt (a b : Re σ)
  | group (a : Re σ)
  | lineStart (nl : σ → Bool)
  | atEnd (nl : σ → Bool)
  | notBehind (p : σ → Bool)
  | notAhead (p : σ → Bool)

namespace Re

/-- `r?`, greedy. -/
def opt (r : Re σ) : Re σ := .alt r .eps

/-- The patterns of `rs`, one after the other. -/
def seqs (rs : List (Re σ)) : Re σ := rs.foldr .seq .eps

/-- No match of the pattern is shorter than this. -/
def minLen : Re σ → Nat
  | eps => 0
  | one _ => 1
  | rep _ lo _ _ => lo
  | seq a b => a.minLen + b.minLen
  | alt a b => min a.minLen b.minLen
  | group a => a.minLen
  | lineStart _ => 0
  | atEnd _ => 0
  | notBehind _ => 0
  | notAhead _ => 0

end Re

/-- The number of characters of the class `p` from position `i` on, up to the first other. -/
def runLength (p : σ → Bool) (t : List σ) (i : Nat) : Nat :=
  ((t.drop i).takeWhile p).length

/-- The repetition counts from `lo` to `hi`, in the order a matcher tries them. -/
def counts (greedy : Bool) (lo hi : Nat) : List Nat :=
  let up := (List.range (hi + 1 - lo)).map (lo + ·)
  if greedy then up.reverse else up

/-- Every way `r` matches `t` from position `i`: the end position and the captured spans,
first choice first. -/
def outcomes (t : List σ) : Re σ → Nat → List (Nat × List (Nat × Nat))
  | .eps, i => [(i, [])]
  | .one p, i => if (t[i]?).any p then [(i + 1, [])] else []
  | .rep greedy lo hi p, i =>
      let n := match hi with
        | none => runLength p t i
        | some h => min (runLength p t i) h
      (counts greedy lo n).map fun k => (i + k, [])
  | .seq a b, i =>
      (outcomes t a i).flatMap fun oa =>
        (outcomes t b oa.1).map fun ob => (ob.1, oa.2 ++ ob.2)
  | .alt a b, i => outcomes t a i ++ outcomes t b i
  | .group a, i => (outcomes t a i).map fun oa => (oa.1, (i, oa.1) :: oa.2)
  | .lineStart nl, i => if i = 0 ∨ (t[i - 1]?).any nl then [(i, [])] else []
  | .atEnd nl, i =>
      if i = t.length ∨ (i + 1 = t.length ∧ (t[i]?).any nl) then [(i, [])] else []
  | .notBehind p, i => if 0 < i ∧ (t[i - 1]?).any p then [] else [(i, [])]
  | .notAhead p, i => if (t[i]?).any p then [] else [(i, [])]

/-- A match: where it starts and stops, and the spans its groups captured. -/
structure Match where
  start : Nat
  stop : Nat
  groups : List (Nat × Nat)
deriving DecidableEq, Repr

/-- The match of `r` at position `i`, if there is one. -/
def matchAt (t : List σ) (r : Re σ) (i : Nat) : Option Match :=
  (outcomes t r i).head?.map fun o => ⟨i, o.1, o.2⟩

/-- The first match at one of the `n` positions from `i` on. -/
def searchFrom (t : List σ) (r : Re σ) : Nat → Nat → Option Match
  | 0, _ => none
  | n + 1, i =>
      match matchAt t r i with
      | some m => some m
      | none => searchFrom t r n (i + 1)

/-- The leftmost match that starts at `i` or later. -/
def search (t : List σ) (r : Re σ) (i : Nat) : Option Match :=
  searchFrom t r (t.length + 1 - i) i

/-- Successive leftmost matches from `i` on, at most `n` of them. After a match the search
goes on where the match stopped, or one further after an empty match. -/
def finditerFrom (t : List σ) (r : Re σ) : Nat → Nat → List Match
  | 0, _ => []
  | n + 1, i =>
      match search t r i with
      | none => []
      | some m => m :: finditerFrom t r n (max m.stop (m.start + 1))

/-- All the successive leftmost matches. -/
def finditer (t : List σ) (r : Re σ) : List Match := finditerFrom t r (t.length + 1) 0

/-- The elements from position `a` up to, not including, position `b`. -/
def slice {β : Type} (xs : List β) (a b : Nat) : List β := (xs.take b).drop a

/-- The text the match covers. -/
def Match.text {β : Type} (m : Match) (xs : List β) : List β := slice xs m.start m.stop

/-- The pieces of `xs` from `i` on between the given matches. -/
def pieces {β : Type} (xs : List β) : Nat → List Match → List (List β)
  | i, [] => [xs.drop i]
  | i, m :: ms => slice xs i m.start :: pieces xs m.stop ms

/-! ### Slices -/

/-- A slice, dropping first. -/
theorem slice_eq_take_drop {β : Type} (xs : List β) (a b : Nat) :
    slice xs a b = (xs.drop a).take (b - a) := List.drop_take

/-- The length of a slice, cut off at the end of the list. -/
@[simp] theorem length_slice {β : Type} (xs : List β) (a b : Nat) :
    (slice xs a b).length = min b xs.length - a := by
  simp [slice]

/-- Two adjacent slices join. -/
theorem slice_append_slice {β : Type} (xs : List β) {a b c : Nat} (hab : a ≤ b) (hbc : b ≤ c) :
    slice xs a b ++ slice xs b c = slice xs a c := by
  simp only [slice_eq_take_drop]
  have hlen : c - a = (b - a) + (c - b) := by omega
  have hdrop : (xs.drop a).drop (b - a) = xs.drop b := by
    rw [List.drop_drop]
    congr 1
    omega
  rw [hlen, List.take_add, hdrop]

/-- A slice and everything behind it. -/
theorem slice_append_drop {β : Type} (xs : List β) {a b : Nat} (hab : a ≤ b) :
    slice xs a b ++ xs.drop b = xs.drop a := by
  have hdrop : xs.drop b = (xs.drop a).drop (b - a) := by
    rw [List.drop_drop]
    congr 1
    omega
  rw [slice_eq_take_drop, hdrop, List.take_append_drop]

/-- An empty slice. -/
theorem slice_eq_nil {β : Type} (xs : List β) {a b : Nat} (hba : b ≤ a) : slice xs a b = [] := by
  rw [slice_eq_take_drop, Nat.sub_eq_zero_of_le hba, List.take_zero]

/-- Slicing commutes with a map. -/
theorem map_slice {β γ : Type} (f : β → γ) (xs : List β) (a b : Nat) :
    (slice xs a b).map f = slice (xs.map f) a b := by
  simp [slice, List.map_drop, List.map_take]

/-- The element at position `k` of a slice. -/
theorem getElem?_slice {β : Type} (xs : List β) (a b k : Nat) :
    (slice xs a b)[k]? = if a + k < b then xs[a + k]? else none := by
  rw [slice, List.getElem?_drop, List.getElem?_take]

/-- The elements of a slice, position by position. -/
theorem forall_mem_slice {β : Type} {p : β → Bool} {xs : List β} {i j : Nat}
    (h : ∀ k c, i ≤ k → k < j → xs[k]? = some c → p c = true) :
    ∀ c ∈ slice xs i j, p c = true := by
  intro c hc
  obtain ⟨k, hk⟩ := List.mem_iff_getElem?.mp hc
  rw [getElem?_slice] at hk
  split at hk
  · exact h (i + k) c (by omega) (by omega) hk
  · cases hk

/-- A slice is a sublist. -/
theorem slice_sublist {β : Type} (xs : List β) (a b : Nat) : (slice xs a b).Sublist xs :=
  (List.drop_sublist _ _).trans (List.take_sublist _ _)

/-- The pieces of a mapped list are the mapped pieces. -/
theorem map_pieces {β γ : Type} (f : β → γ) (xs : List β) (i : Nat) (ms : List Match) :
    (pieces xs i ms).map (List.map f) = pieces (xs.map f) i ms := by
  induction ms generalizing i with
  | nil => simp [pieces, List.map_drop]
  | cons m ms ih => simp [pieces, map_slice, ih]

/-! ### Runs of one class -/

/-- A run stays inside the text. -/
theorem runLength_le (p : σ → Bool) (t : List σ) (i : Nat) :
    runLength p t i ≤ t.length - i := by
  have h := (List.takeWhile_sublist (l := t.drop i) p).length_le
  simpa [runLength] using h

/-- Every position of a run holds a character of the class. -/
theorem runLength_spec (p : σ → Bool) (t : List σ) (i k : Nat) (hk : k < runLength p t i) :
    (t[i + k]?).any p = true := by
  have hlen : k < ((t.drop i).takeWhile p).length := hk
  have hmem := List.mem_takeWhile_imp (List.getElem_mem hlen)
  obtain ⟨rest, hrest⟩ := List.takeWhile_prefix (l := t.drop i) p
  have hget : t[i + k]? = some ((t.drop i).takeWhile p)[k] := by
    rw [← List.getElem?_drop]
    conv_lhs => rw [← hrest]
    rw [List.getElem?_append_left hlen, List.getElem?_eq_getElem hlen]
  rw [hget]
  exact hmem

/-- The length of a run, read off the text: `w` is the run and `rest` does not go on with
the class. -/
theorem runLength_eq {p : σ → Bool} {t w rest : List σ} {i : Nat} (h : t.drop i = w ++ rest)
    (hw : ∀ c ∈ w, p c = true) (hrest : ∀ c, rest.head? = some c → p c = false) :
    runLength p t i = w.length := by
  have hnil : rest.takeWhile p = [] := by
    cases rest with
    | nil => rfl
    | cons c rest => simp [hrest c rfl]
  rw [runLength, h, List.takeWhile_append_of_pos hw, hnil, List.append_nil]

/-- A run is as long as it can be: the position behind it holds no character of the
class. -/
theorem runLength_maximal (p : σ → Bool) (t : List σ) (i : Nat) :
    (t[i + runLength p t i]?).any p = false := by
  rw [← List.getElem?_drop, runLength]
  have hsplit : (t.drop i)[((t.drop i).takeWhile p).length]? = ((t.drop i).dropWhile p).head? := by
    conv_lhs => rw [← List.takeWhile_append_dropWhile (p := p) (l := t.drop i)]
    rw [List.getElem?_append_right (by simp), List.takeWhile_append_dropWhile, Nat.sub_self,
      List.head?_eq_getElem?]
  rw [hsplit]
  have hhead := List.head?_dropWhile_not p (t.drop i)
  cases h : ((t.drop i).dropWhile p).head? with
  | none => rfl
  | some c =>
    rw [h] at hhead
    simpa using hhead

/-- No run starts where no character of the class stands. -/
theorem runLength_eq_zero {p : σ → Bool} {t : List σ} {i : Nat}
    (h : (t[i]?).any p = false) : runLength p t i = 0 := by
  by_contra hne
  have := runLength_spec p t i 0 (by omega)
  rw [Nat.add_zero, h] at this
  cases this

/-- The counts are exactly the numbers from `lo` to `hi`. -/
theorem mem_counts {greedy : Bool} {lo hi k : Nat} :
    k ∈ counts greedy lo hi ↔ lo ≤ k ∧ k ≤ hi := by
  have hup : k ∈ (List.range (hi + 1 - lo)).map (lo + ·) ↔ lo ≤ k ∧ k ≤ hi := by
    simp only [List.mem_map, List.mem_range]
    constructor
    · rintro ⟨d, hd, rfl⟩
      omega
    · rintro ⟨h1, h2⟩
      exact ⟨k - lo, by omega, by omega⟩
  unfold counts
  cases greedy <;> simpa using hup

/-- A greedy repetition tries its longest run first. -/
theorem counts_greedy_head {lo hi : Nat} (h : lo ≤ hi) :
    ∃ rest, counts true lo hi = hi :: rest := by
  have hrange : hi + 1 - lo = (hi - lo) + 1 := by omega
  refine ⟨((List.range (hi - lo)).map (lo + ·)).reverse, ?_⟩
  simp only [counts, hrange, List.range_succ, List.map_append, List.map_cons, List.map_nil,
    List.reverse_append, List.reverse_singleton, if_true, List.singleton_append]
  congr 1
  omega

/-! ### What an outcome covers -/

/-- An outcome ends inside the text, consumes at least `minLen` characters, and its groups
lie inside it. -/
theorem outcomes_spec (t : List σ) (r : Re σ) :
    ∀ {i : Nat} {o : Nat × List (Nat × Nat)}, i ≤ t.length → o ∈ outcomes t r i →
      i + r.minLen ≤ o.1 ∧ o.1 ≤ t.length ∧ ∀ g ∈ o.2, i ≤ g.1 ∧ g.1 ≤ g.2 ∧ g.2 ≤ o.1 := by
  induction r with
  | eps =>
    intro i o hi ho
    simp only [outcomes, List.mem_singleton] at ho
    subst ho
    simpa [Re.minLen] using hi
  | one p =>
    intro i o hi ho
    simp only [outcomes] at ho
    split at ho
    · rename_i hp
      simp only [List.mem_singleton] at ho
      subst ho
      have hlt : i < t.length := by
        by_contra hge
        rw [List.getElem?_eq_none (by omega)] at hp
        simp at hp
      simp only [Re.minLen, List.not_mem_nil, false_implies, implies_true, and_true]
      omega
    · simp at ho
  | rep greedy lo hi p =>
    intro i o hi' ho
    simp only [outcomes, List.mem_map] at ho
    obtain ⟨k, hk, rfl⟩ := ho
    have hrun := runLength_le p t i
    have hle : lo ≤ k ∧ k ≤ runLength p t i := by
      rw [mem_counts] at hk
      cases hi <;> simp only at hk <;> omega
    simp only [Re.minLen, List.not_mem_nil, false_implies, implies_true, and_true]
    omega
  -- The second part starts where the first one stopped, so the bounds add up.
  | seq a b iha ihb =>
    intro i o hi ho
    simp only [outcomes, List.mem_flatMap, List.mem_map] at ho
    obtain ⟨oa, hoa, ob, hob, rfl⟩ := ho
    obtain ⟨ha1, ha2, ha3⟩ := iha hi hoa
    obtain ⟨hb1, hb2, hb3⟩ := ihb ha2 hob
    refine ⟨by simp only [Re.minLen]; omega, hb2, ?_⟩
    intro g hg
    rcases List.mem_append.mp hg with hg | hg
    · have := ha3 g hg
      simp only
      omega
    · have := hb3 g hg
      simp only
      omega
  | alt a b iha ihb =>
    intro i o hi ho
    simp only [outcomes, List.mem_append] at ho
    rcases ho with ho | ho
    · obtain ⟨h1, h2, h3⟩ := iha hi ho
      exact ⟨by simp only [Re.minLen]; omega, h2, h3⟩
    · obtain ⟨h1, h2, h3⟩ := ihb hi ho
      exact ⟨by simp only [Re.minLen]; omega, h2, h3⟩
  | group a iha =>
    intro i o hi ho
    simp only [outcomes, List.mem_map] at ho
    obtain ⟨oa, hoa, rfl⟩ := ho
    obtain ⟨h1, h2, h3⟩ := iha hi hoa
    refine ⟨h1, h2, ?_⟩
    intro g hg
    rcases List.mem_cons.mp hg with rfl | hg
    · simp only
      omega
    · exact h3 g hg
  -- The anchors and lookarounds consume nothing.
  | lineStart nl | atEnd nl | notBehind p | notAhead p =>
    intro i o hi ho
    simp only [outcomes] at ho
    split at ho <;> simp only [List.mem_singleton, List.not_mem_nil] at ho
    subst ho
    simpa [Re.minLen] using hi

/-- What a match covers. -/
theorem matchAt_spec {t : List σ} {r : Re σ} {i : Nat} {m : Match} (hi : i ≤ t.length)
    (h : matchAt t r i = some m) :
    m.start = i ∧ i + r.minLen ≤ m.stop ∧ m.stop ≤ t.length ∧
      ∀ g ∈ m.groups, i ≤ g.1 ∧ g.1 ≤ g.2 ∧ g.2 ≤ m.stop := by
  simp only [matchAt, Option.map_eq_some_iff] at h
  obtain ⟨o, ho, rfl⟩ := h
  exact ⟨rfl, outcomes_spec t r hi (List.mem_of_mem_head? ho)⟩

/-- There is no match exactly when there is no outcome. -/
theorem matchAt_eq_none {t : List σ} {r : Re σ} {i : Nat} :
    matchAt t r i = none ↔ outcomes t r i = [] := by
  simp [matchAt]

/-! ### Searching and scanning -/

/-- A search finds the first match that starts in its stretch. -/
theorem searchFrom_some {t : List σ} {r : Re σ} :
    ∀ {n i : Nat} {m : Match}, i + n ≤ t.length + 1 → searchFrom t r n i = some m →
      i ≤ m.start ∧ m.start ≤ t.length ∧ matchAt t r m.start = some m ∧
        ∀ j, i ≤ j → j < m.start → matchAt t r j = none := by
  intro n
  induction n with
  | zero => intro i m _ h; simp [searchFrom] at h
  | succ n ih =>
    intro i m hn h
    rw [searchFrom] at h
    split at h
    · rename_i m' hm'
      cases h
      have hstart := (matchAt_spec (by omega) hm').1
      refine ⟨by omega, by omega, by rw [hstart]; exact hm', ?_⟩
      intro j h1 h2
      omega
    · rename_i hnone
      obtain ⟨h1, h2, h3, h4⟩ := ih (by omega) h
      refine ⟨by omega, h2, h3, ?_⟩
      intro j hj1 hj2
      -- Position `i` was tried before the search moved on.
      by_cases hji : j = i
      · rw [hji]
        exact hnone
      · exact h4 j (by omega) hj2

/-- A search that fails has tried every start. -/
theorem searchFrom_none {t : List σ} {r : Re σ} :
    ∀ {n i : Nat}, searchFrom t r n i = none →
      ∀ j, i ≤ j → j < i + n → matchAt t r j = none := by
  intro n
  induction n with
  | zero => intro i _ j h1 h2; omega
  | succ n ih =>
    intro i h j h1 h2
    rw [searchFrom] at h
    split at h
    · cases h
    · rename_i hnone
      by_cases hji : j = i
      · rw [hji]
        exact hnone
      · exact ih h j (by omega) (by omega)

/-- A search that succeeds returns the leftmost match. -/
theorem search_some {t : List σ} {r : Re σ} {i : Nat} {m : Match} (hi : i ≤ t.length)
    (h : search t r i = some m) :
    i ≤ m.start ∧ m.start ≤ t.length ∧ matchAt t r m.start = some m ∧
      ∀ j, i ≤ j → j < m.start → matchAt t r j = none :=
  searchFrom_some (by omega) h

/-- A search that fails has tried every position. -/
theorem search_none {t : List σ} {r : Re σ} {i : Nat} (h : search t r i = none) :
    ∀ j, i ≤ j → j ≤ t.length → matchAt t r j = none :=
  fun j h1 h2 => searchFrom_none h j h1 (by omega)

/-- A match with none in front of it is what a search finds. -/
theorem search_eq_some {t : List σ} {r : Re σ} {i : Nat} {m : Match} (hi : i ≤ t.length)
    (hm : matchAt t r i = some m) (hbefore : ∀ j, j < i → matchAt t r j = none) :
    search t r 0 = some m := by
  cases h : search t r 0 with
  | none =>
    rw [search_none h i (Nat.zero_le i) hi] at hm
    cases hm
  | some m' =>
    obtain ⟨-, -, hfound, hgap⟩ := search_some (Nat.zero_le _) h
    rcases lt_trichotomy m'.start i with hlt | heq | hgt
    · rw [hbefore _ hlt] at hfound
      cases hfound
    · rw [← hfound, heq, hm]
    · rw [hgap i (Nat.zero_le i) hgt] at hm
      cases hm

/-- A search fails when the pattern matches nowhere. -/
theorem search_eq_none {t : List σ} {r : Re σ} (h : ∀ j, matchAt t r j = none) :
    search t r 0 = none := by
  cases hs : search t r 0 with
  | none => rfl
  | some m =>
    have hfound := (search_some (Nat.zero_le _) hs).2.2.1
    rw [h] at hfound
    cases hfound

/-- `ms` are the successive leftmost matches of `r` from position `i` on: no match starts
between two of them, before the first or behind the last. -/
inductive Scan (t : List σ) (r : Re σ) : Nat → List Match → Prop
  | done {i : Nat} (gap : ∀ j, i ≤ j → j ≤ t.length → matchAt t r j = none) : Scan t r i []
  | next {i : Nat} {m : Match} {ms : List Match} (le : i ≤ m.start)
      (found : matchAt t r m.start = some m) (start_le : m.start ≤ t.length)
      (gap : ∀ j, i ≤ j → j < m.start → matchAt t r j = none)
      (rest : Scan t r m.stop ms) : Scan t r i (m :: ms)

/-- A pattern that consumes is scanned completely: the fuel of `finditerFrom` suffices. -/
theorem scan_finditerFrom {t : List σ} {r : Re σ} (hr : 0 < r.minLen) :
    ∀ {n i : Nat}, i ≤ t.length → t.length < n + i → Scan t r i (finditerFrom t r n i) := by
  intro n
  induction n with
  | zero => intro i h1 h2; omega
  | succ n ih =>
    intro i hi hn
    rw [finditerFrom]
    split
    · rename_i hnone
      exact .done (search_none hnone)
    · rename_i m hm
      obtain ⟨h1, h2, h3, h4⟩ := search_some hi hm
      obtain ⟨_, h5, h6, _⟩ := matchAt_spec h2 h3
      have hmax : max m.stop (m.start + 1) = m.stop := by omega
      rw [hmax]
      exact .next h1 h3 h2 h4 (ih h6 (by omega))

/-- `finditer` is the scan of the whole text. -/
theorem scan_finditer {t : List σ} {r : Re σ} (hr : 0 < r.minLen) :
    Scan t r 0 (finditer t r) :=
  scan_finditerFrom hr (Nat.zero_le _) (by omega)

/-- Nothing is left to match at the end of the text. -/
theorem Scan.eq_nil {t : List σ} {r : Re σ} (hr : 0 < r.minLen) {ms : List Match}
    (h : Scan t r t.length ms) : ms = [] := by
  cases h with
  | done gap => rfl
  | next le found start_le gap rest =>
    obtain ⟨-, h1, h2, -⟩ := matchAt_spec start_le found
    omega

/-- A match that starts inside no other match is found by the scan. -/
theorem Scan.mem {t : List σ} {r : Re σ} {i : Nat} {ms : List Match} (h : Scan t r i ms)
    {j : Nat} {m : Match} (hij : i ≤ j) (hj : j ≤ t.length) (hm : matchAt t r j = some m)
    (hfree : ∀ k m', k < j → matchAt t r k = some m' → m'.stop ≤ j) : m ∈ ms := by
  induction h with
  | done gap =>
    rw [gap j hij hj] at hm
    cases hm
  | @next i m' ms le found start_le gap rest ih =>
    rcases lt_trichotomy j m'.start with hlt | rfl | hgt
    · rw [gap j hij hlt] at hm
      cases hm
    · rw [found] at hm
      cases hm
      exact List.mem_cons_self
    · exact List.mem_cons_of_mem _ (ih (hfree _ _ hgt found))

/-- A search for one character of a class succeeds when the text holds one. -/
theorem isSome_search_one (t : List σ) (p : σ → Bool) :
    (search t (.one p) 0).isSome = t.any p := by
  -- a one-code pattern matches at a place exactly when its test holds of the code there
  have hmatch : ∀ i, matchAt t (.one p) i = none ↔ (t[i]?).any p = false := by
    intro i
    rw [matchAt_eq_none, outcomes]
    split <;> simp_all
  cases h : search t (.one p) 0 with
  | none =>
    symm
    rw [Option.isSome_none, List.any_eq_false]
    intro c hc
    obtain ⟨i, hi, rfl⟩ := List.getElem_of_mem hc
    have := (hmatch i).mp (search_none h i (Nat.zero_le _) (by omega))
    simpa [List.getElem?_eq_getElem hi] using this
  | some m =>
    obtain ⟨-, -, h3, -⟩ := search_some (Nat.zero_le _) h
    have hany : (t[m.start]?).any p = true := by
      by_contra hnot
      rw [(hmatch m.start).mpr (by simpa using hnot)] at h3
      cases h3
    obtain ⟨c, hc, hpc⟩ := (Option.any_eq_true _ _).mp hany
    symm
    rw [Option.isSome_some, List.any_eq_true]
    exact ⟨c, List.mem_of_getElem? hc, hpc⟩

/-- The match of a greedy run of one class: the longest run, if it is long enough. -/
theorem matchAt_rep_greedy (t : List σ) (lo : Nat) (p : σ → Bool) (i : Nat) :
    matchAt t (.rep true lo none p) i
      = if lo ≤ runLength p t i then some ⟨i, i + runLength p t i, []⟩ else none := by
  split
  · rename_i hle
    obtain ⟨rest, hrest⟩ := counts_greedy_head hle
    simp [matchAt, outcomes, hrest]
  · rename_i hgt
    have hnil : counts true lo (runLength p t i) = [] := by
      rw [List.eq_nil_iff_forall_not_mem]
      intro k hk
      have := mem_counts.mp hk
      omega
    simp [matchAt, outcomes, hnil]

/-- A pattern behind a line start. -/
theorem outcomes_lineStart_seq (t : List σ) (nl : σ → Bool) (b : Re σ) (i : Nat) :
    outcomes t (.seq (.lineStart nl) b) i
      = if i = 0 ∨ (t[i - 1]?).any nl = true then outcomes t b i else [] := by
  rw [outcomes, outcomes]
  split <;> simp

/-- A pattern behind one character. -/
theorem outcomes_one_seq (t : List σ) (p : σ → Bool) (b : Re σ) (i : Nat) :
    outcomes t (.seq (.one p) b) i
      = if (t[i]?).any p = true then outcomes t b (i + 1) else [] := by
  rw [outcomes, outcomes]
  split <;> simp

/-- A pattern behind a lookbehind. -/
theorem outcomes_notBehind_seq (t : List σ) (p : σ → Bool) (b : Re σ) (i : Nat) :
    outcomes t (.seq (.notBehind p) b) i
      = if 0 < i ∧ (t[i - 1]?).any p = true then [] else outcomes t b i := by
  rw [outcomes, outcomes]
  split <;> simp

/-- A pattern behind a choice. -/
theorem outcomes_alt_seq (t : List σ) (a b c : Re σ) (i : Nat) :
    outcomes t (.seq (.alt a b) c) i
      = outcomes t (.seq a c) i ++ outcomes t (.seq b c) i := by
  simp [outcomes]

/-- Sequencing associates. -/
theorem outcomes_seq_assoc (t : List σ) (a b c : Re σ) (i : Nat) :
    outcomes t (.seq (.seq a b) c) i = outcomes t (.seq a (.seq b c)) i := by
  simp [outcomes, List.flatMap_map, List.map_flatMap, List.flatMap_assoc, Function.comp_def]

/-- A greedy run in front of a pattern that never matches at a character of the run's
class: the run is taken as a whole, and it has to fit its bounds. -/
theorem outcomes_run_seq {t : List σ} {p : σ → Bool} {b : Re σ} {lo : Nat} {hi : Option Nat}
    (hb : ∀ j, (t[j]?).any p = true → outcomes t b j = []) (i : Nat) :
    outcomes t (.seq (.rep true lo hi p) b) i
      = if lo ≤ runLength p t i ∧ ∀ h ∈ hi, runLength p t i ≤ h
        then outcomes t b (i + runLength p t i) else [] := by
  have hmap : ∀ j, (outcomes t b j).map (fun ob => (ob.1, [] ++ ob.2)) = outcomes t b j := by
    intro j
    simp
  -- A shorter run leaves a character of its class, where `b` has no outcome.
  have hshort : ∀ k, k < runLength p t i → outcomes t b (i + k) = [] := fun k hk =>
    hb _ (runLength_spec p t i k hk)
  obtain ⟨n, hn, hreach⟩ : ∃ n, outcomes t (.rep true lo hi p) i
      = (counts true lo n).map (fun k => (i + k, [])) ∧
      n ≤ runLength p t i ∧ (n = runLength p t i ↔ ∀ h ∈ hi, runLength p t i ≤ h) := by
    cases hi with
    | none => exact ⟨_, rfl, le_rfl, by simp⟩
    | some h => exact ⟨_, rfl, min_le_left _ _, by simp⟩
  obtain ⟨hle, hfull⟩ := hreach
  have hout : outcomes t (.seq (.rep true lo hi p) b) i
      = (counts true lo n).flatMap fun k => outcomes t b (i + k) := by
    rw [outcomes, hn, List.flatMap_map]
    exact List.flatMap_congr fun k _ => hmap _
  rw [hout]
  split
  · rename_i hbounds
    have hn' := hfull.mpr hbounds.2
    obtain ⟨rest, hrest⟩ := counts_greedy_head (show lo ≤ n by omega)
    have hnil : (rest.flatMap fun k => outcomes t b (i + k)) = [] := by
      have hnodup : (counts true lo n).Nodup := by
        rw [counts, if_pos rfl, List.nodup_reverse]
        exact List.nodup_range.map fun a b h => by simpa using h
      rw [hrest, List.nodup_cons] at hnodup
      rw [List.flatMap_eq_nil_iff]
      intro k hk
      have hmem : k ∈ counts true lo n := by
        rw [hrest]
        exact List.mem_cons_of_mem _ hk
      have hkn := (mem_counts.mp hmem).2
      have hne : k ≠ n := fun heq => hnodup.1 (heq ▸ hk)
      exact hshort k (by omega)
    rw [hrest, List.flatMap_cons, hnil, List.append_nil, hn']
  · rename_i hbounds
    rw [List.flatMap_eq_nil_iff]
    intro k hk
    have hk' := mem_counts.mp hk
    refine hshort k (lt_of_le_of_ne (hk'.2.trans hle) ?_)
    intro heq
    exact hbounds ⟨by omega, hfull.mp (by omega)⟩

end Regex
