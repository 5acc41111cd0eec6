import SignalGateway.Proofs.Chunking

/-!
# `SignalGateway.Proofs.Sentences`: what the sentence pattern keeps of a paragraph

`[^.!?]+[.!?]+|[^.!?]+$` matches at a character exactly when it is not a terminator
(`matchAt_sentenceSplit`). So `findall` skips a leading run of terminators and then tiles
the paragraph, with a cut behind every run of terminators. `Sentences` is the shape of the
tiles, and `exists_sentences` is the decomposition.

`exists_sentences` is what chunking needs: what `findall` skips are terminators, and the rest is
split into `Sentences` without a loss. `SignalGateway.Proofs.Cut` says where such a cut goes
through a word.
-/

set_option autoImplicit false

namespace SignalGateway.Proofs.Chunking

open SignalGateway.Chunking
open Regex Words PyChar

variable {α : Type} [PyChar α]

/-- `.`, `!` or `?`. -/
def isTerminator (c : α) : Bool := isTerminatorCode (code c)

/-- No terminator is whitespace. -/
theorem isSpace_of_isTerminator {c : α} (h : isTerminator c = true) : isSpace c = false := by
  have hcode : code c = 46 ∨ code c = 33 ∨ code c = 63 := by
    simpa [isTerminator, isTerminatorCode, chr, or_assoc] using h
  unfold isSpace
  rcases hcode with h | h | h <;> rw [h] <;> decide

/-! ### The sentence pattern -/

/-- The match of the sentence pattern: a run of other characters and the run of terminators
behind it. The second run is empty only at the end of the text. -/
theorem matchAt_sentenceSplit (t : List Nat) (i : Nat) (hi : i ≤ t.length) :
    let a := runLength (fun n => !isTerminatorCode n) t i
    let b := runLength isTerminatorCode t (i + a)
    matchAt t sentenceSplit i = (if 0 < a then some ⟨i, i + a + b, []⟩ else none) ∧
      (b = 0 → i + a = t.length) := by
  intro a b
  have hmax : (t[i + a]?).any (fun n => !isTerminatorCode n) = false :=
    runLength_maximal _ t i
  have hend : b = 0 → i + a = t.length := by
    intro hb
    have hle : a ≤ t.length - i := runLength_le _ t i
    by_contra hne
    have hlt : i + a < t.length := by omega
    have hterm : isTerminatorCode t[i + a] = true := by
      simpa [List.getElem?_eq_getElem hlt] using hmax
    have hmax' : (t[i + a + b]?).any isTerminatorCode = false := runLength_maximal _ t (i + a)
    rw [hb, Nat.add_zero, List.getElem?_eq_getElem hlt, Option.any_some, hterm] at hmax'
    cases hmax'
  refine ⟨?_, hend⟩
  by_cases ha : 0 < a
  · rw [if_pos ha]
    obtain ⟨resta, hresta⟩ := counts_greedy_head (show 1 ≤ a from ha)
    by_cases hb : 0 < b
    · obtain ⟨restb, hrestb⟩ := counts_greedy_head (show 1 ≤ b from hb)
      have hb' : runLength isTerminatorCode t (i + a) = b := rfl
      have ha' : runLength (fun n => !isTerminatorCode n) t i = a := rfl
      simp [matchAt, sentenceSplit, outcomes, ha', hresta, hb', hrestb, Nat.add_assoc]
    · -- No terminator follows the run, so only the second branch matches.
      have hb0 : b = 0 := by omega
      have hfirst : outcomes t
          (.seq (.rep true 1 none fun n => !isTerminatorCode n)
            (.rep true 1 none isTerminatorCode)) i = [] := by
        rw [List.eq_nil_iff_forall_not_mem]
        intro o ho
        simp only [outcomes, List.mem_flatMap, List.mem_map] at ho
        obtain ⟨oa, ⟨k, hk, rfl⟩, ob, ⟨k', hk', -⟩, -⟩ := ho
        have hk := mem_counts.mp hk
        have hk' : 1 ≤ k' ∧ k' ≤ runLength isTerminatorCode t (i + k) := mem_counts.mp hk'
        have hzero : runLength isTerminatorCode t (i + k) = 0 := by
          by_cases hka : k = a
          · rw [hka]
            exact hb0
          · have hrun := runLength_spec (fun n => !isTerminatorCode n) t i k
              (show k < a by simp only [a]; omega)
            refine runLength_eq_zero ?_
            cases hget : t[i + k]? with
            | none => rfl
            | some c =>
              rw [hget] at hrun
              simpa using hrun
        omega
      have ha' : runLength (fun n => !isTerminatorCode n) t i = a := rfl
      have hat := hend hb0
      rw [hb0, Nat.add_zero, matchAt, sentenceSplit, outcomes, hfirst, List.nil_append]
      simp [outcomes, ha', hresta, hat]
  · have ha0 : a = 0 := by omega
    have hcounts : counts true 1 (runLength (fun n => !isTerminatorCode n) t i) = [] := by
      rw [List.eq_nil_iff_forall_not_mem]
      intro k hk
      have := mem_counts.mp hk
      simp only [a] at ha0
      omega
    simp [ha0, matchAt, sentenceSplit, outcomes, hcounts]

/-- Successive sentences: each is a non-empty run without terminators and a run of
terminators, and only the last may lack the terminators. -/
inductive Sentences : List (List α) → Prop
  | nil : Sentences []
  | last {u v : List α} (hne : u ≠ []) (hu : ∀ c ∈ u, isTerminator c = false)
      (hv : ∀ c ∈ v, isTerminator c = true) : Sentences [u ++ v]
  | cons {u v : List α} {ss : List (List α)} (hne : u ≠ [])
      (hu : ∀ c ∈ u, isTerminator c = false) (hv : ∀ c ∈ v, isTerminator c = true)
      (hvne : v ≠ []) (rest : Sentences ss) : Sentences ((u ++ v) :: ss)

/-- A sentence does not start with a terminator. -/
theorem Sentences.head {ss : List (List α)} (h : Sentences ss) :
    ∀ c ∈ ss.flatten.head?, isTerminator c = false := by
  have hstart : ∀ {u v rest : List α}, u ≠ [] → (∀ c ∈ u, isTerminator c = false) →
      ∀ c ∈ (u ++ v ++ rest).head?, isTerminator c = false := by
    intro u v rest hne hu c hc
    cases u with
    | nil => exact absurd rfl hne
    | cons d u =>
      simp only [List.cons_append, List.head?_cons, Option.mem_some_iff] at hc
      exact hu c (by simp [hc])
  cases h with
  | nil => simp
  | last hne hu hv => simpa using @hstart _ _ [] hne hu
  | cons hne hu hv hvne rest => simpa using hstart hne hu

/-- Where the pattern does not match stands a terminator. -/
theorem isTerminator_of_none {xs : List α} {k : Nat} {c : α}
    (hnone : matchAt (codes xs) sentenceSplit k = none) (hc : xs[k]? = some c) :
    isTerminator c = true := by
  have hk := (List.getElem?_eq_some_iff.mp hc).1
  obtain ⟨hm, -⟩ := matchAt_sentenceSplit (codes xs) k (by simpa using hk.le)
  rw [hm] at hnone
  by_contra hnot
  have hrun : 0 < runLength (fun n => !isTerminatorCode n) (codes xs) k := by
    by_contra hzero
    have hmax := runLength_maximal (fun n => !isTerminatorCode n) (codes xs) k
    have hzero' : runLength (fun n => !isTerminatorCode n) (codes xs) k = 0 := by omega
    rw [hzero', Nat.add_zero, getElem?_codes, hc] at hmax
    exact hnot (by simpa [isTerminator] using hmax)
  rw [if_pos hrun] at hnone
  cases hnone

/-- A match is a run without terminators and the terminators behind it, as far as they go. -/
theorem sentence_of_matchAt {xs : List α} {m : Match} (hstart : m.start ≤ (codes xs).length)
    (found : matchAt (codes xs) sentenceSplit m.start = some m) :
    ∃ u v, m.text xs = u ++ v ∧ u ≠ [] ∧ (∀ c ∈ u, isTerminator c = false) ∧
      (∀ c ∈ v, isTerminator c = true) ∧ (v = [] → m.stop = xs.length) ∧
      ∀ c, xs[m.stop]? = some c → isTerminator c = false := by
  obtain ⟨hm, hend⟩ := matchAt_sentenceSplit (codes xs) m.start hstart
  set a := runLength (fun n => !isTerminatorCode n) (codes xs) m.start with ha
  set b := runLength isTerminatorCode (codes xs) (m.start + a) with hb
  rw [found] at hm
  split at hm
  · next hpos =>
    have hstop : m.stop = m.start + a + b := congrArg Match.stop (Option.some.inj hm)
    obtain ⟨-, -, hle, -⟩ := matchAt_spec hstart found
    rw [length_codes] at hle
    refine ⟨slice xs m.start (m.start + a), slice xs (m.start + a) m.stop,
      (slice_append_slice xs (by omega) (by omega)).symm, ?_, ?_, ?_, ?_, ?_⟩
    · intro hnil
      have hlen := congrArg List.length hnil
      rw [length_slice, List.length_nil] at hlen
      omega
    · have hall : ∀ c ∈ slice xs m.start (m.start + a), (!isTerminator c) = true := by
        refine forall_mem_slice ?_
        intro k c h1 h2 hc
        have hrun := runLength_spec (fun n => !isTerminatorCode n) (codes xs) m.start
          (k - m.start) (by omega)
        rw [Nat.add_sub_cancel' h1, getElem?_codes, hc] at hrun
        simpa [isTerminator] using hrun
      simpa using hall
    · refine forall_mem_slice ?_
      intro k c h1 h2 hc
      have hrun := runLength_spec isTerminatorCode (codes xs) (m.start + a)
        (k - (m.start + a)) (by omega)
      rw [Nat.add_sub_cancel' h1, getElem?_codes, hc] at hrun
      simpa [isTerminator] using hrun
    · intro hnil
      have hlen := congrArg List.length hnil
      rw [length_slice, List.length_nil] at hlen
      have hlast := hend (by omega)
      rw [length_codes] at hlast
      omega
    · -- The match takes all terminators in a row.
      intro c hget
      have hmax := runLength_maximal isTerminatorCode (codes xs) (m.start + a)
      rw [← hb, ← hstop, getElem?_codes, hget] at hmax
      exact hmax
  · cases hm

/-- The scan of the sentence pattern tiles the text behind a run of terminators. -/
theorem sentences_of_scan {xs : List α} {i : Nat} {ms : List Match}
    (h : Scan (codes xs) sentenceSplit i ms) (hi : i ≤ xs.length) :
    ∃ lead, xs.drop i = lead ++ (ms.map fun m => m.text xs).flatten ∧
      (∀ c ∈ lead, isTerminator c = true) ∧ Sentences (ms.map fun m => m.text xs) := by
  induction h with
  | @done i gap =>
    refine ⟨xs.drop i, by simp, ?_, .nil⟩
    intro c hc
    obtain ⟨k, hk⟩ := List.mem_iff_getElem?.mp hc
    rw [List.getElem?_drop] at hk
    have hlt := (List.getElem?_eq_some_iff.mp hk).1
    exact isTerminator_of_none (gap _ (by omega) (by simpa using hlt.le)) hk
  | @next i m ms le found start_le gap rest ih =>
    obtain ⟨u, v, htext, hne, hu, hv, hlast, hnext⟩ := sentence_of_matchAt start_le found
    obtain ⟨-, hstart, hle, -⟩ := matchAt_spec start_le found
    have hstart := (Nat.le_add_right _ _).trans hstart
    rw [length_codes] at hle
    obtain ⟨lead', hdrop', hlead', hss⟩ := ih hle
    -- The match ends where the terminators end, so nothing is skipped behind it.
    have hnil : lead' = [] := by
      cases lead' with
      | nil => rfl
      | cons c lead' =>
        have hget : xs[m.stop]? = some c := by
          rw [← Nat.add_zero m.stop, ← List.getElem?_drop, hdrop']
          rfl
        have hc := hlead' c (by simp)
        rw [hnext c hget] at hc
        cases hc
    subst hnil
    rw [List.nil_append] at hdrop'
    refine ⟨slice xs i m.start, ?_, ?_, ?_⟩
    · rw [List.map_cons, List.flatten_cons, ← hdrop', Match.text,
        slice_append_drop xs hstart, slice_append_drop xs le]
    · refine forall_mem_slice ?_
      intro k c h1 h2 hc
      exact isTerminator_of_none (gap k h1 h2) hc
    · rw [List.map_cons, htext]
      by_cases hvnil : v = []
      · have hms : ms = [] := by
          rw [hlast hvnil, ← length_codes] at rest
          exact rest.eq_nil (by decide)
        subst hms
        exact .last hne hu hv
      · exact .cons hne hu hv hvnil hss

/-- `findall` skips a leading run of terminators and keeps the rest as sentences. -/
theorem exists_sentences (p : List α) :
    ∃ lead, p = lead ++ (reFindall sentenceSplit p).flatten ∧
      (∀ c ∈ lead, isTerminator c = true) ∧ Sentences (reFindall sentenceSplit p) := by
  obtain ⟨lead, h1, h2, h3⟩ := sentences_of_scan
    (scan_finditer (t := codes p) (r := sentenceSplit) (by decide)) (Nat.zero_le _)
  exact ⟨lead, h1, h2, h3⟩

end SignalGateway.Proofs.Chunking
