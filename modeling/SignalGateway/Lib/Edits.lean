import Mathlib

/-!
# `SignalGateway.Lib.Edits`: replacing stretches of a list

An `Edit` replaces the elements between two positions by other ones. `substitute es xs` applies
all edits to `xs` at once: every element is looked up among the edits by its position in `xs`,
so the order of the edits does not matter (`substitute_perm`).

A program splices one edit after the other, and each splice moves what lies behind it. From
the last edit to the first nothing has to be moved: `foldr_splice` says that the result is
`substitute`.

The proof of `foldr_splice` goes by induction over the edits, the last of them first.
`substitute_eq_take_append` is the step lemma: in front of all edits nothing has changed, so the
stretch of the next edit is still where it was. There the substitution is cut in three with
`flatMap_output_cons` for the stretch in the middle.

`foldr_splice_eq_take_append` needs less: for any edits, the text in front of the first one is
still there.
-/

set_option autoImplicit false

namespace Edits

variable {α : Type}

/-- Replace the elements from position `start` up to position `stop` by `text`. -/
structure Edit (α : Type) where
  start : Nat
  stop : Nat
  text : List α

/-- Replace the stretch of one edit. -/
def Edit.splice (e : Edit α) (xs : List α) : List α :=
  xs.take e.start ++ e.text ++ xs.drop e.stop

/-- Whether position `k` is replaced. -/
def Edit.covers (e : Edit α) (k : Nat) : Bool := e.start ≤ k && k < e.stop

/-- What becomes of an element with its position. The first position of an edit gets its
text. -/
def output (es : List (Edit α)) (x : α × Nat) : List α :=
  match es.find? fun e => e.covers x.2 with
  | none => [x.1]
  | some e => if x.2 = e.start then e.text else []

/-- All edits at once. -/
def substitute (es : List (Edit α)) (xs : List α) : List α := xs.zipIdx.flatMap (output es)

/-- The first edit ends where the second begins, or before. -/
def Before (a b : Edit α) : Prop := a.stop ≤ b.start

/-- The edits share no position. -/
def Apart (a b : Edit α) : Prop := Before a b ∨ Before b a

/-- The positions from the start up to the stop. -/
theorem covers_iff {e : Edit α} {k : Nat} : e.covers k = true ↔ e.start ≤ k ∧ k < e.stop := by
  simp [Edit.covers]

/-! ### Stretches that no edit covers -/

/-- A position that no edit covers keeps its element. -/
theorem output_of_free {es : List (Edit α)} {x : α × Nat} (h : ∀ e ∈ es, e.covers x.2 = false) :
    output es x = [x.1] := by
  have hnone : (es.find? fun e => e.covers x.2) = none :=
    List.find?_eq_none.mpr fun e he => by simp [h e he]
  rw [output, hnone]

/-- A stretch that no edit covers stays as it is. -/
theorem flatMap_output_of_free {es : List (Edit α)} {ps : List (α × Nat)}
    (h : ∀ x ∈ ps, ∀ e ∈ es, e.covers x.2 = false) : ps.flatMap (output es) = ps.map Prod.fst := by
  induction ps with
  | nil => rfl
  | cons x ps ih =>
    rw [List.flatMap_cons, output_of_free (h x List.mem_cons_self),
      ih fun y hy => h y (List.mem_cons_of_mem _ hy)]
    rfl

/-- An edit that does not cover a position has no say in it. -/
theorem output_cons_of_not_covers {e : Edit α} {es : List (Edit α)} {x : α × Nat}
    (h : e.covers x.2 = false) : output (e :: es) x = output es x := by
  rw [output, List.find?_cons_of_neg (by simp [h]), output]

/-- The first elements have the first positions. -/
theorem lt_of_mem_take_zipIdx {xs : List α} {n : Nat} {x : α × Nat}
    (h : x ∈ xs.zipIdx.take n) : x.2 < n := by
  obtain ⟨k, hk⟩ := List.mem_iff_getElem?.mp h
  rw [List.getElem?_take, List.getElem?_zipIdx] at hk
  split at hk
  · obtain ⟨c, -, rfl⟩ := Option.map_eq_some_iff.mp hk
    show 0 + k < n
    omega
  · cases hk

/-- The elements behind have the positions behind. -/
theorem le_of_mem_drop_zipIdx {xs : List α} {n : Nat} {x : α × Nat}
    (h : x ∈ xs.zipIdx.drop n) : n ≤ x.2 := by
  obtain ⟨k, hk⟩ := List.mem_iff_getElem?.mp h
  rw [List.getElem?_drop, List.getElem?_zipIdx] at hk
  obtain ⟨c, -, rfl⟩ := Option.map_eq_some_iff.mp hk
  show n ≤ 0 + (n + k)
  omega

/-- Positions do not change the elements. -/
theorem map_fst_take_zipIdx (xs : List α) (n : Nat) :
    (xs.zipIdx.take n).map Prod.fst = xs.take n := by
  rw [List.map_take, List.zipIdx_map_fst]

/-- In front of the edits nothing changes. -/
theorem substitute_eq_take_append {es : List (Edit α)} {n : Nat} (h : ∀ e ∈ es, n ≤ e.start)
    (xs : List α) :
    substitute es xs = xs.take n ++ (xs.zipIdx.drop n).flatMap (output es) := by
  have hfront : (xs.zipIdx.take n).flatMap (output es) = xs.take n := by
    rw [flatMap_output_of_free, map_fst_take_zipIdx]
    intro x hx e he
    have hlt := lt_of_mem_take_zipIdx hx
    have hle := h e he
    simp only [Edit.covers, Bool.and_eq_false_iff, decide_eq_false_iff_not]
    omega
  rw [substitute, ← hfront, ← List.flatMap_append, List.take_append_drop]

/-- Without edits nothing changes. -/
@[simp] theorem substitute_nil (xs : List α) : substitute [] xs = xs := by
  rw [substitute, flatMap_output_of_free fun x _ e he => absurd he List.not_mem_nil,
    List.zipIdx_map_fst]

/-! ### The order of the edits -/

/-- Edits that share no position cover a position at most once. -/
theorem eq_of_covers {es : List (Edit α)} (h : es.Pairwise Apart) {a b : Edit α} (ha : a ∈ es)
    (hb : b ∈ es) {k : Nat} (hka : a.covers k = true) (hkb : b.covers k = true) : a = b := by
  by_contra hne
  have hsymm : Std.Symm (Apart : Edit α → Edit α → Prop) := ⟨fun _ _ h => h.symm⟩
  have hka := covers_iff.mp hka
  have hkb := covers_iff.mp hkb
  rcases h.forall ha hb hne with hab | hba
  · exact absurd (hkb.1.trans_lt hka.2) (not_lt.mpr hab)
  · exact absurd (hka.1.trans_lt hkb.2) (not_lt.mpr hba)

/-- The order in which edits that share no position are given does not matter. -/
theorem substitute_perm {es es' : List (Edit α)} (hperm : es.Perm es') (h : es.Pairwise Apart)
    (xs : List α) : substitute es xs = substitute es' xs := by
  have hfind : ∀ k, (es.find? fun e => e.covers k) = es'.find? fun e => e.covers k := by
    intro k
    -- At most one edit covers a position, so the order of the search does not matter.
    cases hes : es.find? fun e => e.covers k with
    | none =>
      refine (List.find?_eq_none.mpr fun e he => ?_).symm
      exact List.find?_eq_none.mp hes e (hperm.mem_iff.mpr he)
    | some a =>
      cases hes' : es'.find? fun e => e.covers k with
      | none =>
        have ha := List.find?_eq_none.mp hes' a (hperm.mem_iff.mp (List.mem_of_find?_eq_some hes))
        exact absurd (List.find?_some hes) ha
      | some b =>
        have ha : a.covers k = true := List.find?_some (p := fun e : Edit α => e.covers k) hes
        have hb : b.covers k = true := List.find?_some (p := fun e : Edit α => e.covers k) hes'
        rw [eq_of_covers h (List.mem_of_find?_eq_some hes)
          (hperm.mem_iff.mpr (List.mem_of_find?_eq_some hes')) ha hb]
  have houtput : output es = output es' := by
    funext x
    rw [output, output, hfind]
  rw [substitute, substitute, houtput]

/-! ### One edit after the other -/

/-- The stretch of the first edit becomes its text. -/
theorem flatMap_output_cons {e : Edit α} (es : List (Edit α)) {xs : List α}
    (hpos : e.start < e.stop) (hle : e.stop ≤ xs.length) :
    ((xs.zipIdx.take e.stop).drop e.start).flatMap (output (e :: es)) = e.text := by
  have hlt : e.start < (xs.zipIdx.take e.stop).length := by simp; omega
  rw [List.drop_eq_getElem_cons hlt, List.flatMap_cons]
  have hhead : output (e :: es) (xs.zipIdx.take e.stop)[e.start] = e.text := by
    have hcovers : e.covers e.start = true := covers_iff.mpr ⟨le_rfl, hpos⟩
    rw [List.getElem_take, List.getElem_zipIdx, Nat.zero_add, output]
    rw [List.find?_cons_of_pos (by exact hcovers)]
    simp
  -- Behind its first position the edit has nothing to say.
  have htail : ((xs.zipIdx.take e.stop).drop (e.start + 1)).flatMap (output (e :: es)) = [] := by
    rw [List.flatMap_eq_nil_iff]
    intro x hx
    have hstop := lt_of_mem_take_zipIdx (List.mem_of_mem_drop hx)
    rw [List.drop_take] at hx
    have hstart := le_of_mem_drop_zipIdx (List.mem_of_mem_take hx)
    have hcovers : e.covers x.2 = true := covers_iff.mpr ⟨by omega, hstop⟩
    rw [output, List.find?_cons_of_pos (by exact hcovers)]
    exact if_neg (by omega)
  rw [hhead, htail, List.append_nil]

/-- Splicing from the last edit to the first applies all of them at once. -/
theorem foldr_splice {es : List (Edit α)} {xs : List α} (hpos : ∀ e ∈ es, e.start < e.stop)
    (hle : ∀ e ∈ es, e.stop ≤ xs.length) (h : es.Pairwise Before) :
    es.foldr Edit.splice xs = substitute es xs := by
  induction es with
  | nil => exact (substitute_nil xs).symm
  | cons e es ih =>
    obtain ⟨hbefore, hrest⟩ := List.pairwise_cons.mp h
    have hpos_e := hpos e List.mem_cons_self
    have hle_e := hle e List.mem_cons_self
    -- The later edits have left everything up to `e.stop` as it was.
    have hlater := ih (fun b hb => hpos b (List.mem_cons_of_mem _ hb))
      (fun b hb => hle b (List.mem_cons_of_mem _ hb)) hrest
    rw [substitute_eq_take_append (n := e.stop) (fun b hb => hbefore b hb)] at hlater
    have hback : (xs.zipIdx.drop e.stop).flatMap (output (e :: es))
        = (xs.zipIdx.drop e.stop).flatMap (output es) := by
      refine List.flatMap_congr fun x hx => output_cons_of_not_covers ?_
      have hx := le_of_mem_drop_zipIdx hx
      simp only [Edit.covers, Bool.and_eq_false_iff, decide_eq_false_iff_not]
      omega
    have hsplit : xs.zipIdx.drop e.start
        = (xs.zipIdx.take e.stop).drop e.start ++ xs.zipIdx.drop e.stop := by
      conv_lhs => rw [← List.take_append_drop e.stop xs.zipIdx]
      rw [List.drop_append_of_le_length (by simp; omega)]
    have hlen : (xs.take e.stop).length = e.stop := by simpa using hle_e
    rw [List.foldr_cons, hlater, Edit.splice, List.take_append_of_le_length (by omega),
      List.take_take, min_eq_left hpos_e.le, List.drop_left' hlen]
    rw [substitute_eq_take_append (n := e.start), hsplit, List.flatMap_append,
      flatMap_output_cons es hpos_e hle_e, hback, List.append_assoc]
    intro b hb
    rcases List.mem_cons.mp hb with rfl | hb
    · exact le_rfl
    · exact hpos_e.le.trans (hbefore b hb)

/-- A splice leaves what lies in front of all edits. -/
theorem foldr_splice_eq_take_append {es : List (Edit α)} {xs : List α} {n : Nat}
    (hn : n ≤ xs.length) (h : ∀ e ∈ es, n ≤ e.start) :
    ∃ rest, es.foldr Edit.splice xs = xs.take n ++ rest := by
  induction es with
  | nil => exact ⟨xs.drop n, (List.take_append_drop n xs).symm⟩
  | cons e es ih =>
    obtain ⟨rest, hrest⟩ := ih fun b hb => h b (List.mem_cons_of_mem _ hb)
    have hlen : (xs.take n).length = n := by simpa using hn
    have hstart := h e List.mem_cons_self
    refine ⟨rest.take (e.start - n) ++ e.text ++ (xs.take n ++ rest).drop e.stop, ?_⟩
    rw [List.foldr_cons, hrest, Edit.splice, List.take_append, hlen,
      List.take_of_length_le (by omega)]
    simp only [List.append_assoc]

end Edits
