import SignalGateway.Lib.Regex
import SignalGateway.Lib.Edits

/-!
# `SignalGateway.Lib.Deletions`: deleting positions of a list

`kept dead` deletes the positions of a list that are `dead`. A position moves to the number of
live positions in front of it, which `Nat.count` computes. `slice_kept` says that slices move
along: a slice at the new positions is the old slice with its dead positions deleted.

`kept` reads a list of elements with their positions, so that the same `dead` can be used on a
part of the list. `kept_append`, `kept_of_live`, `kept_of_dead` and `kept_congr` compute it
stretch by stretch.

`length_kept_take` and `count_live` are the two ways to count. The first one is the new place of
a position, and the second one is what a program computes that subtracts the number of deleted
positions.
-/

set_option autoImplicit false

namespace Deletions

open Regex

variable {α : Type} {dead : Nat → Bool}

/-- The elements at the positions that are not dead. -/
def kept (dead : Nat → Bool) (ps : List (α × Nat)) : List α :=
  (ps.filter fun x => !dead x.2).map Prod.fst

/-- What is kept of two stretches. -/
@[simp] theorem kept_append (ps qs : List (α × Nat)) :
    kept dead (ps ++ qs) = kept dead ps ++ kept dead qs := by
  rw [kept, List.filter_append, List.map_append, kept, kept]

/-- A stretch without dead positions is kept. -/
theorem kept_of_live {ps : List (α × Nat)} (h : ∀ x ∈ ps, dead x.2 = false) :
    kept dead ps = ps.map Prod.fst := by
  rw [kept, List.filter_eq_self.mpr fun x hx => by simp [h x hx]]

/-- Of a dead stretch nothing is kept. -/
theorem kept_of_dead {ps : List (α × Nat)} (h : ∀ x ∈ ps, dead x.2 = true) :
    kept dead ps = [] := by
  rw [kept, List.filter_eq_nil_iff.mpr fun x hx => by simp [h x hx], List.map_nil]

/-- Only the positions that occur matter. -/
theorem kept_congr {dead' : Nat → Bool} {ps : List (α × Nat)}
    (h : ∀ x ∈ ps, dead x.2 = dead' x.2) : kept dead ps = kept dead' ps := by
  rw [kept, kept, List.filter_congr fun x hx => by rw [h x hx]]

/-- The number of live positions in front of `n` is what is kept of the first `n` elements. -/
theorem length_kept_take (xs : List α) : ∀ {n : Nat}, n ≤ xs.length →
    (kept dead (xs.zipIdx.take n)).length = Nat.count (fun k => dead k = false) n := by
  intro n
  induction n with
  | zero => exact fun _ => rfl
  | succ n ih =>
    intro hn
    have hlt : n < xs.zipIdx.length := by rw [List.length_zipIdx]; exact hn
    rw [← List.take_concat_get' xs.zipIdx n hlt, kept_append, List.length_append, ih (by omega),
      Nat.count_succ, List.getElem_zipIdx, Nat.zero_add]
    cases hdead : dead n <;> simp [kept, hdead]

/-- The live positions are all positions but the dead ones. -/
theorem count_live (dead : Nat → Bool) (n : Nat) :
    Nat.count (fun k => dead k = false) n = n - Nat.count (fun k => dead k = true) n := by
  have hsum : Nat.count (fun k => dead k = false) n + Nat.count (fun k => dead k = true) n = n := by
    induction n with
    | zero => rfl
    | succ n ih =>
      rw [Nat.count_succ, Nat.count_succ]
      cases dead n <;> simp <;> omega
  omega

/-- Slices move along with their positions. -/
theorem slice_kept (xs : List α) {a b : Nat} (hab : a ≤ b) (hb : b ≤ xs.length) :
    slice (kept dead xs.zipIdx) (Nat.count (fun k => dead k = false) a)
        (Nat.count (fun k => dead k = false) b)
      = kept dead (slice xs.zipIdx a b) := by
  have hfront : xs.zipIdx.take b = xs.zipIdx.take a ++ slice xs.zipIdx a b := by
    have hslice := slice_append_slice xs.zipIdx (Nat.zero_le a) hab
    simpa [slice] using hslice.symm
  have hsplit : kept dead xs.zipIdx
      = kept dead (xs.zipIdx.take b) ++ kept dead (xs.zipIdx.drop b) := by
    rw [← kept_append, List.take_append_drop]
  rw [slice, hsplit, List.take_left' (length_kept_take xs hb), hfront, kept_append,
    List.drop_left' (length_kept_take xs (hab.trans hb))]

end Deletions
